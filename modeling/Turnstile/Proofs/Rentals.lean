import Turnstile.Pool

/-!
# Rentals

The slots that wait for a renter hold what `rent` promises, and each operation changes the waiter
of one slot at most. An id stays current until its own rental ends.
-/

namespace Turnstile.Pool

variable {R : Type}

/-- The rental that `id` names is the present one of its slot. -/
def IsCurrent (p : Pool R) (id : WaiterId) : Prop :=
  ∃ s, p.slots[id.slot]? = some s ∧ s.rented = true ∧ s.generation = id.generation

/-- What waits for a renter is there and nobody's. -/
structure Sound (p : Pool R) : Prop where
  stocked : ∀ i ∈ p.idle, ∃ g, p.slots[i]? = some ⟨g, false, some (Waiter.idle p.blank)⟩
  emptied : ∀ i ∈ p.vacant, ∃ g, p.slots[i]? = some ⟨g, false, none⟩
  nodup : (p.idle ++ p.vacant).Nodup
  occupied : ∀ (i : Nat) (s : Slot R), p.slots[i]? = some s → s.rented = true → s.waiter ≠ none

/-- No rental of `p` has ended in `q`. -/
def Keeps (p q : Pool R) : Prop := ∀ id, p.IsCurrent id → q.IsCurrent id

theorem Keeps.trans {p q r : Pool R} (h : p.Keeps q) (h' : q.Keeps r) : p.Keeps r :=
  fun id hid => h' id (h id hid)

/-! ## Reading -/

theorem rented?_eq_some {p : Pool R} {i : Nat} {w : Waiter R} :
    p.rented? i = some w ↔ ∃ s, p.slots[i]? = some s ∧ s.rented = true ∧ s.waiter = some w := by
  unfold rented?
  rw [Option.bind_eq_some_iff]
  constructor
  · rintro ⟨s, hs, hw⟩
    split at hw
    · exact ⟨s, hs, by assumption, hw⟩
    · cases hw
  · rintro ⟨s, hs, hr, hw⟩
    exact ⟨s, hs, by rw [if_pos hr]; exact hw⟩

theorem get?_eq_some {p : Pool R} {id : WaiterId} {w : Waiter R} :
    p.get? id = some w ↔ p.IsCurrent id ∧ p.rented? id.slot = some w := by
  unfold get? IsCurrent
  rw [Option.bind_eq_some_iff, rented?_eq_some]
  constructor
  · rintro ⟨s, hs, hw⟩
    split at hw
    · simp only [Bool.and_eq_true, decide_eq_true_eq] at *
      obtain ⟨hr, hg⟩ := by assumption
      exact ⟨⟨s, hs, hr, hg⟩, s, hs, hr, hw⟩
    · cases hw
  · rintro ⟨⟨s, hs, hr, hg⟩, s', hs', hr', hw⟩
    obtain rfl : s = s' := by rw [hs] at hs'; exact Option.some.inj hs'
    exact ⟨s, hs, by simp [hr, hg, hw]⟩

theorem IsCurrent.rented?_ne_none {p : Pool R} {id : WaiterId} (hp : p.Sound)
    (h : p.IsCurrent id) : ∃ w, p.rented? id.slot = some w := by
  obtain ⟨s, hs, hr, -⟩ := h
  obtain ⟨w, hw⟩ := Option.ne_none_iff_exists'.mp (hp.occupied _ s hs hr)
  exact ⟨w, rented?_eq_some.mpr ⟨s, hs, hr, hw⟩⟩

/-! ## Updating a waiter -/

theorem rented?_update (p : Pool R) (i j : Nat) (f : Waiter R → Waiter R) :
    (p.update i f).rented? j = if j = i then (p.rented? j).map f else p.rented? j := by
  unfold update rented?
  simp only [Array.getElem?_modify]
  by_cases hij : i = j
  · subst hij
    rcases p.slots[i]? with _ | s
    · simp
    · rcases hr : s.rented <;> simp [hr]
  · rw [if_neg hij, if_neg (Ne.symm hij)]

theorem update_keeps (p : Pool R) (i : Nat) (f : Waiter R → Waiter R) : p.Keeps (p.update i f) := by
  rintro id ⟨s, hs, hr, hg⟩
  unfold update IsCurrent
  simp only [Array.getElem?_modify, hs]
  split
  · exact ⟨_, rfl, by simp [hr], by simp [hr, hg]⟩
  · exact ⟨s, rfl, hr, hg⟩

theorem update_sound {p : Pool R} (hp : p.Sound) (i : Nat) (f : Waiter R → Waiter R) :
    (p.update i f).Sound := by
  have unrented : ∀ (j : Nat) (s : Slot R), p.slots[j]? = some s → s.rented = false →
      (p.update i f).slots[j]? = some s := by
    intro j s hs hr
    unfold update
    simp only [Array.getElem?_modify, hs]
    split <;> simp [hr]
  refine ⟨?_, ?_, hp.nodup, ?_⟩
  · intro j hj
    obtain ⟨g, hg⟩ := hp.stocked j hj
    exact ⟨g, unrented j _ hg rfl⟩
  · intro j hj
    obtain ⟨g, hg⟩ := hp.emptied j hj
    exact ⟨g, unrented j _ hg rfl⟩
  · intro j s hs hr
    unfold update at hs
    simp only [Array.getElem?_modify] at hs
    split at hs
    · obtain ⟨t, ht, rfl⟩ := Option.map_eq_some_iff.mp hs
      have := hp.occupied j t ht
      rcases hr' : t.rented <;> simp_all
    · exact hp.occupied j s hs hr

/-! ## Making and renting waiters -/

/-- Slot `i` holds an idle waiter that is on neither list. -/
structure Ready (p : Pool R) (i : Nat) : Prop where
  sound : p.Sound
  slot : ∃ g, p.slots[i]? = some ⟨g, false, some (Waiter.idle p.blank)⟩
  unlisted : i ∉ p.idle ++ p.vacant

/-- Only slots that nobody rents differ. -/
structure Alike (p q : Pool R) : Prop where
  rented? : ∀ j, q.rented? j = p.rented? j
  keeps : p.Keeps q
  blank : q.blank = p.blank

theorem lt_size_of_mem {p : Pool R} (hp : p.Sound) {i : Nat} (h : i ∈ p.idle ++ p.vacant) :
    i < p.slots.size := by
  rcases List.mem_append.mp h with h | h
  · obtain ⟨g, hg⟩ := hp.stocked i h
    exact (Array.getElem?_eq_some_iff.mp hg).1
  · obtain ⟨g, hg⟩ := hp.emptied i h
    exact (Array.getElem?_eq_some_iff.mp hg).1

theorem build_ready {p : Pool R} (hp : p.Sound) : p.build.1.Ready p.build.2 := by
  have hnd := hp.nodup
  unfold build
  split
  next i rest hv =>
    obtain ⟨g, hg⟩ := hp.emptied i (by simp [hv])
    have hi : i ∉ p.idle ++ rest := by
      rw [hv, List.nodup_append] at hnd
      grind
    refine ⟨⟨?_, ?_, ?_, ?_⟩, ⟨g, by simp [Array.getElem?_modify, hg]⟩, hi⟩
    · intro j hj
      obtain ⟨g', hg'⟩ := hp.stocked j hj
      have hij : i ≠ j := by rintro rfl; simp [hj] at hi
      exact ⟨g', by simp [Array.getElem?_modify, hij, hg']⟩
    · intro j hj
      obtain ⟨g', hg'⟩ := hp.emptied j (by simp [hv, hj])
      have hij : i ≠ j := by rintro rfl; simp [hj] at hi
      exact ⟨g', by simp [Array.getElem?_modify, hij, hg']⟩
    · rw [hv] at hnd
      exact hnd.sublist (List.Sublist.append_left (List.sublist_cons_self i rest) p.idle)
    · intro j s hs hr
      simp only [Array.getElem?_modify] at hs
      split at hs
      · obtain ⟨t, -, rfl⟩ := Option.map_eq_some_iff.mp hs
        simp
      · exact hp.occupied j s hs hr
  next hv =>
    have old : ∀ (j : Nat) (s : Slot R), p.slots[j]? = some s → j ≠ p.slots.size := by
      intro j s hs
      exact Nat.ne_of_lt (Array.getElem?_eq_some_iff.mp hs).1
    refine ⟨⟨?_, ?_, hp.nodup, ?_⟩, ⟨0, by simp⟩, ?_⟩
    · intro j hj
      obtain ⟨g, hg⟩ := hp.stocked j hj
      exact ⟨g, by rw [Array.getElem?_push, if_neg (old j _ hg)]; exact hg⟩
    · intro j hj
      simp [hv] at hj
    · intro j s hs hr
      rw [Array.getElem?_push] at hs
      split at hs
      · simp [← Option.some.inj hs]
      · exact hp.occupied j s hs hr
    · intro h
      exact Nat.lt_irrefl _ (lt_size_of_mem hp h)

theorem build_alike {p : Pool R} (hp : p.Sound) : p.Alike p.build.1 := by
  unfold build
  split
  next i rest hv =>
    obtain ⟨g, hg⟩ := hp.emptied i (by simp [hv])
    refine ⟨?_, ?_, rfl⟩
    · intro j
      unfold rented?
      simp only [Array.getElem?_modify]
      by_cases hij : i = j
      · subst hij; simp [hg]
      · rw [if_neg hij]
    · rintro id ⟨s, hs, hr, hgen⟩
      refine ⟨s, ?_, hr, hgen⟩
      have hij : i ≠ id.slot := by rintro rfl; rw [hg] at hs; simp [← Option.some.inj hs] at hr
      simp [Array.getElem?_modify, hij, hs]
  next =>
    refine ⟨?_, ?_, rfl⟩
    · intro j
      unfold rented?
      simp only [Array.getElem?_push]
      by_cases hj : j = p.slots.size
      · subst hj; simp
      · rw [if_neg hj]
    · rintro id ⟨s, hs, hr, hgen⟩
      refine ⟨s, ?_, hr, hgen⟩
      have hj : id.slot ≠ p.slots.size := Nat.ne_of_lt (Array.getElem?_eq_some_iff.mp hs).1
      rw [Array.getElem?_push, if_neg hj]; exact hs

theorem Ready.stock {p : Pool R} {i : Nat} (h : p.Ready i) :
    ({ p with idle := i :: p.idle } : Pool R).Sound := by
  refine ⟨?_, h.sound.emptied, ?_, h.sound.occupied⟩
  · intro j hj
    rcases List.mem_cons.mp hj with rfl | hj
    · exact h.slot
    · exact h.sound.stocked j hj
  · exact List.nodup_cons.mpr ⟨h.unlisted, h.sound.nodup⟩

theorem stock_sound {p : Pool R} (hp : p.Sound) (count : Nat) : (p.stock count).Sound := by
  induction count generalizing p with
  | zero => exact hp
  | succ count ih => exact ih (build_ready hp).stock

theorem stock_rented? {p : Pool R} (hp : p.Sound) (count j : Nat) :
    (p.stock count).rented? j = p.rented? j := by
  induction count generalizing p with
  | zero => rfl
  | succ count ih => exact (ih (build_ready hp).stock).trans ((build_alike hp).rented? j)

theorem fresh_sound (blank : R) (retainLimit : Option Nat) :
    ({ blank, retainLimit } : Pool R).Sound :=
  ⟨by simp, by simp, by simp, by simp⟩

theorem fresh_rented? (blank : R) (retainLimit : Option Nat) (warm i : Nat) :
    (stock { blank, retainLimit } warm).rented? i = none := by
  rw [stock_rented? (fresh_sound blank retainLimit)]
  simp [rented?]

theorem takeIdle_ready {p : Pool R} (hp : p.Sound) : p.takeIdle.1.Ready p.takeIdle.2 := by
  unfold takeIdle
  split
  next i rest hi =>
    have hnd := hp.nodup
    rw [hi, List.cons_append, List.nodup_cons] at hnd
    exact ⟨⟨fun j hj => hp.stocked j (by simp [hi, hj]), hp.emptied, hnd.2, hp.occupied⟩,
      hp.stocked i (by simp [hi]), hnd.1⟩
  next => exact build_ready hp

theorem takeIdle_alike {p : Pool R} (hp : p.Sound) : p.Alike p.takeIdle.1 := by
  unfold takeIdle
  split
  · exact ⟨fun _ => rfl, fun _ h => h, rfl⟩
  · exact build_alike hp

/-- What `rent` does: one slot that nobody rented gets an idle waiter and a current id. -/
structure Rents (p q : Pool R) (id : WaiterId) : Prop where
  sound : q.Sound
  free : p.rented? id.slot = none
  current : q.IsCurrent id
  keeps : p.Keeps q
  rented? : ∀ j, q.rented? j = if j = id.slot then some (Waiter.idle p.blank) else p.rented? j
  blank : q.blank = p.blank

theorem rent_rents {p : Pool R} (hp : p.Sound) : p.Rents p.rent.1 p.rent.2 := by
  have hr := takeIdle_ready hp
  have ha := takeIdle_alike hp
  unfold rent
  generalize p.takeIdle = t at hr ha
  obtain ⟨q, i⟩ := t
  obtain ⟨g, hg⟩ := hr.slot
  simp only at hr ha hg
  have other : ∀ j ∈ q.idle ++ q.vacant, i ≠ j := by
    rintro j hj rfl; exact hr.unlisted hj
  refine ⟨⟨?_, ?_, hr.sound.nodup, ?_⟩, ?_, ?_, ?_, ?_, ha.blank⟩
  · intro j hj
    obtain ⟨g', hg'⟩ := hr.sound.stocked j hj
    exact ⟨g', by simp [Array.getElem?_modify, other j (List.mem_append_left _ hj), hg']⟩
  · intro j hj
    obtain ⟨g', hg'⟩ := hr.sound.emptied j hj
    exact ⟨g', by simp [Array.getElem?_modify, other j (List.mem_append_right _ hj), hg']⟩
  · intro j s hs hr'
    simp only [Array.getElem?_modify] at hs
    split at hs
    · subst j
      rw [hg] at hs
      simp [← Option.some.inj hs]
    · exact hr.sound.occupied j s hs hr'
  · rw [← ha.rented?]; simp [rented?, hg]
  · exact ⟨⟨g, true, some (Waiter.idle q.blank)⟩, by simp [Array.getElem?_modify, hg], rfl,
      by simp [hg]⟩
  · intro id hid
    obtain ⟨s, hs, hrent, hgen⟩ := ha.keeps id hid
    have hij : i ≠ id.slot := by rintro rfl; rw [hg] at hs; simp [← Option.some.inj hs] at hrent
    exact ⟨s, by simp [Array.getElem?_modify, hij, hs], hrent, hgen⟩
  · intro j
    rw [← ha.rented?, ← ha.blank]
    unfold rented?
    simp only [Array.getElem?_modify]
    by_cases hij : i = j
    · subst hij; simp [hg]
    · simp [hij, Ne.symm hij]

/-! ## Ending rentals -/

/-- What the end of a current rental does: its slot is nobody's, and no other rental ends. -/
structure Ends (p q : Pool R) (id : WaiterId) : Prop where
  sound : q.Sound
  keeps : ∀ id', id'.slot ≠ id.slot → p.IsCurrent id' → q.IsCurrent id'
  rented? : ∀ j, q.rented? j = if j = id.slot then none else p.rented? j
  blank : q.blank = p.blank

theorem unlisted_of_rented {p : Pool R} (hp : p.Sound) {i : Nat} {s : Slot R}
    (hs : p.slots[i]? = some s) (hr : s.rented = true) : i ∉ p.idle ++ p.vacant := by
  intro h
  rcases List.mem_append.mp h with h | h
  · obtain ⟨g, hg⟩ := hp.stocked i h
    rw [hg] at hs
    simp [← Option.some.inj hs] at hr
  · obtain ⟨g, hg⟩ := hp.emptied i h
    rw [hg] at hs
    simp [← Option.some.inj hs] at hr

theorem ends_of_modify {p q : Pool R} (hp : p.Sound) {id : WaiterId} {s : Slot R} {f : Slot R → Slot R}
    (hs : p.slots[id.slot]? = some s) (hr : s.rented = true) (hf : (f s).rented = false)
    (hq : q.slots = p.slots.modify id.slot f) (hb : q.blank = p.blank)
    (hl : q.idle = id.slot :: p.idle ∧ q.vacant = p.vacant ∧ (f s).waiter = some (Waiter.idle p.blank) ∨
      q.idle = p.idle ∧ q.vacant = id.slot :: p.vacant ∧ (f s).waiter = none) :
    p.Ends q id := by
  have hun := unlisted_of_rented hp hs hr
  have here : q.slots[id.slot]? = some (f s) := by
    rw [hq, Array.getElem?_modify, if_pos rfl, hs, Option.map_some]
  have away : ∀ j, id.slot ≠ j → q.slots[j]? = p.slots[j]? := by
    intro j hj
    rw [hq, Array.getElem?_modify, if_neg hj]
  have listed : ∀ j ∈ p.idle ++ p.vacant, q.slots[j]? = p.slots[j]? := by
    intro j hj
    exact away j (by rintro rfl; exact hun hj)
  have slot : q.slots[id.slot]? = some ⟨(f s).generation, false, (f s).waiter⟩ := by
    rw [here, ← hf]
  -- The slot goes to one of the two lists, and the other one stays as it is.
  refine ⟨⟨?_, ?_, ?_, ?_⟩, ?_, ?_, hb⟩
  · have old : ∀ j ∈ p.idle, ∃ g, q.slots[j]? = some ⟨g, false, some (Waiter.idle q.blank)⟩ := by
      intro j hj
      rw [listed j (List.mem_append_left _ hj), hb]
      exact hp.stocked j hj
    rcases hl with ⟨hi, -, hw⟩ | ⟨hi, -, -⟩
    · intro j hj
      rw [hi] at hj
      rcases List.mem_cons.mp hj with rfl | hj
      · exact ⟨_, by rw [slot, hw, hb]⟩
      · exact old j hj
    · rw [hi]; exact old
  · have old : ∀ j ∈ p.vacant, ∃ g, q.slots[j]? = some ⟨g, false, none⟩ := by
      intro j hj
      rw [listed j (List.mem_append_right _ hj)]
      exact hp.emptied j hj
    rcases hl with ⟨-, hv, -⟩ | ⟨-, hv, hw⟩
    · rw [hv]; exact old
    · intro j hj
      rw [hv] at hj
      rcases List.mem_cons.mp hj with rfl | hj
      · exact ⟨_, by rw [slot, hw]⟩
      · exact old j hj
  · rcases hl with ⟨hi, hv, -⟩ | ⟨hi, hv, -⟩
    · rw [hi, hv]; exact List.nodup_cons.mpr ⟨hun, hp.nodup⟩
    · rw [hi, hv, List.perm_middle.nodup_iff]; exact List.nodup_cons.mpr ⟨hun, hp.nodup⟩
  · intro j t ht hrt
    by_cases hj : id.slot = j
    · subst hj
      rw [here] at ht
      rw [← Option.some.inj ht, hf] at hrt
      cases hrt
    · rw [away j hj] at ht; exact hp.occupied j t ht hrt
  · rintro id' hne ⟨t, ht, hrt, hgt⟩
    exact ⟨t, by rw [away _ (Ne.symm hne)]; exact ht, hrt, hgt⟩
  · intro j
    unfold rented?
    by_cases hj : id.slot = j
    · subst hj; simp [here, hf]
    · simp [away j hj, Ne.symm hj]

theorem endRental_ends {p : Pool R} (hp : p.Sound) {id : WaiterId} {w : Waiter R}
    (h : p.get? id = some w) (hc : w.cleared p.blank = Waiter.idle p.blank) :
    p.Ends (p.endRental id) id := by
  obtain ⟨⟨s, hs, hr, hg⟩, hw⟩ := get?_eq_some.mp h
  obtain ⟨s', hs', -, hw⟩ := rented?_eq_some.mp hw
  obtain rfl : s = s' := by rw [hs] at hs'; exact Option.some.inj hs'
  unfold endRental
  simp only [hs, hr, hg, Bool.true_and, decide_true, if_true]
  split
  · refine ends_of_modify hp hs hr
      (f := fun s => ⟨id.generation + 1, false, s.waiter.map (·.cleared p.blank)⟩) rfl rfl rfl ?_
    exact Or.inl ⟨rfl, rfl, by rw [hw, Option.map_some, hc]⟩
  · exact ends_of_modify hp hs hr (f := fun _ => ⟨id.generation + 1, false, none⟩) rfl rfl rfl
      (Or.inr ⟨rfl, rfl, rfl⟩)

theorem endRental_of_stale {p : Pool R} {id : WaiterId} (stale : ¬ p.IsCurrent id) :
    p.endRental id = p := by
  unfold endRental
  split
  · rfl
  · rename_i s hs
    rw [if_neg]
    intro current
    simp only [Bool.and_eq_true, decide_eq_true_eq] at current
    exact stale ⟨s, hs, current⟩

/-! ## Everything but the slots -/

theorem build_eq (p : Pool R) :
    ∃ slots vacant, p.build.1 = { p with slots, vacant, allocated := p.allocated + 1 } := by
  unfold build
  split <;> exact ⟨_, _, rfl⟩

theorem stock_eq (p : Pool R) (count : Nat) :
    ∃ slots idle vacant, idle.length = p.idle.length + count ∧
      p.stock count = { p with slots, idle, vacant, allocated := p.allocated + count } := by
  induction count generalizing p with
  | zero => exact ⟨_, _, _, rfl, rfl⟩
  | succ count ih =>
    obtain ⟨slots, vacant, built⟩ := p.build_eq
    obtain ⟨_, _, _, length, same⟩ := ih { p.build.1 with idle := p.build.2 :: p.build.1.idle }
    rw [built] at length
    refine ⟨_, _, _, ?_, same.trans (by rw [built, Nat.add_right_comm]; rfl)⟩
    rw [length, List.length_cons, Nat.add_right_comm]
    rfl

theorem takeIdle_eq (p : Pool R) :
    ∃ slots idle vacant, idle.length = p.idle.length - 1 ∧ p.takeIdle.1 =
      { p with slots, idle, vacant, allocated := p.allocated + (1 - p.idle.length) } := by
  unfold takeIdle
  split
  next i idle hi => exact ⟨p.slots, idle, p.vacant, by simp [hi], by simp [hi]⟩
  next hi =>
    obtain ⟨slots, vacant, built⟩ := p.build_eq
    exact ⟨slots, [], vacant, by simp [hi], by simp [built, hi]⟩

theorem endRental_eq {p : Pool R} {id : WaiterId} (current : p.IsCurrent id) :
    ∃ slots idle vacant, idle.length = p.idle.length + (if p.keepsReturned then 1 else 0) ∧
      p.endRental id = { p with slots, idle, vacant, rented := p.rented - 1 } := by
  obtain ⟨s, hs, hr, hg⟩ := current
  simp only [endRental, hs, hr, hg, Bool.true_and, decide_true, if_true]
  split <;> exact ⟨_, _, _, rfl, rfl⟩

theorem foldl_evict_eq (is : List Nat) (p : Pool R) :
    ∃ slots vacant, is.foldl evict p = { p with slots, vacant } := by
  induction is generalizing p with
  | nil => exact ⟨_, _, rfl⟩
  | cons i is ih => exact ih (p.evict i)

theorem close_eq (p : Pool R) :
    ∃ slots vacant, p.close = { p with slots, vacant, idle := [], closed := true } := by
  obtain ⟨_, _, same⟩ := foldl_evict_eq p.idle.reverse p
  exact ⟨_, _, by rw [close, same]⟩

/-! ## Closing -/

theorem foldl_evict_slots (is : List Nat) (p : Pool R) (j : Nat) :
    (is.foldl evict p).slots[j]? =
      if j ∈ is then (p.slots[j]?).map fun s => { s with waiter := none } else p.slots[j]? := by
  induction is generalizing p with
  | nil => simp
  | cons i is ih =>
    rw [List.foldl_cons, ih]
    simp only [evict, Array.getElem?_modify, List.mem_cons]
    by_cases hij : i = j
    · subst hij
      rcases p.slots[i]? with _ | s <;> simp
    · simp [hij, Ne.symm hij]

theorem foldl_evict_vacant (is : List Nat) (p : Pool R) :
    (is.foldl evict p).vacant = is.reverse ++ p.vacant ∧ (is.foldl evict p).blank = p.blank := by
  induction is generalizing p with
  | nil => exact ⟨rfl, rfl⟩
  | cons i is ih =>
    rw [List.foldl_cons, (ih _).1, (ih _).2]
    simp [evict]

theorem close_slots (p : Pool R) (j : Nat) :
    p.close.slots[j]? =
      if j ∈ p.idle then (p.slots[j]?).map fun s => { s with waiter := none } else p.slots[j]? := by
  have slots := foldl_evict_slots p.idle.reverse p j
  simp only [List.mem_reverse] at slots
  exact slots

theorem close_sound {p : Pool R} (hp : p.Sound) : p.close.Sound := by
  have vacant := foldl_evict_vacant p.idle.reverse p
  simp only [List.reverse_reverse] at vacant
  refine ⟨by simp [close], ?_, ?_, ?_⟩
  · intro j hj
    rw [close_slots]
    simp only [close, vacant.1] at hj ⊢
    rcases List.mem_append.mp hj with hj | hj
    · obtain ⟨g, hg⟩ := hp.stocked j hj
      exact ⟨g, by simp [hj, hg]⟩
    · obtain ⟨g, hg⟩ := hp.emptied j hj
      refine ⟨g, ?_⟩
      split <;> simp [hg]
  · simp only [close, vacant.1, List.nil_append]
    exact hp.nodup
  · intro j s hs hr
    rw [close_slots] at hs
    split at hs
    · rename_i hj
      obtain ⟨g, hg⟩ := hp.stocked j hj
      rw [hg, Option.map_some] at hs
      simp [← Option.some.inj hs] at hr
    · exact hp.occupied j s hs hr

theorem close_alike {p : Pool R} (hp : p.Sound) : p.Alike p.close := by
  have same : ∀ (j : Nat) (s : Slot R), p.slots[j]? = some s → s.rented = true → j ∉ p.idle := by
    intro j s hs hr hj
    exact unlisted_of_rented hp hs hr (List.mem_append_left _ hj)
  refine ⟨?_, ?_, (foldl_evict_vacant _ p).2⟩
  · intro j
    rw [rented?, rented?, close_slots]
    split
    · rename_i hj
      obtain ⟨g, hg⟩ := hp.stocked j hj
      simp [hg]
    · rfl
  · rintro id ⟨s, hs, hr, hg⟩
    exact ⟨s, by rw [close_slots, if_neg (same _ s hs hr)]; exact hs, hr, hg⟩

end Turnstile.Pool
