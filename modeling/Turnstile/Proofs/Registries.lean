import Turnstile.Proofs.Arming
import Mathlib.Data.List.Nodup
import Mathlib.Data.List.TakeWhile

/-!
# Timers and subscriptions

What registering, cancelling and firing do to the list of timers and to the listeners of a token.
Keys are never used twice, and a slot of a token has one subscriber at a time.
-/

namespace Turnstile

/-! ## Timers -/

namespace Timers

/-- Keys are known and all different, and whoever fires first comes first. -/
structure Sound (t : Timers) : Prop where
  numbered : ∀ e ∈ t.pending, e.1.number < t.nextNumber
  distinct : (t.pending.map Prod.fst).Nodup
  sorted : t.pending.Pairwise fun a b => a.1.deadline ≤ b.1.deadline

variable {t : Timers} {k : TimerKey} {w : Waker}

theorem insert_perm (k : TimerKey) (w : Waker) (l : List (TimerKey × Waker)) :
    (insert k w l).Perm ((k, w) :: l) := by
  induction l with
  | nil => exact .refl _
  | cons e l ih =>
    unfold insert
    split
    · exact .refl _
    · exact (ih.cons e).trans (.swap (k, w) e l)

theorem not_precedes {a b : TimerKey} (h : ¬a.precedes b = true) : b.deadline ≤ a.deadline := by
  have late : ¬a.deadline < b.deadline := by
    intro hab
    exact h (by simp [TimerKey.precedes, hab])
  rw [Time.lt_def] at late
  rw [Time.le_def]
  omega

theorem precedes_le {a b : TimerKey} (h : a.precedes b = true) : a.deadline ≤ b.deadline := by
  simp only [TimerKey.precedes, Bool.or_eq_true, decide_eq_true_eq, Bool.and_eq_true, Time.lt_def]
    at h
  rw [Time.le_def]
  rcases h with h | ⟨h, -⟩
  · exact Nat.le_of_lt h
  · rw [h]

theorem le_trans {a b c : Time} (h : a ≤ b) (h' : b ≤ c) : a ≤ c :=
  Time.le_def.mpr (Nat.le_trans (Time.le_def.mp h) (Time.le_def.mp h'))

theorem insert_sorted {l : List (TimerKey × Waker)}
    (h : l.Pairwise fun a b => a.1.deadline ≤ b.1.deadline) (k : TimerKey) (w : Waker) :
    (insert k w l).Pairwise fun a b => a.1.deadline ≤ b.1.deadline := by
  induction l with
  | nil => simp [insert]
  | cons e l ih =>
    have rest := List.pairwise_cons.mp h
    unfold insert
    split
    · rename_i first
      apply List.pairwise_cons.mpr
      constructor
      · intro x hx
        rcases List.mem_cons.mp hx with rfl | hx
        · exact precedes_le first
        · exact le_trans (precedes_le first) (rest.1 x hx)
      · exact h
    · rename_i behind
      apply List.pairwise_cons.mpr
      constructor
      · intro x hx
        rcases List.mem_cons.mp ((insert_perm k w l).subset hx) with rfl | hx
        · exact not_precedes behind
        · exact rest.1 x hx
      · exact ih rest.2

theorem mem_register {d : Time} {e : TimerKey × Waker} :
    e ∈ (t.register d w).1.pending ↔ e = (⟨d, t.nextNumber⟩, w) ∨ e ∈ t.pending :=
  (insert_perm _ w t.pending).mem_iff.trans List.mem_cons

theorem Sound.register (h : t.Sound) (d : Time) (w : Waker) : (t.register d w).1.Sound := by
  constructor
  · intro e he
    show e.1.number < t.nextNumber + 1
    rcases mem_register.mp he with rfl | he
    · exact Nat.lt_succ_self _
    · exact Nat.lt_succ_of_lt (h.numbered e he)
  · apply ((insert_perm _ w t.pending).map Prod.fst).nodup_iff.mpr
    apply List.nodup_cons.mpr
    refine ⟨fun known => ?_, h.distinct⟩
    obtain ⟨e, he, same⟩ := List.mem_map.mp known
    have := h.numbered e he
    rw [same] at this
    exact Nat.lt_irrefl _ this
  · exact insert_sorted h.sorted _ w

theorem mem_cancel {e : TimerKey × Waker} :
    e ∈ (t.cancel k).pending ↔ e ∈ t.pending ∧ e.1 ≠ k := by
  simp [cancel]

theorem Sound.sublist (h : t.Sound) {l : List (TimerKey × Waker)} (sub : l.Sublist t.pending) :
    ({ t with pending := l } : Timers).Sound :=
  ⟨fun e he => h.numbered e (sub.subset he), h.distinct.sublist (sub.map _), h.sorted.sublist sub⟩

theorem Sound.cancel (h : t.Sound) (k : TimerKey) : (t.cancel k).Sound :=
  h.sublist List.filter_sublist

theorem takeDue_append (t : Timers) :
    t.pending = t.takeDue.2 ++ t.takeDue.1.pending :=
  (List.takeWhile_append_dropWhile ..).symm

theorem Sound.takeDue (h : t.Sound) : t.takeDue.1.Sound :=
  h.sublist (List.dropWhile_sublist _)

theorem fires_or_stays {e : TimerKey × Waker} (he : e ∈ t.pending) :
    (e.1.deadline ≤ t.now ∧ e ∈ t.takeDue.2) ∨ e ∈ t.takeDue.1.pending := by
  rw [takeDue_append] at he
  rcases List.mem_append.mp he with taken | stays
  · left
    refine ⟨?_, taken⟩
    simpa [isDue] using List.mem_takeWhile_imp taken
  · exact .inr stays

theorem Sound.stays (h : t.Sound) {e : TimerKey × Waker} (he : e ∈ t.takeDue.1.pending) :
    ¬e.1.deadline ≤ t.now := by
  have sorted := h.sorted
  have he : e ∈ t.pending.dropWhile (isDue t.now) := he
  revert sorted he
  generalize t.pending = l
  intro sorted he
  induction l with
  | nil => cases he
  | cons x l ih =>
    have rest := List.pairwise_cons.mp sorted
    rw [List.dropWhile_cons] at he
    split at he
    · exact ih rest.2 he
    · rename_i late
      have late : ¬x.1.deadline ≤ t.now := by simpa [isDue] using late
      rcases List.mem_cons.mp he with rfl | he
      · exact late
      · exact fun due => late (le_trans (rest.1 e he) due)

end Timers

/-! ## Listeners -/

namespace Listeners

/-- The free slots are empty, and only a subscriber has a waker. -/
structure Sound (l : Listeners) : Prop where
  nodup : l.free.Nodup
  vacant : ∀ i ∈ l.free, ∃ g, l.slots[i]? = some ⟨g, none, false⟩
  occupied : ∀ (i : Nat) (s : Listener), l.slots[i]? = some s → s.waker ≠ none → s.occupied = true

variable {l : Listeners} {i : Nat} {g : UInt32} {w : Waker}

/-- What a subscription does: one slot that had no subscriber gets one. -/
structure Inserts (l l' : Listeners) (i : Nat) (g : UInt32) (w : Waker) : Prop where
  sound : l'.Sound
  slots : ∀ j, l'.slots[j]? = if j = i then some ⟨g, some w, true⟩ else l.slots[j]?
  free : ∀ s, l.slots[i]? = some s → s.waker = none ∧ s.occupied = false

theorem Sound.insert (h : l.Sound) (w : Waker) :
    l.Inserts (l.insert w).1 (l.insert w).2.1 (l.insert w).2.2 w := by
  unfold Listeners.insert
  split
  · rename_i i free hf
    obtain ⟨g, hg⟩ := h.vacant i (by rw [hf]; exact List.mem_cons_self)
    have nodup := h.nodup
    rw [hf] at nodup
    have slots (j : Nat) : (l.slots.modify i fun s => { s with waker := some w, occupied := true })[j]? =
        if j = i then some ⟨g, some w, true⟩ else l.slots[j]? := by
      rw [Array.getElem?_modify]
      by_cases hij : i = j
      · subst hij
        simp [hg]
      · rw [if_neg hij, if_neg (Ne.symm hij)]
    refine ⟨⟨(List.nodup_cons.mp nodup).2, fun j hj => ?_, fun j s hs hw => ?_⟩, fun j => ?_,
      fun s hs => ?_⟩
    · have hji : j ≠ i := by
        rintro rfl
        exact (List.nodup_cons.mp nodup).1 hj
      dsimp only
      rw [slots, if_neg hji]
      exact h.vacant j (by rw [hf]; exact List.mem_cons_of_mem i hj)
    · dsimp only at hs
      rw [slots] at hs
      split at hs
      · rw [← Option.some.inj hs]
      · exact h.occupied j s hs hw
    · rw [slots, hg]
      rfl
    · rw [hg] at hs
      rw [← Option.some.inj hs]
      exact ⟨rfl, rfl⟩
  · rename_i hf
    have slots (j : Nat) : (l.slots.push ⟨0, some w, true⟩)[j]? =
        if j = l.slots.size then some ⟨0, some w, true⟩ else l.slots[j]? := Array.getElem?_push
    refine ⟨⟨h.nodup, fun j hj => ?_, fun j s hs hw => ?_⟩, slots, fun s hs => ?_⟩
    · rw [hf] at hj
      cases hj
    · dsimp only at hs
      rw [slots] at hs
      split at hs
      · rw [← Option.some.inj hs]
      · exact h.occupied j s hs hw
    · rw [Array.getElem?_eq_none (Nat.le_refl _)] at hs
      cases hs

/-- A subscription that has not ended. -/
def Holds (l : Listeners) (i : Nat) (g : UInt32) : Prop :=
  ∃ s, l.slots[i]? = some s ∧ s.occupied = true ∧ s.generation = g

theorem Sound.erase (h : l.Sound) (i : Nat) (g : UInt32) :
    (l.erase i g).Sound ∧
      (l.Holds i g → ∀ j : Nat, (l.erase i g).slots[j]? =
        if j = i then some ⟨g + 1, none, false⟩ else l.slots[j]?) ∧
      (¬l.Holds i g → l.erase i g = l) := by
  unfold Listeners.erase
  split
  · rename_i s hs
    split
    · rename_i present
      have present : s.occupied = true ∧ s.generation = g := by simpa using present
      have slots (j : Nat) : (l.slots.modify i fun _ => ⟨g + 1, none, false⟩)[j]? =
          if j = i then some ⟨g + 1, none, false⟩ else l.slots[j]? := by
        rw [Array.getElem?_modify]
        by_cases hij : i = j
        · subst hij
          simp [hs]
        · rw [if_neg hij, if_neg (Ne.symm hij)]
      have unlisted : i ∉ l.free := by
        intro hi
        obtain ⟨g', hg'⟩ := h.vacant i hi
        rw [hs] at hg'
        rw [Option.some.inj hg'] at present
        cases present.1
      refine ⟨⟨List.nodup_cons.mpr ⟨unlisted, h.nodup⟩, fun j hj => ?_, fun j s' hs' hw => ?_⟩,
        fun _ => slots, fun ended => absurd ⟨s, hs, present⟩ ended⟩
      · dsimp only
        rw [slots]
        rcases List.mem_cons.mp hj with rfl | hj
        · exact ⟨g + 1, by rw [if_pos rfl]⟩
        · rw [if_neg fun same : j = i => unlisted (same ▸ hj)]
          exact h.vacant j hj
      · dsimp only at hs'
        rw [slots] at hs'
        split at hs'
        · rw [← Option.some.inj hs'] at hw
          exact absurd rfl hw
        · exact h.occupied j s' hs' hw
    · rename_i ended
      refine ⟨h, ?_, fun _ => rfl⟩
      rintro ⟨s', hs', present⟩
      rw [hs] at hs'
      obtain rfl := Option.some.inj hs'
      simp [present] at ended
  · rename_i hs
    refine ⟨h, ?_, fun _ => rfl⟩
    rintro ⟨s', hs', -⟩
    rw [hs] at hs'
    cases hs'

theorem Sound.takeWakers (h : l.Sound) :
    l.takeWakers.1.Sound ∧
      (∀ j : Nat, l.takeWakers.1.slots[j]? =
        l.slots[j]?.map fun s : Listener => { s with waker := none }) ∧
      ∀ (j : Nat) (s : Listener), l.slots[j]? = some s → ∀ w, s.waker = some w → w ∈ l.takeWakers.2 := by
  have slots (j : Nat) : l.takeWakers.1.slots[j]? =
      l.slots[j]?.map fun s : Listener => { s with waker := none } := Array.getElem?_map
  have vacant (j : Nat) (hj : j ∈ l.free) : ∃ g, l.takeWakers.1.slots[j]? = some ⟨g, none, false⟩ := by
    obtain ⟨g, hg⟩ := h.vacant j hj
    exact ⟨g, by rw [slots, hg, Option.map_some]⟩
  have occupied (j : Nat) (s : Listener) (hs : l.takeWakers.1.slots[j]? = some s)
      (hw : s.waker ≠ none) : s.occupied = true := by
    rw [slots] at hs
    obtain ⟨s', -, rfl⟩ := Option.map_eq_some_iff.mp hs
    exact absurd rfl hw
  refine ⟨⟨h.nodup, vacant, occupied⟩, slots, fun j s hs w hw => ?_⟩
  · apply List.mem_filterMap.mpr
    exact ⟨s, Array.mem_toList_iff.mpr (Array.mem_of_getElem? hs), hw⟩

end Listeners

/-! ## Tokens -/

namespace Tokens

/-- What subscribers have to do with: the flag and the subscriptions. -/
def face? (ts : Tokens) (i : Nat) : Option (Bool × Listeners) :=
  (ts.get? i).map fun t => (t.cancelled, t.listeners)

/-- The slot `n` of token `t`. -/
def listener? (ts : Tokens) (t n : Nat) : Option Listener :=
  (ts.face? t).bind fun f => f.2.slots[n]?

/-- `w` is subscribed under `r`. -/
def Hears (ts : Tokens) (r : Registration) (w : Waker) : Prop :=
  ts.listener? r.token r.slot = some ⟨r.generation, some w, true⟩

/-- The subscription `r` has not ended. -/
def Keeps (ts : Tokens) (r : Registration) : Prop :=
  ∃ s, ts.listener? r.token r.slot = some s ∧ s.occupied = true ∧ s.generation = r.generation

/-- The subscriptions are in order, and a token that has fired keeps no waker. -/
structure Sound (ts : Tokens) : Prop where
  listeners : ∀ t c l, ts.face? t = some (c, l) → l.Sound
  silent : ∀ t n s, ts.isCancelled t = true → ts.listener? t n = some s → s.waker = none

variable {ts ts' : Tokens} {i : Nat} {r : Registration} {w : Waker}

theorem get?_update (ts : Tokens) (i j : Nat) (f : Token → Token) :
    (ts.update i f).get? j = if i = j then (ts.get? j).map f else ts.get? j :=
  Array.getElem?_modify

theorem size_update (ts : Tokens) (i : Nat) (f : Token → Token) :
    (ts.update i f).all.size = ts.all.size := Array.size_modify

theorem get?_create (ts : Tokens) (j : Nat) :
    ts.create.1.get? j = if j = ts.all.size then some { handles := 1 } else ts.get? j :=
  Array.getElem?_push

theorem isCancelled_eq_face (ts : Tokens) (i : Nat) :
    ts.isCancelled i = (ts.face? i).any Prod.fst := by
  unfold isCancelled face?
  rcases ts.get? i with _ | t <;> rfl

theorem face?_update {f : Token → Token} {g : Bool × Listeners → Bool × Listeners}
    (hf : ∀ t, ((f t).cancelled, (f t).listeners) = g (t.cancelled, t.listeners)) (j : Nat) :
    (ts.update i f).face? j = if j = i then (ts.face? j).map g else ts.face? j := by
  unfold face?
  rw [get?_update]
  by_cases hij : i = j
  · subst hij
    rw [if_pos rfl, if_pos rfl]
    rcases ts.get? i with _ | t
    · rfl
    · exact congrArg some (hf t)
  · rw [if_neg hij, if_neg (Ne.symm hij)]

theorem face?_update_same {f : Token → Token}
    (hf : ∀ t, (f t).cancelled = t.cancelled ∧ (f t).listeners = t.listeners) :
    (ts.update i f).face? = ts.face? := by
  funext j
  rw [face?_update (g := id) fun t => by rw [(hf t).1, (hf t).2]; rfl]
  split
  · exact Option.map_id_apply
  · rfl

theorem face?_create (ts : Tokens) (j : Nat) :
    ts.create.1.face? j = if j = ts.all.size then some (false, {}) else ts.face? j := by
  unfold face?
  rw [get?_create]
  split <;> rfl

theorem face?_fire (ts : Tokens) (i j : Nat) :
    (ts.fire i).1.face? j =
      if j = i then (ts.face? j).map fun f => (true, f.2.takeWakers.1) else ts.face? j := by
  unfold fire
  rcases ht : ts.get? i with _ | t
  · dsimp only
    by_cases hij : j = i
    · subst hij
      simp [face?, ht]
    · rw [if_neg hij]
  · dsimp only
    unfold face?
    rw [get?_update]
    by_cases hij : i = j
    · subst hij
      simp [ht]
    · simp [hij, Ne.symm hij]

theorem fire_wakers (ts : Tokens) (i : Nat) :
    (ts.fire i).2 = (ts.face? i).elim [] fun f => f.2.takeWakers.2 := by
  unfold fire face?
  rcases ts.get? i with _ | t <;> rfl

theorem register?_face (h : ts.register? i w = some (ts', r)) :
    ∃ l, ts.face? i = some (false, l) ∧ r = ⟨i, (l.insert w).2.1, (l.insert w).2.2⟩ ∧
      ∀ j, ts'.face? j = if j = i then some (false, (l.insert w).1) else ts.face? j := by
  unfold register? at h
  rcases ht : ts.get? i with _ | t
  · rw [ht] at h
    cases h
  · rw [ht] at h
    dsimp only at h
    split at h
    · cases h
    · rename_i free
      have free : t.cancelled = false := by simpa using free
      obtain ⟨rfl, rfl⟩ := Prod.mk.inj (Option.some.inj h)
      refine ⟨t.listeners, by simp [face?, ht, free], rfl, fun j => ?_⟩
      unfold face?
      rw [get?_update]
      by_cases hij : i = j
      · subst hij
        simp [ht, free]
      · simp [hij, Ne.symm hij]

theorem face?_unregister (ts : Tokens) (r : Registration) (j : Nat) :
    (ts.unregister r).face? j =
      if j = r.token then (ts.face? j).map fun f => (f.1, f.2.erase r.slot r.generation)
      else ts.face? j :=
  face?_update (fun _ => rfl) j

/-- What a new subscription changes. -/
structure Subscribes (ts ts' : Tokens) (r : Registration) (w : Waker) : Prop where
  sound : ts'.Sound
  free : ts.isCancelled r.token = false
  cancelled : ∀ t, ts'.isCancelled t = ts.isCancelled t
  listener : ∀ t n, ts'.listener? t n =
    if t = r.token ∧ n = r.slot then some ⟨r.generation, some w, true⟩ else ts.listener? t n
  vacant : ∀ s, ts.listener? r.token r.slot = some s → s.waker = none ∧ s.occupied = false

theorem Sound.register (h : ts.Sound) (hr : ts.register? i w = some (ts', r)) :
    ts.Subscribes ts' r w ∧ r.token = i := by
  obtain ⟨l, face, rfl, faces⟩ := register?_face hr
  have inserts := (h.listeners i false l face).insert w
  have cancelled (t : Nat) : ts'.isCancelled t = ts.isCancelled t := by
    rw [isCancelled_eq_face, isCancelled_eq_face, faces]
    split
    · subst t
      rw [face]
      rfl
    · rfl
  have listener (t n : Nat) : ts'.listener? t n =
      if t = i ∧ n = (l.insert w).2.1 then some ⟨(l.insert w).2.2, some w, true⟩
      else ts.listener? t n := by
    unfold listener?
    rw [faces]
    by_cases hti : t = i
    · subst hti
      rw [if_pos rfl, face, Option.bind_some, Option.bind_some, inserts.slots]
      simp
    · simp [hti]
  have free : ts.isCancelled i = false := by
    rw [isCancelled_eq_face, face]
    rfl
  refine ⟨⟨⟨fun t c l' hf => ?_, fun t n s hc hs => ?_⟩, free, cancelled, listener, fun s hs => ?_⟩,
    rfl⟩
  · rw [faces] at hf
    split at hf
    · obtain ⟨-, rfl⟩ := Prod.mk.inj (Option.some.inj hf)
      exact inserts.sound
    · exact h.listeners t c l' hf
  · rw [cancelled] at hc
    rw [listener] at hs
    split at hs
    · rename_i here
      rw [here.1, free] at hc
      cases hc
    · exact h.silent t n s hc hs
  · unfold listener? at hs
    rw [face, Option.bind_some] at hs
    exact inserts.free s hs

theorem Sound.unregister (h : ts.Sound) (r : Registration) :
    (ts.unregister r).Sound ∧ (∀ t, (ts.unregister r).isCancelled t = ts.isCancelled t) ∧
      (ts.Keeps r → ∀ t n, (ts.unregister r).listener? t n =
        if t = r.token ∧ n = r.slot then some ⟨r.generation + 1, none, false⟩
        else ts.listener? t n) ∧
      (¬ts.Keeps r → ∀ t n, (ts.unregister r).listener? t n = ts.listener? t n) := by
  have cancelled (t : Nat) : (ts.unregister r).isCancelled t = ts.isCancelled t := by
    rw [isCancelled_eq_face, isCancelled_eq_face, face?_unregister]
    split
    · rcases ts.face? t with _ | f <;> rfl
    · rfl
  have kept (hr : ts.Keeps r) (t n : Nat) : (ts.unregister r).listener? t n =
      if t = r.token ∧ n = r.slot then some ⟨r.generation + 1, none, false⟩
      else ts.listener? t n := by
    unfold Keeps at hr
    unfold listener? at hr ⊢
    rw [face?_unregister]
    by_cases ht : t = r.token
    · subst ht
      rcases hf : ts.face? r.token with _ | ⟨c, l⟩
      · rw [hf] at hr
        obtain ⟨s, hs, -⟩ := hr
        cases hs
      · rw [hf] at hr
        simpa using ((h.listeners _ c l hf).erase r.slot r.generation).2.1 hr n
    · simp [ht]
  -- Its slot, if it is there, has another generation by now.
  have ended (hr : ¬ts.Keeps r) (t n : Nat) :
      (ts.unregister r).listener? t n = ts.listener? t n := by
    unfold Keeps at hr
    unfold listener? at hr ⊢
    rw [face?_unregister]
    by_cases ht : t = r.token
    · subst ht
      rcases hf : ts.face? r.token with _ | ⟨c, l⟩
      · rw [if_pos rfl, Option.map_none]
      · rw [hf] at hr
        have same := ((h.listeners _ c l hf).erase r.slot r.generation).2.2 hr
        simp [same]
    · rw [if_neg ht]
  refine ⟨⟨fun t c l hf => ?_, fun t n s hc hs => ?_⟩, cancelled, kept, ended⟩
  · rw [face?_unregister] at hf
    split at hf
    · obtain ⟨⟨c', l'⟩, hf', pair⟩ := Option.map_eq_some_iff.mp hf
      obtain ⟨rfl, rfl⟩ := Prod.mk.inj pair
      exact ((h.listeners t c' l' hf').erase r.slot r.generation).1
    · exact h.listeners t c l hf
  · rw [cancelled] at hc
    by_cases hr : ts.Keeps r
    · rw [kept hr] at hs
      split at hs
      · rw [← Option.some.inj hs]
      · exact h.silent t n s hc hs
    · rw [ended hr] at hs
      exact h.silent t n s hc hs

theorem Sound.fire (h : ts.Sound) (i : Nat) :
    (ts.fire i).1.Sound ∧
      (∀ t, (ts.fire i).1.isCancelled t = (ts.isCancelled t || (t = i && (ts.face? t).isSome))) ∧
      (∀ t n, (ts.fire i).1.listener? t n =
        if t = i then (ts.listener? t n).map fun s => { s with waker := none }
        else ts.listener? t n) ∧
      ∀ n s, ts.listener? i n = some s → ∀ w, s.waker = some w → w ∈ (ts.fire i).2 := by
  have cancelled (t : Nat) : (ts.fire i).1.isCancelled t =
      (ts.isCancelled t || (t = i && (ts.face? t).isSome)) := by
    rw [isCancelled_eq_face, isCancelled_eq_face, face?_fire]
    by_cases ht : t = i
    · subst ht
      rcases ts.face? t with _ | f <;> simp
    · simp [ht]
  have listener (t n : Nat) : (ts.fire i).1.listener? t n =
      if t = i then (ts.listener? t n).map fun s : Listener => { s with waker := none }
      else ts.listener? t n := by
    unfold listener?
    rw [face?_fire]
    split
    · rcases hf : ts.face? t with _ | ⟨c, l⟩
      · rfl
      · exact (h.listeners t c l hf).takeWakers.2.1 n
    · rfl
  refine ⟨⟨fun t c l hf => ?_, fun t n s hc hs => ?_⟩, cancelled, listener, fun n s hs w hw => ?_⟩
  · rw [face?_fire] at hf
    split at hf
    · obtain ⟨⟨c', l'⟩, hf', pair⟩ := Option.map_eq_some_iff.mp hf
      obtain ⟨rfl, rfl⟩ := Prod.mk.inj pair
      exact (h.listeners t c' l' hf').takeWakers.1
    · exact h.listeners t c l hf
  · rw [listener] at hs
    split at hs
    · obtain ⟨s', -, rfl⟩ := Option.map_eq_some_iff.mp hs
      rfl
    · rename_i ht
      rw [cancelled] at hc
      exact h.silent t n s (by simpa [ht] using hc) hs
  · unfold listener? at hs
    rw [fire_wakers]
    rcases hf : ts.face? i with _ | ⟨c, l⟩
    · rw [hf] at hs
      cases hs
    · rw [hf] at hs
      exact (h.listeners i c l hf).takeWakers.2.2 n s hs w hw

theorem Sound.create (h : ts.Sound) :
    ts.create.1.Sound ∧ ∀ t, ts.create.1.isCancelled t = ts.isCancelled t ∧
      ∀ n, ts.create.1.listener? t n = ts.listener? t n := by
  have none : ts.face? ts.all.size = none := by
    unfold face? get?
    rw [Array.getElem?_eq_none (Nat.le_refl _)]
    rfl
  have same (t : Nat) : ts.create.1.isCancelled t = ts.isCancelled t ∧
      ∀ n, ts.create.1.listener? t n = ts.listener? t n := by
    unfold listener?
    rw [isCancelled_eq_face, isCancelled_eq_face, face?_create]
    split
    · subst t
      rw [none]
      exact ⟨rfl, fun _ => rfl⟩
    · exact ⟨rfl, fun _ => rfl⟩
  refine ⟨⟨fun t c l hf => ?_, fun t n s hc hs => ?_⟩, same⟩
  · rw [face?_create] at hf
    split at hf
    · obtain ⟨-, rfl⟩ := Prod.mk.inj (Option.some.inj hf)
      exact ⟨List.nodup_nil, by simp, by simp⟩
    · exact h.listeners t c l hf
  · rw [(same t).1] at hc
    rw [(same t).2] at hs
    exact h.silent t n s hc hs

end Tokens

end Turnstile
