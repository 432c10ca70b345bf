import Turnstile.Proofs.Renaming

/-!
# Twin lines

Two lines are twins if the same waiters stand in them in the same order, whichever slots they have
rented. What is done to one of them and to the other leaves them twins. Only a new rental changes
which slot stands for which.
-/

namespace Turnstile

variable {R : Type}

namespace Line

/-- `m` is `l` with slot `f i` for slot `i`. No waiter would wake another one. -/
structure Twin (f : Nat → Nat) (l m : Line R) : Prop where
  sound : l.pool.Sound ∧ m.pool.Sound
  blank : m.pool.blank = l.pool.blank
  places : ∃ L, l.Holds L ∧ m.Holds (L.map f)
  apart : ∀ i j w v, l.bare? i = some w → l.bare? j = some v → f i = f j → i = j
  bare? : ∀ i w, l.bare? i = some w → m.bare? (f i) = some w
  plain : ∀ i w, l.bare? i = some w → w.waker.bind Waker.target? = none

theorem bare?_of_waiter? {l : Line R} {i : Nat} {w : Waiter R} (h : l.waiter? i = some w) :
    l.bare? i = some w.bare := by
  rw [bare?, h, Option.map_some]

theorem waiter?_dequeue {l : Line R} {i : Nat} {w : Waiter R} (h : l.waiter? i = some w) :
    ∃ u, l.dequeue.1.waiter? i = some u := by
  unfold dequeue
  split
  · exact ⟨w, h⟩
  · rename_i j _ _
    have := l.waiter?_update j i unlinked
    rw [h] at this
    split at this <;> exact ⟨_, this⟩

namespace Twin

variable {f : Nat → Nat} {l m l' m' : Line R} {i : Nat} {w : Waiter R} {k : Waiter R → Waiter R}

/-! ## Reading -/

theorem mem_map (h : l.Twin f m) {L : List Nat} (line : l.Holds L) (hw : l.waiter? i = some w) :
    f i ∈ L.map f ↔ i ∈ L := by
  constructor
  · intro hi
    obtain ⟨j, hj, same⟩ := List.mem_map.mp hi
    obtain ⟨v, hv⟩ := Chained.waiter_of_mem line hj
    exact h.apart j i _ _ (bare?_of_waiter? hv) (bare?_of_waiter? hw) same ▸ hj
  · exact List.mem_map_of_mem

theorem waiter (h : l.Twin f m) (hw : l.waiter? i = some w) :
    ∃ v, m.waiter? (f i) = some v ∧ v.bare = w.bare ∧ v.linked = w.linked := by
  obtain ⟨L, line, line'⟩ := h.places
  obtain ⟨v, hv, same⟩ := Option.map_eq_some_iff.mp (h.bare? i _ (bare?_of_waiter? hw))
  refine ⟨v, hv, same, Bool.eq_iff_iff.mpr ?_⟩
  rw [Chained.linked line' (f i) v hv, h.mem_map line hw, Chained.linked line i w hw]

theorem head_eq (h : l.Twin f m) : m.head = l.head.map f := by
  obtain ⟨L, line, line'⟩ := h.places
  rw [Chained.head_eq line, Chained.head_eq line', List.head?_map]

theorem length_eq (h : l.Twin f m) : m.length = l.length := by
  obtain ⟨L, line, line'⟩ := h.places
  rw [Chained.length line, Chained.length line', List.length_map]

theorem isEmpty_eq (h : l.Twin f m) : m.isEmpty = l.isEmpty := by
  unfold Line.isEmpty
  rw [h.head_eq, Option.isNone_map]

theorem waiter_of_head (h : l.Twin f m) (head : l.head = some i) : ∃ w, l.waiter? i = some w := by
  obtain ⟨L, line, -⟩ := h.places
  exact Chained.waiter_of_mem line (List.mem_of_head? (Chained.head_eq line ▸ head))

theorem countP_eq (h : l.Twin f m) {p : Waiter R → Bool} (hp : ∀ w : Waiter R, p w.bare = p w) :
    m.countP p = l.countP p := by
  obtain ⟨L, line, line'⟩ := h.places
  unfold countP
  rw [line.toList_eq, line'.toList_eq, List.countP_map]
  refine List.countP_congr fun i hi => ?_
  obtain ⟨w, hw⟩ := Chained.waiter_of_mem line hi
  obtain ⟨v, hv, same, -⟩ := h.waiter hw
  rw [Function.comp_apply, hv, hw, Option.any_some, Option.any_some, ← hp v, same, hp w]

/-! ## Changes of one waiter -/

theorem turns (h : l.Twin f m) (hw : l.waiter? i = some w) (turns : l.Turns l' i k)
    (turns' : m.Turns m' (f i) k) (places : ∃ L, l'.Holds L ∧ m'.Holds (L.map f))
    (plain : (k w.bare).waker.bind Waker.target? = none) : l'.Twin f m' := by
  have here := bare?_of_waiter? hw
  have bare := turns.bare?_eq here
  have bare' := turns'.bare?_eq (h.bare? i _ here)
  -- Nobody is in a slot who was not there before.
  have before {j : Nat} {v : Waiter R} (hv : l'.bare? j = some v) : ∃ u, l.bare? j = some u := by
    rw [bare] at hv
    split at hv
    · subst j
      exact ⟨_, here⟩
    · exact ⟨v, hv⟩
  refine ⟨⟨turns.sound h.sound.1, turns'.sound h.sound.2⟩,
    turns'.blank.trans (h.blank.trans turns.blank.symm), places, ?_, ?_, ?_⟩
  · intro j j' v v' hv hv'
    obtain ⟨u, hu⟩ := before hv
    obtain ⟨u', hu'⟩ := before hv'
    exact h.apart j j' u u' hu hu'
  · intro j v hv
    rw [bare] at hv
    rw [bare']
    split at hv
    · subst j
      rw [if_pos rfl, hv]
    · rename_i other
      rw [if_neg fun same => other (h.apart j i _ _ hv here same), h.bare? j v hv]
  · intro j v hv
    rw [bare] at hv
    split at hv
    · rw [← Option.some.inj hv]
      exact plain
    · exact h.plain j v hv

theorem update (h : l.Twin f m) (hw : l.waiter? i = some w) {b : Waiter R → Waiter R}
    (own : (k w).bare = b w.bare)
    (own' : ∀ v, m.waiter? (f i) = some v → (k v).bare = b w.bare)
    (next : ∀ w, (k w).next = w.next) (linked : ∀ w, (k w).linked = w.linked)
    (plain : (b w.bare).waker.bind Waker.target? = none) :
    (l.update i k).Twin f (m.update (f i) k) := by
  obtain ⟨L, line, line'⟩ := h.places
  obtain ⟨v, hv, same, -⟩ := h.waiter hw
  refine h.turns (k := b) hw (l.update_turns i fun u hu => ?_) (m.update_turns (f i) fun u hu => ?_)
    ⟨L, line.update i next linked, line'.update (f i) next linked⟩ plain
  · rw [hw] at hu
    rw [← Option.some.inj hu]
    exact own
  · rw [own' u hu]
    rw [hv] at hu
    rw [← Option.some.inj hu, same]

theorem dequeue (h : l.Twin f m) :
    l.dequeue.1.Twin f m.dequeue.1 ∧ m.dequeue.2 = l.dequeue.2.map f := by
  obtain ⟨L, line, line'⟩ := h.places
  cases L with
  | nil =>
    rw [Line.dequeue_nil line, Line.dequeue_nil line']
    exact ⟨h, rfl⟩
  | cons i L =>
    obtain ⟨w, hw⟩ := Chained.waiter_of_mem line List.mem_cons_self
    obtain ⟨holds, turns⟩ := line.dequeue
    obtain ⟨holds', turns'⟩ := Holds.dequeue line'
    refine ⟨h.turns hw turns turns' ⟨L, holds, holds'⟩ (h.plain i w.bare (bare?_of_waiter? hw)),
      ?_⟩
    rw [Line.dequeue_cons line, Line.dequeue_cons line']
    rfl

theorem erase (h : l.Twin f m) (hw : l.waiter? i = some w) (linked : w.linked = true) :
    (l.erase i).1.Twin f (m.erase (f i)).1 := by
  obtain ⟨L, line, line'⟩ := h.places
  have hi := (Chained.linked line i w hw).mp linked
  obtain ⟨holds, turns⟩ := line.erase hi
  obtain ⟨holds', turns'⟩ := line'.erase (List.mem_map_of_mem hi)
  refine h.turns hw turns turns' ⟨L.erase i, holds, ?_⟩
    (h.plain i w.bare (bare?_of_waiter? hw))
  suffices same : (L.erase i).map f = (L.map f).erase (f i) by rwa [same]
  obtain ⟨A, B, rfl⟩ := List.append_of_mem hi
  have hiA : i ∉ A := by
    have := Chained.nodup line
    rw [List.perm_middle.nodup_iff] at this
    exact fun hm => (List.nodup_cons.mp this).1 (List.mem_append_left _ hm)
  have hfA : f i ∉ A.map f := by
    intro hm
    obtain ⟨j, hj, same⟩ := List.mem_map.mp hm
    obtain ⟨v, hv⟩ := Chained.waiter_of_mem line (List.mem_append_left _ hj)
    exact hiA (h.apart j i _ _ (bare?_of_waiter? hv) (bare?_of_waiter? hw) same ▸ hj)
  rw [List.erase_append_right _ hiA, List.erase_cons_head, List.map_append, List.map_append,
    List.map_cons, List.erase_append_right _ hfA, List.erase_cons_head]

theorem enqueue (h : l.Twin f m) (hw : l.waiter? i = some w) (unlinked : w.linked = false) :
    (l.enqueue i).Twin f (m.enqueue (f i)) := by
  obtain ⟨L, line, line'⟩ := h.places
  obtain ⟨v, hv, -, -⟩ := h.waiter hw
  have hi : i ∉ L := fun hi => by
    rw [(Chained.linked line i w hw).mpr hi] at unlinked
    cases unlinked
  have holds' := line'.enqueue hv fun hm => hi ((h.mem_map line hw).mp hm)
  refine h.turns hw (l.enqueue_turns i) (m.enqueue_turns (f i))
    ⟨L ++ [i], line.enqueue hw hi, ?_⟩ (h.plain i _ (bare?_of_waiter? hw))
  rw [List.map_append]
  exact holds'

/-! ## Rentals -/

theorem alike (h : l.Twin f m) {p q : Pool R} (sound : p.Sound ∧ q.Sound) (hp : l.pool.Alike p)
    (hq : m.pool.Alike q) : Twin f { l with pool := p } { m with pool := q } := by
  obtain ⟨L, line, line'⟩ := h.places
  refine ⟨sound, hq.blank.trans (h.blank.trans hp.blank.symm), ⟨L, line.alike hp, line'.alike hq⟩,
    ?_, ?_, ?_⟩ <;> rw [bare?_alike hp]
  · exact h.apart
  · rw [bare?_alike hq]
    exact h.bare?
  · exact h.plain

theorem close (h : l.Twin f m) :
    Twin f { l with pool := l.pool.close } { m with pool := m.pool.close } :=
  h.alike ⟨Pool.close_sound h.sound.1, Pool.close_sound h.sound.2⟩ (Pool.close_alike h.sound.1)
    (Pool.close_alike h.sound.2)

theorem rent (h : l.Twin f m) {p q : Pool R} {id id' : WaiterId} (hp : l.pool.Rents p id)
    (hq : m.pool.Rents q id') :
    Twin (Function.update f id.slot id'.slot) { l with pool := p } { m with pool := q } := by
  obtain ⟨L, line, line'⟩ := h.places
  obtain ⟨out, holds⟩ := line.rent hp
  obtain ⟨-, holds'⟩ := line'.rent hq
  have bare := bare?_rent hp
  have bare' := bare?_rent hq
  have old {j : Nat} (hj : j ≠ id.slot) : Function.update f id.slot id'.slot j = f j :=
    Function.update_of_ne hj _ _
  have new : Function.update f id.slot id'.slot id.slot = id'.slot := Function.update_self ..
  -- The new slot of the twin was nobody's.
  have fresh {j : Nat} {w : Waiter R} (hw : l.bare? j = some w) : f j ≠ id'.slot := by
    intro same
    have := h.bare? j w hw
    rw [same, Line.bare?, show m.waiter? id'.slot = none from hq.free] at this
    cases this
  refine ⟨⟨hp.sound, hq.sound⟩, hq.blank.trans (h.blank.trans hp.blank.symm), ⟨L, holds, ?_⟩,
    ?_, ?_, ?_⟩
  · rw [List.map_congr_left fun j hj => old fun here => out (here ▸ hj)]
    exact holds'
  · intro i j w v hw hv same
    rw [bare] at hw hv
    split at hw <;> split at hv
    · simp_all
    · rename_i here other
      rw [here, new, old other] at same
      exact absurd same.symm (fresh hv)
    · rename_i other here
      rw [here, new, old other] at same
      exact absurd same (fresh hw)
    · rename_i hi hj
      rw [old hi, old hj] at same
      exact h.apart i j w v hw hv same
  · intro j w hw
    rw [bare] at hw
    rw [bare']
    split at hw
    · rename_i here
      rw [here, new, if_pos rfl, h.blank, hw]
    · rename_i other
      rw [old other, if_neg (fresh hw), h.bare? j w hw]
  · intro j w hw
    rw [bare] at hw
    split at hw
    · rw [← Option.some.inj hw]
      rfl
    · exact h.plain j w hw

theorem join (h : l.Twin f m) {p q : Pool R} {id id' : WaiterId} (hp : l.pool.Rents p id)
    (hq : m.pool.Rents q id') (bare : ∀ w : Waiter R, (k w).bare = k w.bare)
    (next : ∀ w, (k w).next = w.next) (linked : ∀ w, (k w).linked = w.linked)
    (waker : ∀ w, (k w).waker = w.waker) :
    Twin (Function.update f id.slot id'.slot)
      ((Line.update { l with pool := p } id.slot k).enqueue id.slot)
      ((Line.update { m with pool := q } id'.slot k).enqueue id'.slot) := by
  have rented := h.rent hp hq
  have new : Function.update f id.slot id'.slot id.slot = id'.slot := Function.update_self ..
  have here : Line.waiter? { l with pool := p } id.slot = some (Waiter.idle l.pool.blank) :=
    (hp.rented? id.slot).trans (if_pos rfl)
  obtain ⟨v, hv, same, -⟩ := rented.waiter here
  have filled := rented.update here (k := k) (b := k) (bare _)
    (fun u hu => by
      rw [hv] at hu
      rw [← Option.some.inj hu, bare, same])
    next linked (by rw [waker]; rfl)
  have there : (Line.update { l with pool := p } id.slot k).waiter? id.slot =
      some (k (Waiter.idle l.pool.blank)) := by
    rw [waiter?_update, if_pos rfl, here, Option.map_some]
  have joined := filled.enqueue there (by rw [linked]; rfl)
  rwa [new] at joined

theorem ends (h : l.Twin f m) {p q : Pool R} {id id' : WaiterId} (slot : id'.slot = f id.slot)
    (hp : l.pool.Ends p id) (hq : m.pool.Ends q id') (hw : l.waiter? id.slot = some w)
    (unlinked : w.linked = false) : Twin f { l with pool := p } { m with pool := q } := by
  obtain ⟨L, line, line'⟩ := h.places
  have out : id.slot ∉ L := fun hi => by
    rw [(Chained.linked line id.slot w hw).mpr hi] at unlinked
    cases unlinked
  have out' : id'.slot ∉ L.map f := by
    rw [slot, h.mem_map line hw]
    exact out
  have bare := bare?_ends hp
  have bare' := bare?_ends hq
  have left {j : Nat} {v : Waiter R} (hv : Line.bare? { l with pool := p } j = some v) :
      j ≠ id.slot ∧ l.bare? j = some v := by
    rw [bare] at hv
    split at hv
    · cases hv
    · exact ⟨‹_›, hv⟩
  refine ⟨⟨hp.sound, hq.sound⟩, hq.blank.trans (h.blank.trans hp.blank.symm),
    ⟨L, line.ends hp out, line'.ends hq out'⟩, ?_, ?_, fun j v hv => h.plain j v (left hv).2⟩
  · exact fun i j u v hu hv => h.apart i j u v (left hu).2 (left hv).2
  · intro j v hv
    obtain ⟨other, hv⟩ := left hv
    rw [bare', slot, if_neg fun same => other (h.apart j _ _ _ hv (bare?_of_waiter? hw) same),
      h.bare? j v hv]

end Twin

end Line

end Turnstile
