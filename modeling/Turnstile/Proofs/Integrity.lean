import Turnstile.Proofs.Lookups
import Turnstile.Proofs.Outcomes
import Turnstile.Proofs.Slots

/-!
# Slots, links and futures agree

Between two critical sections the links run through exactly the waiters that say they are linked,
the rented slots belong to exactly the queued acquisitions that nobody has observed or dropped, and
the two fit together. So no section ever looks for a waiter in vain.
-/

namespace Turnstile

variable {P : Policy}

namespace Scene

variable {c : Scene P} {d : Docket P} {L : List Nat} {k : Nat} {f : Future P}

/-! ## Futures in the course of a run -/

/-- Future `k` answers the deed, or the deed drops it. -/
def spends (c : Scene P) (k : Nat) (x : Deed P) : Bool :=
  match x with
  | .poll l _ => l = k && (c.perform x).answer.isSome
  | .drop l => l = k && c.futures[l]?.isSome
  | _ => false

/-- Future `k` answers one of the deeds or is dropped by one. -/
def spent (c : Scene P) (k : Nat) : List (Deed P) → Bool
  | [] => false
  | x :: xs => c.spends k x || (c.after x).spent k xs

theorem spends_of_length_le (hk : c.futures.length ≤ k) (x : Deed P) : c.spends k x = false := by
  have nobody : c.futures[k]? = none := List.getElem?_eq_none hk
  cases x with
  | poll l w =>
    by_cases hl : l = k
    · subst hl
      simp [spends, perform, nobody, unchanged]
    · simp [spends, hl]
  | drop l =>
    by_cases hl : l = k
    · subst hl
      simp [spends, nobody]
    · simp [spends, hl]
  | _ => rfl

theorem stage_after (hk : c.futures[k]? = some f) (hf : f.stage.isWaiting = true ∨ f.stage = .done)
    (x : Deed P) :
    (c.after x).futures[k]? =
      some { f with stage := if c.spends k x then .done else f.stage } := by
  obtain ⟨stage, hk', same, done⟩ := future_after hk x
  rw [hk']
  rcases hf with hf | hf
  · by_cases own : Own k x
    · rcases own with rfl | ⟨w, rfl⟩
      · obtain ⟨g, hg, hdone⟩ := done_of_drop hk
        rw [hk'] at hg
        have : stage = .done := (congrArg (·.stage) (Option.some.inj hg)).trans hdone
        simp [spends, hk, this]
      · rcases hs : f.stage with r | id | _ <;> rw [hs] at hf
        · cases hf
        · have moved : (c.after (.poll k w)).futures =
              c.futures.set k { f with stage := (c.inside.pollStage f.stage w).2.1 } := by
            simp [after, perform, hk, Effect.scene]
          rw [moved, List.getElem?_set_self (List.getElem?_eq_some_iff.mp hk).1, hs] at hk'
          have : stage = (c.inside.pollStage (.waiting id) w).2.1 :=
            (congrArg (·.stage) (Option.some.inj hk')).symm
          simp only [spends, perform, hk, hs]
          rw [this]
          rcases hp : c.inside.poll id w with ⟨t, _ | r⟩ <;> simp [Section.pollStage, hp]
        · cases hf
    · have apart : c.spends k x = false := by
        cases x with
        | poll l w =>
          have hl : l ≠ k := fun e => own (.inr ⟨w, by rw [e]⟩)
          simp [spends, hl]
        | drop l =>
          have hl : l ≠ k := fun e => own (.inl (by rw [e]))
          simp [spends, hl]
        | _ => rfl
      rw [apart, same (fun e => own (.inl e)) fun w e => own (.inr ⟨w, e⟩)]
      rfl
  · rw [done hf, hf, ite_self]

theorem stage_run (hk : c.futures[k]? = some f) (hf : f.stage.isWaiting = true ∨ f.stage = .done)
    (xs : List (Deed P)) :
    (c.run xs).futures[k]? =
      some { f with stage := if c.spent k xs then .done else f.stage } := by
  induction xs generalizing c f with
  | nil => exact hk
  | cons x xs ih =>
    have next := stage_after hk hf x
    refine (ih next ?_).trans ?_
    · dsimp only
      split
      · exact .inr rfl
      · exact hf
    · simp only [spent, Bool.or_eq_true]
      rcases c.spends k x with _ | _ <;> rcases (c.after x).spent k xs with _ | _ <;> rfl

theorem future_run (hk : c.futures[k]? = some f) (xs : List (Deed P)) :
    ∃ stage, (c.run xs).futures[k]? = some { f with stage } := by
  induction xs generalizing c f with
  | nil => exact ⟨f.stage, hk⟩
  | cons x xs ih =>
    obtain ⟨_, next, -⟩ := future_after hk x
    obtain ⟨stage, last⟩ := ih next
    exact ⟨stage, last⟩

theorem future_before {x : Deed P} {g : Future P} (hg : (c.after x).futures[k]? = some g) :
    (∃ f stage, c.futures[k]? = some f ∧ g = { f with stage }) ∨
      k = c.futures.length ∧
        g.ticket = if g.stage.isWaiting then some c.sync.arrivals else none := by
  rcases hk : c.futures[k]? with _ | f
  · right
    have le := List.getElem?_eq_none_iff.mp hk
    have lt := (List.getElem?_eq_some_iff.mp hg).1
    have kept : (c.after x).futures.length = c.futures.length → k = c.futures.length ∧
        g.ticket = if g.stage.isWaiting then some c.sync.arrivals else none := by
      intro same
      omega
    cases x with
    | acquire request timeout token steal =>
      have lt : k < (c.futures ++ [_]).length := lt
      rw [List.length_append, List.length_singleton] at lt
      obtain rfl : k = c.futures.length := by omega
      have hg : (c.futures ++ [_])[c.futures.length]? = some g := hg
      rw [List.getElem?_concat_length] at hg
      rw [← Option.some.inj hg]
      exact ⟨rfl, rfl⟩
    | poll l w =>
      refine kept ?_
      rcases hl : c.futures[l]? with _ | g <;> simp [after, perform, hl, Effect.scene, unchanged]
    | drop l =>
      refine kept ?_
      rcases hl : c.futures[l]? with _ | g <;> simp [after, perform, hl, Effect.scene, unchanged]
    | _ => exact kept rfl
  · obtain ⟨stage, hk', -⟩ := future_after hk x
    rw [hk'] at hg
    exact .inl ⟨f, stage, rfl, (Option.some.inj hg).symm⟩

theorem spent_run (hk : c.futures.length ≤ k) (xs : List (Deed P))
    (hf : (c.run xs).futures[k]? = some f) (ht : f.ticket ≠ none) :
    if c.spent k xs then f.stage = .done else f.stage.isWaiting = true := by
  induction xs generalizing c with
  | nil =>
    have := (List.getElem?_eq_some_iff.mp hf).1
    exact absurd hk (Nat.not_le.mpr this)
  | cons x xs ih =>
    rw [spent, spends_of_length_le hk, Bool.false_or]
    rcases hg : (c.after x).futures[k]? with _ | g
    · exact ih (List.getElem?_eq_none_iff.mp hg) hf
    · rcases future_before hg with ⟨g', -, hg', -⟩ | ⟨-, ticket⟩
      · rw [List.getElem?_eq_none hk] at hg'
        cases hg'
      · obtain ⟨stage, last⟩ := future_run hg xs
        have same : f = { g with stage } := Option.some.inj (hf.symm.trans last)
        have waits : g.stage.isWaiting = true := by
          by_contra hs
          rw [if_neg hs] at ticket
          exact ht (by rw [same, ticket])
        have last := hf.symm.trans (stage_run hg (.inl waits) xs)
        rw [Option.some.inj last]
        dsimp only
        split
        · rfl
        · exact waits

/-! ## Who is in line -/

/-- What future `k` asks for, while it is in line. -/
def petition? (c : Scene P) (k : Nat) : Option (Petition P.Request) :=
  (c.waiter? k).bind Waiter.petition?

theorem Shows.mem_pending_iff (h : c.Shows d L) {e : Petition P.Request} :
    e ∈ d.pending ↔ ∃ k, c.petition? k = some e := by
  constructor
  · intro he
    obtain ⟨k, f, hk, ht⟩ := h.future_of_mem he
    exact ⟨k, (h.pending_ticket hk ht).mp he⟩
  · rintro ⟨k, hk⟩
    obtain ⟨w, hw, he⟩ := Option.bind_eq_some_iff.mp hk
    obtain ⟨f, -, hf, -, ht, -⟩ := h.future_of_waiter? hw
    rw [← Waiter.ticket_of_petition? he] at ht
    exact (h.pending_ticket hf ht).mpr hk

theorem Shows.future_of_petition? (h : c.Shows d L) {e : Petition P.Request}
    (he : c.petition? k = some e) : ∃ f, c.futures[k]? = some f ∧ f.ticket = some e.ticket := by
  obtain ⟨w, hw, hp⟩ := Option.bind_eq_some_iff.mp he
  obtain ⟨f, -, hk, -, ht, -⟩ := h.future_of_waiter? hw
  exact ⟨f, hk, by rw [ht, Waiter.ticket_of_petition? hp]⟩

theorem tickets_lt {n : Nat} (h : c.futures.filterMap (·.ticket) = List.range n) {l : Nat}
    {f g : Future P} {t u : Nat} (hk : c.futures[k]? = some f) (hl : c.futures[l]? = some g)
    (hf : f.ticket = some t) (hg : g.ticket = some u) (lt : k < l) : t < u := by
  have sorted : (c.futures.filterMap (·.ticket)).Pairwise (· < ·) := h ▸ List.pairwise_lt_range
  rw [List.pairwise_filterMap, List.pairwise_iff_getElem] at sorted
  obtain ⟨ltk, rfl⟩ := List.getElem?_eq_some_iff.mp hk
  obtain ⟨ltl, rfl⟩ := List.getElem?_eq_some_iff.mp hl
  exact sorted k l ltk ltl lt t hf u hg

theorem Shows.pending_eq (h : c.Shows d L) :
    d.pending = (List.range c.futures.length).filterMap c.petition? := by
  let before (e e' : Petition P.Request) := e.ticket < e'.ticket
  have sorted : d.pending.Pairwise before := List.pairwise_map.mp h.rests.roll.sorted
  have sorted' : ((List.range c.futures.length).filterMap c.petition?).Pairwise before := by
    rw [List.pairwise_filterMap]
    refine List.pairwise_lt_range.imp fun {k l} lt e he e' he' => ?_
    obtain ⟨f, hk, ht⟩ := h.future_of_petition? he
    obtain ⟨g, hl, hu⟩ := h.future_of_petition? he'
    exact tickets_lt h.tickets hk hl ht hu lt
  have apart : ∀ {es : List (Petition P.Request)}, es.Pairwise before → es.Nodup :=
    fun sorted => sorted.imp fun lt same => by
      rw [same] at lt
      exact Nat.lt_irrefl _ lt
  refine List.Perm.eq_of_pairwise (fun e e' _ _ lt lt' => ?_) sorted sorted'
    ((List.perm_ext_iff_of_nodup (apart sorted) (apart sorted')).mpr fun e => ?_)
  · exact absurd lt (Nat.lt_asymm lt')
  · rw [h.mem_pending_iff, List.mem_filterMap]
    refine ⟨fun ⟨k, hk⟩ => ⟨k, ?_, hk⟩, fun ⟨k, _, hk⟩ => ⟨k, hk⟩⟩
    obtain ⟨f, hf, -⟩ := h.future_of_petition? hk
    exact List.mem_range.mpr (List.getElem?_eq_some_iff.mp hf).1

/-- The futures in line, in the order in which they were made. -/
def waitingFutures (c : Scene P) : List Nat := (List.range c.futures.length).filter c.pends

theorem Shows.length_waitingFutures (h : c.Shows d L) :
    c.waitingFutures.length = d.pending.length := by
  rw [h.pending_eq, List.length_filterMap_eq_countP, waitingFutures, ← List.countP_eq_length_filter]
  refine List.countP_congr fun k _ => ?_
  rw [Option.isSome_iff_exists]
  exact pends_eq_true

theorem Shows.waitingCount_eq (h : c.Shows d L) :
    c.sync.waitingCount = c.waitingFutures.length := by
  rw [h.length_waitingFutures, ← h.petitions, Sync.petitions, List.length_filterMap_eq_countP]
  refine List.countP_congr fun i _ => ?_
  rcases c.sync.line.waiter? i with _ | w
  · rfl
  · rw [Option.any_some, Option.bind_some, Option.isSome_iff_exists]
    exact Waiter.isPending_iff

/-! ## What always fits together -/

/-- What slots, links and futures have to do with each other whenever nobody works on the
synchronizer. `gone` tells the futures that have answered or were dropped. -/
structure Intact (c : Scene P) (gone : Nat → Bool) : Prop where
  /-- The links lead from the head through the slots of the line, all rented, and end there. -/
  chain : Segment (fun i => (c.sync.line.waiter? i).map (·.next)) c.sync.line.head
    c.sync.line.toList none
  distinct : c.sync.line.toList.Nodup
  length : c.sync.line.toList.length = c.sync.line.length
  tail : c.sync.line.toList.getLast? = c.sync.line.tail
  /-- Rented or not, a waiter says of itself whether it stands in line. -/
  linked : ∀ (i : Nat) (s : Slot P.Request) w, c.sync.line.pool.slots[i]? = some s →
    s.waiter = some w → (w.linked = true ↔ i ∈ c.sync.line.toList)
  lingers : ∀ (i : Nat) (s : Slot P.Request) w, c.sync.line.pool.slots[i]? = some s →
    s.waiter = some w → (w.lingers = true ↔ w.linked = true ∧ w.isPending = false)
  pending : ∀ i w, c.sync.line.waiter? i = some w → w.isPending = true → i ∈ c.sync.line.toList
  front : ∀ i, c.sync.line.head = some i →
    ∃ w, c.sync.line.waiter? i = some w ∧ w.isPending = true
  /-- Whoever had to queue waits until it has answered or was dropped. -/
  queued : ∀ (k : Nat) (f : Future P), c.futures[k]? = some f → f.ticket ≠ none →
    if gone k then f.stage = .done else f.stage.isWaiting = true
  /-- Whoever waits has queued, and its rental is the present one of its slot. -/
  renter : ∀ (k : Nat) (f : Future P) (id : WaiterId), c.futures[k]? = some f →
    f.stage = .waiting id → f.ticket ≠ none ∧ c.sync.line.pool.IsCurrent id
  /-- Each rental belongs to one of them. -/
  rented : ∀ (i : Nat) (s : Slot P.Request), c.sync.line.pool.slots[i]? = some s → s.rented = true →
    ∃! k : Nat, ∃ f, c.futures[k]? = some f ∧ f.stage = .waiting ⟨i, s.generation⟩
  waiting : c.sync.waitingCount = c.waitingFutures.length

theorem Shows.rented (h : c.Shows d L) {i : Nat} {s : Slot P.Request}
    (hs : c.sync.line.pool.slots[i]? = some s) (hr : s.rented = true) :
    ∃! k : Nat, ∃ f, c.futures[k]? = some f ∧ f.stage = .waiting ⟨i, s.generation⟩ := by
  obtain ⟨w, hw⟩ := Option.ne_none_iff_exists'.mp (h.rests.sound.occupied i s hs hr)
  have hw : c.sync.line.waiter? i = some w := Pool.rented?_eq_some.mpr ⟨s, hs, hr, hw⟩
  obtain ⟨k, f, ⟨slot, generation⟩, hk, hf, rfl⟩ :=
    h.owned i w.bare (Section.bare?_of_waiter? (s := c.inside) hw)
  obtain ⟨⟨s', hs', -, rfl⟩, t, ht, key⟩ := h.placed k f _ hk hf
  obtain rfl : s' = s := Option.some.inj (hs'.symm.trans hs)
  refine ⟨k, ⟨f, hk, hf⟩, ?_⟩
  rintro l ⟨g, hl, hg⟩
  obtain ⟨-, t', ht', key'⟩ := h.placed l g _ hl hg
  -- Two futures of one slot would have the ticket of its waiter both.
  rw [key, Option.some.injEq, Prod.mk.injEq] at key'
  exact ticket_injective h.tickets hl hk ht' (by rw [ht, key'.1])

theorem Shows.linked_iff (h : c.Shows d L) (listed : c.sync.line.pool.Listed) {i : Nat}
    {s : Slot P.Request} {w : Waiter P.Request} (hs : c.sync.line.pool.slots[i]? = some s)
    (hw : s.waiter = some w) :
    (w.linked = true ↔ i ∈ L) ∧ (w.lingers = true ↔ w.linked = true ∧ w.isPending = false) := by
  have chained := h.rests.line
  rcases h.rests.sound.rented_or_idle listed hs hw with hw | ⟨rfl, vacant⟩
  · have regular := h.rests.roll.regular i w.bare (Section.bare?_of_waiter? (s := c.inside) hw)
    have linked := Chained.linked chained i w hw
    refine ⟨linked, ?_⟩
    rw [linked]
    refine regular.lingers.trans (and_congr_right fun _ => ?_)
    rcases ho : w.outcome with _ | o <;> simp [Waiter.isPending, Waiter.bare, ho]
  · have hi : i ∉ L := by
      intro hi
      obtain ⟨u, hu⟩ := Chained.waiter_of_mem chained hi
      cases vacant.symm.trans hu
    exact ⟨by simp [Waiter.idle, hi], by simp [Waiter.idle]⟩

theorem Shows.intact (h : c.Shows d L) (listed : c.sync.line.pool.Listed) {gone : Nat → Bool}
    (queued : ∀ (k : Nat) (f : Future P), c.futures[k]? = some f → f.ticket ≠ none →
      if gone k then f.stage = .done else f.stage.isWaiting = true) : c.Intact gone := by
  have chained := h.rests.line
  have line : c.sync.line.toList = L := Line.Holds.toList_eq chained
  refine ⟨?_, ?_, ?_, ?_, ?_, ?_, ?_, ?_, queued, ?_, ?_, h.waitingCount_eq⟩ <;> try rw [line]
  · exact Chained.chain chained
  · exact Chained.nodup chained
  · exact (Chained.length chained).symm
  · exact (Chained.tail chained).symm
  · exact fun i s w hs hw => (h.linked_iff listed hs hw).1
  · exact fun i s w hs hw => (h.linked_iff listed hs hw).2
  · intro i w hw hp
    have regular := h.rests.roll.regular i w.bare (Section.bare?_of_waiter? (s := c.inside) hw)
    exact regular.queued (Option.isNone_iff_eq_none.mp hp)
  · intro i hi
    have first : L.head? = some i := (Chained.head_eq chained).symm.trans hi
    obtain ⟨u, hu, ho⟩ := h.rests.fronted i first
    obtain ⟨w, hw, rfl⟩ := Section.waiter?_of_bare? hu
    exact ⟨w, hw, Option.isNone_iff_eq_none.mpr ho⟩
  · intro k f id hk hf
    obtain ⟨current, t, ht, -⟩ := h.placed k f id hk hf
    exact ⟨by rw [ht]; simp, current⟩
  · exact fun i s hs hr => h.rented hs hr

/-- No lookup in the critical section of a deed fails. -/
theorem Shows.serve?_eq (h : c.Shows d L) (x : Deed P) :
    (c.call? x).map c.inside.serve? = (c.call? x).map fun y => some (c.inside.serve y) := by
  rcases hy : c.call? x with _ | y
  · rfl
  · refine congrArg some (h.rests.serve?_eq y ?_)
    rintro id waker rfl
    cases x with
    | poll k w =>
      obtain ⟨id', hid, same⟩ := Option.map_eq_some_iff.mp hy
      obtain ⟨f, hk, hf⟩ := Option.bind_eq_some_iff.mp hid
      obtain ⟨w, -, hget, -⟩ := h.waiter?_eq hk (Stage.id?_eq_some.mp hf)
      cases same
      exact ne_of_eq_of_ne hget (by simp)
    | drop k =>
      obtain ⟨f, -, hf⟩ := Option.bind_eq_some_iff.mp hy
      rcases hs : f.stage with (r | _) | id' | _ <;> rw [hs] at hf <;> cases hf
    | _ => cases hy

/-- Whatever callers do to a new synchronizer, between any two of their deeds its slots, its links
and their futures fit together, and the next deed looks for nobody in vain. -/
theorem intact_of_run (id : Nat) (holding : P.State) (warm : Nat) (retainLimit : Option Nat)
    (timers : Timers) (tokens : Tokens) (xs : List (Deed P)) :
    let c₀ : Scene P := start id holding warm retainLimit timers tokens
    let c := c₀.run xs
    c.Intact (c₀.spent · xs) ∧
      ∀ x, (c.call? x).map c.inside.serve? = (c.call? x).map fun y => some (c.inside.serve y) := by
  intro c₀ c
  obtain ⟨d, L, h⟩ := run_shows (P := P) id holding warm retainLimit timers tokens xs
  have listed := listed_of_run id holding warm retainLimit timers tokens xs
  refine ⟨h.intact listed fun k f hk ht => ?_, h.serve?_eq⟩
  exact spent_run (Nat.zero_le k) xs hk ht

end Scene

end Turnstile
