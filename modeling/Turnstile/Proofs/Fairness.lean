import Turnstile.Proofs.Outcomes
import Turnstile.Holding

/-!
# First come, first served

Nobody is granted while somebody who queued earlier is pending, and nobody enters past the line.
-/

namespace Turnstile

variable {P : Policy}

namespace Docket

theorem Grants.sorted {d : Docket P} {h : P.State} {es : List (Petition P.Request)}
    (hg : d.Grants h es) (sorted : (es.map (·.ticket)).Pairwise (· < ·)) :
    (d.granted ++ d.pending.map (·.ticket)).Pairwise (· < ·) := by
  rw [hg.granted, hg.pending, ← List.map_append, admissible_append_drop]
  exact sorted

theorem acquire_ok {d : Docket P} {e : Petition P.Request} {zero refused : Bool}
    {steal : Option Reason} (h : (d.acquire e zero refused steal).2 = some (.ok ())) :
    (d.evict steal).pending = [] ∧
      (d.acquire e zero refused steal).1 =
        { d.evict steal with holding := P.enter (d.evict steal).holding e.request } := by
  unfold acquire at h ⊢
  split at h
  · cases h
  · rename_i hp
    rw [if_neg hp]
    unfold join at h ⊢
    split at h
    · rename_i ha
      rw [if_pos ha]
      rw [Bool.and_eq_true, List.isEmpty_iff] at ha
      exact ⟨ha.1, rfl⟩
    · split at h
      · cases h
      · split at h <;> cases h

end Docket

namespace Scene

variable {c : Scene P} {d : Docket P} {L : List Nat} {x : Deed P}

/-- The deed takes future `j` off the line. -/
inductive Removes (c : Scene P) (j : Nat) : Deed P → Prop
  | drop : Removes c j (.drop j)
  | trigger (id : WaiterId) (f : Future P) (hj : c.futures[j]? = some f)
      (hf : f.stage = .waiting id) : Removes c j (.trigger id.slot)

theorem Shows.remains_or (h : c.Shows d L) {base : P.State} {es : List (Petition P.Request)}
    (frees : c.Frees x base es) {j : Nat} {f : Future P} (hj : c.futures[j]? = some f)
    {e : Petition P.Request} (he : e ∈ d.pending) (ht : f.ticket = some e.ticket) :
    e ∈ es ∨ c.Removes j x := by
  rw [← h.petitions] at he
  cases frees with
  | release | dropGuard | unobserved | abandoned => exact .inl he
  | withdrawn k w hw ho =>
    by_cases same : e.ticket = w.ticket
    · obtain ⟨g, -, hk, -, hg, -⟩ := h.future_of_waiter? hw
      obtain rfl := ticket_injective h.tickets hj hk ht (by rw [hg, same])
      exact .inr .drop
    · exact .inl (List.mem_filter.mpr ⟨he, by simpa using same⟩)
  | fired slot e' o hf =>
    by_cases same : e.ticket = e'.ticket
    · obtain ⟨id, waits, rfl⟩ := h.renter_of_fired hj (by rw [ht, same]) hf
      exact .inr (.trigger id f hj waits)
    · exact .inl (List.mem_filter.mpr ⟨he, by simpa using same⟩)

theorem Shows.granted_of_pends (h : c.Shows d L) {k : Nat} {g : Future P}
    (hk : c.futures[k]? = some g) {b : Nat} (hg : g.ticket = some b) (pends : c.pends k = true)
    (granted : (c.after x).outcome? k = some .granted) :
    ∃ base es, c.Frees x base es ∧ ∃ e ∈ P.admissible base es, e.ticket = b := by
  obtain ⟨e, he, rfl⟩ := (h.pends_iff hk hg).mp pends
  rcases h.outcome_after x granted with before | ⟨f, hf, -, why⟩
  · exact absurd rfl (h.unlisted hk hg before e he)
  · rw [hk] at hf
    obtain rfl := Option.some.inj hf
    cases why with
    | granted _ base es before behind e' frees split he' admitted =>
      rw [hg, Option.some.injEq] at he'
      exact ⟨base, es, frees, e', by simp [split], he'.symm⟩

/-- The order of the line is the order of the grants. -/
theorem Shows.granted_after (h : c.Shows d L) {j k : Nat} {f g : Future P}
    (hj : c.futures[j]? = some f) (hk : c.futures[k]? = some g) {a b : Nat} (hf : f.ticket = some a)
    (hg : g.ticket = some b) (hab : a < b) (pends : c.pends k = true)
    (granted : (c.after x).outcome? k = some .granted) :
    (c.after x).pends j = false ∧
      (c.pends j = true → c.Removes j x ∨ (c.after x).outcome? j = some .granted ∧
        ∃ before behind, (c.perform x).granted = before ++ b :: behind ∧ a ∈ before) := by
  obtain ⟨base, es, frees, e, he, rfl⟩ := h.granted_of_pends hk hg pends granted
  obtain ⟨L', rests, next⟩ := h.perform x
  obtain ⟨stage, hj', -⟩ := future_after hj x
  have grants := h.grants frees
  have told : (c.perform x).granted = (d.after c x).granted := rests.granted.symm
  have sub : es.Sublist d.pending := h.petitions ▸ frees.sublist
  have sorted := grants.sorted (h.rests.roll.sorted.sublist (sub.map _))
  have first : e.ticket ∈ (d.after c x).granted := by
    rw [grants.granted]
    exact List.mem_map_of_mem he
  -- Nobody who came before is pending any more.
  have gone : ∀ y ∈ (d.after c x).pending, y.ticket ≠ a := by
    rintro y hy rfl
    have := (List.pairwise_append.mp sorted).2.2 _ first _ (List.mem_map_of_mem hy)
    omega
  refine ⟨?_, fun waited => ?_⟩
  · by_contra still
    obtain ⟨y, hy, hya⟩ := (next.pends_iff hj' hf).mp (by simpa using still)
    exact gone y hy hya
  obtain ⟨y, hy, rfl⟩ := (h.pends_iff hj hf).mp waited
  rcases h.remains_or frees hj hy hf with hmem | removes
  · right
    rw [← Docket.admissible_append_drop base es, ← grants.pending, List.mem_append] at hmem
    have hy' : y ∈ P.admissible base es := hmem.resolve_right fun hin => gone y hin rfl
    refine ⟨?_, ?_⟩
    · rw [next.outcome?_eq hj' hf]
      show ((d.after c x).settled y.ticket).map _ = _
      rw [grants.settled y hy']
      rfl
    · obtain ⟨before, behind, split⟩ := List.append_of_mem first
      refine ⟨before, behind, told.trans split, ?_⟩
      have hin : y.ticket ∈ (d.after c x).granted := by
        rw [grants.granted]
        exact List.mem_map_of_mem hy'
      have ordered := (List.pairwise_append.mp sorted).1
      rw [split] at hin ordered
      rcases List.mem_append.mp hin with hin | hin
      · exact hin
      · rcases List.mem_cons.mp hin with same | later
        · omega
        · have := (List.pairwise_cons.mp (List.pairwise_append.mp ordered).2.1).1 _ later
          omega
  · exact .inl removes

theorem Shows.admitted_alone (h : c.Shows d L) {r : P.Request} {timeout : Timeout}
    {token : Option Nat} {steal : Option Reason}
    (ok : (c.inside.acquire r timeout token steal).2 = .ready (.ok ())) :
    let e := c.perform (.acquire r timeout token steal)
    e.granted = [] ∧ ∀ k, e.scene.pends k = false ∧ (c.pends k = true →
      ∃ reason, steal = some reason ∧ e.scene.outcome? k = some (.interrupted reason)) := by
  intro e
  obtain ⟨-, -, begun⟩ := Section.acquire_rests h.rests r timeout token steal
  obtain ⟨nobody, entered⟩ := Docket.acquire_ok (begun.result?_eq.symm.trans (congrArg _ ok))
  have after : d.after c (.acquire r timeout token steal) = _ := entered
  obtain ⟨L', rests, next⟩ := h.perform (.acquire r timeout token steal)
  refine ⟨rests.granted.symm.trans ?_, fun k => ⟨?_, fun waited => ?_⟩⟩
  · exact (Docket.acquire_granted _ _ _ _).trans h.nobody
  · by_contra still
    obtain ⟨-, y, -, -, hy⟩ := next.mem_of_pends (Bool.of_not_eq_false still)
    have none_left : (d.after c (.acquire r timeout token steal)).pending = [] := by
      rw [after]
      exact nobody
    rw [show (Docket.fresh _).pending = [] from none_left] at hy
    cases hy
  · obtain ⟨f, y, hk, ht, hy⟩ := h.mem_of_pends waited
    rcases steal with _ | reason
    · rw [show d.pending = [] from nobody] at hy
      cases hy
    · obtain ⟨stage, hk', -⟩ := future_after hk (.acquire r timeout token (some reason))
      refine ⟨reason, rfl, ?_⟩
      show (c.after _).outcome? k = _
      rw [next.outcome?_eq hk' ht]
      show ((d.after c _).settled y.ticket).map _ = _
      rw [after]
      show (((d.pending.foldl (Docket.settle (.interrupted reason)) d).settled y.ticket).map _ :
        Option Outcome) = _
      rw [Docket.settled_of_mem _ _ h.nodup hy]
      rfl

theorem Shows.tried_alone (h : c.Shows d L) {r : P.Request}
    (ok : (c.perform (.tryAcquire r)).answer = some (.ok ())) (k : Nat) : c.pends k = false := by
  have stage : (c.inside.acquire r .zero none none).2 = .ready (.ok ()) := by
    have result : (c.inside.acquire r .zero none none).2.result? = some (.ok ()) := ok
    unfold Stage.result? at result
    split at result
    · rename_i hs
      rw [hs, Option.some.inj result]
    · cases result
  by_contra waited
  obtain ⟨reason, hr, -⟩ := ((h.admitted_alone stage).2 k).2 (by simpa using waited)
  cases hr

/-- Grants keep the order in which the acquisitions queued, and nobody enters past the line. -/
theorem first_come_first_served (id : Nat) (holding : P.State) (warm : Nat)
    (retainLimit : Option Nat) (timers : Timers) (tokens : Tokens) (xs : List (Deed P)) :
    let c : Scene P := (start id holding warm retainLimit timers tokens).run xs
    c.futures.filterMap (·.ticket) = List.range c.sync.arrivals ∧
    (∀ (x : Deed P) (j k : Nat) (f g : Future P) (a b : Nat), c.futures[j]? = some f →
      c.futures[k]? = some g → f.ticket = some a → g.ticket = some b → a < b →
      c.pends k = true → (c.after x).outcome? k = some .granted →
        (c.after x).pends j = false ∧
        (c.pends j = true → c.Removes j x ∨ (c.after x).outcome? j = some .granted ∧
          ∃ before behind, (c.perform x).granted = before ++ b :: behind ∧ a ∈ before)) ∧
    (∀ (r : P.Request) (timeout : Timeout) (token : Option Nat) (steal : Option Reason),
      (c.inside.acquire r timeout token steal).2 = .ready (.ok ()) →
        let e := c.perform (.acquire r timeout token steal)
        e.granted = [] ∧ ∀ k, e.scene.pends k = false ∧ (c.pends k = true →
          ∃ reason, steal = some reason ∧ e.scene.outcome? k = some (.interrupted reason))) ∧
    (∀ r : P.Request, (c.perform (.tryAcquire r)).answer = some (.ok ()) →
      ∀ k, c.pends k = false) := by
  obtain ⟨d, L, h⟩ := run_shows (P := P) id holding warm retainLimit timers tokens xs
  refine ⟨?_, ?_, ?_, fun r ok => h.tried_alone ok⟩
  · rw [h.tickets, show d.arrivals = _ from h.rests.arrivals]
    rfl
  · intro x j k f g a b hj hk hf hg hab pends granted
    exact h.granted_after hj hk hf hg hab pends granted
  · intro r timeout token steal ok
    exact h.admitted_alone ok

/-- Two permits come back, and both who wait for one get it, in order. -/
theorem first_come_first_served_pair :
    let c : Scene Policy.standard := (start 0 (Holding.permits 2 2) 0 none {} {}).run
      [.tryAcquire (Request.permits 2), .acquire (Request.permits 1) .forever none none,
        .acquire (Request.permits 1) .forever none none]
    let x : Deed Policy.standard := .release (some (Request.permits 2))
    (c.after x).pends 0 = false ∧ (c.Removes 0 x ∨ (c.after x).outcome? 0 = some .granted ∧
      ∃ before behind, (c.perform x).granted = before ++ 1 :: behind ∧ 0 ∈ before) := by
  have := (first_come_first_served (P := Policy.standard) 0 (Holding.permits 2 2) 0 none {} {}
    [.tryAcquire (Request.permits 2), .acquire (Request.permits 1) .forever none none,
      .acquire (Request.permits 1) .forever none none]).2.1 (.release (some (Request.permits 2)))
    0 1 _ _ 0 1 rfl rfl rfl rfl (by decide) rfl rfl
  exact ⟨this.1, this.2 rfl⟩

end Scene

end Turnstile
