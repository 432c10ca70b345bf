import Turnstile.Proofs.Outcomes
import Turnstile.Holding

/-!
# Nobody is overlooked

Between two deeds the first in line is refused by the policy. A deed that frees something grants the
longest run from the front of the line that may enter, so whoever can be granted has been.
-/

namespace Turnstile

variable {P : Policy}

/-! ## What every holding keeps -/

/-- Whatever is true of a holding and survives whoever enters and leaves. -/
structure Policy.Keeps (P : Policy) (I : P.State → Prop) : Prop where
  enter : ∀ h r, I h → I (P.enter h r)
  release : ∀ h r, I h → I (P.release h r)

namespace Docket

variable {I : P.State → Prop} {d : Docket P}

theorem keeps_entered (keeps : P.Keeps I) {h : P.State} (hi : I h) (es : List (Petition P.Request)) :
    I (P.entered h es) := by
  induction es generalizing h with
  | nil => exact hi
  | cons e es ih => exact ih (keeps.enter h e.request hi)

theorem keeps_give (keeps : P.Keeps I) {h : P.State} (hi : I h) : I (d.give h).holding := by
  rw [give, (endDisposal_fields _).1]
  exact keeps_entered keeps hi _

theorem keeps_acquire (keeps : P.Keeps I) (hi : I d.holding) (e : Petition P.Request)
    (zero refused : Bool) (steal : Option Reason) :
    I (d.acquire e zero refused steal).1.holding := by
  have evicted : I (d.evict steal).holding := by rwa [(evict_fields d steal).1]
  unfold acquire join
  split
  · exact hi
  · split
    · exact keeps.enter _ _ evicted
    · split
      · exact evicted
      · split <;> exact evicted

theorem keeps_giveIf (keeps : P.Keeps I) (hi : I d.holding) (request : Option P.Request) :
    I (d.giveIf (request.elim Section.returnedStanding Section.returned)).1.holding := by
  rcases hr : (d.giveIf (request.elim Section.returnedStanding Section.returned)).2 with e | _
  · rwa [giveIf_error hr]
  · obtain ⟨hold, hf, eq⟩ := Section.giveIf_ok hr
    rw [eq]
    refine keeps_give keeps ?_
    rcases request with _ | r
    · obtain ⟨r, -, rfl⟩ := Section.returnedStanding_eq hf
      exact keeps.release _ _ hi
    · rw [Section.returned_eq hf]
      exact keeps.release _ _ hi

theorem keeps_withdraw (keeps : P.Keeps I) (hi : I d.holding) (t : Nat) :
    I (d.withdraw t).holding := by
  unfold withdraw
  split
  · rw [(endDisposal_fields _).1]
    exact keeps_entered keeps hi _
  · split
    · exact keeps_give (d := d.forget t) keeps (keeps.release _ _ hi)
    · exact hi

theorem keeps_after (keeps : P.Keeps I) (hi : I d.holding) (c : Scene P) (x : Deed P) :
    I (d.after c x).holding := by
  cases x with
  | tryAcquire r => exact keeps_acquire keeps hi _ _ _ _
  | acquire r timeout token steal => exact keeps_acquire keeps hi _ _ _ _
  | poll k w =>
    simp only [after]
    rcases c.waiter? k with _ | u
    · exact hi
    · dsimp only
      split <;> exact hi
  | drop k =>
    simp only [after]
    split
    · exact hi
    · split
      · rcases c.waiter? k with _ | u
        · exact hi
        · exact keeps_withdraw keeps hi _
      · unfold giveIf
        split
        · exact hi
        · exact keeps_give keeps (keeps.release _ _ hi)
      · exact hi
      · exact hi
  | release r => exact keeps_giveIf keeps hi r
  | dropGuard r => exact keeps_giveIf keeps hi (some r)
  | dispose =>
    simp only [after, dispose]
    split
    · exact hi
    · rw [(endDisposal_fields _).1, (resolveAll_fields _ _).1]
      exact hi
  | pollDispose w => exact hi
  | trigger slot =>
    simp only [after]
    rcases c.inside.fired? slot with _ | ⟨e, o⟩
    · exact hi
    · exact keeps_entered keeps hi _
  | elsewhere timers tokens => exact hi

end Docket

namespace Scene

variable {c : Scene P} {d : Docket P} {L : List Nat} {x : Deed P}

theorem Shows.keeps_run {I : P.State → Prop} (keeps : P.Keeps I) (h : c.Shows d L)
    (hi : I c.sync.holding) (xs : List (Deed P)) : I (c.run xs).sync.holding := by
  induction xs generalizing c d L with
  | nil => exact hi
  | cons x xs ih =>
    obtain ⟨L', -, next⟩ := h.perform x
    refine ih next ?_
    rw [← show (d.after c x).holding = (c.after x).sync.holding from next.holding]
    exact Docket.keeps_after keeps (by rwa [h.holding]) c x

/-! ## What a deed frees -/

theorem Shows.freed (h : c.Shows d L) {base : P.State} {es : List (Petition P.Request)}
    (frees : c.Frees x base es) :
    (c.perform x).granted = (P.admissible base es).map (·.ticket) ∧
      (c.after x).sync.holding = P.entered base (P.admissible base es) ∧
      (c.after x).sync.petitions = es.drop (P.admissible base es).length ∧
      ∀ e ∈ P.admissible base es, ∃ k f, c.futures[k]? = some f ∧ f.ticket = some e.ticket ∧
        c.pends k = true ∧ (c.after x).outcome? k = some .granted := by
  obtain ⟨L', rests, next⟩ := h.perform x
  have grants := h.grants frees
  have sub : es.Sublist d.pending := h.petitions ▸ frees.sublist
  refine ⟨?_, ?_, ?_, fun e he => ?_⟩
  · rw [← grants.granted]
    exact rests.granted.symm
  · rw [← grants.holding]
    exact rests.holding.symm
  · rw [next.petitions, ← grants.pending]
    rfl
  · have listed : e ∈ d.pending := sub.subset ((Docket.admissible_sublist _ _).subset he)
    obtain ⟨k, f, hk, ht⟩ := h.future_of_mem listed
    obtain ⟨stage, hk', -⟩ := future_after hk x
    refine ⟨k, f, hk, ht, (h.pends_iff hk ht).mpr ⟨e, listed, rfl⟩, ?_⟩
    rw [next.outcome?_eq hk' ht]
    show ((d.after c x).settled e.ticket).map _ = _
    rw [grants.settled e he]
    rfl

end Scene

/-! ## Locks, semaphores and reader/writer locks -/

namespace Holding

/-- The holding that a synchronizer of this kind and capacity starts from. -/
def vacant : Holding → Holding
  | exclusive _ => exclusive false
  | permits _ capacity => permits capacity capacity
  | access _ _ => access 0 false

/-- The request is of the holding's kind, and the front lets it through. -/
def Serves (h : Holding) (r : Request) : Prop :=
  h.entry r = none ∧
    match h, r with
    | exclusive _, .entry => True
    | permits _ _, .permits _ => True
    | access _ _, .access _ => True
    | _, _ => False

theorem vacant_keeps (v : Holding) : Policy.standard.Keeps fun h : Holding => h.vacant = v := by
  refine ⟨fun h r hv => ?_, fun h r hv => ?_⟩
  · rw [← hv]
    rcases h with _ | _ | _ <;> rcases r with _ | _ | _ | _ <;> rfl
  · rw [← hv]
    rcases h with _ | _ | _ <;> rcases r with _ | _ | _ | _ <;> rfl

theorem allows_of_isIdle {h start : Holding} (hs : h.vacant = start.vacant) (hi : h.isIdle = true)
    {r : Request} (hr : start.Serves r) : h.allows r = true := by
  obtain ⟨front, kind⟩ := hr
  rcases start with _ | ⟨_, capacity⟩ | _ <;>
    rcases h with held | ⟨available, capacity'⟩ | ⟨readers, writer⟩ <;>
    simp only [vacant, reduceCtorEq, permits.injEq] at hs
  · cases r <;> simp_all [isIdle, allows]
  · rcases r with _ | n | _ <;> simp only at kind
    simp only [isIdle, decide_eq_true_eq] at hi
    simp only [entry] at front
    split at front
    · cases front
    · split at front
      · cases front
      · simp only [allows, decide_eq_true_eq]
        omega
  · rcases r with _ | _ | _ | _ <;> simp_all [isIdle, allows]

end Holding

/-- What a deed asks for. -/
def Deed.asks? : Deed P → Option P.Request
  | .tryAcquire r => some r
  | .acquire r _ _ _ => some r
  | _ => none

namespace Scene

variable {c : Scene P}

theorem mem_futures_after {f : Future P} {x : Deed P} (hf : f ∈ (c.after x).futures) :
    (∃ g ∈ c.futures, g.request = f.request) ∨ x.asks? = some f.request := by
  have replaced : ∀ {k : Nat} {g : Future P} (stage : Stage), c.futures[k]? = some g →
      f ∈ c.futures.set k { g with stage } → ∃ g ∈ c.futures, g.request = f.request := by
    intro k g stage hk hf
    rcases List.mem_or_eq_of_mem_set hf with hf | rfl
    · exact ⟨f, hf, rfl⟩
    · exact ⟨g, List.mem_of_getElem? hk, rfl⟩
  cases x with
  | acquire r timeout token steal =>
    rcases List.mem_append.mp hf with hf | hf
    · exact .inl ⟨f, hf, rfl⟩
    · rw [List.mem_singleton.mp hf]
      exact .inr rfl
  | poll k w =>
    left
    unfold after at hf
    rcases hk : c.futures[k]? with _ | g
    · rw [show c.perform (.poll k w) = c.unchanged by simp [perform, hk]] at hf
      exact ⟨f, hf, rfl⟩
    · refine replaced (c.inside.pollStage g.stage w).2.1 hk ?_
      simpa [perform, hk, Effect.scene] using hf
  | drop k =>
    left
    unfold after at hf
    rcases hk : c.futures[k]? with _ | g
    · rw [show c.perform (.drop k) = c.unchanged by simp [perform, hk]] at hf
      exact ⟨f, hf, rfl⟩
    · rw [drop_eq hk] at hf
      exact replaced .done hk hf
  | _ => exact .inl ⟨f, hf, rfl⟩

theorem requests_run {Q : P.Request → Prop} (hc : ∀ f ∈ c.futures, Q f.request) {xs : List (Deed P)}
    (hxs : ∀ x ∈ xs, ∀ r, x.asks? = some r → Q r) : ∀ f ∈ (c.run xs).futures, Q f.request := by
  induction xs generalizing c with
  | nil => exact hc
  | cons x xs ih =>
    refine ih (fun f hf => ?_) fun y hy => hxs y (List.mem_cons_of_mem _ hy)
    rcases mem_futures_after hf with ⟨g, hg, same⟩ | asked
    · rw [← same]
      exact hc g hg
    · exact hxs x List.mem_cons_self _ asked

theorem petitions_of_idle {start : Holding} {c : Scene Policy.standard}
    {d : Docket Policy.standard} {L : List Nat} (h : c.Shows d L)
    (requests : ∀ f ∈ c.futures, start.Serves f.request)
    (vacant : Holding.vacant c.sync.holding = start.vacant)
    (idle : Holding.isIdle c.sync.holding = true) : c.sync.petitions = [] := by
  rw [h.petitions]
  rcases hp : d.pending with _ | ⟨e, es⟩
  · rfl
  · have he : e ∈ d.pending := by rw [hp]; exact List.mem_cons_self
    obtain ⟨k, f, hk, ht⟩ := h.future_of_mem he
    have serves := requests f (List.mem_of_getElem? hk)
    rw [← (h.listed e he k f hk ht).1] at serves
    have refused := h.rests.rests.blocked e es hp
    rw [h.holding] at refused
    have allowed : Holding.allows c.sync.holding e.request = true :=
      Holding.allows_of_isIdle vacant idle serves
    exact absurd allowed (by rw [show Holding.allows _ _ = false from refused]; simp)

variable {d : Docket P} {L : List Nat}

theorem Shows.lists (h : c.Shows d L) :
    (c.sync.petitions.map (·.ticket)).Pairwise (· < ·) ∧
      ∀ k, c.pends k = true ↔ ∃ f e, c.futures[k]? = some f ∧ f.ticket = some e.ticket ∧
        f.request = e.request ∧ e ∈ c.sync.petitions := by
  rw [h.petitions]
  refine ⟨h.rests.roll.sorted, fun k => ⟨fun hp => ?_, fun ⟨f, e, hk, ht, _, he⟩ => ?_⟩⟩
  · obtain ⟨f, e, hk, ht, he⟩ := h.mem_of_pends hp
    exact ⟨f, e, hk, ht, (h.listed e he k f hk ht).1.symm, he⟩
  · exact (h.pends_iff hk ht).mpr ⟨e, he, rfl⟩

/-- No grant is lost. The first in line is always refused by the policy. What a deed frees goes to
the longest run from the front of the line that may enter, and no other deed grants anything. So in
a synchronizer of the three kinds that is idle nobody is pending. -/
theorem nobody_overlooked (id : Nat) (holding : P.State) (warm : Nat) (retainLimit : Option Nat)
    (timers : Timers) (tokens : Tokens) (xs : List (Deed P)) :
    let c : Scene P := (start id holding warm retainLimit timers tokens).run xs
    ((c.sync.petitions.map (·.ticket)).Pairwise (· < ·) ∧
      ∀ k, c.pends k = true ↔ ∃ f e, c.futures[k]? = some f ∧ f.ticket = some e.ticket ∧
        f.request = e.request ∧ e ∈ c.sync.petitions) ∧
    (∀ e es, c.sync.petitions = e :: es → P.allows c.sync.holding e.request = false) ∧
    (∀ (x : Deed P) (base : P.State) (es : List (Petition P.Request)), c.Frees x base es →
      let granted := P.admissible base es
      (granted <+: es ∧ P.Admits base granted ∧
        ∀ run, run <+: es → P.Admits base run → run <+: granted) ∧
      (c.perform x).granted = granted.map (·.ticket) ∧
      (c.after x).sync.holding = P.entered base granted ∧
      (c.after x).sync.petitions = es.drop granted.length ∧
      ∀ e ∈ granted, ∃ k f, c.futures[k]? = some f ∧ f.ticket = some e.ticket ∧
        c.pends k = true ∧ (c.after x).outcome? k = some .granted) ∧
    (∀ request, (c.inside.release request).2 = .ok () →
      ∃ base, c.Frees (.release request) base c.sync.petitions) ∧
    (∀ x, (∀ base es, ¬ c.Frees x base es) → (c.perform x).granted = []) ∧
    ∀ (h : Holding) (ys : List (Deed Policy.standard)),
      (∀ y ∈ ys, ∀ r, y.asks? = some r → h.Serves r) →
        let s : Scene Policy.standard := (start id h warm retainLimit timers tokens).run ys
        s.sync.phase = .active → Holding.isIdle s.sync.holding = true → s.sync.petitions = [] := by
  obtain ⟨d, L, shows⟩ := run_shows (P := P) id holding warm retainLimit timers tokens xs
  refine ⟨shows.lists, ?_, ?_, ?_, ?_, ?_⟩
  · rw [shows.petitions]
    intro e es first
    rw [← shows.holding]
    exact shows.rests.rests.blocked e es first
  · intro x base es frees
    exact ⟨⟨⟨_, Docket.admissible_append_drop base es⟩, P.admits_admissible base es,
      fun run => Policy.prefix_admissible⟩, shows.freed frees⟩
  · intro request released
    obtain ⟨r, hr, -⟩ := Section.release_ok shows.rests released
    exact ⟨_, .release request r released hr⟩
  · intro x nothing
    obtain ⟨L', rests, -⟩ := shows.perform x
    rcases shows.frees_or x with ⟨base, es, frees⟩ | nobody
    · exact absurd frees (nothing base es)
    · exact rests.granted.symm.trans nobody
  · intro h ys asked s _ idle
    have shows₀ := start_shows (P := Policy.standard) id h warm retainLimit timers tokens
    obtain ⟨d, L, shows⟩ := shows₀.run ys
    refine petitions_of_idle shows (requests_run (by simp [start]) asked) ?_ idle
    exact shows₀.keeps_run (Holding.vacant_keeps h.vacant) rfl ys

/-- Three permits come back. Whoever asked for two gets them, and the next, who asked for two as well,
holds up the last, who asked for one. -/
theorem nobody_overlooked_behind :
    let c : Scene Policy.standard := (start 0 (Holding.permits 3 3) 0 none {} {}).run
      [.tryAcquire (Request.permits 3), .acquire (Request.permits 2) .forever none none,
        .acquire (Request.permits 2) .forever none none,
        .acquire (Request.permits 1) .forever none none]
    let x : Deed Policy.standard := .release (some (Request.permits 3))
    let granted := Policy.standard.admissible
      (Policy.standard.release c.sync.holding (Request.permits 3)) c.sync.petitions
    granted.map (·.ticket) = [0] ∧ (c.perform x).granted = granted.map (·.ticket) ∧
      (c.after x).sync.petitions = c.sync.petitions.drop granted.length := by
  intro c x granted
  have frees := Frees.release (c := c) (some (Request.permits 3)) (Request.permits 3) rfl rfl
  have freed := (nobody_overlooked (P := Policy.standard) 0 (Holding.permits 3 3) 0 none {} {}
    [.tryAcquire (Request.permits 3), .acquire (Request.permits 2) .forever none none,
      .acquire (Request.permits 2) .forever none none,
      .acquire (Request.permits 1) .forever none none]).2.2.1 x _ _ frees
  exact ⟨by decide +kernel, freed.2.1, freed.2.2.2.1⟩

end Scene

end Turnstile
