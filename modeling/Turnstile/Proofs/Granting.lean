import Turnstile.Proofs.Simulation
import Mathlib.Data.List.Nodup

/-!
# Who is granted, and when

Only some deeds free anything. After one of them those are granted who come first and may enter one
after another, all of them, and nobody else. No other deed grants anything.
-/

namespace Turnstile

variable {P : Policy}

/-! ## Longest runs -/

/-- Whoever is in `es` may enter after those before. -/
def Policy.Admits (P : Policy) : P.State → List (Petition P.Request) → Prop
  | _, [] => True
  | h, e :: es => P.allows h e.request = true ∧ P.Admits (P.enter h e.request) es

theorem Policy.admits_admissible (h : P.State) (es : List (Petition P.Request)) :
    P.Admits h (P.admissible h es) := by
  induction es generalizing h with
  | nil => trivial
  | cons e es ih =>
    unfold Policy.admissible
    split
    · rename_i he
      exact ⟨he, ih _⟩
    · trivial

theorem Policy.prefix_admissible {h : P.State} {es run : List (Petition P.Request)}
    (hr : run <+: es) (ha : P.Admits h run) : run <+: P.admissible h es := by
  induction es generalizing h run with
  | nil => exact hr
  | cons e es ih =>
    cases run with
    | nil => exact List.nil_prefix
    | cons r run =>
      obtain ⟨rfl, hrest⟩ := List.cons_prefix_cons.mp hr
      unfold Policy.admissible
      rw [if_pos ha.1]
      exact List.cons_prefix_cons.mpr ⟨rfl, ih hrest ha.2⟩

theorem Policy.allows_of_mem_admissible {h : P.State} {es : List (Petition P.Request)}
    {e : Petition P.Request} (he : e ∈ P.admissible h es) :
    ∃ pre post, P.admissible h es = pre ++ e :: post ∧
      P.allows (P.entered h pre) e.request = true := by
  induction es generalizing h with
  | nil => cases he
  | cons x es ih =>
    unfold Policy.admissible at he ⊢
    split at he
    · rename_i hx
      rw [if_pos hx]
      rcases List.mem_cons.mp he with rfl | he
      · exact ⟨[], _, rfl, hx⟩
      · obtain ⟨pre, post, split, allowed⟩ := ih he
        exact ⟨x :: pre, post, by rw [split]; rfl, allowed⟩
    · cases he

namespace Docket

/-- Of those in `es` everybody has been granted who could enter the holding `h`. -/
structure Grants (d : Docket P) (h : P.State) (es : List (Petition P.Request)) : Prop where
  granted : d.granted = (P.admissible h es).map (·.ticket)
  holding : d.holding = P.entered h (P.admissible h es)
  pending : d.pending = es.drop (P.admissible h es).length
  settled : ∀ e ∈ P.admissible h es, d.settled e.ticket = some (e.request, .granted)

variable {d : Docket P}

theorem settled_of_mem (o : Outcome) {es : List (Petition P.Request)} (d : Docket P)
    (nodup : (es.map (·.ticket)).Nodup) {e : Petition P.Request} (he : e ∈ es) :
    (es.foldl (settle o) d).settled e.ticket = some (e.request, o) := by
  rw [foldl_settle_settled _ _ _ nodup]
  rcases hf : es.find? (·.ticket = e.ticket) with _ | e'
  · simpa using List.find?_eq_none.mp hf e he
  · have ht : e'.ticket = e.ticket := by simpa using List.find?_some hf
    rw [hf, List.inj_on_of_nodup_map nodup (List.mem_of_find?_eq_some hf) he ht]
    rfl

theorem grantRun_grants (nobody : d.granted = []) (nodup : (d.pending.map (·.ticket)).Nodup) :
    d.grantRun.Grants d.holding d.pending := by
  have sub := admissible_sublist d.holding d.pending
  refine ⟨?_, rfl, rfl, fun e he => settled_of_mem .granted d (nodup.sublist (sub.map _)) he⟩
  show d.granted ++ _ = _
  rw [nobody, List.nil_append]

theorem Grants.endDisposal {h : P.State} {es : List (Petition P.Request)} (hg : d.Grants h es) :
    d.endDisposal.Grants h es := by
  obtain ⟨holding, pending, settled, -, granted⟩ := endDisposal_fields d
  exact ⟨granted.trans hg.granted, holding.trans hg.holding, pending.trans hg.pending,
    fun e he => by rw [settled]; exact hg.settled e he⟩

theorem give_grants (nobody : d.granted = []) (nodup : (d.pending.map (·.ticket)).Nodup)
    (h : P.State) : (d.give h).Grants h d.pending :=
  (grantRun_grants (d := { d with holding := h }) nobody nodup).endDisposal

theorem join_granted (e : Petition P.Request) (zero refused : Bool) :
    (d.join e zero refused).1.granted = d.granted := by
  unfold join
  split
  · rfl
  · split
    · rfl
    · split <;> rfl

theorem acquire_granted (e : Petition P.Request) (zero refused : Bool) (steal : Option Reason) :
    (d.acquire e zero refused steal).1.granted = d.granted := by
  unfold acquire
  split
  · rfl
  · rw [join_granted]
    exact (evict_fields d steal).2.2.2

theorem dispose_granted : d.dispose.granted = d.granted := by
  unfold dispose
  split
  · rfl
  · rw [(endDisposal_fields _).2.2.2.2, (resolveAll_fields _ _).2.2.2.2]

theorem giveIf_error {f : P.State → Except Refusal P.State} {r : Refusal}
    (hr : (d.giveIf f).2 = .error r) : (d.giveIf f).1 = d := by
  unfold giveIf at hr ⊢
  split at hr
  · rename_i hp
    rw [if_pos hp]
  · rename_i hp
    rw [if_neg hp]
    rcases hd : f d.holding with e | hold
    · rfl
    · rw [hd] at hr
      cases hr

end Docket

/-! ## Deeds that free something -/

namespace Scene

/-- The deed `x` leaves the holding `h` and the line `es`, and then whoever may enter is granted. -/
inductive Frees (c : Scene P) : Deed P → P.State → List (Petition P.Request) → Prop
  | release (request : Option P.Request) (r : P.Request)
      (released : (c.inside.release request).2 = .ok ())
      (hr : request.or (P.desk.standing c.sync.holding) = some r) :
      Frees c (.release request) (P.release c.sync.holding r) c.sync.petitions
  | dropGuard (r : P.Request) (released : (c.inside.release (some r)).2 = .ok ()) :
      Frees c (.dropGuard r) (P.release c.sync.holding r) c.sync.petitions
  /-- An admission that never had to queue, and was not observed. -/
  | unobserved (k : Nat) (f : Future P) (hk : c.futures[k]? = some f)
      (hf : f.stage = .ready (.ok ())) (running : c.sync.phase ≠ .disposed) :
      Frees c (.drop k) (P.release c.sync.holding f.request) c.sync.petitions
  /-- A grant that was not observed. -/
  | abandoned (k : Nat) (w : Waiter P.Request) (hw : c.waiter? k = some w)
      (ho : w.outcome = some .granted) :
      Frees c (.drop k) (P.release c.sync.holding w.request) c.sync.petitions
  | withdrawn (k : Nat) (w : Waiter P.Request) (hw : c.waiter? k = some w) (ho : w.outcome = none) :
      Frees c (.drop k) c.sync.holding (c.sync.petitions.filter (·.ticket ≠ w.ticket))
  /-- Somebody in line has run out of time or was cancelled. -/
  | fired (slot : Nat) (e : Petition P.Request) (o : Outcome)
      (he : c.inside.fired? slot = some (e, o)) :
      Frees c (.trigger slot) c.sync.holding (c.sync.petitions.filter (·.ticket ≠ e.ticket))

variable {c : Scene P} {d : Docket P} {L : List Nat}

theorem Frees.sublist {base : P.State} {es : List (Petition P.Request)} {x : Deed P}
    (h : c.Frees x base es) : es.Sublist c.sync.petitions := by
  cases h with
  | withdrawn => exact List.filter_sublist
  | fired => exact List.filter_sublist
  | _ => exact List.Sublist.refl _

theorem Shows.petitions (h : c.Shows d L) : c.sync.petitions = d.pending := h.rests.petitions_eq

theorem Shows.nodup (h : c.Shows d L) : (d.pending.map (·.ticket)).Nodup :=
  h.rests.roll.sorted.imp Nat.ne_of_lt

theorem Shows.nobody (h : c.Shows d L) : d.granted = [] := h.rests.granted

theorem Shows.grants (h : c.Shows d L) {x : Deed P} {base : P.State}
    {es : List (Petition P.Request)} (hx : c.Frees x base es) : (d.after c x).Grants base es := by
  have holding := h.holding
  cases hx with
  | release request r released hr =>
    obtain ⟨r', hr', eq⟩ := Section.release_ok h.rests released
    obtain rfl : r' = r := Option.some.inj (hr'.symm.trans hr)
    rw [h.petitions, ← holding, Docket.after, eq]
    exact Docket.give_grants h.nobody h.nodup _
  | dropGuard r released =>
    obtain ⟨r', hr', eq⟩ := Section.release_ok h.rests released
    obtain rfl : r = r' := Option.some.inj hr'
    rw [h.petitions, ← holding, Docket.after, show (d.giveIf (Section.returned r)).1 = _ from eq]
    exact Docket.give_grants h.nobody h.nodup _
  | unobserved k f hk hf running =>
    simp only [Docket.after, hk, hf, Docket.giveIf, h.phase, if_neg running]
    rw [h.petitions, ← holding]
    exact Docket.give_grants h.nobody h.nodup _
  | abandoned k w hw ho =>
    obtain ⟨f, id, hk, hf, -⟩ := h.future_of_waiter? hw
    have settled : d.settled w.ticket = some (w.request, .granted) := by
      rw [h.settled_waiter hw, Waiter.verdict?, ho, Option.map_some]
    simp only [Docket.after, hk, hf, hw, Option.elim_some, Docket.withdraw, settled, if_true]
    rw [h.petitions, ← holding]
    exact Docket.give_grants (d := d.forget w.ticket) h.nobody h.nodup _
  | withdrawn k w hw ho =>
    obtain ⟨f, id, hk, hf, -⟩ := h.future_of_waiter? hw
    have settled : d.settled w.ticket = none := by
      rw [h.settled_waiter hw, Waiter.verdict?, ho, Option.map_none]
    simp only [Docket.after, hk, hf, hw, Option.elim_some, Docket.withdraw, settled]
    rw [h.petitions, ← holding]
    exact (Docket.grantRun_grants (d := d.strike w.ticket) h.nobody
      (h.nodup.sublist (List.filter_sublist.map _))).endDisposal
  | fired slot e o he =>
    simp only [Docket.after, he, Option.elim_some, Docket.trigger]
    rw [h.petitions, ← holding]
    exact Docket.grantRun_grants (d := Docket.settle o (d.strike e.ticket) e) h.nobody
      (h.nodup.sublist (List.filter_sublist.map _))

theorem Shows.released_or (h : c.Shows d L) (request : Option P.Request) :
    (∃ base es, c.Frees (.release request) base es) ∨
      (d.after c (.release request)).granted = [] := by
  have answer : (c.inside.release request).2 = _ := (Section.releaseBy_rests h.rests _).1
  rcases hr : (c.inside.release request).2 with e | _
  · right
    rw [Docket.after, Docket.giveIf_error (answer.symm.trans hr)]
    exact h.nobody
  · obtain ⟨r, hr', -⟩ := Section.release_ok h.rests hr
    exact .inl ⟨_, _, .release request r hr hr'⟩

/-- Whatever does not free anything grants nothing. -/
theorem Shows.frees_or (h : c.Shows d L) (x : Deed P) :
    (∃ base es, c.Frees x base es) ∨ (d.after c x).granted = [] := by
  cases x with
  | tryAcquire r => exact .inr ((Docket.acquire_granted _ _ _ _).trans h.nobody)
  | acquire r timeout token steal => exact .inr ((Docket.acquire_granted _ _ _ _).trans h.nobody)
  | poll k waker =>
    right
    simp only [Docket.after]
    rcases c.waiter? k with _ | w
    · exact h.nobody
    · dsimp only
      split <;> exact h.nobody
  | drop k =>
    simp only [Docket.after]
    rcases hk : c.futures[k]? with _ | f
    · exact .inr h.nobody
    dsimp only
    -- What it frees is a share that it was granted, or its place in the line.
    rcases hf : f.stage with (r | _) | id | _
    · exact .inr h.nobody
    · by_cases hp : c.sync.phase = .disposed
      · right
        simp only [Docket.giveIf, h.phase, if_pos hp]
        exact h.nobody
      · exact .inl ⟨_, _, .unobserved k f hk hf hp⟩
    · obtain ⟨w, hw, -⟩ := h.waiter?_eq hk hf
      rcases ho : w.outcome with _ | o
      · exact .inl ⟨_, _, .withdrawn k w hw ho⟩
      · by_cases hg : o = .granted
        · exact .inl ⟨_, _, .abandoned k w hw (by rw [ho, hg])⟩
        · right
          have settled : d.settled w.ticket = some (w.request, o) := by
            rw [h.settled_waiter hw, Waiter.verdict?, ho, Option.map_some]
          simp only [hw, Option.elim_some, Docket.withdraw, settled, if_neg hg]
          exact h.nobody
    · exact .inr h.nobody
  | release request => exact h.released_or request
  | dropGuard r =>
    rcases h.released_or (some r) with ⟨base, es, hx⟩ | nobody
    · cases hx with
      | release _ r' released hr => exact .inl ⟨_, _, .dropGuard r released⟩
    · exact .inr nobody
  | dispose => exact .inr (Docket.dispose_granted.trans h.nobody)
  | pollDispose waker => exact .inr h.nobody
  | trigger slot =>
    rcases he : c.inside.fired? slot with _ | ⟨e, o⟩
    · right
      simp only [Docket.after, he]
      exact h.nobody
    · exact .inl ⟨_, _, .fired slot e o he⟩
  | elsewhere timers tokens => exact .inr h.nobody

end Scene

end Turnstile
