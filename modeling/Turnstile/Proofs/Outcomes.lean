import Turnstile.Proofs.Granting
import Turnstile.Holding
import Mathlib.Data.List.Induction

/-!
# How acquisitions end

A queued acquisition gets one outcome, for a reason of its own that holds at that moment. It keeps
the outcome until its future observes it, and then it has none ever again.
-/

namespace Turnstile

variable {P : Policy}

/-! ## New outcomes -/

namespace Docket

variable {d : Docket P}

theorem settled_of_foldl {o : Outcome} {es : List (Petition P.Request)} {d : Docket P} {t : Nat}
    {v : P.Request × Outcome} (hv : (es.foldl (settle o) d).settled t = some v) :
    d.settled t = some v ∨ ∃ e ∈ es, e.ticket = t ∧ v = (e.request, o) := by
  induction es generalizing d with
  | nil => exact .inl hv
  | cons e es ih =>
    rcases ih hv with hv | ⟨x, hx, ht⟩
    · by_cases he : t = e.ticket
      · subst he
        right
        rw [show (settle o d e).settled e.ticket = _ from Function.update_self ..] at hv
        exact ⟨e, List.mem_cons_self, rfl, (Option.some.inj hv).symm⟩
      · exact .inl ((Function.update_of_ne he ..).symm.trans hv)
    · exact .inr ⟨x, List.mem_cons_of_mem _ hx, ht⟩

theorem foldl_settled_other {o : Outcome} {es : List (Petition P.Request)} {t : Nat}
    (h : ∀ e ∈ es, e.ticket ≠ t) (d : Docket P) : (es.foldl (settle o) d).settled t = d.settled t := by
  induction es generalizing d with
  | nil => rfl
  | cons e es ih =>
    rw [List.foldl_cons, ih fun x hx => h x (List.mem_cons_of_mem _ hx)]
    exact Function.update_of_ne (h e List.mem_cons_self).symm ..

theorem give_settled (h : P.State) :
    (d.give h).settled = ((P.admissible h d.pending).foldl (settle .granted) d).settled := by
  have move := congrArg Docket.settled
    (foldl_settle_with .granted (P.admissible h d.pending) d h d.pending d.granted)
  rw [give, (endDisposal_fields _).2.2.1]
  exact move

theorem give_other {t : Nat} (ht : ∀ e ∈ d.pending, e.ticket ≠ t) (h : P.State) :
    (d.give h).settled t = d.settled t := by
  rw [give_settled]
  exact foldl_settled_other (fun e he => ht e ((admissible_sublist _ _).subset he)) d

theorem giveIf_other {t : Nat} (ht : ∀ e ∈ d.pending, e.ticket ≠ t)
    (f : P.State → Except Refusal P.State) : (d.giveIf f).1.settled t = d.settled t := by
  unfold giveIf
  split
  · rfl
  · rcases f d.holding with e | hold
    · rfl
    · exact give_other ht hold

theorem forget_settled {t u : Nat} {v : P.Request × Outcome}
    (hv : (d.forget t).settled u = some v) : d.settled u = some v := by
  by_cases hu : u = t
  · subst hu
    rw [show (d.forget u).settled u = none from Function.update_self ..] at hv
    cases hv
  · exact (Function.update_of_ne hu ..).symm.trans hv

theorem evict_settled (steal : Option Reason) :
    (d.evict steal).settled =
      steal.elim d.settled fun r => (d.pending.foldl (settle (.interrupted r)) d).settled := by
  rcases steal with _ | r <;> rfl

theorem join_settled (e : Petition P.Request) (zero refused : Bool) :
    (d.join e zero refused).1.settled = d.settled := by
  unfold join
  split
  · rfl
  · split
    · rfl
    · split <;> rfl

end Docket

namespace Scene

/-- Why the deed gives this outcome to the pending `e`. -/
inductive Cause (c : Scene P) (e : Petition P.Request) : Deed P → Outcome → Prop
  | granted (x : Deed P) (base : P.State) (es : List (Petition P.Request))
      (frees : c.Frees x base es) (he : e ∈ P.admissible base es) : Cause c e x .granted
  | fired (slot : Nat) (o : Outcome) (he : c.inside.fired? slot = some (e, o)) :
      Cause c e (.trigger slot) o
  | interrupted (request : P.Request) (timeout : Timeout) (token : Option Nat) (reason : Reason)
      (active : c.sync.phase = .active) :
      Cause c e (.acquire request timeout token (some reason)) (.interrupted reason)
  | disposed (active : c.sync.phase = .active) : Cause c e .dispose .disposed

variable {c : Scene P} {d : Docket P} {L : List Nat} {x : Deed P}

theorem learned_grant {base : P.State} {es : List (Petition P.Request)} (frees : c.Frees x base es)
    (sub : es ⊆ d.pending) (d₀ : Docket P) {t : Nat} {v : P.Request × Outcome}
    (hv : ((P.admissible base es).foldl (Docket.settle .granted) d₀).settled t = some v) :
    d₀.settled t = some v ∨ ∃ e ∈ d.pending, e.ticket = t ∧ e.request = v.1 ∧ c.Cause e x v.2 := by
  rcases Docket.settled_of_foldl hv with hv | ⟨e, he, ht, rfl⟩
  · exact .inl hv
  · exact .inr ⟨e, sub ((Docket.admissible_sublist _ _).subset he), ht, rfl,
      .granted x base es frees he⟩

theorem learned_give {base : P.State} (frees : c.Frees x base d.pending) {t : Nat}
    {v : P.Request × Outcome} (hv : (d.give base).settled t = some v) :
    d.settled t = some v ∨ ∃ e ∈ d.pending, e.ticket = t ∧ e.request = v.1 ∧ c.Cause e x v.2 := by
  rw [Docket.give_settled] at hv
  exact learned_grant frees (List.Subset.refl _) d hv

theorem Shows.learned_release (h : c.Shows d L) (request : Option P.Request)
    (frees : ∀ r, (c.inside.release request).2 = .ok () →
      request.or (P.desk.standing c.sync.holding) = some r →
      c.Frees x (P.release c.sync.holding r) c.sync.petitions)
    {t : Nat} {v : P.Request × Outcome}
    (hv : (d.giveIf (request.elim Section.returnedStanding Section.returned)).1.settled t = some v) :
    d.settled t = some v ∨ ∃ e ∈ d.pending, e.ticket = t ∧ e.request = v.1 ∧ c.Cause e x v.2 := by
  have answer : (c.inside.release request).2 = _ := (Section.releaseBy_rests h.rests _).1
  rcases hr : (c.inside.release request).2 with e | _
  · rw [Docket.giveIf_error (answer.symm.trans hr)] at hv
    exact .inl hv
  · obtain ⟨r, hr', eq⟩ := Section.release_ok h.rests hr
    have := frees r hr hr'
    rw [eq, h.holding] at hv
    rw [h.petitions] at this
    exact learned_give this hv

theorem Shows.learned_withdraw (h : c.Shows d L) {k : Nat} {w : Waiter P.Request}
    (hw : c.waiter? k = some w) {t : Nat} {v : P.Request × Outcome}
    (hv : (d.withdraw w.ticket).settled t = some v) :
    d.settled t = some v ∨
      ∃ e ∈ d.pending, e.ticket = t ∧ e.request = v.1 ∧ c.Cause e (.drop k) v.2 := by
  rw [Docket.withdraw, h.settled_waiter hw] at hv
  rcases ho : w.outcome with _ | o
  · rw [show w.verdict? = none by rw [Waiter.verdict?_eq_none, ho]] at hv
    have frees := Frees.withdrawn k w hw ho
    rw [← h.holding, h.petitions] at frees
    rw [(Docket.endDisposal_fields _).2.2.1] at hv
    exact learned_grant frees List.filter_sublist.subset (d.strike w.ticket) hv
  · rw [show w.verdict? = some (w.request, o) by rw [Waiter.verdict?, ho, Option.map_some]] at hv
    dsimp only at hv
    split at hv
    · rename_i hg
      have frees := Frees.abandoned k w hw (by rw [ho, hg])
      rw [← h.holding, h.petitions] at frees
      rcases learned_give (d := d.forget w.ticket) frees hv with hv | new
      · exact .inl (Docket.forget_settled hv)
      · exact .inr new
    · exact .inl (Docket.forget_settled hv)

theorem Shows.learned_fired (h : c.Shows d L) {slot : Nat} {e : Petition P.Request} {o : Outcome}
    (he : c.inside.fired? slot = some (e, o)) {t : Nat} {v : P.Request × Outcome}
    (hv : ((P.admissible d.holding (d.pending.filter (·.ticket ≠ e.ticket))).foldl
      (Docket.settle .granted) (Docket.settle o (d.strike e.ticket) e)).settled t = some v) :
    d.settled t = some v ∨
      ∃ e ∈ d.pending, e.ticket = t ∧ e.request = v.1 ∧ c.Cause e (.trigger slot) v.2 := by
  have frees := Frees.fired slot e o he
  rw [← h.holding, h.petitions] at frees
  rcases learned_grant frees List.filter_sublist.subset
    (Docket.settle o (d.strike e.ticket) e) hv with hv | new
  · by_cases ht : t = e.ticket
    · subst ht
      rw [show (Docket.settle o (d.strike e.ticket) e).settled e.ticket = _ from
        Function.update_self .., Option.some.injEq] at hv
      rw [← hv]
      exact .inr ⟨e, h.rests.mem_of_fired he, rfl, rfl, .fired slot o he⟩
    · exact .inl ((Function.update_of_ne ht ..).symm.trans hv)
  · exact .inr new

theorem Shows.learned (h : c.Shows d L) (x : Deed P) {t : Nat} {v : P.Request × Outcome}
    (hv : (d.after c x).settled t = some v) :
    d.settled t = some v ∨ ∃ e ∈ d.pending, e.ticket = t ∧ e.request = v.1 ∧ c.Cause e x v.2 := by
  have holding := h.holding
  have phase := h.phase
  cases x with
  | tryAcquire request =>
    left
    simp only [Docket.after, Docket.acquire] at hv
    split at hv
    · exact hv
    · rwa [Docket.join_settled, Docket.evict_settled] at hv
  | acquire request timeout token steal =>
    simp only [Docket.after, Docket.acquire] at hv
    split at hv
    · exact .inl hv
    · rename_i hp
      rw [Docket.join_settled, Docket.evict_settled] at hv
      rcases steal with _ | r
      · exact .inl hv
      · rcases Docket.settled_of_foldl hv with hv | ⟨e, he, ht, rfl⟩
        · exact .inl hv
        · exact .inr ⟨e, he, ht, rfl, .interrupted _ _ _ _ (by simpa [phase] using hp)⟩
  | poll k waker =>
    left
    simp only [Docket.after] at hv
    rcases hw : c.waiter? k with _ | w
    · rwa [hw] at hv
    · rw [hw] at hv
      dsimp only at hv
      split at hv
      · exact hv
      · exact Docket.forget_settled hv
  | drop k =>
    simp only [Docket.after] at hv
    rcases hk : c.futures[k]? with _ | f
    · rw [hk] at hv
      exact .inl hv
    rw [hk] at hv
    dsimp only at hv
    -- It gives back what it was granted, or it leaves the line.
    rcases hf : f.stage with (r | _) | id | _ <;> rw [hf] at hv <;> dsimp only at hv
    · exact .inl hv
    · unfold Docket.giveIf at hv
      split at hv
      · exact .inl hv
      · rename_i hp
        have frees := Frees.unobserved k f hk hf (by rwa [← phase])
        rw [← holding, h.petitions] at frees
        exact learned_give frees hv
    · obtain ⟨w, hw, -⟩ := h.waiter?_eq hk hf
      rw [hw, Option.elim_some] at hv
      exact h.learned_withdraw hw hv
    · exact .inl hv
  | release request => exact h.learned_release request (fun r hr hr' => .release request r hr hr') hv
  | dropGuard r =>
    refine h.learned_release (some r) (fun r' hr hr' => ?_) hv
    obtain rfl : r = r' := Option.some.inj hr'
    exact .dropGuard r hr
  | dispose =>
    simp only [Docket.after, Docket.dispose] at hv
    split at hv
    · exact .inl hv
    · rename_i hp
      rw [(Docket.endDisposal_fields _).2.2.1] at hv
      rcases Docket.settled_of_foldl (d := { d with phase := .disposing }) hv with hv | ⟨e, he, ht, rfl⟩
      · exact .inl hv
      · exact .inr ⟨e, he, ht, rfl, .disposed (by simpa [phase] using hp)⟩
  | pollDispose waker => exact .inl hv
  | trigger slot =>
    simp only [Docket.after] at hv
    rcases he : c.inside.fired? slot with _ | ⟨e, o⟩ <;> rw [he] at hv
    · exact .inl hv
    · exact h.learned_fired he hv
  | elsewhere timers tokens => exact .inl hv

theorem Shows.kept (h : c.Shows d L) {k : Nat} {f : Future P} (hk : c.futures[k]? = some f) {t : Nat}
    (ht : f.ticket = some t) (others : ∀ e ∈ d.pending, e.ticket ≠ t) (hdrop : x ≠ .drop k)
    (hpoll : ∀ w, x ≠ .poll k w) : (d.after c x).settled t = d.settled t := by
  -- Whoever polls or drops another future does not touch this ticket.
  have apart : ∀ (l : Nat) (w : Waiter P.Request), l ≠ k → c.waiter? l = some w → t ≠ w.ticket := by
    rintro l w hl hw rfl
    obtain ⟨g, -, hg, -, hgt, -⟩ := h.future_of_waiter? hw
    exact hl (ticket_injective h.tickets hg hk hgt ht)
  cases x with
  | tryAcquire request =>
    simp only [Docket.after, Docket.acquire]
    split
    · rfl
    · rw [Docket.join_settled, Docket.evict_settled]
      rfl
  | acquire request timeout token steal =>
    simp only [Docket.after, Docket.acquire]
    split
    · rfl
    · rw [Docket.join_settled, Docket.evict_settled]
      rcases steal with _ | r
      · rfl
      · exact Docket.foldl_settled_other others d
  | poll l waker =>
    have hl : l ≠ k := fun e => hpoll waker (by rw [e])
    simp only [Docket.after]
    rcases hw : c.waiter? l with _ | w
    · rfl
    · dsimp only
      split
      · rfl
      · exact Function.update_of_ne (apart l w hl hw) ..
  | drop l =>
    have hl : l ≠ k := fun e => hdrop (by rw [e])
    simp only [Docket.after]
    rcases c.futures[l]? with _ | g
    · rfl
    dsimp only
    split
    · rcases hw : c.waiter? l with _ | w
      · rfl
      · have hne := apart l w hl hw
        have forgotten : (d.forget w.ticket).settled t = d.settled t :=
          Function.update_of_ne hne ..
        rw [Option.elim_some, Docket.withdraw]
        split
        · rw [(Docket.endDisposal_fields _).2.2.1]
          refine Docket.foldl_settled_other (fun e he => ?_) (d.strike w.ticket)
          exact others e (List.filter_sublist.subset ((Docket.admissible_sublist _ _).subset he))
        · split
          · exact (Docket.give_other (d := d.forget w.ticket) others _).trans forgotten
          · exact forgotten
    · exact Docket.giveIf_other others _
    · rfl
    · rfl
  | release request => exact Docket.giveIf_other others _
  | dropGuard r => exact Docket.giveIf_other others _
  | dispose =>
    simp only [Docket.after, Docket.dispose]
    split
    · rfl
    · rw [(Docket.endDisposal_fields _).2.2.1]
      exact Docket.foldl_settled_other others { d with phase := .disposing }
  | pollDispose waker => rfl
  | trigger slot =>
    simp only [Docket.after]
    rcases he : c.inside.fired? slot with _ | ⟨e, o⟩
    · rfl
    · refine (Docket.foldl_settled_other (fun y hy => ?_) (Docket.settle o (d.strike e.ticket) e)).trans
        (Function.update_of_ne (others e (h.rests.mem_of_fired he)).symm ..)
      exact others y (List.filter_sublist.subset ((Docket.admissible_sublist _ _).subset hy))
  | elsewhere timers tokens => rfl

/-! ## One future -/

theorem future_after {k : Nat} {f : Future P} (hk : c.futures[k]? = some f) (x : Deed P) :
    ∃ stage, (c.after x).futures[k]? = some { f with stage } ∧
      (x ≠ .drop k → (∀ w, x ≠ .poll k w) → stage = f.stage) ∧
      (f.stage = .done → stage = .done) := by
  have unmoved : ∀ {c' : Scene P}, c'.futures = c.futures →
      ∃ stage, c'.futures[k]? = some { f with stage } ∧
        (x ≠ .drop k → (∀ w, x ≠ .poll k w) → stage = f.stage) ∧
        (f.stage = .done → stage = .done) :=
    fun e => ⟨f.stage, by rw [e]; exact hk, fun _ _ => rfl, id⟩
  have replaced : ∀ {c' : Scene P} {l : Nat} {g : Future P} (stage : Stage),
      c.futures[l]? = some g → c'.futures = c.futures.set l { g with stage } →
      (l = k → x = .drop k ∨ ∃ w, x = .poll k w) → (g.stage = .done → stage = .done) →
      ∃ stage, c'.futures[k]? = some { f with stage } ∧
        (x ≠ .drop k → (∀ w, x ≠ .poll k w) → stage = f.stage) ∧
        (f.stage = .done → stage = .done) := by
    intro c' l g stage hl e own hdone
    by_cases hlk : l = k
    · subst hlk
      rw [hk] at hl
      obtain rfl := Option.some.inj hl
      refine ⟨stage, ?_, fun hd hp => ?_, hdone⟩
      · rw [e, List.getElem?_set_self (List.getElem?_eq_some_iff.mp hk).1]
      · rcases own rfl with rfl | ⟨w, rfl⟩
        · exact absurd rfl hd
        · exact absurd rfl (hp w)
    · exact ⟨f.stage, by rw [e, List.getElem?_set_ne hlk]; exact hk, fun _ _ => rfl, id⟩
  cases x with
  | acquire r timeout token steal =>
    refine ⟨f.stage, ?_, fun _ _ => rfl, id⟩
    show (c.futures ++ [_])[k]? = _
    rw [List.getElem?_append_left (List.getElem?_eq_some_iff.mp hk).1]
    exact hk
  | poll l w =>
    rcases hl : c.futures[l]? with _ | g
    · exact unmoved (by simp [after, perform, hl, Effect.scene, unchanged])
    · refine replaced (c.inside.pollStage g.stage w).2.1 hl ?_ ?_ ?_
      · simp [after, perform, hl, Effect.scene]
      · rintro rfl
        exact .inr ⟨w, rfl⟩
      · intro hg
        rw [hg]
        rfl
  | drop l =>
    rcases hl : c.futures[l]? with _ | g
    · exact unmoved (by simp [after, perform, hl, Effect.scene, unchanged])
    · refine replaced .done hl ?_ ?_ fun _ => rfl
      · simp [after, perform, hl, Effect.scene]
      · rintro rfl
        exact .inl rfl
  | _ => exact unmoved rfl

variable {k : Nat} {o : Outcome}

theorem Shows.future_of_outcome (h : c.Shows d L) (ho : c.outcome? k = some o) :
    ∃ (f : Future P) (id : WaiterId) (w : Waiter P.Request), c.futures[k]? = some f ∧
      f.stage = .waiting id ∧ c.sync.line.pool.get? id = some w ∧ w.outcome = some o ∧
      f.ticket = some w.ticket := by
  obtain ⟨w, hw, ho⟩ := Option.bind_eq_some_iff.mp ho
  obtain ⟨f, id, hk, hf, hget⟩ := waiter?_eq_some hw
  obtain ⟨w', hw', -, ht, -⟩ := h.waiter?_eq hk hf
  rw [hw] at hw'
  obtain rfl := Option.some.inj hw'
  exact ⟨f, id, w, hk, hf, hget, ho, ht⟩

theorem Shows.unlisted (h : c.Shows d L) {f : Future P} (hk : c.futures[k]? = some f) {t : Nat}
    (ht : f.ticket = some t) (ho : c.outcome? k = some o) : ∀ e ∈ d.pending, e.ticket ≠ t := by
  rintro e he rfl
  rw [h.outcome?_eq hk ht, h.rests.roll.unsettled he] at ho
  cases ho

theorem Shows.outcome_stays (h : c.Shows d L) (ho : c.outcome? k = some o) (hdrop : x ≠ .drop k)
    (hpoll : ∀ w, x ≠ .poll k w) : (c.after x).outcome? k = some o := by
  obtain ⟨f, -, w, hk, -, -, -, ht⟩ := h.future_of_outcome ho
  obtain ⟨L', -, next⟩ := h.perform x
  obtain ⟨stage, hk', -, -⟩ := future_after hk x
  have kept := h.kept hk ht (h.unlisted hk ht ho) hdrop hpoll
  rw [next.outcome?_eq hk' ht]
  show ((d.after c x).settled w.ticket).map _ = _
  rw [kept, ← h.outcome?_eq hk ht, ho]

theorem Shows.observed (h : c.Shows d L) (ho : c.outcome? k = some o) (w : Waker) :
    (c.perform (.poll k w)).answer = some o.result ∧ (c.after (.poll k w)).IsDone k := by
  obtain ⟨f, id, u, hk, hf, hget, hu, -⟩ := h.future_of_outcome ho
  have polled := poll_resolved hk hf hget hu w
  refine ⟨by rw [polled], { f with stage := .done }, ?_, rfl⟩
  unfold after
  rw [polled]
  exact List.getElem?_set_self (List.getElem?_eq_some_iff.mp hk).1

theorem done_of_drop {f : Future P} (hk : c.futures[k]? = some f) : (c.after (.drop k)).IsDone k := by
  refine ⟨{ f with stage := .done }, ?_, rfl⟩
  unfold after
  rw [drop_eq hk]
  exact List.getElem?_set_self (List.getElem?_eq_some_iff.mp hk).1

theorem IsDone.after (h : c.IsDone k) (x : Deed P) : (c.after x).IsDone k := by
  obtain ⟨f, hk, hf⟩ := h
  obtain ⟨stage, hk', -, hdone⟩ := future_after hk x
  exact ⟨_, hk', hdone hf⟩

theorem IsDone.run (h : c.IsDone k) (xs : List (Deed P)) : (c.run xs).IsDone k := by
  induction xs generalizing c with
  | nil => exact h
  | cons x xs ih => exact ih (h.after x)

theorem IsDone.silent (h : c.IsDone k) (w : Waker) :
    (c.perform (.poll k w)).answer = none ∧ c.pends k = false ∧ c.outcome? k = none := by
  obtain ⟨f, hk, hf⟩ := h
  have none := waiter?_eq_none hk (by rw [hf]; rfl)
  exact ⟨by rw [poll_done hk hf]; rfl, by rw [pends, none]; rfl, by rw [outcome?, none]; rfl⟩

/-- The deed of future `k`'s owner. -/
def Own (k : Nat) (x : Deed P) : Prop := x = .drop k ∨ ∃ w, x = .poll k w

/-- An outcome is final. It stays until the owner of the future polls or drops it. -/
theorem Shows.final (h : c.Shows d L) (ho : c.outcome? k = some o) (xs : List (Deed P)) :
    ((c.run xs).outcome? k = some o ∧ ∀ x ∈ xs, ¬ Own k x) ∨
      ((c.run xs).IsDone k ∧ ∃ x ∈ xs, Own k x) := by
  induction xs generalizing c d L with
  | nil => exact .inl ⟨ho, by simp⟩
  | cons x xs ih =>
    obtain ⟨f, -, -, hk, -⟩ := h.future_of_outcome ho
    by_cases own : Own k x
    · right
      refine ⟨?_, x, List.mem_cons_self, own⟩
      rcases own with rfl | ⟨w, rfl⟩
      · exact (done_of_drop hk).run xs
      · exact (h.observed ho w).2.run xs
    · obtain ⟨L', -, next⟩ := h.perform x
      have stays := h.outcome_stays ho (fun e => own (.inl e)) fun w e => own (.inr ⟨w, e⟩)
      rcases ih next stays with ⟨ho, others⟩ | ⟨done, y, hy, own⟩
      · refine .inl ⟨ho, fun y hy => ?_⟩
        rcases List.mem_cons.mp hy with rfl | hy
        · assumption
        · exact others y hy
      · exact .inr ⟨done, y, List.mem_cons_of_mem _ hy, own⟩

/-! ## The cause of an outcome -/

/-- Why the deed ends the waiting of the future `f` with this outcome. A trigger ends nobody's but
that of the present renter of its slot. -/
inductive Justified (c : Scene P) (f : Future P) : Deed P → Outcome → Prop
  | granted (x : Deed P) (base : P.State) (es before behind : List (Petition P.Request))
      (e : Petition P.Request) (frees : c.Frees x base es)
      (split : P.admissible base es = before ++ e :: behind) (he : f.ticket = some e.ticket)
      (admitted : P.allows (P.entered base before) f.request = true) : Justified c f x .granted
  | cancelled (id : WaiterId) (token : Nat) (waits : f.stage = .waiting id)
      (ht : f.token = some token) (cancelled : c.tokens.isCancelled token = true) :
      Justified c f (.trigger id.slot) .cancelled
  | timedOut (id : WaiterId) (d : Duration) (waits : f.stage = .waiting id)
      (ht : f.timeout = .after d)
      (due : min (f.made.toNat + d) Time.maxNanos ≤ c.timers.now.toNat)
      (uncancelled : f.token.any c.tokens.isCancelled = false) :
      Justified c f (.trigger id.slot) .timedOut
  | interrupted (request : P.Request) (timeout : Timeout) (token : Option Nat) (reason : Reason)
      (active : c.sync.phase = .active) :
      Justified c f (.acquire request timeout token (some reason)) (.interrupted reason)
  | disposed (active : c.sync.phase = .active) : Justified c f .dispose .disposed

theorem Shows.renter_of_fired (h : c.Shows d L) {f : Future P} (hk : c.futures[k]? = some f)
    {e : Petition P.Request} (ht : f.ticket = some e.ticket) {slot : Nat}
    (he : c.inside.fired? slot = some (e, o)) : ∃ id, f.stage = .waiting id ∧ id.slot = slot := by
  obtain ⟨⟨w, hw, hp⟩, -⟩ := Section.fired?_eq_some he
  obtain ⟨l, g, id, hl, hg, hid, hgt⟩ := h.future_of_bare? (Section.bare?_of_waiter? hw)
  have same : g.ticket = some e.ticket := hgt.trans (by rw [Waiter.ticket_of_petition? hp]; rfl)
  obtain rfl := ticket_injective h.tickets hk hl ht same
  rw [hk] at hl
  obtain rfl := Option.some.inj hl
  exact ⟨id, hg, hid⟩

theorem Shows.justified_fired (h : c.Shows d L) {f : Future P} (hk : c.futures[k]? = some f)
    {e : Petition P.Request} (ht : f.ticket = some e.ticket) {slot : Nat}
    (he : c.inside.fired? slot = some (e, o)) : c.Justified f (.trigger slot) o := by
  obtain ⟨-, deadline, token⟩ := h.listed e (h.rests.mem_of_fired he) k f hk ht
  obtain ⟨id, hf, rfl⟩ := h.renter_of_fired hk ht he
  rcases Petition.cause?_eq_some (Section.fired?_eq_some he).2 with
    ⟨rfl, i, hi, hc⟩ | ⟨rfl, ⟨dl, hdl, due⟩, uncancelled⟩
  · exact .cancelled id i hf (by rw [← token, hi]) hc
  · rw [deadline] at hdl
    obtain ⟨span, htime, hnat⟩ := Timeout.deadline?_eq_some hdl
    refine .timedOut id span hf htime ?_ (by rw [← token]; exact uncancelled)
    rw [← hnat]
    exact Time.le_def.mp due

theorem Shows.justified (h : c.Shows d L) {f : Future P} (hk : c.futures[k]? = some f)
    {e : Petition P.Request} (he : e ∈ d.pending) (ht : f.ticket = some e.ticket)
    (cause : c.Cause e x o) : c.Justified f x o := by
  cases cause with
  | granted _ base es frees hmem =>
    obtain ⟨before, behind, split, admitted⟩ := Policy.allows_of_mem_admissible hmem
    rw [(h.listed e he k f hk ht).1] at admitted
    exact .granted x base es before behind e frees split ht admitted
  | fired slot o hf => exact h.justified_fired hk ht hf
  | interrupted request timeout token reason active => exact .interrupted _ _ _ _ active
  | disposed active => exact .disposed active

/-- Where an outcome comes from: it was there before, or it is new and has its cause. -/
theorem Shows.outcome_after (h : c.Shows d L) (x : Deed P) (ho : (c.after x).outcome? k = some o) :
    c.outcome? k = some o ∨
      ∃ f, c.futures[k]? = some f ∧ c.pends k = true ∧ c.Justified f x o := by
  obtain ⟨L', -, next⟩ := h.perform x
  obtain ⟨f', -, w, hk', -, -, -, ht'⟩ := next.future_of_outcome ho
  rw [next.outcome?_eq hk' ht'] at ho
  obtain ⟨v, hv, rfl⟩ := Option.map_eq_some_iff.mp ho
  -- A ticket that was known before belongs to the same future now.
  have place : ∀ (l : Nat) (g : Future P), c.futures[l]? = some g → g.ticket = some w.ticket →
      l = k := by
    intro l g hl hg
    obtain ⟨stage, hl', -⟩ := future_after hl x
    exact ticket_injective next.tickets hl' hk' hg ht'
  rcases h.learned x hv with hv | ⟨e, he, het, -, cause⟩
  · left
    obtain ⟨l, g, hl, hg⟩ := h.future_of_settled hv
    obtain rfl := place l g hl hg
    rw [h.outcome?_eq hl hg, hv, Option.map_some]
  · right
    obtain ⟨l, g, hl, hg⟩ := h.future_of_mem he
    obtain rfl := place l g hl (by rw [hg, het])
    exact ⟨g, hl, (h.pends_iff hl hg).mpr ⟨e, he, rfl⟩, h.justified hl he hg cause⟩

theorem run_append (c : Scene P) (xs ys : List (Deed P)) : c.run (xs ++ ys) = (c.run xs).run ys :=
  List.foldl_append

theorem Shows.outcome_of_run {c₀ : Scene P} {d₀ : Docket P} {L₀ : List Nat} (h₀ : c₀.Shows d₀ L₀)
    (nobody : c₀.futures = []) (xs : List (Deed P)) (ho : (c₀.run xs).outcome? k = some o) :
    ∃ ys x zs f, xs = ys ++ x :: zs ∧ (c₀.run ys).futures[k]? = some f ∧
      (c₀.run ys).pends k = true ∧ (c₀.run ys).Justified f x o ∧
      ((c₀.run ys).after x).outcome? k = some o := by
  induction xs using List.reverseRecOn with
  | nil =>
    obtain ⟨f, -, -, hk, -⟩ := h₀.future_of_outcome ho
    rw [nobody] at hk
    cases hk
  | append_singleton xs x ih =>
    obtain ⟨d, L, h⟩ := h₀.run xs
    rw [run_append] at ho
    rcases h.outcome_after x ho with before | ⟨f, hk, pends, why⟩
    · obtain ⟨ys, y, zs, f, rfl, rest⟩ := ih before
      exact ⟨ys, y, zs ++ [x], f, by simp, rest⟩
    · exact ⟨xs, x, [], f, rfl, hk, pends, why, ho⟩

/-- Every queued acquisition ends once, for a reason that held when it ended. A poll after that
answers the outcome, and no poll after that one answers anything. -/
theorem outcome_once (id : Nat) (holding : P.State) (warm : Nat) (retainLimit : Option Nat)
    (timers : Timers) (tokens : Tokens) (xs : List (Deed P)) (k : Nat) :
    let c₀ : Scene P := start id holding warm retainLimit timers tokens
    (∀ o, (c₀.run xs).outcome? k = some o →
      (∃ ys x zs f, xs = ys ++ x :: zs ∧ (c₀.run ys).futures[k]? = some f ∧
        (c₀.run ys).pends k = true ∧ (c₀.run ys).Justified f x o ∧
        ((c₀.run ys).after x).outcome? k = some o) ∧
      ∀ zs, let c := (c₀.run xs).run zs
        c.pends k = false ∧
          ((c.outcome? k = some o ∧ (∀ z ∈ zs, ¬ Own k z) ∧ ∀ w,
              (c.perform (.poll k w)).answer = some o.result ∧ (c.after (.poll k w)).IsDone k) ∨
            c.IsDone k ∧ ∃ z ∈ zs, Own k z)) ∧
      ((c₀.run xs).IsDone k → ∀ zs, let c := (c₀.run xs).run zs
        c.IsDone k ∧ c.pends k = false ∧ c.outcome? k = none ∧
          ∀ w, (c.perform (.poll k w)).answer = none) := by
  intro c₀
  have shows₀ := start_shows (P := P) id holding warm retainLimit timers tokens
  obtain ⟨d, L, h⟩ := shows₀.run xs
  refine ⟨fun o ho => ⟨shows₀.outcome_of_run rfl xs ho, fun zs => ?_⟩, fun done zs => ?_⟩
  · obtain ⟨d', L', h'⟩ := h.run zs
    rcases h.final ho zs with ⟨ho', others⟩ | ⟨done, own⟩
    · refine ⟨?_, .inl ⟨ho', others, fun w => h'.observed ho' w⟩⟩
      obtain ⟨w, hw, hwo⟩ := Option.bind_eq_some_iff.mp ho'
      show Option.any _ (Scene.waiter? _ k) = false
      rw [hw, Option.any_some, Waiter.isPending, hwo]
      rfl
    · exact ⟨(done.silent .sleeper).2.1, .inr ⟨done, own⟩⟩
  · have still := done.run zs
    exact ⟨still, (still.silent .sleeper).2.1, (still.silent .sleeper).2.2,
      fun w => (still.silent w).1⟩

/-- A waiter has run out of time. It keeps that outcome though the lock comes free and its slot is
triggered once more, until it is polled. -/
theorem outcome_once_late :
    let c : Scene Policy.standard := (start 0 (Holding.exclusive false) 0 none {} {}).run
      [.tryAcquire Request.entry, .acquire Request.entry (.after 5) none none,
        .elsewhere { now := Time.ofNanos 7 } {}, .trigger 0]
    let zs : List (Deed Policy.standard) := [.release (some Request.entry), .trigger 0]
    (c.run zs).pends 0 = false ∧
      (((c.run zs).outcome? 0 = some .timedOut ∧ (∀ z ∈ zs, ¬ Own 0 z) ∧ ∀ w,
          ((c.run zs).perform (.poll 0 w)).answer = some (.error .timedOut) ∧
            ((c.run zs).after (.poll 0 w)).IsDone 0) ∨
        (c.run zs).IsDone 0 ∧ ∃ z ∈ zs, Own 0 z) :=
  ((outcome_once (P := Policy.standard) 0 (Holding.exclusive false) 0 none {} {}
    [.tryAcquire Request.entry, .acquire Request.entry (.after 5) none none,
      .elsewhere { now := Time.ofNanos 7 } {}, .trigger 0] 0).1 .timedOut rfl).2 _

end Scene

end Turnstile
