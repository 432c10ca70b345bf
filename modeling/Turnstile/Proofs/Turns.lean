import Turnstile.Item
import Turnstile.Proofs.Progress
import Mathlib.Data.List.Perm.Subperm

/-!
# What one section does to a scene

An item that somebody keeps is a future of the scene. `Scene.Turns` says that a critical section is
what some deeds of the scene do, and that whoever keeps another item keeps another future.
-/

namespace Turnstile

variable {P : Policy}

/-! ## Shares -/

/-- What a future may still ask of its synchronizer. -/
def Stage.shares (stage : Stage) (request : P.Request) : List (P.Request × Stage) :=
  match stage with
  | .waiting _ | .ready (.ok _) => [(request, stage)]
  | .ready (.error _) | .done => []

/-- What the future in an item may still ask of synchronizer `i`. -/
def Item.shares (i : Nat) : Item P → List (P.Request × Stage)
  | .acquisition sync request _ stage | .locking sync request (some stage) =>
    if sync = i then stage.shares request else []
  | .locking _ _ none | .guard .. | .disposal _ | .registration _ => []

def Future.share (f : Future P) : P.Request × Stage := (f.request, f.stage)

theorem exists_of_cons_subperm {α : Type} {a : α} {l m : List α} (h : (a :: l).Subperm m) :
    ∃ k, m[k]? = some a ∧ ∀ b, (b :: l).Subperm (m.set k b) := by
  obtain ⟨xs, ys, rfl⟩ := List.append_of_mem (h.subset List.mem_cons_self)
  have rest : l.Subperm (xs ++ ys) :=
    (List.subperm_cons a).mp (h.trans List.perm_middle.subperm)
  refine ⟨xs.length, by simp, fun b => ?_⟩
  rw [List.set_append_right _ _ (Nat.le_refl _), Nat.sub_self, List.set_cons_zero]
  exact ((List.subperm_cons b).mpr rest).trans List.perm_middle.symm.subperm

/-! ## Deeds of a step -/

namespace Scene

/-- A new synchronizer gets there. -/
def Reachable (c : Scene P) : Prop :=
  ∃ id holding warm retainLimit timers tokens xs,
    c = (start id holding warm retainLimit timers tokens).run xs

theorem Reachable.run {c : Scene P} (h : c.Reachable) (xs : List (Deed P)) : (c.run xs).Reachable := by
  obtain ⟨id, holding, warm, retainLimit, timers, tokens, ys, rfl⟩ := h
  exact ⟨id, holding, warm, retainLimit, timers, tokens, ys ++ xs, (run_append _ ys xs).symm⟩

theorem Reachable.shows {c : Scene P} (h : c.Reachable) : ∃ d L, c.Shows d L := by
  obtain ⟨id, holding, warm, retainLimit, timers, tokens, ys, rfl⟩ := h
  exact run_shows id holding warm retainLimit timers tokens ys

/-- Deeds make the synchronizer `s` of that of the scene. Futures that had the shares `old` have `new`
afterwards, and all others keep theirs. -/
def Turns (c : Scene P) (old new : List (P.Request × Stage)) (s : Sync P) : Prop :=
  ∀ others, (old ++ others).Subperm (c.futures.map Future.share) →
    ∃ xs, (c.run xs).sync = s ∧ (new ++ others).Subperm ((c.run xs).futures.map Future.share)

variable {c : Scene P}

theorem turns_nothing (old : List (P.Request × Stage)) : c.Turns old [] c.sync := by
  intro others h
  exact ⟨[], rfl, (List.sublist_append_right old others).subperm.trans h⟩

theorem Turns.mono {old new fewer : List (P.Request × Stage)} {s : Sync P} (h : c.Turns old new s)
    (sub : fewer.Subperm new) : c.Turns old fewer s := by
  intro others fits
  obtain ⟨xs, sync, left⟩ := h others fits
  exact ⟨xs, sync, (sub.append (.refl others)).trans left⟩

theorem turns_alone (x : Deed P) (same : (c.after x).futures = c.futures) :
    c.Turns [] [] (c.after x).sync := by
  intro others h
  refine ⟨[x], rfl, ?_⟩
  show List.Subperm _ ((c.after x).futures.map Future.share)
  rwa [same]

theorem shares_subperm (stage : Stage) (request : P.Request) :
    (stage.shares request).Subperm [(request, stage)] := by
  rcases stage with (_ | _) | _ | _
  · exact List.nil_subperm
  · exact .refl _
  · exact .refl _
  · exact List.nil_subperm

theorem shares_acquired {others : List (P.Request × Stage)}
    (h : others.Subperm (c.futures.map Future.share)) (request : P.Request) (timeout : Timeout)
    (token : Option Nat) (steal : Option Reason) :
    ((c.inside.acquire request timeout token steal).2.shares request ++ others).Subperm
      ((c.after (.acquire request timeout token steal)).futures.map Future.share) := by
  show List.Subperm _ ((c.futures ++ [_]).map Future.share)
  rw [List.map_append, List.map_singleton]
  exact ((shares_subperm _ request).append h).trans List.perm_append_comm.subperm

theorem turns_acquire (request : P.Request) (timeout : Timeout) (token : Option Nat)
    (steal : Option Reason) :
    c.Turns [] ((c.inside.acquire request timeout token steal).2.shares request)
      (c.inside.acquire request timeout token steal).1.sync :=
  fun _ h => ⟨[.acquire request timeout token steal], rfl,
    shares_acquired h request timeout token steal⟩

theorem turns_of_set {request : P.Request} {stage : Stage} {s : Sync P} (new : Stage)
    (opened : stage.shares request = [(request, stage)])
    (deed : ∀ (k : Nat) (f : Future P), c.futures[k]? = some f → f.request = request →
      f.stage = stage → ∃ x, (c.after x).sync = s ∧
        (c.after x).futures = c.futures.set k { f with stage := new }) :
    c.Turns (stage.shares request) (new.shares request) s := by
  intro others h
  rw [opened] at h
  obtain ⟨k, hk, set⟩ := exists_of_cons_subperm h
  rw [List.getElem?_map] at hk
  obtain ⟨f, hf, share⟩ := Option.map_eq_some_iff.mp hk
  obtain ⟨rfl, rfl⟩ := Prod.mk.inj share
  obtain ⟨x, sync, futures⟩ := deed k f hf rfl rfl
  refine ⟨[x], sync, ?_⟩
  show List.Subperm _ ((c.after x).futures.map Future.share)
  rw [futures, List.map_set]
  exact ((shares_subperm new f.request).append (.refl others)).trans (set (f.request, new))

theorem turns_poll (request : P.Request) (stage : Stage) (waker : Waker) :
    c.Turns (stage.shares request) ((c.inside.pollStage stage waker).2.1.shares request)
      (c.inside.pollStage stage waker).1.sync := by
  have polled (k : Nat) (f : Future P) (hk : c.futures[k]? = some f) (_ : f.request = request)
      (hf : f.stage = stage) :
      ∃ x, (c.after x).sync = (c.inside.pollStage stage waker).1.sync ∧
        (c.after x).futures =
          c.futures.set k { f with stage := (c.inside.pollStage stage waker).2.1 } := by
    subst hf
    refine ⟨.poll k waker, ?_, ?_⟩ <;> simp [after, perform, hk, Effect.scene]
  rcases stage with (_ | _) | _ | _
  · exact turns_nothing []
  · exact turns_of_set _ rfl polled
  · exact turns_of_set _ rfl polled
  · exact turns_nothing []

theorem turns_drop (request : P.Request) (stage : Stage) :
    c.Turns (stage.shares request) [] (c.inside.dropStage request stage).sync := by
  have dropped (k : Nat) (f : Future P) (hk : c.futures[k]? = some f) (hr : f.request = request)
      (hf : f.stage = stage) :
      ∃ x, (c.after x).sync = (c.inside.dropStage request stage).sync ∧
        (c.after x).futures = c.futures.set k { f with stage := .done } := by
    subst hr hf
    refine ⟨.drop k, ?_, ?_⟩ <;> simp [after, drop_eq hk, Effect.scene]
  rcases stage with (_ | _) | _ | _
  · exact turns_nothing []
  · exact turns_of_set .done rfl dropped
  · exact turns_of_set .done rfl dropped
  · exact turns_nothing []

theorem Shows.waits_of_acquired {d : Docket P} {L : List Nat} (h : c.Shows d L) {request : P.Request}
    {timeout : Timeout} {token : Option Nat} {steal : Option Reason} {id : WaiterId}
    (waits : (c.inside.acquire request timeout token steal).2 = .waiting id) :
    ∃ w, (c.inside.acquire request timeout token steal).1.sync.line.pool.get? id = some w ∧
      w.outcome = none := by
  let x : Deed P := .acquire request timeout token steal
  obtain ⟨L', -, next⟩ := h.perform x
  have hk : (c.after x).futures[c.futures.length]? = some _ := List.getElem?_concat_length
  obtain ⟨-, -, begun⟩ := Section.acquire_rests h.rests request timeout token steal
  rcases ha : (d.acquire (c.inside.petition request timeout token) timeout.isZero
    (token.any c.inside.tokens.refuses) steal).2 with _ | answer
  · have listed : { c.inside.petition request timeout token with ticket := d.arrivals } ∈
        (d.after c x).pending := by
      show _ ∈ (d.acquire (c.inside.petition request timeout token) timeout.isZero
        (token.any c.inside.tokens.refuses) steal).1.pending
      rw [Docket.acquire_queued ha]
      exact List.mem_append_right _ List.mem_cons_self
    have ticket : (if (c.inside.acquire request timeout token steal).2.isWaiting then
        some c.sync.arrivals else none) = some d.arrivals := by
      rw [waits, show d.arrivals = c.sync.arrivals from h.rests.arrivals]
      rfl
    have pends := (next.pends_iff hk ticket).mpr ⟨_, listed, rfl⟩
    obtain ⟨e, he⟩ := pends_eq_true.mp pends
    obtain ⟨w, hw, hp⟩ := Option.bind_eq_some_iff.mp he
    obtain ⟨f, id', hf, hid, hget⟩ := waiter?_eq_some hw
    obtain rfl := Option.some.inj (hk.symm.trans hf)
    obtain rfl := Stage.waiting.inj (waits.symm.trans hid)
    exact ⟨w, hget, Option.isNone_iff_eq_none.mp (Waiter.isPending_iff.mpr ⟨e, hp⟩)⟩
  · rw [ha] at begun
    cases waits.symm.trans begun.1

/-- A locking future acquires and polls in one section. If it waits, its waiter is still pending, so
the wakes of the first half change nothing in the second. -/
theorem Shows.poll_acquired {d : Docket P} {L : List Nat} (h : c.Shows d L) (request : P.Request)
    (waker : Waker) :
    let begun := c.inside.acquire request .forever none none
    let apart := (c.after (.acquire request .forever none none)).inside.pollStage begun.2 waker
    apart.1.sync = (begun.1.pollStage begun.2 waker).1.sync ∧
      apart.2 = (begun.1.pollStage begun.2 waker).2 := by
  intro begun apart
  rcases hs : begun.2 with r | id | _
  · simp only [apart, hs]
    exact ⟨rfl, rfl⟩
  · obtain ⟨w, hw, pending⟩ := h.waits_of_acquired hs
    have hw' : (c.after (.acquire request .forever none none)).inside.sync.line.pool.get? id =
      some w := hw
    have hw : begun.1.sync.line.pool.get? id = some w := hw
    simp only [apart, hs, Section.pollStage, Section.poll, hw, hw', pending, and_true]
    rfl
  · simp only [apart, hs]
    exact ⟨rfl, rfl⟩

theorem turns_lock (h : c.Reachable) (request : P.Request) (waker : Waker) :
    let begun := c.inside.acquire request .forever none none
    c.Turns [] ((begun.1.pollStage begun.2 waker).2.1.shares request)
      (begun.1.pollStage begun.2 waker).1.sync := by
  intro begun others sub
  obtain ⟨d, L, shows⟩ := h.shows
  let x : Deed P := .acquire request .forever none none
  obtain ⟨same, answer⟩ := shows.poll_acquired request waker
  obtain ⟨ys, sync, rest⟩ := turns_poll (c := c.after x) request begun.2 waker others
    (shares_acquired sub request .forever none none)
  exact ⟨x :: ys, sync.trans same, by rw [← answer]; exact rest⟩

end Scene

end Turnstile
