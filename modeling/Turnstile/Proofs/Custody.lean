import Turnstile.Proofs.Conservation
import Turnstile.Proofs.Turns

/-!
# Honest callers and what they keep

`Scene.Turns` lets callers forget what they keep. Here they do not: what is out is what they have been
told to have, and what their futures may still ask is exactly what they keep.
-/

namespace Turnstile

variable {P : Policy}

/-- What the future may still ask of its synchronizer. -/
def Future.shares (f : Future P) : List (P.Request × Stage) := f.stage.shares f.request

namespace Scene

def shares (c : Scene P) : List (P.Request × Stage) := c.futures.flatMap Future.shares

variable {A : P.Accounts} {c : Scene P} {held : Tally}

/-- Deeds of callers who are honest and have `held` make the synchronizer `s` of that of the scene, and
they have `held'` then. Futures that had the shares `old` have `new` afterwards, and all others keep
theirs. -/
def Leads (A : P.Accounts) (c : Scene P) (held : Tally) (old new : List (P.Request × Stage))
    (s : Sync P) (held' : Tally) : Prop :=
  ∀ c₀ others, HonestRun A c₀ c held → (old ++ others).Perm c.shares →
    ∃ c', HonestRun A c₀ c' held' ∧ c'.sync = s ∧ (new ++ others).Perm c'.shares

theorem leads_nothing : c.Leads A held [] [] c.sync held :=
  fun _ _ run keeps => ⟨c, run, rfl, keeps⟩

theorem leads_alone (x : Deed P) (honest : Honest A held x)
    (same : (c.after x).futures = c.futures) :
    c.Leads A held [] [] (c.after x).sync (c.heldAfter A held x) := by
  intro c₀ others run keeps
  refine ⟨c.after x, run.step honest, rfl, ?_⟩
  rw [shares, same]
  exact keeps

theorem mem_shares {f : Future P} {r : P.Request} {stage : Stage} (h : (r, stage) ∈ f.shares) :
    f.request = r ∧ f.stage = stage := by
  unfold Future.shares Stage.shares at h
  split at h
  · obtain ⟨rfl, rfl⟩ := Prod.mk.inj (List.mem_singleton.mp h)
    exact ⟨rfl, rfl⟩
  · rename_i hs
    obtain ⟨rfl, rfl⟩ := Prod.mk.inj (List.mem_singleton.mp h)
    exact ⟨rfl, rfl⟩
  · cases h
  · cases h

theorem future_of_share {request : P.Request} {stage : Stage} {others : List (P.Request × Stage)}
    (opened : stage.shares request = [(request, stage)])
    (keeps : ((request, stage) :: others).Perm c.shares) :
    ∃ (k : Nat) (f : Future P), c.futures[k]? = some f ∧ f.request = request ∧ f.stage = stage ∧
      ∀ next : Stage, (next.shares request ++ others).Perm
        ((c.futures.set k { f with stage := next }).flatMap Future.shares) := by
  obtain ⟨f, hf, share⟩ := List.mem_flatMap.mp (keeps.subset List.mem_cons_self)
  obtain ⟨rfl, rfl⟩ := mem_shares share
  obtain ⟨xs, ys, futures⟩ := List.append_of_mem hf
  have own : f.shares = [(f.request, f.stage)] := opened
  unfold shares at keeps
  rw [futures, List.flatMap_append, List.flatMap_cons, own] at keeps
  have rest : others.Perm (xs.flatMap Future.shares ++ ys.flatMap Future.shares) :=
    (keeps.trans List.perm_middle).cons_inv
  refine ⟨xs.length, f, by simp [futures], rfl, rfl, fun next => ?_⟩
  rw [futures, List.set_append_right _ _ (Nat.le_refl _), Nat.sub_self, List.set_cons_zero,
    List.flatMap_append, List.flatMap_cons]
  exact (rest.append_left _).trans (List.perm_append_comm_assoc _ _ _)

theorem leads_of_set {request : P.Request} {stage : Stage} {s : Sync P} {held' : Tally} (next : Stage)
    (opened : stage.shares request = [(request, stage)])
    (deed : ∀ (k : Nat) (f : Future P), c.futures[k]? = some f → f.request = request →
      f.stage = stage → ∃ x, Honest A held x ∧ (c.after x).sync = s ∧
        (c.after x).futures = c.futures.set k { f with stage := next } ∧
        c.heldAfter A held x = held') :
    c.Leads A held (stage.shares request) (next.shares request) s held' := by
  intro c₀ others run keeps
  rw [opened] at keeps
  obtain ⟨k, f, hk, rfl, rfl, set⟩ := future_of_share opened keeps
  obtain ⟨x, honest, sync, futures, heldAfter⟩ := deed k f hk rfl rfl
  refine ⟨c.after x, heldAfter ▸ run.step honest, sync, ?_⟩
  rw [shares, futures]
  exact set next

theorem leads_poll (request : P.Request) (stage : Stage) (waker : Waker) :
    c.Leads A held (stage.shares request)
      ((c.inside.pollStage stage waker).2.1.shares request)
      (c.inside.pollStage stage waker).1.sync
      (held + Docket.taken A request (c.inside.pollStage stage waker).2.2) := by
  have polled (k : Nat) (f : Future P) (hk : c.futures[k]? = some f) (hr : f.request = request)
      (hf : f.stage = stage) :
      ∃ x, Honest A held x ∧ (c.after x).sync = (c.inside.pollStage stage waker).1.sync ∧
        (c.after x).futures =
          c.futures.set k { f with stage := (c.inside.pollStage stage waker).2.1 } ∧
        c.heldAfter A held x =
          held + Docket.taken A request (c.inside.pollStage stage waker).2.2 := by
    subst hf hr
    refine ⟨.poll k waker, trivial, ?_, ?_, ?_⟩
    · simp [after, perform, hk, Effect.scene]
    · simp [after, perform, hk, Effect.scene]
    · rw [heldAfter_poll held hk]
      simp [perform, hk]
  have nothing : c.Leads A held [] [] c.sync (held + 0) := by
    rw [add_zero]
    exact leads_nothing
  rcases stage with (_ | _) | _ | _
  · exact nothing
  · exact leads_of_set _ rfl polled
  · exact leads_of_set _ rfl polled
  · exact nothing

theorem heldAfter_drop (held : Tally) (k : Nat) : c.heldAfter A held (.drop k) = held := by
  unfold heldAfter
  split <;> rfl

theorem leads_drop (request : P.Request) (stage : Stage) :
    c.Leads A held (stage.shares request) [] (c.inside.dropStage request stage).sync held := by
  have dropped (k : Nat) (f : Future P) (hk : c.futures[k]? = some f) (hr : f.request = request)
      (hf : f.stage = stage) :
      ∃ x, Honest A held x ∧ (c.after x).sync = (c.inside.dropStage request stage).sync ∧
        (c.after x).futures = c.futures.set k { f with stage := .done } ∧
        c.heldAfter A held x = held := by
    subst hf hr
    refine ⟨.drop k, trivial, ?_, ?_, heldAfter_drop held k⟩ <;>
      simp [after, drop_eq hk, Effect.scene]
  rcases stage with (_ | _) | _ | _
  · exact leads_nothing
  · exact leads_of_set .done rfl dropped
  · exact leads_of_set .done rfl dropped
  · exact leads_nothing

theorem leads_lock {d : Docket P} {L : List Nat} (shows : c.Shows d L) (request : P.Request)
    (waker : Waker) :
    let begun := c.inside.acquire request .forever none none
    c.Leads A held [] ((begun.1.pollStage begun.2 waker).2.1.shares request)
      (begun.1.pollStage begun.2 waker).1.sync
      (held + Docket.taken A request (begun.1.pollStage begun.2 waker).2.2) := by
  intro begun c₀ others run keeps
  let x : Deed P := .acquire request .forever none none
  obtain ⟨same, answer⟩ := shows.poll_acquired request waker
  have queued : HonestRun A c₀ (c.after x) held := run.step trivial
  have kept : (begun.2.shares request ++ others).Perm (c.after x).shares := by
    show (_ ++ others).Perm ((c.futures ++ [_]).flatMap Future.shares)
    rw [List.flatMap_append, List.flatMap_singleton]
    exact (keeps.append_left _).trans List.perm_append_comm
  obtain ⟨c', later, sync, rest⟩ :=
    leads_poll (c := c.after x) request begun.2 waker c₀ others queued kept
  rw [← answer]
  exact ⟨c', later, sync.trans same, rest⟩

/-! ## What the shares tell -/

/-- What a share has been given and has not told. -/
def unseenShare (A : P.Accounts) (s : Sync P) (q : P.Request × Stage) : Tally :=
  match q.2 with
  | .ready (.ok _) => A.weight q.1
  | .waiting id =>
    if (s.line.pool.get? id).any (·.outcome = some .granted) then A.weight q.1 else 0
  | _ => 0

theorem unseen_eq_shares (c : Scene P) : c.unseen A = (c.shares.map (unseenShare A c.sync)).sum := by
  have each (f : Future P) : c.unseenOf A f = (f.shares.map (unseenShare A c.sync)).sum := by
    unfold unseenOf Future.shares
    rcases f.stage with (_ | _) | id | _ <;> simp [Stage.shares, unseenShare]
  unfold unseen shares
  rw [List.map_congr_left fun f _ => each f]
  induction c.futures with
  | nil => rfl
  | cons f fs ih => rw [List.map_cons, List.sum_cons, ih, List.flatMap_cons, List.map_append,
      List.sum_append]

variable {d : Docket P} {L : List Nat}

theorem Shows.waiter_of_share (h : c.Shows d L) {r : P.Request} {id : WaiterId}
    (share : (r, .waiting id) ∈ c.shares) :
    ∃ w, c.sync.line.pool.get? id = some w ∧ w.request = r := by
  obtain ⟨f, hf, share⟩ := List.mem_flatMap.mp share
  obtain ⟨rfl, waits⟩ := mem_shares share
  obtain ⟨k, hk⟩ := List.mem_iff_getElem?.mp hf
  obtain ⟨w, -, hget, -, hr⟩ := h.waiter?_eq hk waits
  exact ⟨w, hget, hr⟩

theorem Shows.share_of_mem (h : c.Shows d L) {e : Petition P.Request} (he : e ∈ d.pending) :
    ∃ id, (e.request, .waiting id) ∈ c.shares := by
  obtain ⟨k, f, hk, ht⟩ := h.future_of_mem he
  obtain ⟨w, hw, -⟩ := Option.bind_eq_some_iff.mp ((h.pending_ticket hk ht).mp he)
  obtain ⟨g, id, hg, waits, -⟩ := waiter?_eq_some hw
  obtain rfl := Option.some.inj (hk.symm.trans hg)
  refine ⟨id, List.mem_flatMap.mpr ⟨f, List.mem_of_getElem? hk, ?_⟩⟩
  rw [(h.listed e he k f hk ht).1, Future.shares, waits]
  exact List.mem_singleton.mpr rfl

end Scene

end Turnstile
