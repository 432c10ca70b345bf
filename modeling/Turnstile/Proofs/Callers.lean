import Turnstile.Proofs.Estate
import Turnstile.Proofs.Serving
import Turnstile.Proofs.Wakes

/-!
# Whom a grant wakes

Futures are polled by tasks and by sleepers only. So nobody who stands in line would wake another
waiter when it is resolved, and a wake that reaches a waiter comes from the timers or from a token.
-/

namespace Turnstile

variable {P : Policy}

/-! ## One order -/

namespace Docket

variable {d : Docket P}

/-- Nobody who is pending would wake another waiter. -/
def Tame (d : Docket P) : Prop := ∀ e ∈ d.pending, e.waker.bind Waker.target? = none

theorem Tame.obey (h : d.Tame) (now : Time) (tokens : Tokens) (x : Order P)
    (caller : ∀ t waker, x = .observe t waker → waker.target? = none) :
    (d.obey now tokens x).1.Tame := by
  cases x with
  | observe t waker =>
    intro e he
    unfold Docket.obey Docket.observe at he
    dsimp only at he
    split at he
    · obtain ⟨y, hy, rfl⟩ := List.mem_map.mp he
      split
      · exact caller t waker rfl
      · exact h y hy
    · exact h e he
  | _ =>
    intro e he
    rcases (d.obey_becomes now tokens _).pending (by simp) he with before | ⟨-, unpolled⟩
    · exact h e before
    · rw [unpolled]
      rfl

theorem Tame.run (h : d.Tame) (x : Errand P)
    (caller : ∀ t waker, x.order = some (.observe t waker) → waker.target? = none) :
    (d.run x).1.Tame := by
  unfold Docket.run
  rcases hx : x.order with _ | order
  · exact h
  · exact h.obey x.now x.tokens order fun t waker same => caller t waker (by rw [hx, same])

theorem mem_trigger_wakes {e : Petition P.Request} (he : e ∈ d.pending) {o : Outcome} {waker : Waker}
    (hw : waker ∈ (d.trigger e o).wakes) :
    waker ∈ d.wakes ∨ ∃ y ∈ d.pending, y.waker = some waker := by
  have gathered : (d.trigger e o).wakes = (d.wakes ++ e.waker.toList) ++
      (P.admissible d.holding (d.strike e.ticket).pending).filterMap (·.waker) :=
    foldl_settle_wakes .granted _ (settle o (d.strike e.ticket) e)
  rw [gathered, List.append_assoc, List.mem_append, List.mem_append, Option.mem_toList] at hw
  rcases hw with before | own | granted
  · exact .inl before
  · exact .inr ⟨e, he, own⟩
  · obtain ⟨y, hy, same⟩ := List.mem_filterMap.mp granted
    exact .inr ⟨y, List.filter_sublist.subset ((admissible_sublist _ _).subset hy), same⟩

end Docket

/-! ## Sections -/

namespace Section

variable {s : Section P}

/-- The section is in order, and nobody in its line would wake another waiter. -/
def Tame (s : Section P) : Prop := ∃ d L, s.Rests d L ∧ d.Tame

theorem Tame.serve (h : s.Tame) (x : Call P)
    (caller : ∀ id waker, x = .poll id waker → waker.target? = none) : (s.serve x).after.Tame := by
  obtain ⟨d, L, rests, tame⟩ := h
  obtain ⟨L', agrees⟩ := rests.agrees x
  refine ⟨_, L', agrees.rests, tame.run _ fun t waker same => ?_⟩
  cases x with
  | poll id waker' =>
    obtain ⟨_, -, same⟩ := Option.map_eq_some_iff.mp same
    obtain ⟨-, rfl⟩ := Order.observe.inj same
    exact caller id _ rfl
  | trigger slot =>
    obtain ⟨_, -, same⟩ := Option.map_eq_some_iff.mp same
    cases same
  | abandon id =>
    obtain ⟨_, -, same⟩ := Option.map_eq_some_iff.mp same
    cases same
  | _ => cases same

theorem Tame.acquire (h : s.Tame) (request : P.Request) (timeout : Timeout) (token : Option Nat)
    (steal : Option Reason) : (s.acquire request timeout token steal).1.Tame :=
  h.serve (.acquire request timeout token steal) (by simp)

theorem Tame.pollStage (h : s.Tame) (stage : Stage) {waker : Waker} (caller : waker.target? = none) :
    (s.pollStage stage waker).1.Tame := by
  rcases stage with r | id | _
  · exact h
  · have polled : (s.poll id waker).1.Tame := h.serve (.poll id waker) fun _ _ same => by
      rw [← (Call.poll.inj same).2]
      exact caller
    unfold Section.pollStage
    dsimp only
    rcases hp : s.poll id waker with ⟨t, _ | r⟩ <;> rwa [hp] at polled
  · exact h

theorem Tame.releaseBy (h : s.Tame) (f : P.State → Except Refusal P.State) :
    (s.releaseBy f).1.Tame := h.serve (.giveBack f) (by simp)

theorem Tame.dropStage (h : s.Tame) (request : P.Request) (stage : Stage) :
    (s.dropStage request stage).Tame := by
  rcases stage with (r | _) | id | _
  · exact h
  · exact h.releaseBy _
  · exact h.serve (.abandon id) (by simp)
  · exact h

theorem Tame.dropGuard (h : s.Tame) (request : P.Request) : (s.dropGuard request).Tame := by
  obtain ⟨d, L, rests, tame⟩ := h
  obtain ⟨L', dropped, -⟩ := dropGuard_rests rests request
  exact ⟨_, L', dropped,
    tame.obey s.timers.now s.tokens (.giveBack (Section.returned request)) (by simp)⟩

end Section

/-! ## Runs -/

/-- The same of a synchronizer, whatever the timers and the tokens are. -/
structure Sync.Tame (s : Sync P) : Prop where
  rests : s.Rests
  docket : s.docket.Tame

theorem Section.Tame.sync {s : Section P} (h : s.Tame) : s.sync.Tame := by
  obtain ⟨d, L, rests, tame⟩ := h
  refine ⟨Sync.rests_of_section rests, ?_⟩
  rw [rests.docket_eq]
  exact tame

theorem Sync.Tame.section {s : Sync P} (h : s.Tame) (timers : Timers) (tokens : Tokens) :
    ({ sync := s, timers, tokens } : Section P).Tame := by
  obtain ⟨L, rests⟩ := h.rests
  exact ⟨s.docket, L, rests timers tokens, h.docket⟩

/-- Nobody in any line would wake another waiter. -/
def World.Tame (w : World P) : Prop := ∀ (i : Nat) (s : Sync P), w.syncs[i]? = some s → s.Tame

namespace World

variable {w : World P}

theorem Tame.visit {α : Type} (h : w.Tame) (i : Nat) (otherwise : α)
    (f : Section P → Section P × α) (keeps : ∀ s, Section.Tame s → (f s).1.Tame) :
    (w.visit i otherwise f).world.Tame := by
  intro j s hj
  unfold World.visit at hj
  rcases hi : w.syncs[i]? with _ | t <;> rw [hi] at hj
  · exact h j s hj
  · have hj : (w.outside i (f (w.inside t)).1).syncs[j]? = some s := hj
    rw [outside_sync hi] at hj
    split at hj
    · rw [← Option.some.inj hj]
      exact (keeps _ ((h i t hi).section w.timers w.tokens)).sync
    · exact h j s hj

theorem Tame.pollItem (h : w.Tame) {waker : Waker} (caller : waker.target? = none) {item : Item P}
    {v : Visit P (Item P × Answer P)} (hv : w.pollItem? waker item = some v) : v.world.Tame := by
  have polled (sync : Nat) (otherwise : Polled) (stage : Stage) :
      (w.visit sync otherwise fun s => s.pollStage stage waker).world.Tame :=
    h.visit sync otherwise _ fun s hs => hs.pollStage stage caller
  rcases item with ⟨sync, request, lenient, r | id | _⟩ | ⟨sync, request, _ | r | id | _⟩ |
    ⟨sync, request⟩ | sync | r
  · obtain rfl := Option.some.inj hv
    exact polled sync _ _
  · obtain rfl := Option.some.inj hv
    exact polled sync _ _
  · obtain rfl := Option.some.inj hv
    exact h
  · obtain rfl := Option.some.inj hv
    exact h.visit sync _ _ fun s hs => (hs.acquire request .forever none none).pollStage _ caller
  · obtain rfl := Option.some.inj hv
    exact polled sync _ _
  · obtain rfl := Option.some.inj hv
    exact polled sync _ _
  · obtain rfl := Option.some.inj hv
    exact h
  · cases hv
  · obtain rfl := Option.some.inj hv
    exact h.visit sync _ _ fun s hs => hs.serve (.pollDispose waker) (by simp)
  · cases hv

theorem Tame.discard (h : w.Tame) (item : Item P) : (w.discard item).world.Tame := by
  rcases item with ⟨sync, request, lenient, stage⟩ | ⟨sync, request, _ | stage⟩ | ⟨sync, request⟩ |
    sync | r
  · exact h.visit sync _ _ fun s hs => hs.dropStage request stage
  · exact h
  · exact h.visit sync _ _ fun s hs => hs.dropStage request stage
  · exact h.visit sync _ _ fun s hs => hs.dropGuard request
  · exact h
  · exact h

theorem Tame.rests (h : w.Tame) {i : Nat} {s : Sync P} (hs : w.syncs[i]? = some s) :
    ∃ L, (w.inside s).Rests s.docket L := by
  obtain ⟨L, rests⟩ := (h i s hs).rests
  exact ⟨L, rests w.timers w.tokens⟩

theorem Tame.targets_trigger (h : w.Tame) (i j : Nat) :
    targets (w.touch i fun s => s.trigger j).wakes = [] := by
  rcases hi : w.syncs[i]? with _ | s
  · rw [touch_eq_of_none hi]
    rfl
  · rw [touch_eq hi]
    obtain ⟨L, rests⟩ := h.rests hi
    obtain ⟨L', fired, -⟩ := Section.trigger_rests rests j
    refine List.filterMap_eq_nil_iff.mpr fun waker hw => ?_
    rw [show ((w.inside s).trigger j).wakes = _ from fired.wakes.symm] at hw
    rcases he : (w.inside s).fired? j with _ | ⟨e, o⟩
    · rw [he] at hw
      cases hw
    · rw [he] at hw
      rcases Docket.mem_trigger_wakes (rests.mem_of_fired he) hw with before | ⟨y, hy, same⟩
      · cases before
      · have tame := (h i s hi).docket y hy
        rwa [same] at tame

end World

theorem Estate.Goes.tame {x y : Estate P} {ask : Option (Nat × Demand P)} (goes : x.Goes ask y)
    (h : x.world.Tame) : y.world.Tame := by
  induction goes with
  | refl => exact h
  | still _ syncs _ ih =>
    intro i s hs
    rw [syncs] at hs
    exact ih i s hs
  | @founded y holding warm retainLimit _ _ ih =>
    intro i s hs
    have hs := (Array.getElem?_push ..).symm.trans hs
    split at hs
    · rw [← Option.some.inj hs]
      obtain ⟨rests, new⟩ := Sync.create_rests (P := P) y.world.syncs.size holding warm retainLimit
      refine ⟨rests, ?_⟩
      rw [new]
      simp [Docket.Tame]
    · exact ih i s hs
  | tried _ _ ih => exact ih.visit _ _ _ fun s hs => hs.acquire _ .zero none none
  | acquired timeout token _ _ hv ih =>
    subst hv
    exact ih.visit _ _ _ fun s hs => hs.acquire _ timeout token _
  | refused _ _ _ ih => exact ih
  | opened _ _ ih => exact ih
  | released _ _ ih => exact ih.visit _ _ _ fun s hs => hs.releaseBy _
  | disposed _ _ ih => exact ih.visit _ _ _ fun s hs => hs.serve .dispose (by simp)
  | registered _ _ ih => exact ih
  | triggered i j _ ih => exact ih.visit _ _ _ fun s hs => hs.serve (.trigger j) (by simp)
  | @polled y item rest waker v _ _ caller hv ih =>
    refine ih.pollItem ?_ hv
    cases waker with
    | trigger i j => exact absurd rfl (caller i j)
    | _ => rfl
  | dropped _ _ ih => exact ih.discard _

/-- Whatever a script does, nobody in any line would wake another waiter. -/
theorem Machine.Fresh.tame {m : Machine P} (h : m.Fresh) (n : Nat) : (step^[n] m).world.Tame :=
  h.keeps (I := fun x => x.world.Tame) n
    (fun w none i s hs => by
      rw [none] at hs
      simp at hs)
    fun _ _ _ goes before => goes.tame before

end Turnstile
