import Turnstile.Machine
import Mathlib.Data.List.Perm.Basic
import Mathlib.Logic.Function.Iterate

/-!
# The agenda

The wakers that critical sections gather go on the agenda of the machine, and none leaves it without
being woken.
-/

namespace Turnstile

variable {P : Policy}

/-! ## Sections that gather nobody -/

namespace Section

variable {s : Section P}

theorem exposeAtMost_wakes (fuel : Nat) (s : Section P) :
    (s.exposeAtMost fuel).wakes = s.wakes := by
  induction fuel generalizing s with
  | zero => rfl
  | succ fuel ih =>
    unfold exposeAtMost
    split
    · rfl
    · split
      · rfl
      · exact ih _

theorem enqueue_wakes (request : P.Request) (timeout : Timeout) (token : Option Nat) :
    (s.enqueue request timeout token).1.wakes = s.wakes := by
  simp only [enqueue]
  split <;> rfl

theorem acquire_wakes (request : P.Request) (timeout : Timeout) (token : Option Nat) :
    (s.acquire request timeout token none).1.wakes = s.wakes := by
  have exposed : s.exposeHead.wakes = s.wakes := exposeAtMost_wakes _ s
  unfold acquire
  split
  · rfl
  · dsimp only [Option.elim_none]
    split
    · exact exposed
    · split
      · exact exposed
      · split
        · exact exposed
        · exact (enqueue_wakes request timeout token).trans exposed

theorem poll_wakes {id : WaiterId} {waker : Waker} (pending : (s.poll id waker).2 = none) :
    (s.poll id waker).1.wakes = s.wakes := by
  unfold poll at *
  split
  · rfl
  · rename_i w hw
    rw [hw] at pending
    dsimp only at pending ⊢
    split
    · rfl
    · rename_i o ho
      rw [ho] at pending
      cases pending

theorem pollStage_wakes {stage : Stage} {waker : Waker}
    (pending : (s.pollStage stage waker).2.2 = none) :
    (s.pollStage stage waker).1.wakes = s.wakes := by
  rcases stage with r | id | _
  · cases pending
  · have polled : (s.poll id waker).2 = none → (s.poll id waker).1.wakes = s.wakes := poll_wakes
    unfold pollStage at *
    rcases hp : s.poll id waker with ⟨t, _ | r⟩ <;> rw [hp] at polled <;>
      simp only [hp] at pending ⊢
    · exact polled rfl
    · cases pending
  · rfl

theorem pollDispose_wakes (waker : Waker) : (s.pollDispose waker).1.wakes = s.wakes := by
  unfold pollDispose
  split
  · rfl
  · split <;> rfl

end Section

namespace World

variable {w : World P}

theorem visit_wakes {α : Type} {i : Nat} {otherwise : α} {f : Section P → Section P × α}
    {p : α → Prop} (hp : p (w.visit i otherwise f).value)
    (quiet : ∀ s : Section P, p (f s).2 → (f s).1.wakes = s.wakes) :
    (w.visit i otherwise f).wakes = [] := by
  unfold visit at *
  split
  · rfl
  · rename_i hi
    rw [hi] at hp
    exact quiet _ hp

theorem outcomeAnswer_ne_pending (lenient : Bool) (r : Except Refusal Unit) :
    (outcomeAnswer lenient r : Answer P) ≠ .pending := by
  rcases r with r | _
  · cases r <;> cases lenient <;> simp [outcomeAnswer]
  · cases lenient <;> simp [outcomeAnswer]

theorem pollItem?_wakes {item : Item P} {waker : Waker} {v : Visit P (Item P × Answer P)}
    (hv : w.pollItem? waker item = some v) (pending : v.value.2 = .pending) : v.wakes = [] := by
  unfold pollItem? at hv
  split at hv
  · cases Option.some.inj hv
    cases pending
  · rename_i sync request lenient stage _
    cases Option.some.inj hv
    refine visit_wakes (p := fun polled => polled.2 = none) ?_ fun s => Section.pollStage_wakes
    by_contra answered
    obtain ⟨r, hr⟩ := Option.ne_none_iff_exists'.mp answered
    simp only [hr, Option.elim_some] at pending
    exact outcomeAnswer_ne_pending lenient r pending
  · cases Option.some.inj hv
    cases pending
  · rename_i sync request stage _
    cases Option.some.inj hv
    refine visit_wakes (p := fun polled => polled.2 = none) ?_ fun s quiet => ?_
    · by_contra answered
      obtain ⟨r, hr⟩ := Option.ne_none_iff_exists'.mp answered
      rcases r with r | _ <;> simp [hr] at pending
    · rcases stage with _ | stage
      · exact (Section.pollStage_wakes quiet).trans (Section.acquire_wakes _ _ _)
      · exact Section.pollStage_wakes quiet
  · cases Option.some.inj hv
    exact visit_wakes (p := fun _ => True) trivial fun s _ => Section.pollDispose_wakes waker
  · cases hv
  · cases hv

theorem poll_wakes {slot : String} {waker : Waker}
    (pending : (w.poll slot waker).answer = .pending) : (w.poll slot waker).wakes = [] := by
  unfold poll lookup at *
  rcases hi : w.slots.find? slot with _ | item
  · rfl
  · rw [hi] at pending
    dsimp only at pending ⊢
    rcases hv : World.pollItem? { w with slots := w.slots.erase slot } waker item with _ | v
    · rfl
    · rw [hv] at pending
      exact pollItem?_wakes hv pending

end World

/-! ## What is still to be done -/

/-- The wakers that are to be woken. -/
def Frame.wakers : Frame P → List Waker
  | .wake _ ws => ws
  | _ => []

namespace Machine

/-- All wakers that are to be woken, the next one first. -/
def due (m : Machine P) : List Waker := m.agenda.flatMap Frame.wakers

/-- The waker that the next step wakes. -/
def waking? (m : Machine P) : Option Waker :=
  match m.agenda with
  | .wake _ (w :: _) :: _ => some w
  | _ => none

/-- The wakers that fire when the clock runs on. -/
def elapsing (w : World P) : List Waker := w.elapse?.elim [] (·.wakes)

/-- The wakers that are gathered by what the next step does for the frame. -/
def gathersFor (m : Machine P) : Frame P → List Waker
  | .wake _ (.trigger sync slot :: _) => (m.world.touch sync fun s => s.trigger slot).wakes
  | .cancel (t :: _) =>
    if m.world.tokens.isAlive t && !m.world.tokens.isCancelled t then (m.world.tokens.fire t).2
    else []
  | .run (s :: _) => (m.world.start s).wakes
  | .put slot item =>
    (m.world.slots.find? slot).elim [] fun old =>
      (World.discard { m.world with slots := m.world.slots.insert slot item } old).wakes
  | .await _ slot =>
    let t := m.world.poll slot .sleeper
    t.wakes ++
      match t.put, t.answer with
      | some _, .pending => elapsing t.world
      | _, _ => []
  | .awaitWaker _ waker => if waker ∈ m.woken then [] else elapsing m.world
  | _ => []

/-- The wakers that the next step gathers. -/
def gathers (m : Machine P) : List Waker :=
  match m.agenda with
  | f :: _ => m.gathersFor f
  | [] => m.script.head?.elim [] fun s => (m.world.start s).wakes

/-- The wakers that the next `n` steps gather. -/
def gathered (m : Machine P) : Nat → List Waker
  | 0 => []
  | n + 1 => m.gathers ++ m.step.gathered n

/-- The wakers that the next `n` steps wake. -/
def roused (m : Machine P) : Nat → List Waker
  | 0 => []
  | n + 1 => m.waking?.toList ++ m.step.roused n

variable {m : Machine P}

theorem due_push (frames : List (Frame P)) :
    (m.push frames).due = frames.flatMap Frame.wakers ++ m.due := List.flatMap_append

theorem due_follow {α : Type} (v : Visit P α) (aside : Bool) :
    (m.follow v aside).due = v.wakes ++ m.due := rfl

theorem due_take (top : Bool) (t : Turn P) : (m.take top t).due = t.wakes ++ m.due := by
  unfold take
  rw [due_push, List.flatMap_cons]
  have rest : (t.firing.toList.map Frame.children ++
      t.put.toList.map (fun p : String × Item P => Frame.put p.1 p.2) ++
      t.held.toList.map Frame.letGo ++ [Frame.finish top t.answer]).flatMap Frame.wakers = [] := by
    rcases t.firing with _ | t' <;> rcases t.put with _ | p <;> rcases t.held with _ | h <;> rfl
  rw [rest, List.append_nil]
  rfl

theorem due_deliver (top : Bool) (answer : Answer P) : (m.deliver top answer).due = m.due := by
  cases top <;> rfl

theorem due_begin (top : Bool) (s : Step P) :
    (m.begin top s).due = (m.world.start s).wakes ++ m.due := by
  cases s with
  | wait slot => rfl
  | waitWaker waker => rfl
  | _ => exact due_take ..

theorem due_elapse (top : Bool) {again : Frame P} (silent : again.wakers = []) :
    (m.elapse top again).due = elapsing m.world ++ m.due := by
  unfold elapse elapsing
  rcases m.world.elapse? with _ | v
  · exact due_deliver top .pending
  · rw [Option.elim_some]
    dsimp only
    rw [due_follow, due_push, List.flatMap_cons, silent]
    rfl

theorem elapsing_slots (w : World P) (slots : Names (Item P)) :
    elapsing { w with slots } = elapsing w := by
  unfold elapsing World.elapse?
  dsimp only
  rcases w.timers.nextDeadline? with _ | t <;> rfl

theorem due_await (top : Bool) (slot : String) :
    (m.await top slot).due = m.gathersFor (.await top slot) ++ m.due := by
  have quiet : (m.world.poll slot .sleeper).answer = .pending →
      (m.world.poll slot .sleeper).wakes = [] := World.poll_wakes
  simp only [await, gathersFor]
  generalize m.world.poll slot .sleeper = t at quiet ⊢
  split
  · rename_i name item hput pending
    rw [hput, pending, quiet pending, due_elapse top rfl, elapsing_slots]
    rfl
  · rename_i settled
    rw [due_take]
    split
    · rename_i p hput pending
      exact (settled p.1 p.2 hput pending).elim
    · rw [List.append_nil]

theorem due_wake (aside : Bool) (waker : Waker) (ws : List Waker) :
    (m.wake aside waker).due = m.gathersFor (.wake aside (waker :: ws)) ++ m.due := by
  rcases waker with name | _ | ⟨sync, slot⟩
  · unfold wake
    dsimp only
    split <;> rfl
  · rfl
  · rfl

theorem due_put (slot : String) (item : Item P) :
    (m.put slot item).due = m.gathersFor (.put slot item) ++ m.due := by
  simp only [put, gathersFor]
  rcases m.world.slots.find? slot with _ | old <;> rfl

theorem due_cancelChild (t : Nat) (ts : List Nat) :
    (m.cancelChild t).due = m.gathersFor (.cancel (t :: ts)) ++ m.due := by
  simp only [cancelChild, gathersFor]
  split
  · rw [due_push]
    simp [Frame.wakers]
    rfl
  · rfl

theorem due_perform (f : Frame P) (silent : f.wakers = []) :
    (m.perform f).due = m.gathersFor f ++ m.due := by
  cases f with
  | wake aside ws =>
    obtain rfl : ws = [] := silent
    rfl
  | children t => rfl
  | cancel ts =>
    rcases ts with _ | ⟨t, ts⟩
    · rfl
    · exact due_cancelChild (m := m.push [.cancel ts]) t ts
  | run steps =>
    rcases steps with _ | ⟨s, steps⟩
    · rfl
    · exact due_begin (m := m.push [.run steps]) false s
  | put slot item => exact due_put slot item
  | letGo t => rfl
  | finish top answer => exact due_deliver top answer
  | await top slot => exact due_await top slot
  | awaitWaker top waker =>
    simp only [perform, gathersFor]
    split
    · exact due_deliver top .fired
    · exact due_elapse top rfl

/-- The next step takes the waker that it wakes off the agenda and puts those on it that it
gathers. -/
theorem due_step (m : Machine P) :
    ∃ rest, m.due = m.waking?.toList ++ rest ∧ m.step.due = m.gathers ++ rest := by
  obtain ⟨world, agenda, script, woken, wakes, nested, events, reports⟩ := m
  let rest (agenda : List (Frame P)) (script : List (Step P)) : Machine P :=
    ⟨world, agenda, script, woken, wakes, nested, events, reports⟩
  rcases agenda with _ | ⟨f, frames⟩
  · refine ⟨[], rfl, ?_⟩
    rcases script with _ | ⟨s, script⟩
    · rfl
    · exact due_begin (m := rest [] script) true s
  · by_cases silent : f.wakers = []
    · refine ⟨frames.flatMap Frame.wakers, ?_, due_perform (m := rest frames script) f silent⟩
      rw [due, List.flatMap_cons, silent, waking?]
      split
      · rename_i h
        cases h
        cases silent
      · rfl
    · obtain ⟨aside, w, ws, rfl⟩ : ∃ aside w ws, f = .wake aside (w :: ws) := by
        cases f with
        | wake aside ws =>
          rcases ws with _ | ⟨w, ws⟩
          · exact absurd rfl silent
          · exact ⟨aside, w, ws, rfl⟩
        | _ => exact absurd rfl silent
      exact ⟨ws ++ frames.flatMap Frame.wakers, rfl,
        due_wake (m := (rest frames script).push [.wake aside ws]) aside w ws⟩

/-- Whoever is gathered is woken or is still to be woken. -/
theorem gathered_or_due (m : Machine P) (n : Nat) :
    (m.due ++ m.gathered n).Perm (m.roused n ++ (step^[n] m).due) := by
  induction n generalizing m with
  | zero => simp [gathered, roused]
  | succ n ih =>
    obtain ⟨rest, before, after⟩ := m.due_step
    have later := ih m.step
    rw [after] at later
    rw [gathered, roused, before, Function.iterate_succ_apply, List.append_assoc, List.append_assoc]
    refine List.Perm.append_left _ (List.Perm.trans ?_ later)
    rw [← List.append_assoc]
    exact List.perm_append_comm.append_right _

theorem step_of_isDone {m : Machine P} (done : m.isDone = true) : m.step = m := by
  obtain ⟨agenda, script⟩ := (Bool.and_eq_true _ _).mp done
  unfold step
  rw [List.isEmpty_iff.mp agenda, List.isEmpty_iff.mp script]

theorem runAtMost_eq (fuel : Nat) (m : Machine P) : runAtMost fuel m = step^[fuel] m := by
  induction fuel generalizing m with
  | zero => rfl
  | succ fuel ih =>
    unfold runAtMost
    split
    · rename_i done
      exact (Function.iterate_fixed (step_of_isDone done) _).symm
    · exact ih m.step

end Machine

end Turnstile
