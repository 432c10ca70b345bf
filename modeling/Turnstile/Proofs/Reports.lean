import Turnstile.Proofs.Visits

/-!
# When a step of the script is reported

What a step of the script still has to do stays on the agenda, in its order, until the step is
reported. So between two steps of the script nothing is left to be reported.
-/

namespace Turnstile

variable {P : Policy}

/-- The report on a step of the script is closed with this. -/
def Frame.closes : Frame P → Bool
  | .finish top _ | .await top _ | .awaitWaker top _ => top
  | _ => false

namespace Machine

variable {m m₀ : Machine P} {rest : List (Frame P)} {top : Bool}

/-- All that has happened has been reported. -/
structure Reported (m : Machine P) : Prop where
  wakes : m.wakes = []
  nested : m.nested = []
  events : m.events = []

/-- What comes before `rest` leaves it and closes the report last, or has closed it. -/
def Closes (m : Machine P) (rest : List (Frame P)) : Prop :=
  (∃ F g, m.agenda = F ++ g :: rest ∧ g.closes = true) ∨ m.agenda = rest ∧ m.Reported

theorem closes_deliver (m : Machine P) (answer : Answer P) :
    (m.deliver true answer).Closes m.agenda := .inr ⟨rfl, rfl, rfl, rfl⟩

theorem closes_elapse (m : Machine P) {again : Frame P} (closes : again.closes = true) :
    (m.elapse true again).Closes m.agenda := by
  unfold elapse
  split
  · exact m.closes_deliver .pending
  · exact .inl ⟨[_], again, rfl, closes⟩

theorem closes_take (m : Machine P) (t : Turn P) : (m.take true t).Closes m.agenda :=
  .inl ⟨.wake false t.wakes :: (t.firing.toList.map .children ++
    t.put.toList.map (fun p : String × Item P => .put p.1 p.2) ++ t.held.toList.map .letGo),
    .finish true t.answer, by simp [take, push, report], rfl⟩

theorem closes_begin (m : Machine P) (s : Step P) : (m.begin true s).Closes m.agenda := by
  cases s with
  | wait slot => exact .inl ⟨[], _, rfl, rfl⟩
  | waitWaker waker => exact .inl ⟨[], _, rfl, rfl⟩
  | _ => exact m.closes_take _

theorem closes_perform (m : Machine P) {f : Frame P} (closes : f.closes = true) :
    (m.perform f).Closes m.agenda := by
  cases f with
  | finish top answer =>
    obtain rfl : top = true := closes
    exact m.closes_deliver answer
  | await top slot =>
    obtain rfl : top = true := closes
    simp only [perform, await]
    split
    · exact closes_elapse { m with world := _ } rfl
    · exact m.closes_take _
  | awaitWaker top waker =>
    obtain rfl : top = true := closes
    simp only [perform]
    split
    · exact m.closes_deliver .fired
    · exact m.closes_elapse rfl
  | _ => cases closes

theorem agenda_deliver (m : Machine P) (top : Bool) (answer : Answer P) :
    (m.deliver top answer).agenda = m.agenda := by
  cases top <;> rfl

theorem agenda_elapse (m : Machine P) (top : Bool) (again : Frame P) :
    ∃ F, (m.elapse top again).agenda = F ++ m.agenda := by
  unfold elapse
  split
  · exact ⟨[], m.agenda_deliver top _⟩
  · exact ⟨[_, _], rfl⟩

theorem agenda_begin (m : Machine P) (top : Bool) (s : Step P) :
    ∃ F, (m.begin top s).agenda = F ++ m.agenda := by
  cases s with
  | wait slot => exact ⟨[_], rfl⟩
  | waitWaker waker => exact ⟨[_], rfl⟩
  | _ => exact ⟨_ :: _, rfl⟩

theorem agenda_perform (m : Machine P) (f : Frame P) :
    ∃ F, (m.perform f).agenda = F ++ m.agenda := by
  cases f with
  | wake aside ws =>
    rcases ws with _ | ⟨w, ws⟩
    · exact ⟨[], rfl⟩
    rcases w with name | _ | ⟨i, j⟩
    · simp only [perform, wake, push]
      split
      · exact ⟨[_], rfl⟩
      · exact ⟨[_, _], rfl⟩
    · exact ⟨[_], rfl⟩
    · exact ⟨[_, _], rfl⟩
  | children t => exact ⟨[_], rfl⟩
  | cancel ts =>
    rcases ts with _ | ⟨t, ts⟩
    · exact ⟨[], rfl⟩
    simp only [perform, cancelChild]
    split
    · exact ⟨[_, _, _], rfl⟩
    · exact ⟨[_], rfl⟩
  | run steps =>
    rcases steps with _ | ⟨s, ss⟩
    · exact ⟨[], rfl⟩
    · obtain ⟨F, planned⟩ := (m.push [.run ss]).agenda_begin false s
      exact ⟨F ++ [.run ss], planned.trans (by simp [push])⟩
  | put slot item =>
    simp only [perform, put]
    split
    · exact ⟨[], rfl⟩
    · exact ⟨[_], rfl⟩
  | letGo t => exact ⟨[], rfl⟩
  | finish top answer => exact ⟨[], m.agenda_deliver top answer⟩
  | await top slot =>
    simp only [perform, await]
    split
    · exact agenda_elapse { m with world := _ } top _
    · exact ⟨_ :: _, rfl⟩
  | awaitWaker top waker =>
    simp only [perform]
    split
    · exact ⟨[], m.agenda_deliver top _⟩
    · exact m.agenda_elapse top _

theorem Closes.step (h : m.Closes []) : m.step.Closes [] := by
  obtain ⟨world, agenda, script, woken, wakes, nested, events, reports⟩ := m
  rcases h with ⟨F, g, planned, closes⟩ | ⟨done, reported⟩
  · obtain rfl : agenda = F ++ [g] := planned
    rcases F with _ | ⟨f, F⟩
    · exact closes_perform ⟨world, [], script, woken, wakes, nested, events, reports⟩ closes
    · obtain ⟨F', planned⟩ := agenda_perform
        ⟨world, F ++ [g], script, woken, wakes, nested, events, reports⟩ f
      exact .inl ⟨F' ++ F, g, planned.trans (List.append_assoc _ _ _).symm, closes⟩
  · obtain rfl : agenda = [] := done
    rcases script with _ | ⟨s, script⟩
    · exact .inr ⟨rfl, reported⟩
    · exact closes_begin ⟨world, [], script, woken, wakes, nested, events, reports⟩ s

/-- Between two steps of the script nothing is left to be reported. -/
theorem Fresh.reported (fresh : m₀.Fresh) {n : Nat} (idle : (step^[n] m₀).agenda = []) :
    (step^[n] m₀).Reported := by
  have closes (n : Nat) : (step^[n] m₀).Closes [] := by
    induction n with
    | zero =>
      obtain ⟨now, ownClock, running, script, rfl⟩ := fresh
      exact .inr ⟨rfl, rfl, rfl, rfl⟩
    | succ n ih =>
      rw [Function.iterate_succ_apply']
      exact ih.step
  rcases closes n with ⟨F, g, planned, -⟩ | ⟨-, reported⟩
  · rw [idle] at planned
    exact absurd planned.symm (List.append_ne_nil_of_right_ne_nil F (List.cons_ne_nil g []))
  · exact reported

end Machine

end Turnstile
