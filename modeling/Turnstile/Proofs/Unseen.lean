import Turnstile.Holding
import Turnstile.Proofs.Tandem

/-!
# Nobody sees the pool

How many waiters a pool makes in advance and how many it keeps decides which slot a waiter gets. Two
runs of one script with other settings of the pools answer the same, wake the same tasks in the same
order and show the same, except for the slots that the events name and for what the pools tell about
themselves.
-/

namespace Turnstile

variable {P : Policy}

theorem Step.Alike.size_eq {s s' : Step P} (h : s.Alike s') : s'.size = s.size := by
  cases h <;> rfl

theorem Step.sizes_eq {xs ys : List (Step P)} (h : List.Forall₂ Step.Alike xs ys) :
    Step.sizes ys = Step.sizes xs := by
  induction h with
  | nil => rfl
  | cons alike _ ih => rw [Step.sizes, Step.sizes, alike.size_eq, ih]

namespace Machine

section

variable (now : Time) (ownClock : Option Time) (running : Bool) {xs ys : List (Step P)}
  (alike : List.Forall₂ Step.Alike xs ys) (quiet : ∀ s ∈ xs, s.quiet = true)

include alike quiet

theorem twin_ofScript :
    (ofScript (.blank now ownClock running) xs).Twin (fun _ j => j)
      (ofScript (.blank now ownClock running) ys) where
  world :=
    { timers := rfl, size := rfl, ownClock := rfl, running := rfl, objects := rfl
      tokenNames := rfl, timerNames := rfl, onWake := rfl
      tokens := by simp [ofScript, World.blank, Tokens.redirect]
      syncs := fun i => by simp [ofScript, World.blank]
      calm := fun _ _ h => by cases h
      slots := .nil }
  agenda := .nil
  script := alike
  quiet := quiet
  woken := rfl
  wakes := rfl
  nested := rfl
  events := rfl
  reports := rfl
  named := fun _ hf => by cases hf
  ordered := .nil

theorem twin_iterate (n : Nat) :
    ∃ g, (step^[n] (ofScript (.blank now ownClock running) xs)).Twin g
      (step^[n] (ofScript (.blank now ownClock running) ys)) := by
  have fresh (zs : List (Step P)) : (ofScript (.blank now ownClock running) zs).Fresh :=
    ⟨now, ownClock, running, zs, rfl⟩
  induction n with
  | zero => exact ⟨_, twin_ofScript now ownClock running alike quiet⟩
  | succ n ih =>
    obtain ⟨g, twin⟩ := ih
    rw [Function.iterate_succ_apply', Function.iterate_succ_apply']
    exact twin.step ((fresh xs).plays n) ((fresh ys).plays n) ((fresh xs).minded n)

end

end Machine

/-- Two runs of one script show the same whatever the settings of the pools, but for what the pools
tell and for the slots that the events name. No waker runs a step. -/
theorem World.settings_unseen (now : Time) (ownClock : Option Time) (running : Bool)
    {xs ys : List (Step P)} (alike : List.Forall₂ Step.Alike xs ys)
    (quiet : ∀ s ∈ xs, s.quiet = true) :
    ((World.blank now ownClock running).run ys).map Report.blurred =
      ((World.blank now ownClock running).run xs).map Report.blurred := by
  obtain ⟨g, twin⟩ := Machine.twin_iterate now ownClock running alike quiet (Machine.allowance xs)
  unfold World.run Machine.run
  rw [Machine.runAtMost_eq, Machine.runAtMost_eq,
    show Machine.allowance ys = Machine.allowance xs by
      unfold Machine.allowance
      rw [Step.sizes_eq alike]]
  exact twin.reports

/-- Three wait for one permit, one of them leaves, and another one gets its slot or a new one. -/
def rentals (settings : Settings) : List (Step Policy.standard) :=
  [.create "gate" true (Holding.permits 1 1) settings,
    .createToken "stop",
    .acquire "gate" "first" { request := Request.permits 1, timeout := .ok .forever },
    .acquire "gate" "second"
      { request := Request.permits 1, timeout := .ok (.after 5), token := some "stop" },
    .acquire "gate" "third" { request := Request.permits 1, timeout := .ok .forever },
    .poll "third" "task" (some []),
    .drop "second",
    .acquire "gate" "fourth" { request := Request.permits 1, timeout := .ok .forever },
    .release "gate" (some (Request.permits 1)),
    .describe "gate"]

theorem settings_unseen_rentals :
    let warm : Settings := { concurrencyLevel := some 3, poolRetainLimit := some 0 }
    List.Forall₂ Step.Alike (rentals {}) (rentals warm) ∧ (∀ s ∈ rentals {}, s.quiet = true) ∧
      ((World.blank .zero none false).run (rentals warm)).map Report.blurred =
        ((World.blank .zero none false).run (rentals {})).map Report.blurred := by
  intro warm
  have alike : List.Forall₂ Step.Alike (rentals {}) (rentals warm) :=
    .cons (.create _ _ _ rfl rfl) (List.forall₂_same.mpr fun s _ => .same s)
  have quiet : ∀ s ∈ rentals {}, s.quiet = true := by decide
  exact ⟨alike, quiet, World.settings_unseen .zero none false alike quiet⟩

end Turnstile
