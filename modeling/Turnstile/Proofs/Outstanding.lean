import Turnstile.Proofs.HandingBack

/-!
# What is out keeps a synchronizer running

Disposal does not end before everything that was admitted has been given back, so there is always
somebody to take back what a dropped future was given. An admission that amounts to nothing is not
missed: a semaphore whose only guest has no permits is idle.
-/

namespace Turnstile

namespace Scene

variable {P : Policy} {A : P.Accounts} {c : Scene P} {held : Tally} {k : Nat} {f : Future P}
  {id : Nat} {holding : P.State} {warm : Nat} {retainLimit : Option Nat} {timers : Timers}
  {tokens : Tokens}

theorem HonestRun.outstanding_eq_zero (h₀ : A.Balances holding 0)
    (run : HonestRun A (start id holding warm retainLimit timers tokens) c held)
    (ended : c.sync.phase = .disposed) : c.outstanding A held = 0 := by
  obtain ⟨d, L, shows, balanced⟩ := run.balanced h₀
  rw [outstanding, shows.unseen_eq, ← add_assoc]
  exact balanced.ended (shows.phase.trans ended)

theorem HonestRun.running_of_admitted (h₀ : A.Balances holding 0)
    (run : HonestRun A (start id holding warm retainLimit timers tokens) c held)
    (hk : c.futures[k]? = some f) (admitted : c.Admitted k) (weighs : A.weight f.request ≠ 0) :
    c.sync.phase ≠ .disposed := by
  intro ended
  have out := weight_le_outstanding hk (unseenOf_admitted (A := A) hk admitted) held
  rw [run.outstanding_eq_zero h₀ ended] at out
  exact weighs (nonpos_iff_eq_zero.mp out)

/-- Disposal of a lock, a semaphore or a reader/writer lock has not ended while anything is out, nor
while a future that did not ask for no permits has been admitted and has not told. What it was given
at once can be handed back. -/
theorem running_of_outstanding {h : Holding} (hi : h.isIdle = true) {id warm : Nat}
    {retainLimit : Option Nat} {timers : Timers} {tokens : Tokens} {c : Scene Policy.standard}
    {held : Tally} (run : HonestRun (Policy.standardAccounts h)
      (start id h warm retainLimit timers tokens) c held) :
    (c.outstanding (Policy.standardAccounts h) held ≠ 0 → c.sync.phase ≠ .disposed) ∧
      ∀ (k : Nat) (f : Future Policy.standard), c.futures[k]? = some f → c.Admitted k →
        f.request ≠ Request.permits 0 → c.sync.phase ≠ .disposed ∧
          (c.inside.releaseBy fun hold => .ok (Policy.standard.release hold f.request)).2 =
            .ok () := by
  have h₀ : (Policy.standardAccounts h).Balances h 0 := balances_of_idle hi
  refine ⟨fun out ended => out (run.outstanding_eq_zero h₀ ended), fun k f hk admitted nonempty => ?_⟩
  have running := run.running_of_admitted h₀ hk admitted (Request.tally_ne_zero nonempty)
  have handed : c.inside.releaseBy (fun hold => .ok (Policy.standard.release hold f.request)) = _ :=
    Section.releaseBy_of_ok running rfl
  exact ⟨running, congrArg (·.2) handed⟩

/-- A lock is disposed before the future that was let in at once has told. -/
theorem running_of_outstanding_unseen :
    ∃ (c : Scene Policy.standard) (f : Future Policy.standard), c.futures[0]? = some f ∧
      c.Admitted 0 ∧ c.sync.phase = .disposing ∧
      (c.inside.releaseBy fun hold => .ok (Policy.standard.release hold f.request)).2 = .ok () := by
  have entered := HonestRun.step (A := Policy.standardAccounts (.exclusive false))
    (x := .acquire Request.entry .forever none none)
    (.init : HonestRun _ (start 0 (Holding.exclusive false) 0 none {} {}) _ _) trivial
  have disposed := entered.step (x := .dispose) trivial
  have running := (running_of_outstanding (h := .exclusive false) rfl disposed).2
  exact ⟨_, _, rfl, .inl ⟨_, rfl, rfl⟩, rfl, (running 0 _ rfl (.inl ⟨_, rfl, rfl⟩) nofun).2⟩

/-- A semaphore lets somebody in with no permits, and its disposal ends at once. What was let in cannot
be handed back any more. -/
theorem ended_with_no_permits :
    ∃ (c : Scene Policy.standard) (held : Tally) (f : Future Policy.standard),
      HonestRun (Policy.standardAccounts (.permits 1 1))
        (start 0 (Holding.permits 1 1) 0 none {} {}) c held ∧
      c.futures[0]? = some f ∧ f.request = Request.permits 0 ∧ c.Admitted 0 ∧
      c.sync.phase = .disposed ∧
      (c.inside.releaseBy fun hold => .ok (Policy.standard.release hold f.request)).2 =
        .error .disposed := by
  have entered := HonestRun.step (A := Policy.standardAccounts (.permits 1 1))
    (x := .acquire (Request.permits 0) .forever none none)
    (.init : HonestRun _ (start 0 (Holding.permits 1 1) 0 none {} {}) _ _) trivial
  have disposed := entered.step (x := .dispose) trivial
  exact ⟨_, _, _, disposed, rfl, rfl, .inl ⟨_, rfl, rfl⟩, rfl, rfl⟩

end Scene

end Turnstile
