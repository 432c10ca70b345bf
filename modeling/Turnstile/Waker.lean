/-!
# Whom a wake reaches
-/

namespace Turnstile

inductive Waker where
  /-- A task, by its name. -/
  | task (name : String)
  /-- The caller that blocks until its future is done. -/
  | sleeper
  /-- The waiter in slot `slot` of synchronizer `sync`, when its deadline or its token fires. -/
  | trigger (sync slot : Nat)
  deriving DecidableEq, Inhabited, Repr

end Turnstile
