import Turnstile.Refusal
import Turnstile.Timers
import Turnstile.Token

/-!
# Waiters

A waiter is one queued acquisition. It is pending until something resolves it, and keeps its outcome
until its future has observed it.
-/

namespace Turnstile

/-- How a queued acquisition ended. -/
inductive Outcome where
  | granted
  | cancelled
  | timedOut
  | interrupted (reason : Reason)
  | disposed
  deriving DecidableEq, Inhabited, Repr

def Outcome.result : Outcome → Except Refusal Unit
  | granted => .ok ()
  | cancelled => .error .cancelled
  | timedOut => .error .timedOut
  | interrupted r => .error (.interrupted r)
  | disposed => .error .disposed

def Outcome.detail : Outcome → String
  | granted => "Granted"
  | cancelled => "Cancelled"
  | timedOut => "TimedOut"
  | interrupted r => "Interrupted(" ++ r.detail ++ ")"
  | disposed => "Disposed"

structure Waiter (R : Type) where
  request : R
  /-- The number of the acquisition in the order of arrival. -/
  ticket : Nat := 0
  /-- None while the waiter is pending. -/
  outcome : Option Outcome := none
  /-- The task that polled last. -/
  waker : Option Waker := none
  deadline : Option Time := none
  timer : Option TimerKey := none
  registration : Option Registration := none
  /-- The slot of the waiter behind this one in the line. -/
  next : Option Nat := none
  linked : Bool := false
  /-- Resolved by its own trigger while it stood in the line. -/
  lingers : Bool := false
  deriving Repr

namespace Waiter

variable {R : Type}

def isPending (w : Waiter R) : Bool := w.outcome.isNone

def isDisarmed (w : Waiter R) : Bool := w.timer.isNone && w.registration.isNone

/-- As the pool keeps it between two rentals. -/
def idle (blank : R) : Waiter R := { request := blank }

/-- Ready for the next renter. What is armed or linked is not this operation's to clear. -/
def cleared (w : Waiter R) (blank : R) : Waiter R :=
  { w with
    request := blank, ticket := 0, outcome := none, waker := none, deadline := none,
    next := none, lingers := false }

end Waiter

end Turnstile
