import Turnstile.Text.Quoted

/-!
# Why an acquisition fails

Every failure a synchronizer reports is a `Refusal`. Some blame the caller's argument or the order
of its calls; the others are what became of one waiter and concern nobody else.
-/

namespace Turnstile

/-- Why a whole queue of waiters was interrupted. -/
structure Reason where
  text : String
  deriving DecidableEq, Inhabited, Repr

def Reason.detail (r : Reason) : String := "InterruptReason(" ++ Text.quote r.text ++ ")"

inductive Refusal where
  | invalidArgument (complaint : String)
  | notHeld
  | disposed
  | cancelled
  | timedOut
  | interrupted (reason : Reason)
  deriving DecidableEq, Inhabited, Repr

namespace Refusal

inductive Category where
  | argument
  | illegalState
  | disposed
  | outcome
  deriving DecidableEq, Inhabited, Repr

def category : Refusal → Category
  | invalidArgument _ => .argument
  | notHeld => .illegalState
  | disposed => .disposed
  | cancelled | timedOut | interrupted _ => .outcome

/-- A queued waiter can end this way. Disposal counts, though its category is its own. -/
def isWaiterOutcome : Refusal → Bool
  | cancelled | timedOut | interrupted _ | disposed => true
  | invalidArgument _ | notHeld => false

def reason? : Refusal → Option Reason
  | interrupted r => some r
  | _ => none

/-! ## Text -/

def message : Refusal → String
  | invalidArgument complaint => "invalid argument: " ++ complaint
  | notHeld => "synchronization object is not held by the caller"
  | disposed => "synchronization object has been disposed"
  | cancelled => "lock acquisition cancelled"
  | timedOut => "lock acquisition timed out"
  | interrupted r => "pending lock acquisition interrupted: " ++ r.text

/-- The name of the kind of refusal. -/
def kind : Refusal → String
  | invalidArgument _ => "InvalidArgument"
  | notHeld => "NotHeld"
  | disposed => "Disposed"
  | cancelled => "Cancelled"
  | timedOut => "TimedOut"
  | interrupted _ => "Interrupted"

def detail : Refusal → String
  | invalidArgument complaint => "InvalidArgument(" ++ Text.quote complaint ++ ")"
  | interrupted r => "Interrupted(" ++ r.detail ++ ")"
  | r => r.kind

end Refusal

def Refusal.Category.name : Refusal.Category → String
  | argument => "Argument"
  | illegalState => "IllegalState"
  | disposed => "Disposed"
  | outcome => "Outcome"

end Turnstile
