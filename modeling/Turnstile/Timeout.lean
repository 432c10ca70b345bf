import Turnstile.Time
import Turnstile.Refusal

/-!
# How long a request may stay queued

A zero timeout never queues: the request is admitted at once or refused.
-/

namespace Turnstile

inductive Timeout where
  | forever
  | after (d : Duration)
  deriving DecidableEq, Inhabited, Repr

namespace Timeout

def zero : Timeout := after 0

def ofDuration? : Option Duration → Timeout
  | none => forever
  | some d => after d

/-- Milliseconds with a sign: -1 stands for no limit, any other negative number is refused. -/
def ofMillis (n : Int) : Except Refusal Timeout :=
  if n = -1 then .ok forever
  else if n < 0 then .error (.invalidArgument "timeout must not be negative")
  else .ok (after (n.toNat * 1000000))

def duration? : Timeout → Option Duration
  | forever => none
  | after d => some d

def isZero (t : Timeout) : Bool := t = zero

def isForever (t : Timeout) : Bool := t = forever

end Timeout

end Turnstile
