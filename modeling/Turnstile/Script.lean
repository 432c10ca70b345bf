import Turnstile.Sync
import Turnstile.Timeout
import Turnstile.Settings

/-!
# Scripts

A script is a list of steps. Each step names what it works on and answers one `Answer`. A step that
leaves a waker behind may give it steps of its own, which run when the waker is woken.
-/

namespace Turnstile

inductive Moment where
  | at (t : Time)
  /-- This long from now. -/
  | in (d : Duration)
  deriving DecidableEq, Repr

/-- What an acquisition asks for. -/
structure Acquiring (P : Policy) where
  request : P.Request
  timeout : Except Refusal Timeout
  token : Option String := none
  /-- Running out of time is an answer and no failure. -/
  lenient : Bool := false
  /-- Interrupt the waiters in line first. -/
  steal : Option Reason := none

inductive Step (P : Policy) where
  -- Synchronizers
  /-- A new synchronizer; a raw one has no front. -/
  | create (name : String) (raw : Bool) (holding : P.State) (settings : Settings)
  /-- Another name for the same synchronizer. -/
  | clone (object name : String)
  | dropObject (object : String)
  | tryAcquire (object : String) (request : P.Request)
  | acquire (object name : String) (a : Acquiring P)
  /-- A future that acquires when it is first polled, and answers with a guard. -/
  | lock (object name : String) (request : P.Request)
  /-- Without a request it gives back whatever is held. -/
  | release (object : String) (request : Option P.Request)
  | dispose (object name : String)
  | holding (object : String)
  | describe (object : String)
  -- Slots
  | poll (slot waker : String) (onWake : Option (List (Step P)))
  | drop (slot : String)
  | isWaiting (slot : String)
  | guarded (slot : String)
  | isRegistrationCancelled (slot : String)
  | describeSlot (slot : String)
  -- Tokens
  | createToken (name : String)
  | child (token name : String)
  | cloneToken (token name : String)
  | dropToken (token : String)
  | cancel (token : String)
  | describeToken (token : String)
  | register (token name waker : String) (onWake : Option (List (Step P)))
  -- Clock and timers
  | advance (nanos : Nat)
  | advanceTo (t : Time)
  | setClock (t : Time)
  | now
  | describeClock
  | process
  | createTimer (name : String) (moment : Moment) (waker : String)
      (onWake : Option (List (Step P)))
  | cancelTimer (timer : String)
  | sameTimer (a b : String)
  | nextDeadline
  | timers
  | clearTimers
  | describeTimers
  -- Blocking
  /-- Polls until the future is done, while the clock runs. -/
  | wait (slot : String)
  /-- Waits until the waker has been woken, while the clock runs. -/
  | waitWaker (waker : String)

instance {P : Policy} : Inhabited (Step P) := ⟨.process⟩

mutual

/-- The number of steps in a step, those it gives its waker included. -/
def Step.size {P : Policy} : Step P → Nat
  | .poll _ _ (some steps) | .register _ _ _ (some steps) | .createTimer _ _ _ (some steps) =>
    Step.sizes steps + 1
  | _ => 1

def Step.sizes {P : Policy} : List (Step P) → Nat
  | [] => 0
  | s :: rest => Step.size s + Step.sizes rest

end

inductive Answer (P : Policy) where
  | nothing
  | ok
  | refused (r : Refusal)
  | flag (b : Bool)
  /-- Whether a new acquisition waits; a lenient one does not tell. -/
  | waiting (b : Option Bool)
  | pending
  | guard
  | disposed
  | dropped
  | registered
  | fired
  /-- The step names something that is not there. -/
  | missing
  /-- The slot holds something that cannot be polled. -/
  | notFuture
  /-- An acquisition was polled after it had answered. -/
  | acquisitionDone
  /-- A locking future was polled after it had failed. -/
  | lockingDone
  | count (n : Nat)
  | instant (t : Time)
  | deadline (t : Option Time)
  | timer (k : TimerKey)
  | timers (now : Time) (next : Option Time) (count : Nat) (isEmpty : Bool)
  | holding (h : P.State)
  | guarded (held : Bool) (text : String)
  | text (s : String)

end Turnstile
