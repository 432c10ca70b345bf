import Turnstile.Time
import Turnstile.Waker
import Turnstile.Text.Record

/-!
# Timers

Registered timers wait in the order in which they will fire: by deadline and, for one deadline, by
registration. Nothing fires on its own. Whoever processes the timers gets the wakers of those whose
deadline the clock has reached.
-/

namespace Turnstile

/-- One registration. Numbers are never used twice. -/
structure TimerKey where
  deadline : Time
  number : Nat
  deriving DecidableEq, Inhabited, Repr

/-- The one that fires first. -/
def TimerKey.precedes (a b : TimerKey) : Bool :=
  a.deadline < b.deadline || (a.deadline = b.deadline && a.number < b.number)

structure Timers where
  now : Time := .zero
  nextNumber : Nat := 0
  /-- In the order of firing. -/
  pending : List (TimerKey × Waker) := []
  deriving DecidableEq, Inhabited, Repr

namespace Timers

/-- Puts a timer before the first one that it precedes. -/
def insert (k : TimerKey) (w : Waker) : List (TimerKey × Waker) → List (TimerKey × Waker)
  | [] => [(k, w)]
  | e :: rest => if k.precedes e.1 then (k, w) :: e :: rest else e :: insert k w rest

def register (t : Timers) (deadline : Time) (w : Waker) : Timers × TimerKey :=
  let k : TimerKey := ⟨deadline, t.nextNumber⟩
  ({ t with nextNumber := t.nextNumber + 1, pending := insert k w t.pending }, k)

def isPending (t : Timers) (k : TimerKey) : Bool := t.pending.any (·.1 = k)

def cancel (t : Timers) (k : TimerKey) : Timers :=
  { t with pending := t.pending.filter (·.1 ≠ k) }

def clear (t : Timers) : Timers := { t with pending := [] }

def isDue (now : Time) (e : TimerKey × Waker) : Bool := e.1.deadline ≤ now

/-- Takes all timers whose deadline has come; they are no longer pending. -/
def takeDue (t : Timers) : Timers × List (TimerKey × Waker) :=
  ({ t with pending := t.pending.dropWhile (isDue t.now) }, t.pending.takeWhile (isDue t.now))

def nextDeadline? (t : Timers) : Option Time := t.pending.head?.map (·.1.deadline)

def count (t : Timers) : Nat := t.pending.length

def isEmpty (t : Timers) : Bool := t.pending.isEmpty

/-! ## Text -/

def detail (t : Timers) : String :=
  Text.record "TimerDriverHandle" [("pending_count", toString t.count)]

end Timers

def TimerKey.detail (k : TimerKey) : String :=
  Text.record "TimerHandle" [("deadline", k.deadline.detail), ("id", toString k.number)]

end Turnstile
