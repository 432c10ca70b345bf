import Turnstile.Policy
import Turnstile.Text.Record

/-!
# Locks, semaphores and reader/writer locks

The three kinds of synchronizer as one policy. An exclusive lock has one holder. A semaphore hands
out permits up to its capacity. A reader/writer lock has any number of readers or one writer.
A request of another kind is never admitted and changes nothing.
-/

namespace Turnstile

inductive Access where
  | read
  | write
  deriving DecidableEq, Inhabited, Repr

inductive Request where
  | entry
  | permits (n : Nat)
  | access (a : Access)
  deriving DecidableEq, Inhabited, Repr

inductive Holding where
  | exclusive (held : Bool)
  | permits (available capacity : Nat)
  | access (readers : Nat) (writer : Bool)
  deriving DecidableEq, Inhabited, Repr

namespace Holding

/-! ## Rules -/

def allows : Holding → Request → Bool
  | exclusive held, .entry => !held
  | permits available _, .permits n => n ≤ available
  | access _ writer, .access .read => !writer
  | access readers writer, .access .write => !writer && readers = 0
  | _, _ => false

def enter : Holding → Request → Holding
  | exclusive _, .entry => exclusive true
  | permits available capacity, .permits n => permits (available - n) capacity
  | access readers writer, .access .read => access (readers + 1) writer
  | access readers _, .access .write => access readers true
  | h, _ => h

def mayRelease : Holding → Request → Bool
  | exclusive held, .entry => held
  | permits available capacity, .permits n => n ≤ capacity - available
  | access readers _, .access .read => 0 < readers
  | access _ writer, .access .write => writer
  | _, _ => false

def release : Holding → Request → Holding
  | exclusive _, .entry => exclusive false
  | permits available capacity, .permits n => permits (available + n) capacity
  | access readers writer, .access .read => access (readers - 1) writer
  | access readers _, .access .write => access readers false
  | h, _ => h

def isIdle : Holding → Bool
  | exclusive held => !held
  | permits available capacity => available = capacity
  | access readers writer => !writer && readers = 0

/-! ## The front -/

def opening : Holding → Option String
  | permits _ 0 => some "capacity must be positive"
  | _ => none

def noPermits : String := "permits must be positive"

def entry : Holding → Request → Option String
  | permits _ capacity, .permits n =>
    if n = 0 then some noPermits
    else if capacity < n then some "permits exceed semaphore capacity"
    else none
  | _, _ => none

def exit : Holding → Request → Option String
  | permits _ _, .permits 0 => some noPermits
  | _, _ => none

/-- The writer if there is one, otherwise a reader. -/
def access? : Holding → Option Access
  | access readers writer =>
    if writer then some .write else if 0 < readers then some .read else none
  | _ => none

def standing : Holding → Option Request
  | exclusive held => if held then some .entry else none
  | h => h.access?.map .access

/-! ## Text -/

def kind : Holding → String
  | exclusive _ => "exclusive"
  | permits _ _ => "semaphore"
  | access _ _ => "rwlock"

def text : Holding → String
  | exclusive held => Text.record "ExclusivePolicy" [("held", toString held)]
  | permits available capacity =>
    Text.record "SemaphorePolicy"
      [("available", toString available), ("capacity", toString capacity)]
  | access readers writer =>
    Text.record "ReadWritePolicy" [("readers", toString readers), ("writer", toString writer)]

def title : Holding → String
  | exclusive _ => "ExclusiveLock"
  | permits _ _ => "CountingSemaphore"
  | access _ _ => "ReaderWriterLock"

def trailer : Holding → List (String × String)
  | permits _ capacity => [("capacity", toString capacity)]
  | _ => []

end Holding

def Access.text : Access → String
  | read => "Read"
  | write => "Write"

def Request.text : Request → String
  | entry => "()"
  | permits n => toString n
  | access a => a.text

/-- The policy of the three kinds of synchronizer. -/
def Policy.standard : Policy where
  State := Holding
  Request := Turnstile.Request
  blank := .entry
  allows := Holding.allows
  enter := Holding.enter
  mayRelease := Holding.mayRelease
  release := Holding.release
  isIdle := Holding.isIdle
  desk :=
    { opening := Holding.opening, entry := Holding.entry, exit := Holding.exit,
      standing := Holding.standing }
  labels :=
    { kind := Holding.kind, request := Turnstile.Request.text, state := Holding.text,
      title := Holding.title, trailer := Holding.trailer }

end Turnstile
