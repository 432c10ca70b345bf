import Turnstile.Line
import Turnstile.Policy

/-!
# Synchronizers

One synchronizer is a holding, the line of those who wait for it, and how far its disposal has come.
-/

namespace Turnstile

inductive Phase where
  | active
  /-- Disposal has begun: nobody enters any more. -/
  | disposing
  /-- Nothing is held and nobody is in line. -/
  | disposed
  deriving DecidableEq, Inhabited, Repr

def Phase.name : Phase → String
  | active => "Active"
  | disposing => "Disposing"
  | disposed => "Disposed"

structure Sync (P : Policy) where
  /-- What the triggers of its waiters call it. -/
  id : Nat
  holding : P.State
  line : Line P.Request
  phase : Phase := .active
  /-- The tasks that wait for the end of disposal. -/
  awaitingEnd : List Waker := []
  /-- The number of acquisitions that were ever queued. -/
  arrivals : Nat := 0

namespace Sync

variable {P : Policy}

/-- A new synchronizer with `warm` waiters made in advance. -/
def create (id : Nat) (holding : P.State) (warm : Nat) (retainLimit : Option Nat) : Sync P :=
  { id, holding, line := { pool := Pool.stock { blank := P.blank, retainLimit } warm } }

def isDisposed (s : Sync P) : Bool := s.phase = .disposed

/-- The number of waiters in line that are still pending. -/
def waitingCount (s : Sync P) : Nat := s.line.countP Waiter.isPending

def stats (s : Sync P) : PoolStats := s.line.pool.stats

/-- Nothing is held and nobody is in line. -/
def isQuiet (s : Sync P) : Bool := P.isIdle s.holding && s.line.isEmpty

end Sync

end Turnstile
