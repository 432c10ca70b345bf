import Turnstile.Refusal
import Turnstile.Timers

/-!
# Settings of a synchronizer
-/

namespace Turnstile

structure Settings where
  /-- How many waiters are made in advance. -/
  concurrencyLevel : Option Nat := none
  /-- How many idle waiters are kept; all of them if there is no limit. -/
  poolRetainLimit : Option Nat := none
  /-- The timers that fire the deadlines, if they are not the common ones. -/
  timer : Option Timers := none
  deriving DecidableEq, Inhabited, Repr

namespace Settings

/-- A level that is given has to be positive. -/
def validate (s : Settings) : Except Refusal Unit :=
  if s.concurrencyLevel = some 0 then
    .error (.invalidArgument "concurrency level must be positive")
  else .ok ()

def detail (s : Settings) : String :=
  Text.record "SyncConfig"
    [("concurrency_level", Text.optional (s.concurrencyLevel.map toString)),
      ("pool_retain_limit", Text.optional (s.poolRetainLimit.map toString)),
      ("timer", Text.optional (s.timer.map Timers.detail))]

end Settings

end Turnstile
