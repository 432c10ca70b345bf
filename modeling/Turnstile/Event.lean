import Turnstile.Waiter

/-!
# Events

What the library reports while it works, with the level and the words of each report.
-/

namespace Turnstile

inductive Notice (R : Type) where
  | admitted (request : R)
  | enqueued (request : R) (slot ticket queued : Nat)
  | granted (request : R) (slot ticket : Nat)
  /-- A waiter's own deadline or token ended its wait. -/
  | resolved (slot ticket : Nat) (outcome : Outcome)
  | evicted (count : Nat) (reason : Reason)
  | handedBack (request : R)
  | disposing (signalled : Nat) (idle : Bool)
  | disposed
  deriving Repr

inductive Event (R : Type) where
  /-- A notice of synchronizer `sync`, whose policy is called `kind`. -/
  | notice (sync : Nat) (kind : String) (n : Notice R)
  | tokenFired (listeners : Nat)
  /-- A guard was dropped and its lock could not be released. -/
  | guardStuck (refusal : Refusal)
  deriving Repr

/-! ## Text -/

inductive Level where
  | trace
  | debug
  | warn
  deriving DecidableEq, Repr

def Level.name : Level → String
  | trace => "TRACE"
  | debug => "DEBUG"
  | warn => "WARN"

namespace Notice

variable {R : Type}

def level : Notice R → Level
  | evicted .. | disposing .. | disposed => .debug
  | _ => .trace

def message : Notice R → String
  | admitted _ => "acquired without waiting"
  | enqueued .. => "waiter enqueued"
  | granted .. => "waiter granted"
  | resolved .. => "waiter resolved by its own trigger"
  | evicted .. => "steal interrupted queued waiters"
  | handedBack _ => "abandoned grant handed back"
  | disposing .. => "dispose started"
  | disposed => "synchronizer disposed"

/-- The fields beside the policy; `describe` writes a request. -/
def fields (describe : R → String) : Notice R → List (String × String)
  | admitted r | handedBack r => [("request", describe r)]
  | enqueued r slot _ queued =>
    [("request", describe r), ("node", toString slot), ("queued", toString queued)]
  | granted r slot _ => [("request", describe r), ("node", toString slot)]
  | resolved slot _ outcome => [("node", toString slot), ("outcome", outcome.detail)]
  | evicted count reason => [("evicted", toString count), ("reason", reason.text)]
  | disposing signalled idle => [("signalled", toString signalled), ("idle", toString idle)]
  | disposed => []

end Notice

namespace Event

variable {R : Type}

def level : Event R → Level
  | notice _ _ n => n.level
  | tokenFired _ => .trace
  | guardStuck _ => .warn

def message : Event R → String
  | notice _ _ n => n.message
  | tokenFired _ => "cancel token fired"
  | guardStuck _ => "exclusive lock guard could not release"

def fields (describe : R → String) : Event R → List (String × String)
  | notice _ kind n => ("policy", kind) :: n.fields describe
  | tokenFired listeners => [("listeners", toString listeners)]
  | guardStuck refusal => [("err", refusal.message)]

end Event

end Turnstile
