import Turnstile.Settings
import Turnstile.Text.Unsigned

/-!
# Putting settings together

Settings are built step by step. A value that was set stays: the environment and a document only fill
what is still open.
-/

namespace Turnstile.Settings

/-- What a source has for the fields that are still open. -/
structure Offer where
  concurrencyLevel : Option Nat := none
  poolRetainLimit : Option Nat := none
  deriving DecidableEq, Inhabited, Repr

/-- The variables of an environment. One that is not set, or is no text, is none. -/
structure Environment where
  concurrencyLevel : Option String := none
  poolRetainLimit : Option String := none
  deriving DecidableEq, Inhabited, Repr

/-- Why a file could not be read. -/
inductive ReadFault where
  | notFound
  | isDirectory
  | notText
  deriving DecidableEq, Inhabited, Repr

inductive Fault where
  /-- The variable has a value that is no unsigned number. -/
  | variable (name value : String)
  | unreadable (path : String) (fault : ReadFault)
  /-- The text is no document, or the document has no settings in it. -/
  | document
  deriving DecidableEq, Inhabited, Repr

inductive Instruction where
  | concurrencyLevel (n : Nat)
  | poolRetainLimit (n : Nat)
  | timer (t : Timers)
  | environment
  | document (o : Offer)
  deriving DecidableEq, Inhabited, Repr

def levelVariable : String := "QUEUED_SYNC_CONCURRENCY_LEVEL"
def retainVariable : String := "QUEUED_SYNC_POOL_RETAIN_LIMIT"

/-- The field, or if it is open what the variable has for it. A field that is set is not looked up. -/
def fromVariable (name : String) (value : Option String) (field : Option Nat) :
    Except Fault (Option Nat) :=
  match field, value with
  | some n, _ => .ok (some n)
  | none, none => .ok none
  | none, some s =>
    match Text.unsigned? s with
    | some n => .ok (some n)
    | none => .error (.variable name s)

/-- Fills the open fields from the environment, the level before the limit. -/
def fillFromEnvironment (env : Environment) (s : Settings) : Except Fault Settings := do
  let level ← fromVariable levelVariable env.concurrencyLevel s.concurrencyLevel
  let limit ← fromVariable retainVariable env.poolRetainLimit s.poolRetainLimit
  return { s with concurrencyLevel := level, poolRetainLimit := limit }

/-- Fills the open fields from an offer. -/
def fill (o : Offer) (s : Settings) : Settings :=
  { s with
    concurrencyLevel := s.concurrencyLevel.or o.concurrencyLevel
    poolRetainLimit := s.poolRetainLimit.or o.poolRetainLimit }

def follow (env : Environment) (s : Settings) : Instruction → Except Fault Settings
  | .concurrencyLevel n => .ok { s with concurrencyLevel := some n }
  | .poolRetainLimit n => .ok { s with poolRetainLimit := some n }
  | .timer t => .ok { s with timer := some t }
  | .environment => s.fillFromEnvironment env
  | .document o => .ok (s.fill o)

/-- Follows instructions from open settings on, up to the first fault. -/
def build (env : Environment) (is : List Instruction) : Except Fault Settings :=
  is.foldlM (follow env) {}

/-! ## Text -/

def ReadFault.message : ReadFault → String
  | notFound => "No such file or directory (os error 2)"
  | isDirectory => "Is a directory (os error 21)"
  | notText => "stream did not contain valid UTF-8"

/-- A bad document is only named, not explained. -/
def Fault.message : Fault → Option String
  | .variable name value =>
    some ("invalid value for " ++ name ++ ": expected unsigned integer, got " ++ Text.quote value)
  | unreadable path fault =>
    some ("failed to read config file " ++ path ++ ": " ++ fault.message)
  | document => none

def Fault.kind : Fault → String
  | .variable .. => "InvalidEnv"
  | unreadable .. => "Io"
  | document => "Toml"

end Turnstile.Settings
