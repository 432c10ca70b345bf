import Turnstile.Settings.Recipe
import Turnstile.Toml.Document

/-!
# Settings from documents and files

A TOML document may offer settings in its table `pool`. Everything else in it is ignored.
-/

namespace Turnstile.Settings

/-! ## Documents -/

/-- A number for a field, which has to be an integer and not negative. -/
def number? : Toml.Tree → Except Fault (Option Nat)
  | .integer n => if 0 ≤ n then .ok (some n.toNat) else .error .document
  | _ => .error .document

def entry (es : Toml.Entries) (key : String) : Except Fault (Option Nat) :=
  (es.find? key).elim (.ok none) number?

/-- The settings in the table `pool`. In an array they stand in order, the level before the limit; a
date has none. -/
def Offer.ofPool : Toml.Tree → Except Fault Offer
  | .table _ es => do
    let level ← entry es "concurrency_level"
    let limit ← entry es "retain_limit"
    return ⟨level, limit⟩
  | .array (level :: limit :: _) => do
    let level ← number? level
    let limit ← number? limit
    return ⟨level, limit⟩
  | .moment => .ok {}
  | _ => .error .document

def Offer.ofDocument (text : String) : Except Fault Offer :=
  match Toml.parse? text with
  | none => .error .document
  | some es => (Toml.Entries.find? es "pool").elim (.ok {}) Offer.ofPool

/-! ## Files -/

/-- A part of a path that names a directory which is always there. -/
def isStanding (part : String) : Bool := part = "" || part = "." || part = ".."

/-- The bytes of the file at a relative path, in a directory that holds nothing but `content` under
that path. -/
def bytesAt (path : String) (content : Option ByteArray) : Except ReadFault ByteArray :=
  if path = "" then .error .notFound
  else if (path.splitOn "/").all isStanding then .error .isDirectory
  else content.elim (.error .notFound) .ok

/-- The same as text. -/
def textAt (path : String) (content : Option ByteArray) : Except Fault String :=
  match bytesAt path content with
  | .error fault => .error (.unreadable path fault)
  | .ok bytes =>
    match String.fromUTF8? bytes with
    | none => .error (.unreadable path .notText)
    | some text => .ok text

/-! ## Orders -/

/-- An instruction, or where to find one. -/
inductive Order where
  | plain (i : Instruction)
  | document (text : String)
  /-- A document in a file, in a directory of its own. -/
  | file (path : String) (content : Option ByteArray)
  /-- Starts again from the environment alone, and ends. -/
  | environmentOnly

def carryOut (env : Environment) : Settings → List Order → Except Fault Settings
  | s, [] => .ok s
  | s, .plain i :: rest => do carryOut env (← s.follow env i) rest
  | s, .document text :: rest => do
    carryOut env (← s.follow env (.document (← Offer.ofDocument text))) rest
  | s, .file path content :: rest => do
    let o ← Offer.ofDocument (← textAt path content)
    carryOut env (← s.follow env (.document o)) rest
  | _, .environmentOnly :: _ => build env [.environment]

end Turnstile.Settings
