/-!
# Tables

A document is a tree of tables. How a table came to be decides whether it can still be extended: a
header opens each table once, a dotted key extends only what dotted keys made, and a value that was
written out is closed.
-/

namespace Turnstile.Toml

inductive TableKind where
  /-- Opened by a header, or an element of a list of tables. -/
  | opened
  /-- Made on the way to the table of a header. -/
  | implied
  /-- Made by a dotted key. -/
  | dotted
  /-- Written out between braces. -/
  | closed
  deriving DecidableEq, Repr

inductive Tree where
  | integer (n : Int)
  | moment
  /-- A string, a float or a truth value. -/
  | scalar
  | array (items : List Tree)
  | table (kind : TableKind) (entries : List (String × Tree))
  /-- A list of tables, the last of which can be extended. -/
  | tables (earlier : List (List (String × Tree))) (last : List (String × Tree))

abbrev Entries := List (String × Tree)

namespace Entries

def find? (es : Entries) (key : String) : Option Tree := (List.find? (·.1 = key) es).map (·.2)

def replace (es : Entries) (key : String) (t : Tree) : Entries :=
  es.map fun e => if e.1 = key then (key, t) else e

/-- Adds a key, or gives an old one another tree. -/
def set (es : Entries) (key : String) (t : Tree) : Entries :=
  if (es.find? key).isSome then es.replace key t else es ++ [(key, t)]

/-- Adds a new key. -/
def add? (es : Entries) (key : String) (t : Tree) : Option Entries :=
  if (es.find? key).isSome then none else some (es ++ [(key, t)])

/-- Changes the table at the end of a path. Missing tables are made with kind `made`. A dotted key
makes dotted tables, and passes through no table that was opened or closed. -/
def alter (made : TableKind) (f : TableKind → Entries → Option Entries) :
    List String → TableKind → Entries → Option Entries
  | [], kind, es => f kind es
  | key :: path, _, es =>
    match es.find? key with
    | none => (alter made f path made []).map fun sub => es.set key (.table made sub)
    | some (.table .closed _) => none
    | some (.table kind sub) =>
      if made = .dotted && kind = .opened then none
      else (alter made f path kind sub).map fun sub => es.set key (.table kind sub)
    | some (.tables earlier last) =>
      (alter made f path .opened last).map fun last => es.set key (.tables earlier last)
    | some _ => none

/-- Sets a dotted key below a table of kind `kind`. Only a dotted table takes the last part of a key
that has more than one. -/
def put (path : List String) (key : String) (t : Tree) (kind : TableKind) (es : Entries) :
    Option Entries :=
  es.alter .dotted
    (fun kind es => if decide (kind = .dotted) = path.isEmpty then none else es.add? key t)
    path kind

/-- Opens the table of a header. -/
def openTable (path : List String) (key : String) (es : Entries) : Option Entries :=
  es.alter .implied (fun _ es =>
    match es.find? key with
    | none => some (es.set key (.table .opened []))
    | some (.table .implied sub) => some (es.set key (.table .opened sub))
    | some _ => none) path .opened

/-- Adds an empty table to a list of tables. -/
def extendTables (path : List String) (key : String) (es : Entries) : Option Entries :=
  es.alter .implied (fun _ es =>
    match es.find? key with
    | none => some (es.set key (.tables [] []))
    | some (.tables earlier last) => some (es.set key (.tables (earlier ++ [last]) []))
    | some _ => none) path .opened

/-- Sets a key in the table at `here`. -/
def putAt (here : List String) (path : List String) (key : String) (t : Tree) (es : Entries) :
    Option Entries :=
  es.alter .implied (put path key t) here .opened

end Entries

end Turnstile.Toml
