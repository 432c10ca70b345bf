import Turnstile.Toml.Number
import Turnstile.Toml.Tree

/-!
# Documents

TOML 1.0. `parse?` reads a whole document into the entries of its root table, or answers none if the
text is no document.
-/

namespace Turnstile.Toml

/-! ## Keys -/

def isKeyChar (c : Char) : Bool :=
  isDigit c || ('a' ≤ c && c ≤ 'z') || ('A' ≤ c && c ≤ 'Z') || c = '-' || c = '_'

def simpleKey : Reader String
  | '"' :: r => (basicText r).map fun (s, r) => (String.ofList s, r)
  | '\'' :: r => (literalText r).map fun (s, r) => (String.ofList s, r)
  | cs =>
    let s := cs.takeWhile isKeyChar
    if s.isEmpty then none else some (String.ofList s, cs.dropWhile isKeyChar)

/-- Simple keys with dots between them, and with blanks around each. -/
def keyParts (cs : List Char) : Option (List String × List Char) :=
  match simpleKey (skipBlanks cs) with
  | none => none
  | some (k, r) =>
    match skipBlanks r with
    | '.' :: rest =>
      if _h : rest.length < cs.length then (keyParts rest).map fun (ks, r) => (k :: ks, r) else none
    | r => some ([k], r)
termination_by cs.length

/-- Keys and values nest less deep than this. -/
def depthLimit : Nat := 80

/-- A key as the path to its table and its last part. -/
def key? (cs : List Char) : Option ((List String × String) × List Char) := do
  let (ks, r) ← keyParts cs
  guard (ks.length < depthLimit)
  let k ← ks.getLast?
  some ((ks.dropLast, k), r)

/-! ## Values -/

/-- The items of an array whose bracket is read. A comma may follow the last one. -/
def items (item : Reader Tree) (cs : List Char) : Option (List Tree × List Char) :=
  match skipLines false cs with
  | ']' :: r => some ([], r)
  | cs' =>
    match item cs' with
    | none => none
    | some (v, r) =>
      match skipLines false r with
      | ',' :: rest =>
        if _h : rest.length < cs.length then (items item rest).map fun (vs, r) => (v :: vs, r)
        else none
      | ']' :: rest => some ([v], rest)
      | _ => none
termination_by cs.length

/-- A key, an equals sign and a value. -/
def binding (item : Reader Tree) (cs : List Char) :
    Option (((List String × String) × Tree) × List Char) := do
  let (k, r) ← key? cs
  let r ← expect '=' r
  let (v, r) ← item (skipBlanks r)
  some ((k, v), r)

/-- The rest of a table between braces, after a brace or a comma. -/
def bindings (item : Reader Tree) (es : Entries) (cs : List Char) : Option (Entries × List Char) :=
  match binding item cs with
  | none => none
  | some (((path, key), v), r) =>
    match es.put path key v .opened with
    | none => none
    | some es =>
      match skipBlanks r with
      | ',' :: rest => if _h : rest.length < cs.length then bindings item es rest else none
      | '\x7d' :: rest => some (es, rest)
      | _ => none
termination_by cs.length

/-- The rest after a word, if the text starts with it. -/
def word? (w : String) (cs : List Char) : Option (List Char) :=
  if w.toList.isPrefixOf cs then some (cs.drop w.length) else none

/-- A value that holds no other one. -/
def plain? (cs : List Char) : Option (Tree × List Char) :=
  let scalar := fun (r : List Char) => (Tree.scalar, r)
  ((string? cs).map scalar)
    <|> ((word? "true" cs).map scalar)
    <|> ((word? "false" cs).map scalar)
    <|> ((moment? cs).map fun r => (.moment, r))
    <|> ((float? cs).map scalar)
    <|> ((special? cs).map scalar)
    <|> ((integer cs).map fun (n, r) => (.integer n, r))

/-- A value in which others nest at most `depth` deep. -/
def tree : Nat → Reader Tree
  | _, [] => none
  | depth, c :: r =>
    if c = '[' then
      match depth with
      | 0 => none
      | depth + 1 => (items (tree depth) r).map fun (vs, r) => (.array vs, r)
    else if c = '\x7b' then
      match depth with
      | 0 => none
      | depth + 1 =>
        match skipBlanks r with
        | '\x7d' :: r => some (.table .closed [], r)
        | r => (bindings (tree depth) [] r).map fun (es, r) => (.table .closed es, r)
    else plain? (c :: r)

/-! ## Lines -/

/-- A document that is being read: its root table, and the path to the table that keys go to. -/
structure Draft where
  root : Entries := []
  here : List String := []

/-- A header between one bracket or two. -/
def header (d : Draft) (cs : List Char) : Option (Draft × List Char) :=
  match cs with
  | '[' :: r => do
    let ((path, k), r) ← key? r
    let r ← expect ']' r
    let r ← expect ']' r
    let r ← endOfLine? r
    let root ← d.root.extendTables path k
    some ({ root, here := path ++ [k] }, r)
  | r => do
    let ((path, k), r) ← key? r
    let r ← expect ']' r
    let r ← endOfLine? r
    let root ← d.root.openTable path k
    some ({ root, here := path ++ [k] }, r)

/-- One line that is not blank. -/
def line (d : Draft) : List Char → Option (Draft × List Char)
  | '[' :: r => header d r
  | '#' :: r => (endOfLine? ('#' :: r)).map (d, ·)
  | cs =>
    match newline? cs with
    | some r => some (d, r)
    | none => do
      let (((path, key), v), r) ← binding (tree (depthLimit - 1)) cs
      let r ← endOfLine? r
      let root ← d.root.putAt d.here path key v
      some ({ d with root }, r)

def lines (d : Draft) (cs : List Char) : Option Entries :=
  match skipBlanks cs with
  | [] => some d.root
  | cs' =>
    match line d cs' with
    | none => none
    | some (d, rest) => if _h : rest.length < cs.length then lines d rest else none
termination_by cs.length

/-- The entries of the root table. A byte order mark may stand in front. -/
def parse? (text : String) : Option Entries :=
  match text.toList with
  | '\ufeff' :: r => lines {} r
  | cs => lines {} cs

end Turnstile.Toml
