import Turnstile.Toml.Reader

/-!
# Strings

Text between quotes, on one line or on several, with escapes or without.
-/

namespace Turnstile.Toml

def hexValue? (c : Char) : Option Nat :=
  let n := c.toNat
  if 0x30 ≤ n && n ≤ 0x39 then some (n - 0x30)
  else if 0x41 ≤ n && n ≤ 0x46 then some (n - 0x41 + 10)
  else if 0x61 ≤ n && n ≤ 0x66 then some (n - 0x61 + 10)
  else none

/-- The character with a given hexadecimal number. Surrogates are no characters. -/
def charOfHex? (digits : List Char) : Option Char := do
  let n ← digits.foldlM (fun n c => (hexValue? c).map (16 * n + ·)) 0
  if h : n.isValidChar then some (Char.ofNatAux n h) else none

/-- What a letter after a backslash stands for. -/
def shortEscape? : Char → Option Char
  | 'b' => some '\x08'
  | 't' => some '\t'
  | 'n' => some '\n'
  | 'f' => some '\x0c'
  | 'r' => some '\r'
  | '"' => some '"'
  | '\\' => some '\\'
  | _ => none

/-- What stands after the opening quote of a text with escapes. -/
def basicText : Reader (List Char)
  | [] => none
  | '"' :: r => some ([], r)
  | '\\' :: 'u' :: a :: b :: c :: d :: r => do
    let x ← charOfHex? [a, b, c, d]
    let (s, r) ← basicText r
    some (x :: s, r)
  | '\\' :: 'U' :: a :: b :: c :: d :: e :: f :: g :: h :: r => do
    let x ← charOfHex? [a, b, c, d, e, f, g, h]
    let (s, r) ← basicText r
    some (x :: s, r)
  | '\\' :: c :: r => do
    let x ← shortEscape? c
    let (s, r) ← basicText r
    some (x :: s, r)
  | c :: r => do
    guard (isCommentChar c && c ≠ '\\')
    let (s, r) ← basicText r
    some (c :: s, r)

/-- What stands after the opening quote of a text without escapes. -/
def literalText : Reader (List Char)
  | [] => none
  | '\'' :: r => some ([], r)
  | c :: r => do
    guard (isCommentChar c)
    let (s, r) ← literalText r
    some (c :: s, r)

/-- Where the reader of a long text stands. -/
inductive LongMode where
  | plain
  /-- After a backslash that should end its line. -/
  | lineEnd
  /-- Blanks and line ends up to the next character are dropped. -/
  | trim

/-- The rest after a text on several lines with escapes, whose opening quotes are read. Up to two
quotes may stand before the closing ones. -/
def longBasicRest : LongMode → List Char → Option (List Char)
  | _, [] => none
  | .lineEnd, c :: r =>
    if isBlank c then longBasicRest .lineEnd r
    else if c = '\n' then longBasicRest .trim r
    else if c = '\r' && r.head? = some '\n' then longBasicRest .lineEnd r
    else none
  | .trim, ' ' :: r | .trim, '\t' :: r | .trim, '\n' :: r => longBasicRest .trim r
  | _, '"' :: '"' :: '"' :: '"' :: '"' :: r => some r
  | _, '"' :: '"' :: '"' :: '"' :: r => some r
  | _, '"' :: '"' :: '"' :: r => some r
  | _, '\\' :: 'u' :: a :: b :: c :: d :: r =>
    (charOfHex? [a, b, c, d]).bind fun _ => longBasicRest .plain r
  | _, '\\' :: 'U' :: a :: b :: c :: d :: e :: f :: g :: h :: r =>
    (charOfHex? [a, b, c, d, e, f, g, h]).bind fun _ => longBasicRest .plain r
  | _, '\\' :: c :: r =>
    if (shortEscape? c).isSome then longBasicRest .plain r
    else if isBlank c then longBasicRest .lineEnd r
    else if c = '\n' then longBasicRest .trim r
    else if c = '\r' && r.head? = some '\n' then longBasicRest .lineEnd r
    else none
  | mode, '\r' :: '\n' :: r =>
    longBasicRest (match mode with | .trim => .trim | _ => .plain) r
  | _, c :: r =>
    if (isCommentChar c && c ≠ '\\') || c = '\n' then longBasicRest .plain r else none

/-- The same without escapes. -/
def longLiteralRest : List Char → Option (List Char)
  | [] => none
  | '\'' :: '\'' :: '\'' :: '\'' :: '\'' :: r => some r
  | '\'' :: '\'' :: '\'' :: '\'' :: r => some r
  | '\'' :: '\'' :: '\'' :: r => some r
  | '\r' :: '\n' :: r => longLiteralRest r
  | c :: r => if isCommentChar c || c = '\n' then longLiteralRest r else none

/-- The rest after a string of any form. -/
def string? : List Char → Option (List Char)
  | '"' :: '"' :: '"' :: r => longBasicRest .plain r
  | '\'' :: '\'' :: '\'' :: r => longLiteralRest r
  | '"' :: r => (basicText r).map (·.2)
  | '\'' :: r => (literalText r).map (·.2)
  | _ => none

end Turnstile.Toml
