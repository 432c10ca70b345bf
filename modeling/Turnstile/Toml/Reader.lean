/-!
# Reading characters

A reader takes something from the front of a text and leaves the rest. It answers none where the
text does not have the form that it reads.
-/

namespace Turnstile.Toml

abbrev Reader (α : Type) := List Char → Option (α × List Char)

/-- A space or a tab. -/
def isBlank (c : Char) : Bool := c = ' ' || c = '\t'

/-- A character that a comment may hold: no control character but the tab. -/
def isCommentChar (c : Char) : Bool := c = '\t' || (0x20 ≤ c.toNat && c.toNat ≠ 0x7f)

def skipBlanks (cs : List Char) : List Char := cs.dropWhile isBlank

/-- The rest after a line end, `\n` or `\r\n`. -/
def newline? : List Char → Option (List Char)
  | '\n' :: r => some r
  | '\r' :: '\n' :: r => some r
  | _ => none

/-- The rest after a comment, if the text starts with one. -/
def skipComment : List Char → List Char
  | '#' :: r => r.dropWhile isCommentChar
  | cs => cs

/-- The rest after blanks, a comment and the end of the line or of the text. -/
def endOfLine? (cs : List Char) : Option (List Char) :=
  match skipComment (skipBlanks cs) with
  | [] => some []
  | cs => newline? cs

/-- The rest after blanks, comments and line ends. -/
def skipLines : Bool → List Char → List Char
  | _, [] => []
  | inComment, c :: r =>
    if inComment && isCommentChar c then skipLines true r
    else if c = ' ' || c = '\t' || c = '\n' then skipLines false r
    else if c = '\r' && r.head? = some '\n' then skipLines false r
    else if c = '#' then skipLines true r
    else c :: r

end Turnstile.Toml
