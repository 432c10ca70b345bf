/-!
# Unsigned numbers in text

Decimal digits with an optional plus in front and white space around, below two to the 64.
-/

namespace Turnstile.Text

/-- The code points with the property White_Space, as closed ranges. -/
def spaceRanges : List (Nat × Nat) := [
  (0x9, 0xd), (0x20, 0x20), (0x85, 0x85), (0xa0, 0xa0), (0x1680, 0x1680), (0x2000, 0x200a),
  (0x2028, 0x2029), (0x202f, 0x202f), (0x205f, 0x205f), (0x3000, 0x3000)]

def isSpace (c : Char) : Bool :=
  spaceRanges.any fun r => r.1 ≤ c.toNat && c.toNat ≤ r.2

/-- Without the white space at both ends. -/
def trim (cs : List Char) : List Char :=
  ((cs.dropWhile isSpace).reverse.dropWhile isSpace).reverse

def isDigit (c : Char) : Bool := '0' ≤ c && c ≤ '9'

/-- The number that decimal digits write, if there is at least one and no other character. -/
def digits? (cs : List Char) : Option Nat :=
  if cs.isEmpty || !cs.all isDigit then none
  else some (cs.foldl (fun n c => 10 * n + (c.toNat - '0'.toNat)) 0)

def unsigned? (s : String) : Option Nat :=
  let cs :=
    match trim s.toList with
    | '+' :: r => r
    | cs => cs
  (digits? cs).filter (· < UInt64.size)

end Turnstile.Text
