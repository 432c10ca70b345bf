import Turnstile.Toml.Text

/-!
# Numbers, dates and times

Integers have a value, because they are what a setting is. Of floats, dates and times only the form
matters.
-/

namespace Turnstile.Toml

def isDigit (c : Char) : Bool := '0' ≤ c && c ≤ '9'

/-- What follows a first digit: digits, each after at most one underscore. -/
def digitTail (isD : Char → Bool) : Reader (List Char)
  | '_' :: c :: r => do
    guard (isD c)
    let (s, r) ← digitTail isD r
    some (c :: s, r)
  | ['_'] => none
  | c :: r =>
    if isD c then (digitTail isD r).map fun (s, r) => (c :: s, r) else some ([], c :: r)
  | [] => some ([], [])

def digits (isD : Char → Bool) : Reader (List Char)
  | c :: r => if isD c then (digitTail isD r).map fun (s, r) => (c :: s, r) else none
  | [] => none

/-- A sign, true for minus. -/
def sign : List Char → Bool × List Char
  | '+' :: r => (false, r)
  | '-' :: r => (true, r)
  | cs => (false, cs)

/-- Decimal digits without a leading zero, with the sign in front. -/
def decimal (cs : List Char) : Option ((Bool × List Char) × List Char) :=
  let (minus, cs) := sign cs
  match cs with
  | '0' :: r => some ((minus, ['0']), r)
  | cs => (digits isDigit cs).map fun (s, r) => ((minus, s), r)

/-- The number that some digits write. -/
def value (base : Nat) (ds : List Char) : Nat :=
  ds.foldl (fun n c => base * n + (hexValue? c).getD 0) 0

/-- Integers have 64 bits and a sign. -/
def inRange (n : Int) : Option Int :=
  if Int64.minValue.toInt ≤ n ∧ n ≤ Int64.maxValue.toInt then some n else none

def based (base : Nat) (cs : List Char) : Option (Int × List Char) := do
  let (ds, r) ← digits (fun c => (hexValue? c).any (· < base)) cs
  let n ← inRange (value base ds)
  some (n, r)

def integer : Reader Int
  | '0' :: 'x' :: r => based 16 r
  | '0' :: 'o' :: r => based 8 r
  | '0' :: 'b' :: r => based 2 r
  | cs => do
    let ((minus, ds), r) ← decimal cs
    let n : Int := value 10 ds
    let n ← inRange (if minus then -n else n)
    some (n, r)

/-! ## Floats -/

def fraction : Reader (List Char)
  | '.' :: r => digits isDigit r
  | _ => none

def exponent : Reader Int
  | c :: r => do
    guard (c = 'e' || c = 'E')
    let (minus, r) := sign r
    let (ds, r) ← digits isDigit r
    let n : Int := value 10 ds
    some (if minus then -n else n, r)
  | [] => none

/-- Whether `m` times ten to the `e` rounds to more than the largest binary float of 64 bits. -/
def overflows (m : Nat) (e : Int) : Bool :=
  let limit := Nat.pow 2 1024 - Nat.pow 2 970
  let size : Int := (Nat.toDigits 10 m).length + e
  if m = 0 || size < 300 then false
  else if size > 320 then true
  else if 0 ≤ e then limit ≤ m * Nat.pow 10 e.toNat
  else limit * Nat.pow 10 (-e).toNat ≤ m

/-- A positive float has to be finite. -/
def float? (cs : List Char) : Option (List Char) := do
  let ((minus, whole), r) ← decimal cs
  let (frac, r) :=
    match fraction r with
    | some (ds, r) => (some ds, r)
    | none => (none, r)
  let (exp, r) :=
    match exponent r with
    | some (e, r) => (some e, r)
    | none => (none, r)
  guard (frac.isSome || exp.isSome)
  let frac := frac.getD []
  guard (minus || !overflows (value 10 (whole ++ frac)) (exp.getD 0 - frac.length))
  some r

/-- `inf` and `nan`, with a sign or without. -/
def special? (cs : List Char) : Option (List Char) :=
  match (sign cs).2 with
  | 'i' :: 'n' :: 'f' :: r => some r
  | 'n' :: 'a' :: 'n' :: r => some r
  | _ => none

/-! ## Dates and times -/

/-- Two digits that write a number from `low` to `high`. -/
def twoDigits (low high : Nat) : Reader Nat
  | a :: b :: r => do
    guard (isDigit a && isDigit b)
    let n := value 10 [a, b]
    guard (low ≤ n && n ≤ high)
    some (n, r)
  | _ => none

def expect (c : Char) : List Char → Option (List Char)
  | d :: r => if c = d then some r else none
  | [] => none

def isLeapYear (y : Nat) : Bool := y % 4 = 0 && (y % 100 ≠ 0 || y % 400 = 0)

def daysIn (year month : Nat) : Nat :=
  if month = 2 then (if isLeapYear year then 29 else 28)
  else if month = 4 || month = 6 || month = 9 || month = 11 then 30
  else 31

def date? (cs : List Char) : Option (List Char) := do
  let (century, r) ← twoDigits 0 99 cs
  let (year, r) ← twoDigits 0 99 r
  let (month, r) ← twoDigits 1 12 (← expect '-' r)
  let (day, r) ← twoDigits 1 31 (← expect '-' r)
  guard (day ≤ daysIn (100 * century + year) month)
  some r

/-- Hours, minutes and seconds, with a fraction or without. -/
def time? (cs : List Char) : Option (List Char) := do
  let (_, r) ← twoDigits 0 23 cs
  let (_, r) ← twoDigits 0 59 (← expect ':' r)
  let (_, r) ← twoDigits 0 60 (← expect ':' r)
  match r with
  | '.' :: d :: rest => if isDigit d then some (rest.dropWhile isDigit) else some r
  | _ => some r

/-- The distance of a time from universal time. -/
def offset? : List Char → Option (List Char)
  | c :: r => do
    if c = 'Z' || c = 'z' then some r
    else
      guard (c = '+' || c = '-')
      let (_, r) ← twoDigits 0 23 r
      let (_, r) ← twoDigits 0 59 (← expect ':' r)
      some r
  | [] => none

/-- A date, a time, or both with an offset or without. -/
def moment? (cs : List Char) : Option (List Char) :=
  match date? cs with
  | none => time? cs
  | some r =>
    match r with
    | c :: rest =>
      if c = 'T' || c = 't' || c = ' ' then
        match time? rest with
        | none => some r
        | some rest => some ((offset? rest).getD rest)
      else some r
    | [] => some r

end Turnstile.Toml
