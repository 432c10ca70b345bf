/-!
# Instants and durations

An instant counts the nanoseconds since its clock started, in 64 bits. Adding a duration to an
instant saturates at the latest one; only a clock that is told to advance wraps around.
-/

namespace Turnstile

/-- A length of time in nanoseconds. -/
abbrev Duration := Nat

structure Time where
  nanos : UInt64
  deriving DecidableEq, Inhabited, Repr

namespace Time

instance : LE Time := ⟨fun a b => a.nanos ≤ b.nanos⟩
instance : LT Time := ⟨fun a b => a.nanos < b.nanos⟩

instance (a b : Time) : Decidable (a ≤ b) := inferInstanceAs (Decidable (a.nanos ≤ b.nanos))
instance (a b : Time) : Decidable (a < b) := inferInstanceAs (Decidable (a.nanos < b.nanos))

def zero : Time := ⟨0⟩

/-- The largest number of nanoseconds an instant can hold. -/
def maxNanos : Nat := UInt64.size - 1

/-- The instant `n` nanoseconds after the start, or the latest one if there is none so late. -/
def clamp (n : Nat) : Time := ⟨UInt64.ofNat (min n maxNanos)⟩

def latest : Time := clamp maxNanos

def ofNanos (n : Nat) : Time := clamp n
def ofMillis (n : Nat) : Time := clamp (n * 1000000)
def ofSecs (n : Nat) : Time := clamp (n * 1000000000)

def toNat (t : Time) : Nat := t.nanos.toNat

def toMillis (t : Time) : Nat := t.toNat / 1000000

/-- The instant `d` later, or the latest one. -/
def add (t : Time) (d : Duration) : Time := clamp (t.toNat + d)

/-- The time left until `deadline`, zero if it has passed. -/
def timeUntil (t deadline : Time) : Duration := deadline.toNat - t.toNat

/-- A clock that moves by `n` nanoseconds starts over after the latest instant. -/
def advance (t : Time) (n : Nat) : Time := ⟨t.nanos + UInt64.ofNat n⟩

/-- A clock that is moved to `u` never goes back. -/
def advanceTo (t u : Time) : Time := if t ≤ u then u else t

protected def compare (a b : Time) : Ordering := Ord.compare a.toNat b.toNat

/-! ## Text -/

/-- At least three digits, with zeros in front. -/
def threeDigits (n : Nat) : String :=
  let s := toString n
  "".pushn '0' (3 - s.length) ++ s

/-- Seconds with three decimals from one second on, below that whole milliseconds, microseconds or
nanoseconds. All of it is cut off, not rounded. -/
def text (t : Time) : String :=
  let n := t.toNat
  if n ≥ 1000000000 then
    toString (n / 1000000000) ++ "." ++ threeDigits (n / 1000000 % 1000) ++ "s"
  else if n ≥ 1000000 then toString (n / 1000000) ++ "ms"
  else if n ≥ 1000 then toString (n / 1000) ++ "us"
  else toString n ++ "ns"

def detail (t : Time) : String := "Time(" ++ toString t.toNat ++ "ns)"

/-! ## Laws -/

theorem le_def {a b : Time} : a ≤ b ↔ a.toNat ≤ b.toNat := UInt64.le_iff_toNat_le

theorem lt_def {a b : Time} : a < b ↔ a.toNat < b.toNat := UInt64.lt_iff_toNat_lt

theorem toNat_clamp (n : Nat) : (clamp n).toNat = min n maxNanos := by
  simp only [clamp, toNat, maxNanos, UInt64.size, UInt64.toNat_ofNat']
  omega

theorem toNat_add (t : Time) (d : Duration) : (t.add d).toNat = min (t.toNat + d) maxNanos :=
  toNat_clamp _

theorem toNat_injective {a b : Time} (h : a.toNat = b.toNat) : a = b := by
  cases a; cases b
  simp only [toNat] at h
  rw [Time.mk.injEq]
  exact UInt64.toNat_inj.mp h

end Time

end Turnstile
