import Turnstile.Pool

/-!
# The line of waiters

Rented waiters stand in line in the order of their arrival. The line keeps its two ends and its
length; the links are in the waiters themselves, which name the slot behind them. `Line.toList` is
the line as a list of slots.
-/

namespace Turnstile

structure Line (R : Type) where
  pool : Pool R
  head : Option Nat := none
  tail : Option Nat := none
  length : Nat := 0
  deriving Repr

namespace Line

variable {R : Type}

def isEmpty (l : Line R) : Bool := l.head.isNone

def waiter? (l : Line R) (i : Nat) : Option (Waiter R) := l.pool.rented? i

def update (l : Line R) (i : Nat) (f : Waiter R → Waiter R) : Line R :=
  { l with pool := l.pool.update i f }

/-- Out of the line, with nothing left to remove. -/
def unlinked (w : Waiter R) : Waiter R :=
  { w with next := none, linked := false, lingers := false }

/-- The slots met from `cursor` on, at most `fuel` of them. -/
def walk (p : Pool R) : Nat → Option Nat → List Nat
  | 0, _ => []
  | _, none => []
  | fuel + 1, some i =>
    match p.rented? i with
    | none => []
    | some w => i :: walk p fuel w.next

def toList (l : Line R) : List Nat := walk l.pool l.length l.head

def enqueue (l : Line R) (i : Nat) : Line R :=
  let pool := l.pool.update i fun w => { w with next := none, linked := true }
  match l.tail with
  | some t =>
    { l with
      pool := pool.update t fun w => { w with next := some i }
      tail := some i, length := l.length + 1 }
  | none => { pool, head := some i, tail := some i, length := l.length + 1 }

/-- Unlinks the first waiter and tells its slot. -/
def dequeue (l : Line R) : Line R × Option Nat :=
  match l.head.bind fun i => (l.waiter? i).map (i, ·) with
  | none => (l, none)
  | some (i, w) =>
    ({ pool := l.pool.update i unlinked
       head := w.next
       tail := if w.next.isNone then none else l.tail
       length := l.length - 1 }, some i)

/-- Unlinks the waiter in slot `i`, which stands behind `before`. -/
def splice (l : Line R) (i : Nat) (before : Option Nat) (next : Option Nat) : Line R :=
  let pool := l.pool.update i unlinked
  { pool :=
      match before with
      | some b => pool.update b fun w => { w with next }
      | none => pool
    head := if before.isNone then next else l.head
    tail := if l.tail = some i then before else l.tail
    length := l.length - 1 }

/-- Looks for slot `i` from `cursor` on, at most `fuel` places far, and unlinks it. -/
def eraseFrom (l : Line R) (i : Nat) : Nat → Option Nat → Option Nat → Line R × Bool
  | 0, _, _ => (l, false)
  | _, _, none => (l, false)
  | fuel + 1, before, some c =>
    match l.waiter? c with
    | none => (l, false)
    | some w =>
      if c = i then (l.splice i before w.next, true)
      else eraseFrom l i fuel (some c) w.next

/-- Unlinks slot `i` wherever it stands and tells whether it stood in line. -/
def erase (l : Line R) (i : Nat) : Line R × Bool := l.eraseFrom i l.length none l.head

/-- The number of waiters in line with property `p`. -/
def countP (l : Line R) (p : Waiter R → Bool) : Nat :=
  l.toList.countP fun i => (l.waiter? i).any p

end Line

end Turnstile
