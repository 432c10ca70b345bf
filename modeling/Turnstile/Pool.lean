import Turnstile.Waiter

/-!
# The pool of waiters

Waiters live in slots, and a slot keeps its place for ever, so that its place can name it. A slot is
rented, or it is idle and keeps its waiter for the next renter, or it is vacant. The generation of a
slot changes with every return, so an id that outlived its rental names nobody.
-/

namespace Turnstile

/-- Names the rental of a slot. -/
structure WaiterId where
  slot : Nat
  generation : UInt32
  deriving DecidableEq, Inhabited, Repr

structure Slot (R : Type) where
  generation : UInt32 := 0
  rented : Bool := false
  waiter : Option (Waiter R) := none
  deriving Repr

structure Pool (R : Type) where
  /-- The request of a waiter that nobody rents. -/
  blank : R
  slots : Array (Slot R) := #[]
  /-- The slots to be rented next, the first one first. -/
  idle : List Nat := []
  /-- The slots to be filled next, the first one first. -/
  vacant : List Nat := []
  /-- How many idle waiters are kept; all of them if there is no limit. -/
  retainLimit : Option Nat := none
  /-- The number of waiters ever made. -/
  allocated : Nat := 0
  rented : Nat := 0
  closed : Bool := false
  deriving Repr

structure PoolStats where
  allocated : Nat
  idle : Nat
  rented : Nat
  deriving DecidableEq, Inhabited, Repr

namespace Pool

variable {R : Type}

def stats (p : Pool R) : PoolStats := ⟨p.allocated, p.idle.length, p.rented⟩

/-! ## Reading -/

/-- The waiter in slot `i`, if the slot is rented. -/
def rented? (p : Pool R) (i : Nat) : Option (Waiter R) :=
  p.slots[i]?.bind fun s => if s.rented then s.waiter else none

/-- The waiter that `id` names, if its rental is the present one. -/
def get? (p : Pool R) (id : WaiterId) : Option (Waiter R) :=
  p.slots[id.slot]?.bind fun s =>
    if s.rented && s.generation = id.generation then s.waiter else none

/-! ## Writing -/

/-- Changes the waiter in slot `i`, if the slot is rented. -/
def update (p : Pool R) (i : Nat) (f : Waiter R → Waiter R) : Pool R :=
  { p with
    slots := p.slots.modify i fun s =>
      if s.rented then { s with waiter := s.waiter.map f } else s }

/-- Makes an idle waiter in a vacant slot, or in a new one if none is vacant, and tells the slot. -/
def build (p : Pool R) : Pool R × Nat :=
  match p.vacant with
  | i :: vacant =>
    ({ p with
        slots := p.slots.modify i fun s => { s with waiter := some (Waiter.idle p.blank) }
        vacant, allocated := p.allocated + 1 }, i)
  | [] =>
    ({ p with
        slots := p.slots.push { waiter := some (Waiter.idle p.blank) }
        allocated := p.allocated + 1 }, p.slots.size)

/-- Makes `count` idle waiters in advance. -/
def stock (p : Pool R) : Nat → Pool R
  | 0 => p
  | count + 1 =>
    let (p, i) := p.build
    stock { p with idle := i :: p.idle } count

/-- A slot with an idle waiter, made for the purpose if there is none. -/
def takeIdle (p : Pool R) : Pool R × Nat :=
  match p.idle with
  | i :: idle => ({ p with idle }, i)
  | [] => p.build

def rent (p : Pool R) : Pool R × WaiterId :=
  let (p, i) := p.takeIdle
  ({ p with
      slots := p.slots.modify i fun s => { s with rented := true }
      rented := p.rented + 1 },
    ⟨i, (p.slots[i]?.map (·.generation)).getD 0⟩)

def keepsReturned (p : Pool R) : Bool :=
  !p.closed && p.retainLimit.all (p.idle.length < ·)

/-- Ends the rental that `id` names, if it is the present one. The waiter must be unlinked and
disarmed. -/
def endRental (p : Pool R) (id : WaiterId) : Pool R :=
  match p.slots[id.slot]? with
  | none => p
  | some s =>
    if s.rented && s.generation = id.generation then
      if p.keepsReturned then
        { p with
          slots := p.slots.modify id.slot fun s =>
            ⟨id.generation + 1, false, s.waiter.map (·.cleared p.blank)⟩
          idle := id.slot :: p.idle, rented := p.rented - 1 }
      else
        { p with
          slots := p.slots.modify id.slot fun _ => ⟨id.generation + 1, false, none⟩
          vacant := id.slot :: p.vacant, rented := p.rented - 1 }
    else p

def evict (p : Pool R) (i : Nat) : Pool R :=
  { p with slots := p.slots.modify i fun s => { s with waiter := none }, vacant := i :: p.vacant }

/-- Drops every idle waiter, the longest idle first; later returns are dropped too. -/
def close (p : Pool R) : Pool R :=
  { p.idle.reverse.foldl evict p with idle := [], closed := true }

end Pool

end Turnstile
