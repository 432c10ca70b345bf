import Turnstile.Waker
import Turnstile.Text.Record

/-!
# Cancellation tokens

A token is a flag that flips once. Wakers subscribe to it through registrations, each with a slot of
its own. A token may have children, which are cancelled with it; it does not keep them alive. A token
lives while a handle or a registration holds it.
-/

namespace Turnstile

/-! ## Subscriptions to one token -/

/-- A slot for one subscriber. It stays occupied until its registration is dropped, also after its
waker was taken. The generation tells its renters apart. -/
structure Listener where
  generation : UInt32 := 0
  waker : Option Waker := none
  occupied : Bool := false
  deriving DecidableEq, Inhabited, Repr

structure Listeners where
  slots : Array Listener := #[]
  /-- The slots to be used again, the next one first. -/
  free : List Nat := []
  deriving DecidableEq, Inhabited, Repr

namespace Listeners

/-- Subscribes a waker and tells the slot and its generation. -/
def insert (l : Listeners) (w : Waker) : Listeners × Nat × UInt32 :=
  match l.free with
  | i :: free =>
    ({ slots := l.slots.modify i fun s => { s with waker := some w, occupied := true }, free },
      i, (l.slots[i]?.map (·.generation)).getD 0)
  | [] => ({ l with slots := l.slots.push ⟨0, some w, true⟩ }, l.slots.size, 0)

/-- Frees a slot, if `generation` is that of its present subscriber. -/
def erase (l : Listeners) (i : Nat) (generation : UInt32) : Listeners :=
  match l.slots[i]? with
  | some s =>
    if s.occupied && s.generation = generation then
      { slots := l.slots.modify i fun _ => ⟨generation + 1, none, false⟩, free := i :: l.free }
    else l
  | none => l

def count (l : Listeners) : Nat := l.slots.countP (·.waker.isSome)

/-- Takes every waker, in slot order. The slots stay with their registrations. -/
def takeWakers (l : Listeners) : Listeners × List Waker :=
  ({ l with slots := l.slots.map fun s => { s with waker := none } },
    l.slots.toList.filterMap (·.waker))

def anyOccupied (l : Listeners) : Bool := l.slots.any (·.occupied)

end Listeners

/-! ## The forest of tokens -/

structure Token where
  cancelled : Bool := false
  listeners : Listeners := {}
  /-- In the order of their creation. -/
  children : List Nat := []
  handles : Nat := 0
  deriving DecidableEq, Inhabited, Repr

/-- A handle or a registration holds the token. -/
def Token.isAlive (t : Token) : Bool := 0 < t.handles || t.listeners.anyOccupied

/-- A waker's subscription to a token. -/
structure Registration where
  token : Nat
  slot : Nat
  generation : UInt32
  deriving DecidableEq, Inhabited, Repr

/-- All tokens ever made, each known by its place. -/
structure Tokens where
  all : Array Token := #[]
  deriving DecidableEq, Inhabited, Repr

namespace Tokens

def get? (ts : Tokens) (i : Nat) : Option Token := ts.all[i]?

def update (ts : Tokens) (i : Nat) (f : Token → Token) : Tokens := ⟨ts.all.modify i f⟩

def isCancelled (ts : Tokens) (i : Nat) : Bool := (ts.get? i).any (·.cancelled)

/-- A token that is cancelled takes no subscriptions, and neither does one that was never made. -/
def refuses (ts : Tokens) (i : Nat) : Bool := (ts.get? i).all (·.cancelled)

def isAlive (ts : Tokens) (i : Nat) : Bool := (ts.get? i).any Token.isAlive

def listenerCount (ts : Tokens) (i : Nat) : Nat :=
  ((ts.get? i).map (·.listeners.count)).getD 0

/-- A new token with one handle. -/
def create (ts : Tokens) : Tokens × Nat :=
  (⟨ts.all.push { handles := 1 }⟩, ts.all.size)

def retain (ts : Tokens) (i : Nat) : Tokens :=
  ts.update i fun t => { t with handles := t.handles + 1 }

def release (ts : Tokens) (i : Nat) : Tokens :=
  ts.update i fun t => { t with handles := t.handles - 1 }

/-- Sets the flag and takes the subscribed wakers. -/
def fire (ts : Tokens) (i : Nat) : Tokens × List Waker :=
  match ts.get? i with
  | none => (ts, [])
  | some t =>
    let (listeners, wakers) := t.listeners.takeWakers
    (ts.update i fun t => { t with cancelled := true, listeners }, wakers)

def takeChildren (ts : Tokens) (i : Nat) : Tokens × List Nat :=
  (ts.update i fun t => { t with children := [] }, ((ts.get? i).map (·.children)).getD [])

/-- Links a child, after forgetting the children that are gone. -/
def link (ts : Tokens) (parent child : Nat) : Tokens :=
  ts.update parent fun t => { t with children := t.children.filter ts.isAlive ++ [child] }

/-- Subscribes a waker, unless the token is cancelled. -/
def register? (ts : Tokens) (i : Nat) (w : Waker) : Option (Tokens × Registration) :=
  match ts.get? i with
  | none => none
  | some t =>
    if t.cancelled then none
    else
      let (listeners, slot, generation) := t.listeners.insert w
      some (ts.update i fun t => { t with listeners }, ⟨i, slot, generation⟩)

def unregister (ts : Tokens) (r : Registration) : Tokens :=
  ts.update r.token fun t => { t with listeners := t.listeners.erase r.slot r.generation }

/-! ## Text -/

def detail (ts : Tokens) (i : Nat) : String :=
  Text.openRecord "CancelToken" [("cancelled", toString (ts.isCancelled i))]

def registrationDetail (ts : Tokens) (r : Registration) : String :=
  Text.record "CancelRegistration"
    [("index", toString r.slot), ("cancelled", toString (ts.isCancelled r.token))]

end Tokens

end Turnstile
