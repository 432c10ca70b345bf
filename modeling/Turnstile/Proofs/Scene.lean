import Turnstile.Proofs.Operations

/-!
# Callers of one synchronizer

A `Scene` is a synchronizer with the clock, the tokens and the futures of its callers. A `Deed` is
one critical section: of a caller, of a trigger at any time, or of anybody elsewhere. What a waker
does when it is woken is deeds between those of the others, so a run is any list of deeds.
-/

namespace Turnstile

/-- An acquisition as its caller knows it. -/
structure Future (P : Policy) where
  request : P.Request
  timeout : Timeout := .forever
  token : Option Nat := none
  /-- The clock when it was made. -/
  made : Time := .zero
  /-- Its number in the order of arrival, if it had to queue. -/
  ticket : Option Nat := none
  stage : Stage

structure Scene (P : Policy) where
  sync : Sync P
  timers : Timers := {}
  tokens : Tokens := {}
  /-- In the order in which they were made. Those that have answered or were dropped are done. -/
  futures : List (Future P) := []

inductive Deed (P : Policy) where
  | tryAcquire (request : P.Request)
  | acquire (request : P.Request) (timeout : Timeout) (token : Option Nat) (steal : Option Reason)
  | poll (k : Nat) (waker : Waker)
  | drop (k : Nat)
  | release (request : Option P.Request)
  | dropGuard (request : P.Request)
  | dispose
  | pollDispose (waker : Waker)
  /-- The timer or the token of some renter of a slot wakes it, for whatever reason. -/
  | trigger (slot : Nat)
  /-- The clock, the timers and the tokens change in any way. -/
  | elsewhere (timers : Timers) (tokens : Tokens)

/-- What a deed leaves: the section after it, the futures, and the answer if it has one. -/
structure Effect (P : Policy) where
  after : Section P
  futures : List (Future P)
  answer : Option (Except Refusal Unit) := none

variable {P : Policy}

def Stage.result? : Stage → Option (Except Refusal Unit)
  | .ready r => some r
  | _ => none

def Stage.id? : Stage → Option WaiterId
  | .waiting id => some id
  | _ => none

def Effect.scene (e : Effect P) : Scene P :=
  { sync := e.after.sync, timers := e.after.timers, tokens := e.after.tokens, futures := e.futures }

/-- The tickets that were granted, in order. -/
def Effect.granted (e : Effect P) : List Nat := e.after.events.filterMap Event.granted?

/-- The pending acquisitions, first come first. -/
def Sync.petitions (s : Sync P) : List (Petition P.Request) :=
  s.line.toList.filterMap fun i => (s.line.waiter? i).bind Waiter.petition?

namespace Scene

/-- A new synchronizer, with anything elsewhere. -/
def start (id : Nat) (holding : P.State) (warm : Nat) (retainLimit : Option Nat) (timers : Timers)
    (tokens : Tokens) : Scene P :=
  { sync := Sync.create id holding warm retainLimit, timers, tokens }

/-- The synchronizer, the timers and the tokens at the start of a section. -/
def inside (c : Scene P) : Section P := { sync := c.sync, timers := c.timers, tokens := c.tokens }

def unchanged (c : Scene P) : Effect P := { after := c.inside, futures := c.futures }

def perform (c : Scene P) : Deed P → Effect P
  | .tryAcquire request =>
    let (after, stage) := c.inside.acquire request .zero none none
    { after, futures := c.futures, answer := stage.result? }
  | .acquire request timeout token steal =>
    let (after, stage) := c.inside.acquire request timeout token steal
    let ticket := if stage.isWaiting then some c.sync.arrivals else none
    let future := { request, timeout, token, made := c.timers.now, ticket, stage }
    { after, futures := c.futures ++ [future] }
  | .poll k waker =>
    match c.futures[k]? with
    | none => c.unchanged
    | some f =>
      let (after, stage, answer) := c.inside.pollStage f.stage waker
      { after, futures := c.futures.set k { f with stage }, answer }
  | .drop k =>
    match c.futures[k]? with
    | none => c.unchanged
    | some f =>
      { after := c.inside.dropStage f.request f.stage
        futures := c.futures.set k { f with stage := .done } }
  | .release request =>
    let (after, r) := c.inside.release request
    { after, futures := c.futures, answer := some r }
  | .dropGuard request =>
    { after := c.inside.dropGuard request, futures := c.futures
      answer := some (c.inside.release (some request)).2 }
  | .dispose => { after := c.inside.dispose, futures := c.futures }
  | .pollDispose waker => { after := (c.inside.pollDispose waker).1, futures := c.futures }
  | .trigger slot => { after := c.inside.trigger slot, futures := c.futures }
  | .elsewhere timers tokens => { after := { sync := c.sync, timers, tokens }, futures := c.futures }

def after (c : Scene P) (x : Deed P) : Scene P := (c.perform x).scene

def run (c : Scene P) (xs : List (Deed P)) : Scene P := xs.foldl after c

/-- The waiter of future `k`, while the future waits. -/
def waiter? (c : Scene P) (k : Nat) : Option (Waiter P.Request) :=
  (c.futures[k]?.bind (·.stage.id?)).bind c.sync.line.pool.get?

/-- Future `k` is in line. -/
def pends (c : Scene P) (k : Nat) : Bool := (c.waiter? k).any Waiter.isPending

/-- The outcome that future `k` has to observe. -/
def outcome? (c : Scene P) (k : Nat) : Option Outcome := (c.waiter? k).bind (·.outcome)

/-- Future `k` has answered or was dropped. -/
def IsDone (c : Scene P) (k : Nat) : Prop := ∃ f, c.futures[k]? = some f ∧ f.stage = .done

end Scene

theorem Section.Begun.result?_eq {s t : Section P} {r : P.Request} {stage : Stage}
    {answer : Option (Except Refusal Unit)} (h : Section.Begun s t r stage answer) :
    stage.result? = answer := by
  rcases answer with _ | answer
  · obtain ⟨id, rfl, -⟩ := h
    rfl
  · rw [h.1]
    rfl

/-! ## The docket after a deed -/

namespace Docket

/-- The wakes and grants of a section are forgotten after it. -/
def fresh (d : Docket P) : Docket P := { d with wakes := [], granted := [] }

/-- The docket after a deed of the scene `c`. -/
def after (d : Docket P) (c : Scene P) : Deed P → Docket P
  | .tryAcquire request =>
    (d.acquire (c.inside.petition request .zero none) true false none).1
  | .acquire request timeout token steal =>
    (d.acquire (c.inside.petition request timeout token) timeout.isZero
      (token.any c.tokens.refuses) steal).1
  | .poll k waker =>
    match c.waiter? k with
    | none => d
    | some w => if w.isPending then d.await w.ticket waker else d.forget w.ticket
  | .drop k =>
    match c.futures[k]? with
    | none => d
    | some f =>
      match f.stage with
      | .waiting _ => (c.waiter? k).elim d fun w => d.withdraw w.ticket
      | .ready (.ok _) => (d.giveIf fun h => .ok (P.release h f.request)).1
      | .ready (.error _) | .done => d
  | .release request => (d.giveIf (request.elim Section.returnedStanding Section.returned)).1
  | .dropGuard request => (d.giveIf (Section.returned request)).1
  | .dispose => d.dispose
  | .pollDispose waker => { d with awaitingEnd := (c.inside.pollDispose waker).1.sync.awaitingEnd }
  | .trigger slot => (c.inside.fired? slot).elim d fun p => d.trigger p.1 p.2
  | .elsewhere .. => d

end Docket

end Turnstile
