import Turnstile.World

/-!
# Running a script

Waking a task may run steps in the middle of another step, and those may wake more tasks. The
machine therefore keeps an agenda of what is still to be done, the innermost first. Each of its steps
does one critical section or less, and between two of them every lock is free.
-/

namespace Turnstile

/-- One thing that is still to be done. `top` tells a step of the script from one that a waker ran. -/
inductive Frame (P : Policy) where
  /-- Wake these. A wake by the clock itself (`aside`) is not listed. -/
  | wake (aside : Bool) (wakers : List Waker)
  | children (token : Nat)
  /-- Cancel these tokens if they live. -/
  | cancel (tokens : List Nat)
  | run (steps : List (Step P))
  | put (slot : String) (item : Item P)
  | letGo (token : Nat)
  | finish (top : Bool) (answer : Answer P)
  | await (top : Bool) (slot : String)
  | awaitWaker (top : Bool) (waker : String)

/-- What a synchronizer shows after a step. -/
structure ObjectView (P : Policy) where
  holding : P.State
  waiting : Nat
  disposed : Bool
  stats : PoolStats

/-- What is shown after a step of the script. -/
structure Snapshot (P : Policy) where
  objects : List (String × ObjectView P)
  /-- Whether each token is cancelled, and its number of listeners. -/
  tokens : List (String × Bool × Nat)
  timers : Nat

/-- All that one step of the script brought about. -/
structure Report (P : Policy) where
  answer : Answer P
  wakes : List String
  /-- The answers of the steps that wakers ran, in the order in which they ended. -/
  nested : List (Answer P)
  events : List (Event P.Request)
  snapshot : Snapshot P

structure Machine (P : Policy) where
  world : World P := {}
  agenda : List (Frame P) := []
  script : List (Step P) := []
  /-- Every waker that was woken so far. -/
  woken : List String := []
  wakes : List String := []
  nested : List (Answer P) := []
  events : List (Event P.Request) := []
  reports : List (Report P) := []

namespace World

variable {P : Policy}

def snapshot (w : World P) : Snapshot P where
  objects := w.objects.entries.filterMap fun (name, o) =>
    (w.sync? o).map fun s => (name, ⟨s.holding, s.waitingCount, s.isDisposed, s.stats⟩)
  tokens := w.tokenNames.entries.map fun (name, t) =>
    (name, w.tokens.isCancelled t, w.tokens.listenerCount t)
  timers := w.timers.count

end World

namespace Machine

variable {P : Policy}

def push (m : Machine P) (frames : List (Frame P)) : Machine P :=
  { m with agenda := frames ++ m.agenda }

def report (m : Machine P) (events : List (Event P.Request)) : Machine P :=
  { m with events := m.events ++ events }

/-- Takes over a world and plans the wakes that its change calls for. -/
def follow {α : Type} (m : Machine P) (v : Visit P α) (aside : Bool) : Machine P :=
  (({ m with world := v.world }).report v.events).push [.wake aside v.wakes]

/-- Takes over the first part of a step and plans the rest of it. -/
def take (m : Machine P) (top : Bool) (t : Turn P) : Machine P :=
  let after : List (Frame P) :=
    t.firing.toList.map .children ++ t.put.toList.map (fun p => .put p.1 p.2)
      ++ t.held.toList.map .letGo ++ [.finish top t.answer]
  (({ m with world := t.world }).report t.events).push (.wake false t.wakes :: after)

def begin (m : Machine P) (top : Bool) : Step P → Machine P
  | .wait slot => m.push [.await top slot]
  | .waitWaker waker => m.push [.awaitWaker top waker]
  | s => m.take top (m.world.start s)

/-- Wakes one waker. A task runs the steps it was given, once. -/
def wake (m : Machine P) (aside : Bool) : Waker → Machine P
  | .task name =>
    let m :=
      { m with woken := name :: m.woken, wakes := if aside then m.wakes else m.wakes ++ [name] }
    match m.world.onWake.find? name with
    | none => m
    | some steps =>
      { m with world := { m.world with onWake := m.world.onWake.erase name } }.push [.run steps]
  | .sleeper => m
  | .trigger sync slot => m.follow (m.world.touch sync fun s => s.trigger slot) aside

/-- Cancels a token that was reached through its parent. -/
def cancelChild (m : Machine P) (t : Nat) : Machine P :=
  if m.world.tokens.isAlive t && !m.world.tokens.isCancelled t then
    let (tokens, wakes) := m.world.tokens.fire t
    ({ m with world := { m.world with tokens } }.report [.tokenFired wakes.length]).push
      [.wake false wakes, .children t]
  else m

/-- Records the answer of a step. A step of the script closes its report. -/
def deliver (m : Machine P) (top : Bool) (answer : Answer P) : Machine P :=
  if top then
    let r : Report P := ⟨answer, m.wakes, m.nested, m.events, m.world.snapshot⟩
    { m with wakes := [], nested := [], events := [], reports := m.reports ++ [r] }
  else { m with nested := m.nested ++ [answer] }

/-- Fills a slot and drops what it held. -/
def put (m : Machine P) (slot : String) (item : Item P) : Machine P :=
  let w := { m.world with slots := m.world.slots.insert slot item }
  match m.world.slots.find? slot with
  | none => { m with world := w }
  | some old => m.follow (w.discard old) false

/-- Lets the clock run and looks at `again` after it. If nothing will ever fire, gives up. -/
def elapse (m : Machine P) (top : Bool) (again : Frame P) : Machine P :=
  match m.world.elapse? with
  | none => m.deliver top .pending
  | some v => (m.push [again]).follow v true

def await (m : Machine P) (top : Bool) (slot : String) : Machine P :=
  let t := m.world.poll slot .sleeper
  match t.put, t.answer with
  | some (name, item), .pending =>
    let w := { t.world with slots := t.world.slots.insert name item }
    { m with world := w }.elapse top (.await top slot)
  | _, _ => m.take top t

def perform (m : Machine P) : Frame P → Machine P
  | .wake _ [] => m
  | .wake aside (w :: ws) => (m.push [.wake aside ws]).wake aside w
  | .children t =>
    let (tokens, children) := m.world.tokens.takeChildren t
    { m with world := { m.world with tokens } }.push [.cancel children]
  | .cancel [] => m
  | .cancel (t :: ts) => (m.push [.cancel ts]).cancelChild t
  | .run [] => m
  | .run (s :: ss) => (m.push [.run ss]).begin false s
  | .put slot item => m.put slot item
  | .letGo t =>
    { m with world := { m.world with tokens := m.world.tokens.release t } }
  | .finish top answer => m.deliver top answer
  | .await top slot => m.await top slot
  | .awaitWaker top waker =>
    if waker ∈ m.woken then m.deliver top .fired else m.elapse top (.awaitWaker top waker)

/-- The innermost thing on the agenda, or the next step of the script. -/
def step (m : Machine P) : Machine P :=
  match m.agenda with
  | f :: rest => { m with agenda := rest }.perform f
  | [] =>
    match m.script with
    | s :: rest => { m with script := rest }.begin true s
    | [] => m

def isDone (m : Machine P) : Bool := m.agenda.isEmpty && m.script.isEmpty

def runAtMost : Nat → Machine P → Machine P
  | 0, m => m
  | fuel + 1, m => if m.isDone then m else runAtMost fuel m.step

/-- More steps than a run of the script takes. -/
def allowance (script : List (Step P)) : Nat := 64 * (Step.sizes script + 1)

def ofScript (w : World P) (script : List (Step P)) : Machine P := { world := w, script }

def run (w : World P) (script : List (Step P)) : Machine P :=
  runAtMost (allowance script) (ofScript w script)

end Machine

/-- Runs a script and reports on each of its steps. -/
def World.run {P : Policy} (w : World P) (script : List (Step P)) : List (Report P) :=
  (Machine.run w script).reports

end Turnstile
