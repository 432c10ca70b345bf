import Turnstile.Item
import Turnstile.Names
import Turnstile.Script

/-!
# The world of a script

Synchronizers, tokens, one set of timers and a clock, with names for them and slots for futures,
guards and registrations. `World.start` is what a step does before anybody is woken. It leaves a
`Turn`: whom to wake then, and what to answer when they have had their turn.
-/

namespace Turnstile

/-- A name of a synchronizer. -/
structure Object where
  sync : Nat
  raw : Bool
  deriving DecidableEq, Inhabited, Repr

structure World (P : Policy) where
  timers : Timers := {}
  tokens : Tokens := {}
  syncs : Array (Sync P) := #[]
  /-- The world's own clock, if the timers go by another one that stands still. -/
  ownClock : Option Time := none
  /-- The clock runs by itself while somebody waits. -/
  running : Bool := false
  objects : Names Object := {}
  slots : Names (Item P) := {}
  tokenNames : Names Nat := {}
  timerNames : Names TimerKey := {}
  /-- The steps that a waker runs when it is woken next. -/
  onWake : Names (List (Step P)) := {}

/-- A world after a critical section, with what the section left. -/
structure Visit (P : Policy) (α : Type) where
  world : World P
  value : α
  wakes : List Waker := []
  events : List (Event P.Request) := []

/-- A world after the first part of a step, and what is left of the step. -/
structure Turn (P : Policy) where
  world : World P
  answer : Answer P
  wakes : List Waker := []
  events : List (Event P.Request) := []
  /-- The token whose children are cancelled after the wakes. -/
  firing : Option Nat := none
  put : Option (String × Item P) := none
  /-- The token that the step holds until it ends. -/
  held : Option Nat := none

namespace World

variable {P : Policy}

/-- Runs a critical section of synchronizer `i`. -/
def visit {α : Type} (w : World P) (i : Nat) (otherwise : α) (f : Section P → Section P × α) :
    Visit P α :=
  match w.syncs[i]? with
  | none => { world := w, value := otherwise }
  | some sync =>
    let (s, value) := f { sync, timers := w.timers, tokens := w.tokens }
    { world :=
        { w with
          syncs := w.syncs.setIfInBounds i s.sync, timers := s.timers, tokens := s.tokens }
      value, wakes := s.wakes, events := s.events }

/-- The same for a section without an answer. -/
def touch (w : World P) (i : Nat) (f : Section P → Section P) : Visit P Unit :=
  w.visit i () fun s => (f s, ())

def reply (w : World P) (answer : Answer P) : Turn P := { world := w, answer }

def ofVisit {α : Type} (v : Visit P α) (answer : Answer P) : Turn P :=
  { world := v.world, wakes := v.wakes, events := v.events, answer }

/-- Goes on with what a name stands for. -/
def lookup {α : Type} (w : World P) (names : Names α) (name : String) (f : α → Turn P) : Turn P :=
  match names.find? name with
  | none => w.reply .missing
  | some a => f a

def sync? (w : World P) (o : Object) : Option (Sync P) := w.syncs[o.sync]?

/-! ## Synchronizers -/

def create (w : World P) (name : String) (raw : Bool) (holding : P.State) (settings : Settings) :
    Turn P :=
  match if raw then none else P.desk.opening holding with
  | some complaint => w.reply (.refused (.invalidArgument complaint))
  | none =>
    match settings.validate with
    | .error r => w.reply (.refused r)
    | .ok _ =>
      let i := w.syncs.size
      let sync := Sync.create i holding (settings.concurrencyLevel.getD 0)
        settings.poolRetainLimit
      reply { w with syncs := w.syncs.push sync, objects := w.objects.insert name ⟨i, raw⟩ } .ok

/-- What the front of an object has against a request. -/
def complaint? (w : World P) (o : Object) (rule : P.State → P.Request → Option String)
    (request : P.Request) : Option String :=
  if o.raw then none else (w.sync? o).bind fun s => rule s.holding request

def tryAcquire (w : World P) (o : Object) (request : P.Request) : Turn P :=
  match w.complaint? o P.desk.entry request with
  | some complaint => w.reply (.refused (.invalidArgument complaint))
  | none =>
    let v := w.visit o.sync .done fun s => s.acquire request .zero none none
    ofVisit v <|
      match v.value with
      | .ready (.ok _) => .flag true
      | .ready (.error .timedOut) => .flag false
      | .ready (.error r) => .refused r
      | _ => .flag false

/-- The future of an acquisition goes into slot `name`. -/
def startAcquisition (w : World P) (o : Object) (name : String) (a : Acquiring P)
    (timeout : Timeout) (token : Option Nat) : Turn P :=
  let keep (t : Turn P) (stage : Stage) : Turn P :=
    { t with
      put := some (name, .acquisition o.sync a.request a.lenient stage)
      answer := .waiting (if a.lenient then none else some stage.isWaiting) }
  match w.complaint? o P.desk.entry a.request with
  | some complaint => keep (w.reply .nothing) (.ready (.error (.invalidArgument complaint)))
  | none =>
    let v := w.visit o.sync .done fun s => s.acquire a.request timeout token a.steal
    keep (ofVisit v .nothing) v.value

/-- An acquisition with a token holds a handle of it until the step ends. -/
def acquire (w : World P) (o : Object) (name : String) (a : Acquiring P) : Turn P :=
  let begin (token : Option Nat) : Turn P :=
    match a.timeout with
    | .error r => w.reply (.refused r)
    | .ok timeout =>
      let tokens := token.elim w.tokens w.tokens.retain
      { startAcquisition { w with tokens } o name a timeout token with held := token }
  match a.token with
  | none => begin none
  | some token => w.lookup w.tokenNames token fun t => begin (some t)

def release (w : World P) (o : Object) (request : Option P.Request) : Turn P :=
  match request.bind (w.complaint? o P.desk.exit) with
  | some complaint => w.reply (.refused (.invalidArgument complaint))
  | none =>
    let v : Visit P (Except Refusal Unit) := w.visit o.sync (.ok ()) fun s => s.release request
    ofVisit v <|
      match v.value with
      | .ok _ => .ok
      | .error r => .refused r

def dispose (w : World P) (o : Object) (name : String) : Turn P :=
  { ofVisit (w.touch o.sync Section.dispose) .nothing with
    put := some (name, .disposal o.sync) }

def describe (w : World P) (o : Object) : Turn P :=
  w.reply <|
    match w.sync? o with
    | none => .missing
    | some s => .text (if o.raw then s.detail else s.frontDetail)

/-! ## Slots -/

def outcomeAnswer (lenient : Bool) : Except Refusal Unit → Answer P
  | .ok _ => if lenient then .flag true else .ok
  | .error .timedOut => if lenient then .flag false else .refused .timedOut
  | .error r => .refused r

/-- Polls a future once: its answer, and what it has become. None if it is no future. -/
def pollItem? (w : World P) (waker : Waker) : Item P → Option (Visit P (Item P × Answer P))
  | .acquisition sync request lenient .done =>
    some { world := w, value := (.acquisition sync request lenient .done, .acquisitionDone) }
  | .acquisition sync request lenient stage =>
    let v : Visit P Polled := w.visit sync (stage, none) fun s => s.pollStage stage waker
    let answer := v.value.2.elim .pending (outcomeAnswer lenient)
    some { v with value := (.acquisition sync request lenient v.value.1, answer) }
  | .locking sync request (some .done) =>
    some { world := w, value := (.locking sync request (some .done), .lockingDone) }
  | .locking sync request stage =>
    let v : Visit P Polled := w.visit sync (.done, none) fun s =>
      let (s, stage) :=
        match stage with
        | some stage => (s, stage)
        | none => s.acquire request .forever none none
      s.pollStage stage waker
    let result : Item P × Answer P :=
      match v.value.2 with
      | none => (.locking sync request (some v.value.1), .pending)
      | some (.ok _) => (.guard sync request, .guard)
      | some (.error r) => (.locking sync request (some .done), .refused r)
    some { v with value := result }
  | .disposal sync =>
    let v := w.visit sync false fun s => s.pollDispose waker
    some { v with value := (.disposal sync, if v.value then .disposed else .pending) }
  | .guard .. | .registration _ => none

/-- Drops what a slot held. -/
def discard (w : World P) : Item P → Visit P Unit
  | .acquisition sync request _ stage | .locking sync request (some stage) =>
    w.touch sync fun s => s.dropStage request stage
  | .guard sync request => w.touch sync fun s => s.dropGuard request
  | .registration r => { world := { w with tokens := w.tokens.unregister r }, value := () }
  | .locking _ _ none | .disposal _ => { world := w, value := () }

/-- Gives a waker steps to run when it is woken. Without any it keeps those that it has. -/
def setOnWake (w : World P) (waker : String) (steps : Option (List (Step P))) : World P :=
  steps.elim w fun steps => { w with onWake := w.onWake.insert waker steps }

/-- Polls the future in a slot. The slot is empty until the poll is over. -/
def poll (w : World P) (slot : String) (waker : Waker) : Turn P :=
  w.lookup w.slots slot fun item =>
    match pollItem? { w with slots := w.slots.erase slot } waker item with
    | none => w.reply .notFuture
    | some v => { ofVisit v v.value.2 with put := some (slot, v.value.1) }

def drop (w : World P) (slot : String) : Turn P :=
  w.lookup w.slots slot fun item =>
    ofVisit (discard { w with slots := w.slots.erase slot } item) .dropped

def isWaiting (w : World P) (slot : String) : Turn P :=
  w.lookup w.slots slot fun item =>
    w.reply <|
      match item with
      | .acquisition _ _ false stage => .flag stage.isWaiting
      | .guard .. | .registration _ => .missing
      | _ => .nothing

def guarded (w : World P) (slot : String) : Turn P :=
  w.lookup w.slots slot fun item =>
    w.reply <|
      match item with
      | .guard sync _ =>
        match w.syncs[sync]? with
        | some s => .guarded (!P.isIdle s.holding) s.guardDetail
        | none => .missing
      | _ => .missing

def isRegistrationCancelled (w : World P) (slot : String) : Turn P :=
  w.lookup w.slots slot fun item =>
    w.reply <|
      match item with
      | .registration r => .flag (w.tokens.isCancelled r.token)
      | _ => .missing

def describeSlot (w : World P) (slot : String) : Turn P :=
  w.lookup w.slots slot fun item =>
    w.reply (((item.detail? w.syncs w.tokens).map .text).getD .nothing)

/-! ## Tokens -/

/-- The name lets go of the token that it stood for. -/
def forgetToken (w : World P) (name : String) : World P :=
  match w.tokenNames.find? name with
  | none => w
  | some t =>
    { w with tokens := w.tokens.release t, tokenNames := w.tokenNames.erase name }

/-- A handle of token `t` gets a name. -/
def nameToken (w : World P) (tokens : Tokens) (t : Nat) (name : String) : World P :=
  let w := forgetToken { w with tokens } name
  { w with tokenNames := w.tokenNames.insert name t }

def createToken (w : World P) (name : String) : Turn P :=
  let (tokens, t) := w.tokens.create
  (w.nameToken tokens t name).reply .nothing

/-- A child of a cancelled token is born cancelled. -/
def child (w : World P) (parent : Nat) (name : String) : Turn P :=
  let (tokens, t) := w.tokens.create
  if w.tokens.isCancelled parent then
    { reply (w.nameToken (tokens.fire t).1 t name) .nothing with events := [.tokenFired 0] }
  else (w.nameToken (tokens.link parent t) t name).reply .nothing

def cancel (w : World P) (t : Nat) : Turn P :=
  if w.tokens.isCancelled t then w.reply (.flag false)
  else
    let (tokens, wakes) := w.tokens.fire t
    { world := { w with tokens }, answer := .flag true, wakes, firing := some t
      events := [.tokenFired wakes.length] }

def register (w : World P) (t : Nat) (name waker : String) : Turn P :=
  match w.tokens.register? t (.task waker) with
  | none => w.reply .nothing
  | some (tokens, r) =>
    { reply { w with tokens } .registered with put := some (name, .registration r) }

/-! ## Clock and timers -/

def clock (w : World P) : Time := w.ownClock.getD w.timers.now

def setClock (w : World P) (t : Time) : World P :=
  match w.ownClock with
  | some _ => { w with ownClock := some t }
  | none => { w with timers := { w.timers with now := t } }

def moveClock (w : World P) (t : Time) : Turn P := (w.setClock t).reply (.instant t)

def process (w : World P) : Turn P :=
  let (timers, due) := w.timers.takeDue
  { world := { w with timers }, answer := .count due.length, wakes := due.map Prod.snd }

def createTimer (w : World P) (name : String) (moment : Moment) (waker : String) : Turn P :=
  let deadline :=
    match moment with
    | .at t => t
    | .in d => w.timers.now.add d
  let (timers, k) := w.timers.register deadline (.task waker)
  reply { w with timers, timerNames := w.timerNames.insert name k }
    (if w.running then .nothing else .timer k)

/-- Lets the clock run to the next deadline. None if there is none. -/
def elapse? (w : World P) : Option (Visit P Unit) :=
  w.timers.nextDeadline?.map fun t =>
    let (timers, due) := { w.timers with now := w.timers.now.advanceTo t }.takeDue
    { world := { w with timers }, value := (), wakes := due.map Prod.snd }

/-! ## Steps -/

/-- The first part of a step. Blocking steps have none. -/
def start (w : World P) : Step P → Turn P
  | .create name raw holding settings => w.create name raw holding settings
  | .clone object name =>
    w.lookup w.objects object fun o => reply { w with objects := w.objects.insert name o } .nothing
  | .dropObject object =>
    w.lookup w.objects object fun _ => reply { w with objects := w.objects.erase object } .dropped
  | .tryAcquire object request => w.lookup w.objects object fun o => w.tryAcquire o request
  | .acquire object name a => w.lookup w.objects object fun o => w.acquire o name a
  | .lock object name request =>
    w.lookup w.objects object fun o =>
      { w.reply .nothing with put := some (name, .locking o.sync request none) }
  | .release object request => w.lookup w.objects object fun o => w.release o request
  | .dispose object name => w.lookup w.objects object fun o => w.dispose o name
  | .holding object =>
    w.lookup w.objects object fun o =>
      w.reply (((w.sync? o).map fun s => Answer.holding s.holding).getD .missing)
  | .describe object => w.lookup w.objects object w.describe
  | .poll slot waker onWake => (w.setOnWake waker onWake).poll slot (.task waker)
  | .drop slot => w.drop slot
  | .isWaiting slot => w.isWaiting slot
  | .guarded slot => w.guarded slot
  | .isRegistrationCancelled slot => w.isRegistrationCancelled slot
  | .describeSlot slot => w.describeSlot slot
  | .createToken name => w.createToken name
  | .child token name => w.lookup w.tokenNames token fun t => w.child t name
  | .cloneToken token name =>
    w.lookup w.tokenNames token fun t => (w.nameToken (w.tokens.retain t) t name).reply .nothing
  | .dropToken token => w.lookup w.tokenNames token fun _ => (w.forgetToken token).reply .nothing
  | .cancel token => w.lookup w.tokenNames token w.cancel
  | .describeToken token => w.lookup w.tokenNames token fun t => w.reply (.text (w.tokens.detail t))
  | .register token name waker onWake =>
    w.lookup w.tokenNames token fun t => (w.setOnWake waker onWake).register t name waker
  | .advance nanos => w.moveClock (w.clock.advance nanos)
  | .advanceTo t => w.moveClock (w.clock.advanceTo t)
  | .setClock t => w.moveClock t
  | .now => w.reply (.instant w.timers.now)
  | .describeClock =>
    w.reply (.text (Text.record "VirtualClock" [("now", toString w.clock.toNat)]))
  | .process => w.process
  | .createTimer name moment waker onWake =>
    (w.setOnWake waker onWake).createTimer name moment waker
  | .cancelTimer timer =>
    w.lookup w.timerNames timer fun k =>
      reply { w with timers := w.timers.cancel k } (.flag (w.timers.isPending k))
  | .sameTimer a b =>
    w.lookup w.timerNames a fun k => w.lookup w.timerNames b fun k' => w.reply (.flag (k = k'))
  | .nextDeadline => w.reply (.deadline w.timers.nextDeadline?)
  | .timers =>
    w.reply (.timers w.timers.now w.timers.nextDeadline? w.timers.count w.timers.isEmpty)
  | .clearTimers => reply { w with timers := w.timers.clear } .nothing
  | .describeTimers => w.reply (.text w.timers.detail)
  | .wait _ | .waitWaker _ => w.reply .nothing

end World

end Turnstile
