import Turnstile.Sync
import Turnstile.Event
import Turnstile.Timeout

/-!
# Critical sections

Each operation on a synchronizer is one critical section, a pure function on the synchronizer, the
timers and the tokens. It gathers the wakers of those it resolved, in the order in which it resolved
them. They are woken after the section, when every lock is free, so a woken task may use anything.
-/

namespace Turnstile

/-- What a critical section works on, the wakers it has gathered and the events it has reported. -/
structure Section (P : Policy) where
  sync : Sync P
  timers : Timers
  tokens : Tokens
  wakes : List Waker := []
  events : List (Event P.Request) := []

/-- How far an acquisition has come, as its future knows. -/
inductive Stage where
  | ready (result : Except Refusal Unit)
  | waiting (id : WaiterId)
  /-- The future has answered. -/
  | done

namespace Section

variable {P : Policy}

def tell (s : Section P) (n : Notice P.Request) : Section P :=
  { s with events := s.events ++ [.notice s.sync.id (P.labels.kind s.sync.holding) n] }

def gather (s : Section P) (ws : List Waker) : Section P := { s with wakes := s.wakes ++ ws }

def setLine (s : Section P) (line : Line P.Request) : Section P :=
  { s with sync := { s.sync with line } }

def setHolding (s : Section P) (holding : P.State) : Section P :=
  { s with sync := { s.sync with holding } }

def waiter? (s : Section P) (i : Nat) : Option (Waiter P.Request) := s.sync.line.waiter? i

def update (s : Section P) (i : Nat) (f : Waiter P.Request → Waiter P.Request) : Section P :=
  s.setLine (s.sync.line.update i f)

/-! ## Resolving waiters -/

/-- Ends the subscription of the waiter in slot `i` and cancels its timer. -/
def disarm (s : Section P) (i : Nat) : Section P :=
  match s.waiter? i with
  | none => s
  | some w =>
    let s := s.update i fun w => { w with timer := none, registration := none }
    { s with
      tokens := w.registration.elim s.tokens s.tokens.unregister
      timers := w.timer.elim s.timers s.timers.cancel }

/-- Gives the pending waiter in slot `i` its outcome, disarms it and gathers its waker. -/
def resolve (s : Section P) (i : Nat) (o : Outcome) : Section P :=
  match s.waiter? i with
  | none => s
  | some w =>
    let s := s.update i fun w => { w with outcome := some o, waker := none }
    (s.disarm i).gather w.waker.toList

def isPending (s : Section P) (i : Nat) : Bool := (s.waiter? i).any Waiter.isPending

/-- Unlinks the resolved waiters at the head of the line, at most `fuel` of them. -/
def exposeAtMost : Nat → Section P → Section P
  | 0, s => s
  | fuel + 1, s =>
    match s.sync.line.head with
    | none => s
    | some i => if s.isPending i then s else exposeAtMost fuel (s.setLine s.sync.line.dequeue.1)

/-- Afterwards the waiter at the head of the line, if there is one, is pending. -/
def exposeHead (s : Section P) : Section P := s.exposeAtMost s.sync.line.length

/-- Grants the waiter at the head of the line while the policy admits it, at most `fuel` times. -/
def grantAtMost : Nat → Section P → Section P
  | 0, s => s.exposeHead
  | fuel + 1, s =>
    let s := s.exposeHead
    match s.sync.line.head.bind fun i => (s.waiter? i).map (i, ·) with
    | none => s
    | some (i, w) =>
      if P.allows s.sync.holding w.request then
        let s := s.setLine s.sync.line.dequeue.1
        let s := s.setHolding (P.enter s.sync.holding w.request)
        grantAtMost fuel ((s.resolve i .granted).tell (.granted w.request i w.ticket))
      else s

/-- Grants the longest run of waiters from the head of the line that the policy admits. -/
def grantRun (s : Section P) : Section P := s.grantAtMost s.sync.line.length

/-- Empties the line, at most `fuel` waiters of it. The pending ones get outcome `o`; `count` tells
how many there were. -/
def sweep (o : Outcome) : Nat → Section P → Nat → Section P × Nat
  | 0, s, count => (s, count)
  | fuel + 1, s, count =>
    match s.sync.line.dequeue with
    | (_, none) => (s, count)
    | (line, some i) =>
      let s := s.setLine line
      if s.isPending i then sweep o fuel (s.resolve i o) (count + 1) else sweep o fuel s count

/-- Empties the line and tells how many pending waiters got outcome `o`. -/
def resolveAll (s : Section P) (o : Outcome) : Section P × Nat :=
  sweep o s.sync.line.length s 0

/-- Ends disposal once nothing is held and nobody is in line. -/
def endDisposal (s : Section P) : Section P :=
  if s.sync.phase = .disposing && s.sync.isQuiet then
    let line := { s.sync.line with pool := s.sync.line.pool.close }
    let wakers := s.sync.awaitingEnd
    let sync := { s.sync with phase := .disposed, line, awaitingEnd := [] }
    (({ s with sync }).gather wakers).tell .disposed
  else s

/-! ## Acquiring -/

/-- Subscribes `w` to the token, if there is one. None if the token is cancelled. -/
def subscribe? (tokens : Tokens) (token : Option Nat) (w : Waker) :
    Option (Tokens × Option Registration) :=
  match token with
  | none => some (tokens, none)
  | some t => (tokens.register? t w).map fun (tokens, r) => (tokens, some r)

def arm (timers : Timers) (timeout : Timeout) (w : Waker) :
    Timers × Option Time × Option TimerKey :=
  match timeout with
  | .forever => (timers, none, none)
  | .after d =>
    let deadline := timers.now.add d
    let (timers, key) := timers.register deadline w
    (timers, some deadline, some key)

def enqueue (s : Section P) (request : P.Request) (timeout : Timeout) (token : Option Nat) :
    Section P × Stage :=
  let (pool, id) := s.sync.line.pool.rent
  let signal := Waker.trigger s.sync.id id.slot
  match subscribe? s.tokens token signal with
  | none =>
    (s.setLine { s.sync.line with pool := pool.endRental id }, .ready (.error .cancelled))
  | some (tokens, registration) =>
    let (timers, deadline, timer) := arm s.timers timeout signal
    let ticket := s.sync.arrivals
    let line := { s.sync.line with pool }
    let line := line.update id.slot fun w =>
      { w with request, ticket, registration, deadline, timer }
    let line := line.enqueue id.slot
    let sync := { s.sync with line, arrivals := ticket + 1 }
    (({ s with sync, timers, tokens }).tell (.enqueued request id.slot ticket line.length),
      .waiting id)

def evictLine (s : Section P) (reason : Reason) : Section P :=
  let (s, count) := s.resolveAll (.interrupted reason)
  s.tell (.evicted count reason)

/-- Admits a request or puts it in line. A steal interrupts the whole line before. -/
def acquire (s : Section P) (request : P.Request) (timeout : Timeout) (token : Option Nat)
    (steal : Option Reason) : Section P × Stage :=
  if s.sync.phase ≠ .active then (s, .ready (.error .disposed))
  else
    let s := (steal.elim s s.evictLine).exposeHead
    if s.sync.line.isEmpty && P.allows s.sync.holding request then
      let s := s.setHolding (P.enter s.sync.holding request)
      (s.tell (.admitted request), .ready (.ok ()))
    else if timeout.isZero then (s, .ready (.error .timedOut))
    else if token.any s.tokens.refuses then (s, .ready (.error .cancelled))
    else s.enqueue request timeout token

/-! ## Leaving -/

/-- Ends a rental. An abandoned grant is handed back to the policy, and whoever may enter now is
granted. -/
def leave (s : Section P) (id : WaiterId) (abandoned : Bool) : Section P :=
  match s.sync.line.pool.get? id with
  | none => s
  | some w =>
    let regrant := abandoned && w.outcome = some .granted
    let s := s.disarm id.slot
    let s := if w.linked then s.setLine (s.sync.line.erase id.slot).1 else s
    let s :=
      if regrant then
        (s.setHolding (P.release s.sync.holding w.request)).tell (.handedBack w.request)
      else s
    let s := s.setLine { s.sync.line with pool := s.sync.line.pool.endRental id }
    let s := if w.linked || regrant then s.grantRun else s
    s.endDisposal

/-- Lets `waker` wait for the outcome of a queued acquisition, or observes it. -/
def poll (s : Section P) (id : WaiterId) (waker : Waker) :
    Section P × Option (Except Refusal Unit) :=
  match s.sync.line.pool.get? id with
  | none => (s, none)
  | some w =>
    match w.outcome with
    | none => (s.update id.slot fun w => { w with waker := some waker }, none)
    | some o => (s.leave id false, some o.result)

/-- Gives something back and grants whoever may enter now. -/
def releaseBy (s : Section P) (f : P.State → Except Refusal P.State) :
    Section P × Except Refusal Unit :=
  if s.sync.phase = .disposed then (s, .error .disposed)
  else
    match f s.sync.holding with
    | .error r => (s, .error r)
    | .ok holding => ((s.setHolding holding).grantRun.endDisposal, .ok ())

/-- What the policy holds against a release of `request`, or the holding after it. -/
def returned (request : P.Request) (h : P.State) : Except Refusal P.State :=
  if P.mayRelease h request then .ok (P.release h request) else .error .notHeld

/-- The same for a release that does not say what. -/
def returnedStanding (h : P.State) : Except Refusal P.State :=
  match P.desk.standing h with
  | none => .error .notHeld
  | some request => .ok (P.release h request)

def release (s : Section P) (request : Option P.Request) : Section P × Except Refusal Unit :=
  s.releaseBy (request.elim returnedStanding returned)

/-- Hands back an immediate acquisition that nobody observed. Its owner never held it, so nothing is
checked. -/
def handBack (s : Section P) (request : P.Request) : Section P :=
  (s.releaseBy fun h => .ok (P.release h request)).1

/-! ## Triggers -/

/-- The outcome that a pending waiter's own token or deadline has brought about. The token wins. -/
def triggered? (s : Section P) (w : Waiter P.Request) : Option Outcome :=
  if w.registration.any fun r => s.tokens.isCancelled r.token then some .cancelled
  else if w.deadline.any (· ≤ s.timers.now) then some .timedOut
  else none

/-- Resolves the waiter in slot `i` if its own token or deadline has fired. What fired is looked up
here, so a wake that comes late or twice does nothing. -/
def trigger (s : Section P) (i : Nat) : Section P :=
  match s.waiter? i with
  | none => s
  | some w =>
    if w.isPending then
      match s.triggered? w with
      | none => s
      | some o =>
        let s := (s.tell (.resolved i w.ticket o)).resolve i o
        let s := s.update i fun w => { w with lingers := w.linked }
        if w.linked then s.grantRun else s
    else s

/-! ## Disposal -/

/-- Begins disposal: every waiter in line is resolved, and nobody enters any more. -/
def dispose (s : Section P) : Section P :=
  if s.sync.phase ≠ .active then s
  else
    let s := { s with sync := { s.sync with phase := .disposing } }
    let (s, signalled) := s.resolveAll .disposed
    (s.tell (.disposing signalled (P.isIdle s.sync.holding))).endDisposal

/-- Whether disposal has ended. If not, `waker` waits for it. -/
def pollDispose (s : Section P) (waker : Waker) : Section P × Bool :=
  if s.sync.phase = .disposed then (s, true)
  else if waker ∈ s.sync.awaitingEnd then (s, false)
  else
    ({ s with
        sync := { s.sync with awaitingEnd := s.sync.awaitingEnd ++ [waker] } }, false)

end Section

end Turnstile
