import Turnstile.Section

/-!
# Futures, guards and registrations

What a caller can keep of a synchronizer or a token, and what polling and dropping it does to the
synchronizer it belongs to.
-/

namespace Turnstile

inductive Item (P : Policy) where
  /-- An acquisition of `sync`. For a lenient one running out of time is an answer. -/
  | acquisition (sync : Nat) (request : P.Request) (lenient : Bool) (stage : Stage)
  /-- A future that will answer with a guard. It has no stage before its first poll. -/
  | locking (sync : Nat) (request : P.Request) (stage : Option Stage)
  | guard (sync : Nat) (request : P.Request)
  | disposal (sync : Nat)
  | registration (r : Registration)

namespace Stage

def isWaiting : Stage → Bool
  | waiting _ => true
  | _ => false

def name : Stage → String
  | ready _ => "ready"
  | waiting _ => "waiting"
  | done => "done"

end Stage

/-- An acquisition after a poll: its new stage, and its answer if there is one. -/
abbrev Polled := Stage × Option (Except Refusal Unit)

namespace Section

variable {P : Policy}

def pollStage (s : Section P) (stage : Stage) (waker : Waker) : Section P × Polled :=
  match stage with
  | .ready r => (s, .done, some r)
  | .waiting id =>
    match s.poll id waker with
    | (s, none) => (s, .waiting id, none)
    | (s, some r) => (s, .done, some r)
  | .done => (s, .done, none)

/-- Drops an acquisition: a waiter is withdrawn, and an admission that nobody saw is handed back. -/
def dropStage (s : Section P) (request : P.Request) : Stage → Section P
  | .waiting id => s.leave id true
  | .ready (.ok _) => s.handBack request
  | .ready (.error _) | .done => s

/-- Drops a guard. A lock that cannot be released is only reported. -/
def dropGuard (s : Section P) (request : P.Request) : Section P :=
  match s.release (some request) with
  | (s, .ok _) => s
  | (s, .error r) => { s with events := s.events ++ [.guardStuck r] }

end Section

/-! ## Text -/

namespace Sync

variable {P : Policy}

def detail (s : Sync P) : String :=
  Text.record "QueuedSynchronizer"
    [("policy", P.labels.state s.holding), ("queued", toString s.line.length),
      ("lifecycle", s.phase.name)]

/-- The synchronizer behind its front. -/
def frontDetail (s : Sync P) : String :=
  Text.record (P.labels.title s.holding) (("sync", s.detail) :: P.labels.trailer s.holding)

def guardDetail (s : Sync P) : String :=
  Text.record (P.labels.title s.holding ++ "Guard") [("lock", s.frontDetail)]

end Sync

namespace Item

variable {P : Policy}

def acquisitionDetail (request : P.Request) (stage : Stage) : String :=
  Text.record "Acquire"
    [("request", P.labels.request request), ("state", Text.quote stage.name)]

/-- A locking future has no text. -/
def detail? (syncs : Array (Sync P)) (tokens : Tokens) : Item P → Option String
  | acquisition _ request lenient stage =>
    let inner := acquisitionDetail request stage
    some (if lenient then Text.record "TryAcquire" [("inner", inner)] else inner)
  | locking .. => none
  | guard sync _ => syncs[sync]?.map Sync.guardDetail
  | disposal _ => some (Text.openRecord "Dispose" [])
  | registration r => some (tokens.registrationDetail r)

end Item

end Turnstile
