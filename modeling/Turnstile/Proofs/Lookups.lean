import Turnstile.Proofs.Orders

/-!
# Lookups

A section often looks up a waiter that must be there: the first in line, the last one, one that has
just been unlinked. The operations here are those of the section, but they give nothing where such a
lookup finds nobody, where a length would fall below zero and where a loop would go on for longer
than the line is. They always give what the section does.
-/

namespace Turnstile

/-! ## The line -/

namespace Line

variable {R : Type}

def change? (l : Line R) (i : Nat) (f : Waiter R → Waiter R) : Option (Line R) :=
  (l.waiter? i).map fun _ => l.update i f

def shorter? (l : Line R) : Option Nat := if l.length = 0 then none else some (l.length - 1)

def enqueue? (l : Line R) (i : Nat) : Option (Line R) := do
  let l ← l.change? i fun w => { w with next := none, linked := true }
  match l.tail with
  | some t =>
    let l ← l.change? t fun w => { w with next := some i }
    return { l with tail := some i, length := l.length + 1 }
  | none => return { l with head := some i, tail := some i, length := l.length + 1 }

def dequeue? (l : Line R) : Option (Line R × Option Nat) :=
  match l.head with
  | none => some (l, none)
  | some i => do
    let w ← l.waiter? i
    let length ← l.shorter?
    return ({ pool := l.pool.update i unlinked
              head := w.next
              tail := if w.next.isNone then none else l.tail
              length }, some i)

def splice? (l : Line R) (i : Nat) (before : Option Nat) (next : Option Nat) : Option (Line R) := do
  let m ← l.change? i unlinked
  let m ←
    match before with
    | some b => m.change? b fun w => { w with next }
    | none => some m
  let length ← l.shorter?
  return { pool := m.pool
           head := if before.isNone then next else l.head
           tail := if l.tail = some i then before else l.tail
           length }

def eraseFrom? (l : Line R) (i : Nat) : Nat → Option Nat → Option Nat → Option (Line R × Bool)
  | _, _, none => some (l, false)
  | 0, _, some _ => none
  | fuel + 1, before, some c => do
    let w ← l.waiter? c
    if c = i then
      let l ← l.splice? i before w.next
      return (l, true)
    else eraseFrom? l i fuel (some c) w.next

def erase? (l : Line R) (i : Nat) : Option (Line R × Bool) := l.eraseFrom? i l.length none l.head

variable {l : Line R} {L : List Nat} {i : Nat}

theorem change?_eq {w : Waiter R} (hw : l.waiter? i = some w) (f : Waiter R → Waiter R) :
    l.change? i f = some (l.update i f) := by
  rw [change?, hw, Option.map_some]

theorem Holds.enqueue? (h : l.Holds L) {w : Waiter R} (hw : l.waiter? i = some w) :
    l.enqueue? i = some (l.enqueue i) := by
  unfold Line.enqueue? Line.enqueue
  rw [change?_eq hw]
  simp only [Option.bind_eq_bind, Option.bind_some]
  rcases ht : l.tail with _ | t
  · have : (l.update i fun w => { w with next := none, linked := true }).tail = none := ht
    rw [this]
    rfl
  · have : (l.update i fun w => { w with next := none, linked := true }).tail = some t := ht
    rw [this]
    obtain ⟨u, hu⟩ := Chained.waiter_of_mem h (List.mem_of_getLast? (Chained.tail h ▸ ht))
    obtain ⟨v, hv⟩ : ∃ v, (l.update i fun w => { w with next := none, linked := true }).waiter? t =
        some v := by
      rw [waiter?_update]
      split
      · exact ⟨_, by rw [hu, Option.map_some]⟩
      · exact ⟨u, hu⟩
    simp only [change?_eq hv]
    rfl

theorem Holds.shorter? (h : l.Holds L) (hi : i ∈ L) : l.shorter? = some (l.length - 1) := by
  unfold Line.shorter?
  have len := List.length_pos_of_mem hi
  rw [← Chained.length h] at len
  rw [if_neg (by omega)]

theorem Holds.dequeue? (h : l.Holds L) : l.dequeue? = some l.dequeue := by
  unfold Line.dequeue? Line.dequeue
  rw [Chained.head_eq h]
  cases L with
  | nil => rfl
  | cons i L =>
    obtain ⟨w, hw⟩ := Chained.waiter_of_mem h List.mem_cons_self
    simp [hw, h.shorter? List.mem_cons_self]

theorem Holds.splice? (h : l.Holds L) (hi : i ∈ L) {before : Option Nat}
    (hb : ∀ b, before = some b → b ∈ L) (next : Option Nat) :
    l.splice? i before next = some (l.splice i before next) := by
  obtain ⟨w, hw⟩ := Chained.waiter_of_mem h hi
  unfold Line.splice? Line.splice
  rw [change?_eq hw, h.shorter? hi]
  rcases before with _ | b
  · rfl
  · obtain ⟨u, hu⟩ := Chained.waiter_of_mem h (hb b rfl)
    obtain ⟨v, hv⟩ : ∃ v, (l.update i unlinked).waiter? b = some v := by
      rw [waiter?_update]
      split
      · exact ⟨_, by rw [hu, Option.map_some]⟩
      · exact ⟨u, hu⟩
    simp only [Option.bind_eq_bind, Option.bind_some, change?_eq hv]
    rfl

theorem Holds.eraseFrom? (h : l.Holds L) (i : Nat) {B : List Nat} {cursor : Option Nat}
    (hc : Segment (fun i => (l.waiter? i).map (·.next)) cursor B none) (hB : B ⊆ L) {fuel : Nat}
    (hf : B.length ≤ fuel) {before : Option Nat} (hb : ∀ b, before = some b → b ∈ L) :
    l.eraseFrom? i fuel before cursor = some (l.eraseFrom i fuel before cursor) := by
  induction B generalizing cursor fuel before with
  | nil =>
    obtain rfl : cursor = none := hc
    cases fuel <;> rfl
  | cons c B ih =>
    obtain ⟨rfl, n, hn, hc⟩ := hc
    obtain ⟨w, hw, rfl⟩ := Option.map_eq_some_iff.mp hn
    obtain ⟨fuel, rfl⟩ : ∃ k, fuel = k + 1 := ⟨fuel - 1, by simp at hf; omega⟩
    have hcL : c ∈ L := hB List.mem_cons_self
    simp only [Line.eraseFrom?, Line.eraseFrom, hw, Option.bind_eq_bind, Option.bind_some]
    split
    · rename_i hci
      subst hci
      rw [h.splice? hcL hb]
      rfl
    · refine ih hc (fun x hx => hB (List.mem_cons_of_mem _ hx)) (by simpa using hf) ?_
      intro b hb
      obtain rfl := Option.some.inj hb
      exact hcL

theorem Holds.erase? (h : l.Holds L) (i : Nat) : l.erase? i = some (l.erase i) :=
  h.eraseFrom? i (Chained.chain h) (List.Subset.refl L) (Nat.le_of_eq (Chained.length h).symm)
    (by simp)

end Line

/-! ## Sections -/

namespace Section

variable {P : Policy}

/-- Unlinks the resolved waiters at the head, if that does not take more than `fuel` rounds. -/
def exposeAtMost? : Nat → Section P → Option (Section P)
  | 0, s => if s.sync.line.isEmpty then some s else none
  | fuel + 1, s =>
    match s.sync.line.head with
    | none => some s
    | some i =>
      if s.isPending i then some s
      else do
        let (line, _) ← s.sync.line.dequeue?
        exposeAtMost? fuel (s.setLine line)

def exposeHead? (s : Section P) : Option (Section P) := s.exposeAtMost? s.sync.line.length

def grantAtMost? : Nat → Section P → Option (Section P)
  | 0, s => do
    let s ← s.exposeHead?
    if s.sync.line.isEmpty then return s else none
  | fuel + 1, s => do
    let s ← s.exposeHead?
    match s.sync.line.head with
    | none => return s
    | some i =>
      let w ← s.waiter? i
      if P.allows s.sync.holding w.request then
        let (line, _) ← s.sync.line.dequeue?
        let s := s.setLine line
        let s := s.setHolding (P.enter s.sync.holding w.request)
        let _ ← s.waiter? i
        grantAtMost? fuel ((s.resolve i .granted).tell (.granted w.request i w.ticket))
      else return s

def grantRun? (s : Section P) : Option (Section P) := s.grantAtMost? s.sync.line.length

def sweep? (o : Outcome) : Nat → Section P → Nat → Option (Section P × Nat)
  | 0, s, count => if s.sync.line.isEmpty then some (s, count) else none
  | fuel + 1, s, count => do
    match ← s.sync.line.dequeue? with
    | (_, none) => return (s, count)
    | (line, some i) =>
      let s := s.setLine line
      let w ← s.waiter? i
      if w.isPending then sweep? o fuel (s.resolve i o) (count + 1) else sweep? o fuel s count

def resolveAll? (s : Section P) (o : Outcome) : Option (Section P × Nat) :=
  sweep? o s.sync.line.length s 0

def enqueue? (s : Section P) (request : P.Request) (timeout : Timeout) (token : Option Nat) :
    Option (Section P × Stage) := do
  let (pool, id) := s.sync.line.pool.rent
  let _ ← pool.get? id
  let signal := Waker.trigger s.sync.id id.slot
  match subscribe? s.tokens token signal with
  | none =>
    return (s.setLine { s.sync.line with pool := pool.endRental id }, .ready (.error .cancelled))
  | some (tokens, registration) =>
    let (timers, deadline, timer) := arm s.timers timeout signal
    let ticket := s.sync.arrivals
    let line := { s.sync.line with pool }
    let line ← line.change? id.slot fun w =>
      { w with request, ticket, registration, deadline, timer }
    let line ← line.enqueue? id.slot
    let sync := { s.sync with line, arrivals := ticket + 1 }
    return (({ s with sync, timers, tokens }).tell (.enqueued request id.slot ticket line.length),
      .waiting id)

def evictLine? (s : Section P) (reason : Reason) : Option (Section P) := do
  let (s, count) ← s.resolveAll? (.interrupted reason)
  return s.tell (.evicted count reason)

def acquire? (s : Section P) (request : P.Request) (timeout : Timeout) (token : Option Nat)
    (steal : Option Reason) : Option (Section P × Stage) :=
  if s.sync.phase ≠ .active then some (s, .ready (.error .disposed))
  else do
    let s ← steal.elim (some s) s.evictLine?
    let s ← s.exposeHead?
    if s.sync.line.isEmpty && P.allows s.sync.holding request then
      let s := s.setHolding (P.enter s.sync.holding request)
      return (s.tell (.admitted request), .ready (.ok ()))
    else if timeout.isZero then return (s, .ready (.error .timedOut))
    else if token.any s.tokens.refuses then return (s, .ready (.error .cancelled))
    else s.enqueue? request timeout token

def unhitch? (s : Section P) (i : Nat) (linked : Bool) : Option (Section P) :=
  let s := s.disarm i
  if linked then (s.sync.line.erase? i).map fun l => s.setLine l.1 else some s

def leave? (s : Section P) (id : WaiterId) (abandoned : Bool) : Option (Section P) :=
  match s.sync.line.pool.get? id with
  | none => some s
  | some w => do
    let regrant := abandoned && w.outcome = some .granted
    let s ← s.unhitch? id.slot w.linked
    let s :=
      if regrant then
        (s.setHolding (P.release s.sync.holding w.request)).tell (.handedBack w.request)
      else s
    let s := s.setLine { s.sync.line with pool := s.sync.line.pool.endRental id }
    (if w.linked || regrant then s.grantRun? else some s).map endDisposal

def poll? (s : Section P) (id : WaiterId) (waker : Waker) :
    Option (Section P × Option (Except Refusal Unit)) := do
  let w ← s.sync.line.pool.get? id
  match w.outcome with
  | none => return (s.update id.slot fun w => { w with waker := some waker }, none)
  | some o =>
    let s ← s.leave? id false
    return (s, some o.result)

def releaseBy? (s : Section P) (f : P.State → Except Refusal P.State) :
    Option (Section P × Except Refusal Unit) :=
  if s.sync.phase = .disposed then some (s, .error .disposed)
  else
    match f s.sync.holding with
    | .error r => some (s, .error r)
    | .ok holding => do
      let s ← (s.setHolding holding).grantRun?
      return (s.endDisposal, .ok ())

def trigger? (s : Section P) (i : Nat) : Option (Section P) :=
  match s.waiter? i with
  | none => some s
  | some w =>
    if w.isPending then
      match s.triggered? w with
      | none => some s
      | some o =>
        let s := (s.tell (.resolved i w.ticket o)).resolve i o
        let s := s.update i fun w => { w with lingers := w.linked }
        if w.linked then s.grantRun? else some s
    else some s

def dispose? (s : Section P) : Option (Section P) :=
  if s.sync.phase ≠ .active then some s
  else do
    let s := { s with sync := { s.sync with phase := .disposing } }
    let (s, signalled) ← s.resolveAll? .disposed
    return (s.tell (.disposing signalled (P.isIdle s.sync.holding))).endDisposal

def serve? (s : Section P) : Call P → Option (Served P)
  | .acquire request timeout token steal => do
    let (after, stage) ← s.acquire? request timeout token steal
    return { after, answer := stage.result?, place := stage.id? }
  | .trigger slot => (s.trigger? slot).map fun after => { after }
  | .poll id waker => do
    let (after, answer) ← s.poll? id waker
    return { after, answer }
  | .abandon id => (s.leave? id true).map fun after => { after }
  | .giveBack f => do
    let (after, r) ← s.releaseBy? f
    return { after, answer := some r }
  | .dispose => s.dispose?.map fun after => { after }
  | .pollDispose waker => some (s.serve (.pollDispose waker))

variable {s : Section P} {L : List Nat}

/-! ### Loops over the line -/

theorem exposeAtMost?_eq (h : s.sync.line.Holds L) {fuel : Nat} (hf : L.length ≤ fuel) :
    s.exposeAtMost? fuel = some (s.exposeAtMost fuel) ∧
      ∃ L', (s.exposeAtMost fuel).sync.line.Holds L' ∧ L'.length ≤ L.length := by
  induction fuel generalizing s L with
  | zero =>
    obtain rfl := List.eq_nil_of_length_eq_zero (Nat.le_zero.mp hf)
    refine ⟨?_, [], h, Nat.le_refl _⟩
    rw [exposeAtMost?, h.isEmpty_eq]
    rfl
  | succ fuel ih =>
    unfold exposeAtMost? exposeAtMost
    rw [Chained.head_eq h]
    cases L with
    | nil => exact ⟨rfl, [], h, Nat.le_refl _⟩
    | cons i M =>
      simp only [List.head?_cons]
      split
      · exact ⟨rfl, i :: M, h, Nat.le_refl _⟩
      · have holds : (s.setLine s.sync.line.dequeue.1).sync.line.Holds M := h.dequeue.1
        obtain ⟨same, L', holds', len⟩ := ih holds (by simpa using hf)
        rw [h.dequeue?]
        exact ⟨same, L', holds', Nat.le_trans len (Nat.le_succ _)⟩

theorem exposeHead?_eq (h : s.sync.line.Holds L) :
    s.exposeHead? = some s.exposeHead ∧
      ∃ L', s.exposeHead.sync.line.Holds L' ∧ L'.length ≤ L.length :=
  exposeAtMost?_eq h (Nat.le_of_eq (Chained.length h).symm)

theorem waiter?_dequeue {i : Nat} {M : List Nat} (h : s.sync.line.Holds (i :: M)) :
    ∃ w, (s.setLine s.sync.line.dequeue.1).waiter? i = some w := by
  obtain ⟨w, hw⟩ := Chained.waiter_of_mem h List.mem_cons_self
  have hb : (s.setLine s.sync.line.dequeue.1).sync.line.bare? i = some w.bare.calm := by
    refine (h.dequeue.2.bare?_eq (bare?_of_waiter? hw) i).trans ?_
    rw [if_pos rfl]
  obtain ⟨u, hu, -⟩ := waiter?_of_bare? hb
  exact ⟨u, hu⟩

theorem grantAtMost?_eq (h : s.sync.line.Holds L) {fuel : Nat} (hf : L.length ≤ fuel) :
    s.grantAtMost? fuel = some (s.grantAtMost fuel) := by
  induction fuel generalizing s L with
  | zero =>
    obtain rfl := List.eq_nil_of_length_eq_zero (Nat.le_zero.mp hf)
    obtain ⟨same, L', holds, len⟩ := exposeHead?_eq h
    obtain rfl := List.eq_nil_of_length_eq_zero (Nat.le_zero.mp len)
    rw [grantAtMost?, same]
    simp [holds.isEmpty_eq, grantAtMost]
  | succ fuel ih =>
    obtain ⟨same, L', holds, len⟩ := exposeHead?_eq h
    unfold grantAtMost? grantAtMost
    rw [same]
    simp only [Option.bind_eq_bind, Option.bind_some, Chained.head_eq holds]
    cases L' with
    | nil => rfl
    | cons i M =>
      obtain ⟨w, hw⟩ := Chained.waiter_of_mem holds List.mem_cons_self
      have hw : s.exposeHead.waiter? i = some w := hw
      simp only [List.head?_cons, Option.bind_some, hw, Option.map_some]
      split
      · -- The line without its first waiter is held by the rest of the slots.
        obtain ⟨u, hu⟩ := waiter?_dequeue holds
        obtain ⟨-, keeps, -⟩ := resolve_turns (s := (s.exposeHead.setLine
          s.exposeHead.sync.line.dequeue.1).setHolding (P.enter s.exposeHead.sync.holding w.request))
          hu .granted
        have next := ih (s := s.exposeHead.grantFirst i w) (keeps M holds.dequeue.1)
          (by simp at len; omega)
        rw [holds.dequeue?]
        have hu' : ((s.exposeHead.setLine s.exposeHead.sync.line.dequeue.1).setHolding
            (P.enter s.exposeHead.sync.holding w.request)).waiter? i = some u := hu
        simp only [Option.bind_some]
        exact (congrArg (Option.bind · _) hu').trans next
      · rfl

theorem grantRun?_eq (h : s.sync.line.Holds L) : s.grantRun? = some s.grantRun :=
  grantAtMost?_eq h (Nat.le_of_eq (Chained.length h).symm)

theorem sweep?_eq (h : s.sync.line.Holds L) (o : Outcome) {fuel : Nat} (hf : L.length ≤ fuel)
    (count : Nat) : s.sweep? o fuel count = some (s.sweep o fuel count) := by
  induction fuel generalizing s L count with
  | zero =>
    obtain rfl := List.eq_nil_of_length_eq_zero (Nat.le_zero.mp hf)
    rw [sweep?, h.isEmpty_eq]
    rfl
  | succ fuel ih =>
    unfold sweep? sweep
    rw [h.dequeue?]
    cases L with
    | nil =>
      rw [Line.dequeue_nil h]
      rfl
    | cons i M =>
      obtain ⟨m, hm⟩ : ∃ m, s.sync.line.dequeue = (m, some i) := ⟨_, Line.dequeue_cons h⟩
      obtain ⟨w, hw⟩ := waiter?_dequeue h
      have holds : (s.setLine s.sync.line.dequeue.1).sync.line.Holds M := h.dequeue.1
      rw [hm] at hw holds
      obtain ⟨-, keeps, -⟩ := resolve_turns hw o
      simp only [hm, Option.bind_eq_bind, Option.bind_some, hw, isPending, Option.any_some]
      split
      · exact ih (keeps M holds) (by simpa using hf) (count + 1)
      · exact ih holds (by simpa using hf) count

theorem resolveAll?_eq (h : s.sync.line.Holds L) (o : Outcome) :
    s.resolveAll? o = some (s.resolveAll o) :=
  sweep?_eq h o (Nat.le_of_eq (Chained.length h).symm) 0

/-! ### Whole sections -/

variable {d : Docket P}

theorem enqueue?_eq (h : s.Shows d L) (request : P.Request) (timeout : Timeout)
    (token : Option Nat) :
    s.enqueue? request timeout token = some (s.enqueue request timeout token) := by
  have rents := Pool.rent_rents h.sound
  unfold enqueue? enqueue
  rcases hr : s.sync.line.pool.rent with ⟨pool, id⟩
  rw [hr] at rents
  have fresh : pool.rented? id.slot = some (Waiter.idle s.sync.line.pool.blank) :=
    (rents.rented? id.slot).trans (if_pos rfl)
  simp only [Pool.get?_eq_some.mpr ⟨rents.current, fresh⟩, Option.bind_eq_bind, Option.bind_some]
  rcases subscribe? s.tokens token (Waker.trigger s.sync.id id.slot) with _ | ⟨tokens, r⟩
  · rfl
  · obtain ⟨-, holds⟩ := Line.Holds.rent h.line rents
    have hw : Line.waiter? { s.sync.line with pool } id.slot = some _ := fresh
    let f : Waiter P.Request → Waiter P.Request := fun w =>
      { w with
        request, ticket := s.sync.arrivals, registration := r
        deadline := (arm s.timers timeout (Waker.trigger s.sync.id id.slot)).2.1
        timer := (arm s.timers timeout (Waker.trigger s.sync.id id.slot)).2.2 }
    have hw' : (Line.update { s.sync.line with pool } id.slot f).waiter? id.slot =
        some (f (Waiter.idle s.sync.line.pool.blank)) := by
      rw [Line.waiter?_update, if_pos rfl, hw, Option.map_some]
    have updated := holds.update id.slot (f := f) (fun _ => rfl) fun _ => rfl
    simp only [Line.change?_eq hw, Option.bind_some]
    exact congrArg (Option.bind · _) (updated.enqueue? hw')

theorem evictLine?_eq (h : s.sync.line.Holds L) (reason : Reason) :
    s.evictLine? reason = some (s.evictLine reason) := by
  rw [evictLine?, resolveAll?_eq h]
  rfl

theorem acquire?_eq (h : s.Rests d L) (request : P.Request) (timeout : Timeout)
    (token : Option Nat) (steal : Option Reason) :
    s.acquire? request timeout token steal = some (s.acquire request timeout token steal) := by
  unfold acquire? acquire
  split
  · rfl
  · rename_i hp
    have active : d.phase = .active := h.phase.trans (by simpa using hp)
    obtain ⟨M, holds⟩ : ∃ M, (steal.elim s s.evictLine).sync.line.Holds M := by
      rcases steal with _ | r
      · exact ⟨L, h.line⟩
      · exact ⟨[], (resolveAll_shows h.toShows (.interrupted r)).1.line⟩
    have evicted : steal.elim (some s) s.evictLine? = some (steal.elim s s.evictLine) := by
      rcases steal with _ | r
      · rfl
      · exact evictLine?_eq h.line r
    obtain ⟨L', rests, -⟩ := evict_rests h active steal
    rw [evicted]
    simp only [Option.bind_eq_bind, Option.bind_some, (exposeHead?_eq holds).1,
      enqueue?_eq rests.toShows request timeout token]
    split
    · rfl
    · split
      · rfl
      · split <;> rfl

theorem unhitch?_eq (line : s.sync.line.Holds L) {i : Nat} {w : Waiter P.Request}
    (hw : s.waiter? i = some w) (linked : Bool) :
    s.unhitch? i linked = some (s.unhitch i linked) := by
  have holds := (disarm_turns hw).2.1 L line
  simp only [unhitch?, unhitch, holds.erase?]
  split <;> rfl

theorem leave?_eq (h : s.Rests d L) (id : WaiterId) (abandoned : Bool) :
    s.leave? id abandoned = some (s.leave id abandoned) := by
  rcases hw : s.sync.line.pool.get? id with _ | w
  · simp only [leave?, leave, hw]
  have line := (detach_shows h.toShows hw).1.line
  -- Whether or not a grant is handed back, the line is the same.
  have granted (t : Section P) (ht : t.sync.line = (s.detach id w.linked).sync.line) (b : Bool) :
      (if b then t.grantRun? else some t).map endDisposal =
        some (if b then t.grantRun else t).endDisposal := by
    rw [grantRun?_eq (ht ▸ line)]
    split <;> rfl
  rw [leave_eq hw]
  simp only [leave?, hw, unhitch?_eq h.line (waiter?_of_get? hw), Option.bind_eq_bind,
    Option.bind_some]
  rcases abandoned && decide (w.outcome = some .granted) with _ | _
  · exact granted _ rfl _
  · refine granted (Section.setLine _ _) ?_ _
    rfl

theorem poll?_eq (h : s.Rests d L) {id : WaiterId} {w : Waiter P.Request}
    (hw : s.sync.line.pool.get? id = some w) (waker : Waker) :
    s.poll? id waker = some (s.poll id waker) := by
  unfold poll? poll
  rw [hw]
  simp only [Option.bind_eq_bind, Option.bind_some, leave?_eq h]
  rcases w.outcome with _ | o <;> rfl

theorem releaseBy?_eq (h : s.Rests d L) (f : P.State → Except Refusal P.State) :
    s.releaseBy? f = some (s.releaseBy f) := by
  unfold releaseBy? releaseBy
  split
  · rfl
  · rcases f s.sync.holding with r | holding
    · rfl
    · simp only [grantRun?_eq (s := s.setHolding holding) h.line]
      rfl

theorem trigger?_eq (h : s.Rests d L) (i : Nat) : s.trigger? i = some (s.trigger i) := by
  unfold trigger? trigger
  rcases hw : s.waiter? i with _ | w
  · rfl
  · dsimp only
    split
    · rcases s.triggered? w with _ | o
      · rfl
      · obtain ⟨-, keeps, -⟩ := resolve_turns (s := s.tell (.resolved i w.ticket o)) hw o
        have holds : (((s.tell (.resolved i w.ticket o)).resolve i o).update i fun w =>
            { w with lingers := w.linked }).sync.line.Holds L :=
          (keeps L h.line).update i (fun _ => rfl) fun _ => rfl
        simp only [grantRun?_eq holds]
        split <;> rfl
    · rfl

theorem dispose?_eq (h : s.Rests d L) : s.dispose? = some s.dispose := by
  unfold dispose? dispose
  split
  · rfl
  · exact congrArg (Option.bind · _)
      (resolveAll?_eq (s := { s with sync := { s.sync with phase := .disposing } }) h.line .disposed)

/-- No lookup of a section fails. Only a poll takes for granted that its id is current. -/
theorem Rests.serve?_eq (h : s.Rests d L) (x : Call P)
    (current : ∀ id waker, x = .poll id waker → s.sync.line.pool.get? id ≠ none) :
    s.serve? x = some (s.serve x) := by
  cases x with
  | acquire request timeout token steal =>
    rw [serve?, acquire?_eq h]
    rfl
  | trigger slot =>
    rw [serve?, trigger?_eq h]
    rfl
  | poll id waker =>
    obtain ⟨w, hw⟩ := Option.ne_none_iff_exists'.mp (current id waker rfl)
    rw [serve?, poll?_eq h hw]
    rfl
  | abandon id =>
    rw [serve?, leave?_eq h]
    rfl
  | giveBack f =>
    rw [serve?, releaseBy?_eq h]
    rfl
  | dispose =>
    rw [serve?, dispose?_eq h]
    rfl
  | pollDispose waker => rfl

end Section

end Turnstile
