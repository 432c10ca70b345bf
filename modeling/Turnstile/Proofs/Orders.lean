import Turnstile.Proofs.Simulation

/-!
# Orders

What is asked of a synchronizer, by ticket. A docket obeys an order without slots, links and
generations, and a critical section leaves what the docket would: the same state, the same answer
and the same wakers in the same order.
-/

namespace Turnstile

variable {P : Policy}

/-! ## The docket obeys -/

inductive Order (P : Policy) where
  | acquire (request : P.Request) (timeout : Timeout) (token : Option Nat) (steal : Option Reason)
  /-- Look at the ticket's own token and deadline. -/
  | recheck (ticket : Nat)
  | observe (ticket : Nat) (waker : Waker)
  | withdraw (ticket : Nat)
  | giveBack (f : P.State → Except Refusal P.State)
  | dispose
  | awaitEnd (waker : Waker)

namespace Docket

/-- The pending `t` with what its token or its deadline has brought about. -/
def fired? (d : Docket P) (now : Time) (cancelled : Nat → Bool) (t : Nat) :
    Option (Petition P.Request × Outcome) :=
  (d.pending.find? (·.ticket = t)).bind fun e => (e.cause? now cancelled).map (e, ·)

def observe (d : Docket P) (t : Nat) (waker : Waker) : Docket P × Option (Except Refusal Unit) :=
  match d.settled t with
  | none => (d.await t waker, none)
  | some (_, o) => (d.forget t, some o.result)

/-- A task waits for the end of disposal, unless it does so already. -/
def awaitEnd (d : Docket P) (waker : Waker) : Docket P × Option (Except Refusal Unit) :=
  if d.phase = .disposed then (d, some (.ok ()))
  else if waker ∈ d.awaitingEnd then (d, none)
  else ({ d with awaitingEnd := d.awaitingEnd ++ [waker] }, none)

/-- The docket after an order, with the answer if it has one. -/
def obey (d : Docket P) (now : Time) (tokens : Tokens) :
    Order P → Docket P × Option (Except Refusal Unit)
  | .acquire request timeout token steal =>
    let e := { ticket := d.arrivals, request, deadline := timeout.deadline? now, token }
    d.acquire e timeout.isZero (token.any tokens.refuses) steal
  | .recheck t => ((d.fired? now tokens.isCancelled t).elim d fun p => d.trigger p.1 p.2, none)
  | .observe t waker => d.observe t waker
  | .withdraw t => (d.withdraw t, none)
  | .giveBack f => ((d.giveIf f).1, some (d.giveIf f).2)
  | .dispose => (d.dispose, none)
  | .awaitEnd waker => d.awaitEnd waker

/-- `e` is `d` with fewer pending and perhaps another holding. -/
structure Loosens (d e : Docket P) : Prop where
  pending : e.pending.Sublist d.pending
  settled : ∀ t, d.settled t = none → e.settled t = none
  phase : e.phase = d.phase
  awaitingEnd : e.awaitingEnd = d.awaitingEnd
  wakes : e.wakes = d.wakes
  granted : e.granted = d.granted

/-- What can become of a docket that obeys an order. -/
inductive Becomes (d : Docket P) : Order P → Docket P → Prop
  | same (x : Order P) : Becomes d x d
  | joined (x : Order P) (e : Petition P.Request) (zero refused : Bool) (steal : Option Reason)
      (unpolled : e.waker = none) (active : d.phase = .active) :
      Becomes d x ((d.evict steal).join e zero refused).1
  | fired (x : Order P) (e : Petition P.Request) (o : Outcome) (he : e ∈ d.pending)
      (refusal : o ≠ .granted) : Becomes d x (d.trigger e o)
  | awaited (t : Nat) (waker : Waker) : Becomes d (.observe t waker) (d.await t waker)
  | forgotten (x : Order P) (t : Nat) : Becomes d x (d.forget t)
  | regranted (x : Order P) (e : Docket P) (loosens : d.Loosens e) :
      Becomes d x e.grantRun.endDisposal
  | disposed (active : d.phase = .active) : Becomes d .dispose d.dispose
  | watched (waker : Waker) :
      Becomes d (.awaitEnd waker) { d with awaitingEnd := d.awaitingEnd ++ [waker] }

variable {d : Docket P}

theorem forget_eq_none {t u : Nat} (h : d.settled u = none) : (d.forget t).settled u = none := by
  by_cases hu : u = t
  · rw [hu]
    exact Function.update_self ..
  · exact (Function.update_of_ne hu ..).trans h

theorem fired?_eq_some {now : Time} {cancelled : Nat → Bool} {t : Nat} {e : Petition P.Request}
    {o : Outcome} (h : d.fired? now cancelled t = some (e, o)) : e ∈ d.pending ∧ o ≠ .granted := by
  obtain ⟨x, hx, hc⟩ := Option.bind_eq_some_iff.mp h
  obtain ⟨o', ho, same⟩ := Option.map_eq_some_iff.mp hc
  obtain ⟨rfl, rfl⟩ := Prod.mk.injEq _ _ _ _ ▸ same
  refine ⟨List.mem_of_find?_eq_some hx, ?_⟩
  rcases Petition.cause?_eq_some ho with ⟨rfl, -⟩ | ⟨rfl, -⟩ <;> simp

theorem obey_becomes (d : Docket P) (now : Time) (tokens : Tokens) (x : Order P) :
    d.Becomes x (d.obey now tokens x).1 := by
  cases x with
  | acquire request timeout token steal =>
    simp only [obey, acquire]
    split
    · exact .same _
    · rename_i active
      exact .joined _ _ _ _ _ rfl (by simpa using active)
  | recheck t =>
    simp only [obey]
    rcases hf : d.fired? now tokens.isCancelled t with _ | ⟨e, o⟩
    · exact .same _
    · exact .fired _ e o (fired?_eq_some hf).1 (fired?_eq_some hf).2
  | observe t waker =>
    simp only [obey, observe]
    rcases d.settled t with _ | v
    · exact .awaited t waker
    · exact .forgotten _ t
  | withdraw t =>
    simp only [obey, withdraw]
    rcases d.settled t with _ | ⟨r, o⟩
    · exact .regranted _ (d.strike t) ⟨List.filter_sublist, fun _ h => h, rfl, rfl, rfl, rfl⟩
    · dsimp only
      split
      · exact .regranted _ { d.forget t with holding := P.release d.holding r }
          ⟨List.Sublist.refl _, fun _ h => forget_eq_none h, rfl, rfl, rfl, rfl⟩
      · exact .forgotten _ t
  | giveBack f =>
    simp only [obey, giveIf]
    split
    · exact .same _
    · rcases f d.holding with r | h
      · exact .same _
      · exact .regranted _ { d with holding := h }
          ⟨List.Sublist.refl _, fun _ h => h, rfl, rfl, rfl, rfl⟩
  | dispose =>
    by_cases active : d.phase = .active
    · exact .disposed active
    · have same : (d.obey now tokens .dispose).1 = d := if_pos active
      rw [same]
      exact .same _
  | awaitEnd waker =>
    simp only [obey, awaitEnd]
    split
    · exact .same _
    · split
      · exact .same _
      · exact .watched waker

end Docket

/-- An order, if there is one, with the clock and the tokens that it finds. -/
structure Errand (P : Policy) where
  now : Time
  tokens : Tokens
  order : Option (Order P)

namespace Docket

def run (d : Docket P) (e : Errand P) : Docket P × Option (Except Refusal Unit) :=
  e.order.elim (d, none) (d.obey e.now e.tokens)

/-- The docket after one errand after the other. -/
def follow (d : Docket P) (es : List (Errand P)) : Docket P :=
  es.foldl (fun d e => (d.run e).1.fresh) d

end Docket

/-! ## Sections serve -/

/-- The critical sections of a synchronizer. -/
inductive Call (P : Policy) where
  | acquire (request : P.Request) (timeout : Timeout) (token : Option Nat) (steal : Option Reason)
  | trigger (slot : Nat)
  | poll (id : WaiterId) (waker : Waker)
  | abandon (id : WaiterId)
  | giveBack (f : P.State → Except Refusal P.State)
  | dispose
  | pollDispose (waker : Waker)

/-- The section after a call, its answer if it has one, and the id of a new place in line. -/
structure Served (P : Policy) where
  after : Section P
  answer : Option (Except Refusal Unit) := none
  place : Option WaiterId := none

/-- The id whose rental the call has ended. -/
def Call.retired? (answer : Option (Except Refusal Unit)) : Call P → Option WaiterId
  | .poll id _ => answer.map fun _ => id
  | .abandon id => some id
  | _ => none

namespace Section

def serve (s : Section P) : Call P → Served P
  | .acquire request timeout token steal =>
    let (after, stage) := s.acquire request timeout token steal
    { after, answer := stage.result?, place := stage.id? }
  | .trigger slot => { after := s.trigger slot }
  | .poll id waker =>
    let (after, answer) := s.poll id waker
    { after, answer }
  | .abandon id => { after := s.leave id true }
  | .giveBack f =>
    let (after, r) := s.releaseBy f
    { after, answer := some r }
  | .dispose => { after := s.dispose }
  | .pollDispose waker =>
    let (after, ended) := s.pollDispose waker
    { after, answer := if ended then some (.ok ()) else none }

/-- The ticket that `id` names, while its rental is the present one. -/
def ticket? (s : Section P) (id : WaiterId) : Option Nat :=
  (s.sync.line.pool.get? id).map (·.ticket)

/-- The order that a call comes to. A slot that nobody rents or an id that is not current asks for
nothing. -/
def order? (s : Section P) : Call P → Option (Order P)
  | .acquire request timeout token steal => some (.acquire request timeout token steal)
  | .trigger slot => (s.waiter? slot).map fun w => .recheck w.ticket
  | .poll id waker => (s.ticket? id).map fun t => .observe t waker
  | .abandon id => (s.ticket? id).map .withdraw
  | .giveBack f => some (.giveBack f)
  | .dispose => some .dispose
  | .pollDispose waker => some (.awaitEnd waker)

def errand (s : Section P) (x : Call P) : Errand P := ⟨s.timers.now, s.tokens, s.order? x⟩

/-- From `s` to `t` ids keep their tickets. The id `new` names the next ticket, which nobody had,
and `old` names none any more. -/
structure Names (s t : Section P) (new old : Option WaiterId) : Prop where
  kept : ∀ id ticket, s.ticket? id = some ticket → old ≠ some id → t.ticket? id = some ticket
  placed : ∀ id ∈ new, s.ticket? id = none ∧ t.ticket? id = some s.sync.arrivals
  ended : ∀ id ∈ old, t.ticket? id = none

variable {s t : Section P} {d : Docket P} {L : List Nat}

theorem ticket?_eq_some {id : WaiterId} {n : Nat} :
    s.ticket? id = some n ↔
      s.sync.line.pool.IsCurrent id ∧ (s.sync.line.bare? id.slot).map (·.ticket) = some n := by
  unfold ticket? Line.bare?
  rw [Option.map_map, Option.map_eq_some_iff, Option.map_eq_some_iff]
  constructor
  · rintro ⟨w, hw, rfl⟩
    obtain ⟨current, hw⟩ := Pool.get?_eq_some.mp hw
    exact ⟨current, w, hw, rfl⟩
  · rintro ⟨current, w, hw, rfl⟩
    exact ⟨w, Pool.get?_eq_some.mpr ⟨current, hw⟩, rfl⟩

theorem ticket?_of_vacant {id : WaiterId} (h : s.sync.line.bare? id.slot = none) :
    s.ticket? id = none := by
  rw [Option.eq_none_iff_forall_ne_some]
  intro n hn
  have := (ticket?_eq_some.mp hn).2
  rw [h] at this
  cases this

theorem Frame.ticket? {but : Option Nat} (frame : Frame but s t) {id : WaiterId} {n : Nat}
    (hn : s.ticket? id = some n) (apart : some id.slot ≠ but) : t.ticket? id = some n := by
  obtain ⟨current, ticket⟩ := ticket?_eq_some.mp hn
  refine ticket?_eq_some.mpr ⟨frame.keeps id apart current, ?_⟩
  have same := congrArg (Option.map Prod.fst) (frame.keys id.slot apart)
  rw [Option.map_map, Option.map_map] at same
  exact same.trans ticket

theorem Frame.names (frame : Frame none s t) : Names s t none none :=
  ⟨fun _ _ hn _ => frame.ticket? hn (by simp), by simp, by simp⟩

theorem Frame.names_ended {id : WaiterId} {n : Nat} (hn : s.ticket? id = some n)
    (frame : Frame (some id.slot) s t) (free : t.sync.line.bare? id.slot = none) :
    Names s t none (some id) := by
  refine ⟨fun id' n' hn' hne => frame.ticket? hn' fun same => hne ?_, by simp, ?_⟩
  · obtain ⟨⟨a, ha, -, hga⟩, -⟩ := ticket?_eq_some.mp hn
    obtain ⟨⟨b, hb, -, hgb⟩, -⟩ := ticket?_eq_some.mp hn'
    obtain ⟨slot, generation⟩ := id
    obtain ⟨slot', generation'⟩ := id'
    obtain rfl : slot' = slot := Option.some.inj same
    obtain rfl : a = b := Option.some.inj (ha.symm.trans hb)
    rw [show generation = generation' from hga.symm.trans hgb]
  · intro id' hid
    obtain rfl := Option.some.inj hid
    exact ticket?_of_vacant free

theorem Begun.names {r : P.Request} {stage : Stage} {answer : Option (Except Refusal Unit)}
    (begun : Begun s t r stage answer) : Names s t stage.id? none := by
  rcases answer with _ | answer
  · obtain ⟨id, rfl, joined⟩ := begun
    have new := ticket?_of_vacant joined.free
    refine ⟨fun id' n hn _ => joined.frame.ticket? hn ?_, ?_, by simp⟩
    · intro same
      have := (ticket?_eq_some.mp hn).2
      rw [Option.some.inj same, joined.free] at this
      cases this
    · intro id' hid
      obtain rfl := Option.some.inj hid
      refine ⟨new, ticket?_eq_some.mpr ⟨joined.current, ?_⟩⟩
      have := congrArg (Option.map Prod.fst) joined.waiter
      rw [Option.map_map] at this
      exact this
  · obtain ⟨rfl, frame⟩ := begun
    exact frame.names

/-! ### One call -/

theorem Shows.settled_eq (h : s.Shows d L) {i : Nat} {w : Waiter P.Request}
    (hw : s.waiter? i = some w) : d.settled w.ticket = w.verdict? :=
  h.roll.settled_eq (w := w.bare) (bare?_of_waiter? hw)

theorem Shows.find?_ticket (h : s.Shows d L) {i : Nat} {w : Waiter P.Request}
    (hw : s.waiter? i = some w) : d.pending.find? (·.ticket = w.ticket) = w.petition? := by
  have hb := bare?_of_waiter? hw
  rcases hp : w.petition? with _ | e
  · rw [List.find?_eq_none]
    intro e he ht
    have := h.roll.petition?_of_mem hb he (of_decide_eq_true ht)
    rw [show w.bare.petition? = w.petition? from rfl, hp] at this
    cases this
  · have he : e ∈ d.pending := h.roll.mem_pending (w := w.bare) hb hp
    have ht := Waiter.ticket_of_petition? hp
    obtain ⟨x, hx⟩ : ∃ x, d.pending.find? (·.ticket = w.ticket) = some x :=
      Option.isSome_iff_exists.mp (List.find?_isSome.mpr ⟨e, he, by simpa using ht⟩)
    rw [hx]
    have := h.roll.petition?_of_mem hb (List.mem_of_find?_eq_some hx)
      (show x.ticket = w.ticket by simpa using List.find?_some hx)
    exact this.symm.trans hp

theorem Shows.fired?_eq (h : s.Shows d L) {i : Nat} {w : Waiter P.Request}
    (hw : s.waiter? i = some w) :
    d.fired? s.timers.now s.tokens.isCancelled w.ticket = s.fired? i := by
  unfold Docket.fired? Section.fired?
  rw [h.find?_ticket hw, hw, Option.bind_some]

/-- What a call leaves is what the docket leaves after the same errand. -/
structure Agrees (s : Section P) (x : Call P) (d : Docket P) (L : List Nat) : Prop where
  rests : (s.serve x).after.Rests (d.run (s.errand x)).1 L
  answer : (s.serve x).answer = (d.run (s.errand x)).2
  names : Names s (s.serve x).after (s.serve x).place (x.retired? (s.serve x).answer)

theorem acquire_agrees (h : s.Rests d L) (request : P.Request) (timeout : Timeout)
    (token : Option Nat) (steal : Option Reason) :
    ∃ L', s.Agrees (.acquire request timeout token steal) d L' := by
  obtain ⟨L', rests, begun⟩ := acquire_rests h request timeout token steal
  have same : s.petition request timeout token =
      { ticket := d.arrivals, request, deadline := timeout.deadline? s.timers.now, token } := by
    rw [h.arrivals]
    rfl
  rw [same] at rests begun
  exact ⟨L', rests, begun.result?_eq, begun.names⟩

theorem trigger_agrees (h : s.Rests d L) (i : Nat) : ∃ L', s.Agrees (.trigger i) d L' := by
  obtain ⟨L', rests, frame⟩ := trigger_rests h i
  rcases hw : s.waiter? i with _ | w
  · have nobody : s.fired? i = none := by
      rw [fired?, hw]
      rfl
    rw [nobody] at rests
    refine ⟨L', ?_, ?_, frame.names⟩ <;> simp only [Docket.run, errand, order?, hw]
    · exact rests
    · rfl
  · rw [← h.fired?_eq hw] at rests
    refine ⟨L', ?_, ?_, frame.names⟩ <;> simp only [Docket.run, errand, order?, hw]
    · exact rests
    · rfl

theorem poll_agrees (h : s.Rests d L) (id : WaiterId) (waker : Waker) :
    ∃ L', s.Agrees (.poll id waker) d L' := by
  rcases hw : s.sync.line.pool.get? id with _ | w
  · have polled : s.poll id waker = (s, none) := by simp [poll, hw]
    refine ⟨L, ?_, ?_, ?_⟩ <;> simp only [Docket.run, errand, serve, order?, ticket?, hw, polled]
    · exact h
    · rfl
    · exact (Frame.refl none s).names
  · have named : s.ticket? id = some w.ticket := by simp [ticket?, hw]
    have settled := h.settled_eq (waiter?_of_get? hw)
    rcases ho : w.outcome with _ | o
    · obtain ⟨answer, rests, frame⟩ := poll_pending h hw ho waker
      rw [show w.verdict? = none from Waiter.verdict?_eq_none.mpr ho] at settled
      refine ⟨L, ?_, ?_, ?_⟩ <;>
        simp only [Docket.run, errand, serve, order?, named, answer, Option.map_some,
          Option.elim_some, Docket.obey, Docket.observe, settled]
      · exact rests
      · exact frame.names
    · obtain ⟨answer, L', rests, frame, free⟩ := poll_resolved h hw ho waker
      rw [show w.verdict? = some (w.request, o) by rw [Waiter.verdict?, ho, Option.map_some]]
        at settled
      refine ⟨L', ?_, ?_, ?_⟩ <;>
        simp only [Docket.run, errand, serve, order?, named, answer, Option.map_some,
          Option.elim_some, Docket.obey, Docket.observe, settled]
      · exact rests
      · exact Frame.names_ended named frame free

theorem abandon_agrees (h : s.Rests d L) (id : WaiterId) : ∃ L', s.Agrees (.abandon id) d L' := by
  rcases hw : s.sync.line.pool.get? id with _ | w
  · have gone : s.ticket? id = none := by simp [ticket?, hw]
    have left : s.leave id true = s := by simp [leave, hw]
    refine ⟨L, ?_, ?_, ?_⟩ <;> simp only [Docket.run, errand, serve, order?, gone, left]
    · exact h
    · rfl
    · refine ⟨fun _ _ hn _ => hn, by simp, ?_⟩
      intro id' hid
      rw [← Option.some.inj hid]
      exact gone
  · have named : s.ticket? id = some w.ticket := by simp [ticket?, hw]
    obtain ⟨L', rests, frame, free⟩ := leave_withdraw h hw
    refine ⟨L', ?_, ?_, ?_⟩ <;>
      simp only [Docket.run, errand, serve, order?, named, Option.map_some, Option.elim_some,
        Docket.obey]
    · exact rests
    · exact Frame.names_ended named frame free

theorem giveBack_agrees (h : s.Rests d L) (f : P.State → Except Refusal P.State) :
    ∃ L', s.Agrees (.giveBack f) d L' := by
  obtain ⟨answer, L', rests, frame⟩ := releaseBy_rests h f
  exact ⟨L', rests, congrArg some answer, frame.names⟩

theorem pollDispose_eq (h : s.Rests d L) (waker : Waker) :
    ((d.awaitEnd waker).1 =
      { d with awaitingEnd := (s.pollDispose waker).1.sync.awaitingEnd }) ∧
      (if (s.pollDispose waker).2 then some (.ok ()) else none) = (d.awaitEnd waker).2 := by
  unfold pollDispose Docket.awaitEnd
  rw [← h.phase, ← h.awaitingEnd]
  split
  · rw [← h.awaitingEnd]
    exact ⟨rfl, rfl⟩
  · split
    · rw [← h.awaitingEnd]
      exact ⟨rfl, rfl⟩
    · exact ⟨rfl, rfl⟩

theorem pollDispose_agrees (h : s.Rests d L) (waker : Waker) :
    ∃ L', s.Agrees (.pollDispose waker) d L' := by
  obtain ⟨rests, frame⟩ := pollDispose_rests h waker
  obtain ⟨after, answer⟩ := pollDispose_eq h waker
  rw [← after] at rests
  exact ⟨L, rests, answer, frame.names⟩

/-- Every critical section is an order on the docket. -/
theorem Rests.agrees (h : s.Rests d L) (x : Call P) : ∃ L', s.Agrees x d L' := by
  cases x with
  | acquire request timeout token steal => exact acquire_agrees h request timeout token steal
  | trigger slot => exact trigger_agrees h slot
  | poll id waker => exact poll_agrees h id waker
  | abandon id => exact abandon_agrees h id
  | giveBack f => exact giveBack_agrees h f
  | dispose =>
    obtain ⟨L', rests, frame⟩ := dispose_rests h
    exact ⟨L', rests, rfl, frame.names⟩
  | pollDispose waker => exact pollDispose_agrees h waker

end Section

/-! ## What a synchronizer amounts to -/

namespace Sync

/-- The outcome that nobody has observed of ticket `t`. -/
def verdict? (s : Sync P) (t : Nat) : Option (P.Request × Outcome) :=
  (List.range s.line.pool.slots.size).findSome? fun i =>
    (s.line.waiter? i).bind fun w => if w.ticket = t then w.verdict? else none

/-- The synchronizer without its pool and its links. -/
def docket (s : Sync P) : Docket P :=
  { holding := s.holding, phase := s.phase, pending := s.petitions, settled := s.verdict?
    arrivals := s.arrivals, awaitingEnd := s.awaitingEnd }

end Sync

theorem Section.Shows.verdict?_eq {s : Section P} {d : Docket P} {L : List Nat} (h : s.Shows d L)
    (t : Nat) : s.sync.verdict? t = d.settled t := by
  rcases hv : d.settled t with _ | v
  · rw [Sync.verdict?, List.findSome?_eq_none_iff]
    intro i _
    rcases hw : s.sync.line.waiter? i with _ | w
    · rfl
    · rw [Option.bind_some]
      split
      · rename_i ht
        rw [← ht, h.settled_eq hw] at hv
        exact hv
      · rfl
  · obtain ⟨i, b, hb, hbt, hbv⟩ := (h.roll.settled t v).mp hv
    obtain ⟨w, hw, rfl⟩ := waiter?_of_bare? hb
    have found : (s.sync.line.waiter? i).bind (fun w => if w.ticket = t then w.verdict? else none) =
        some v := by
      rw [show s.sync.line.waiter? i = some w from hw, Option.bind_some,
        if_pos (show w.ticket = t from hbt)]
      exact hbv
    have hi : i < s.sync.line.pool.slots.size := by
      obtain ⟨x, hx, -⟩ := Pool.rented?_eq_some.mp hw
      exact (Array.getElem?_eq_some_iff.mp hx).1
    rcases hs : s.sync.verdict? t with _ | u
    · rw [Sync.verdict?, List.findSome?_eq_none_iff] at hs
      exact (hs i (List.mem_range.mpr hi)).symm.trans found
    · -- Another slot has no waiter of the same ticket.
      obtain ⟨j, -, hj⟩ := List.exists_of_findSome?_eq_some hs
      obtain ⟨x, hx, hu⟩ := Option.bind_eq_some_iff.mp hj
      split at hu
      · rename_i hxt
        rw [← hxt, h.settled_eq hx] at hv
        exact hu.symm.trans hv
      · cases hu

theorem Section.Shows.docket_eq {s : Section P} {d : Docket P} {L : List Nat} (h : s.Shows d L) :
    s.sync.docket = d.fresh := by
  have settled : s.sync.verdict? = d.settled := funext h.verdict?_eq
  unfold Sync.docket Docket.fresh
  rw [h.petitions_eq, settled, ← h.holding, ← h.phase, ← h.arrivals, ← h.awaitingEnd]

/-! ## Runs of calls -/

/-- A call with the timers and the tokens that it finds. -/
structure Entry (P : Policy) where
  timers : Timers
  tokens : Tokens
  call : Call P

namespace Sync

def enter (s : Sync P) (x : Entry P) : Section P :=
  { sync := s, timers := x.timers, tokens := x.tokens }

def serve (s : Sync P) (x : Entry P) : Served P := (s.enter x).serve x.call

/-- The synchronizer after one call after the other. -/
def play (s : Sync P) (xs : List (Entry P)) : Sync P :=
  xs.foldl (fun s x => (s.serve x).after.sync) s

def errand (s : Sync P) (x : Entry P) : Errand P := (s.enter x).errand x.call

/-- What the docket is told in the course of the calls. -/
def errands (s : Sync P) : List (Entry P) → List (Errand P)
  | [] => []
  | x :: xs => s.errand x :: (s.serve x).after.sync.errands xs

/-- Whatever the timers and the tokens are, the synchronizer shows its docket. -/
def Rests (s : Sync P) : Prop :=
  ∃ L, ∀ timers tokens, ({ sync := s, timers, tokens } : Section P).Rests s.docket L

variable {s : Sync P}

theorem create_rests (id : Nat) (holding : P.State) (warm : Nat) (retainLimit : Option Nat) :
    (create id holding warm retainLimit).Rests ∧
      (create id holding warm retainLimit).docket = { holding } := by
  have start (timers : Timers) (tokens : Tokens) :=
    (Scene.start_shows (P := P) id holding warm retainLimit timers tokens).rests
  have same : (create id holding warm retainLimit).docket = { holding } := (start {} {}).docket_eq
  refine ⟨⟨[], fun timers tokens => ?_⟩, same⟩
  rw [same]
  exact start timers tokens

theorem rests_of_section {t : Section P} {d : Docket P} {L : List Nat} (h : t.Rests d L) :
    t.sync.Rests := by
  refine ⟨L, fun timers tokens => ?_⟩
  rw [h.docket_eq]
  exact ⟨⟨h.fresh.sound, h.fresh.line, h.fresh.roll, h.fresh.holding, h.fresh.phase,
    h.fresh.arrivals, h.fresh.awaitingEnd, rfl, rfl⟩, h.fresh.fronted, h.fresh.rests⟩

theorem Rests.serve (h : s.Rests) (x : Entry P) :
    (s.serve x).after.sync.Rests ∧
      (s.serve x).after.sync.docket = (s.docket.run (s.errand x)).1.fresh ∧
      (s.serve x).answer = (s.docket.run (s.errand x)).2 ∧
      (s.serve x).after.wakes = (s.docket.run (s.errand x)).1.wakes ∧
      Section.Names (s.enter x) (s.serve x).after (s.serve x).place
        (x.call.retired? (s.serve x).answer) := by
  obtain ⟨L, rests⟩ := h
  obtain ⟨L', agrees⟩ := (rests x.timers x.tokens).agrees x.call
  exact ⟨rests_of_section agrees.rests, agrees.rests.docket_eq, agrees.answer,
    agrees.rests.wakes.symm, agrees.names⟩

theorem Rests.play (h : s.Rests) (xs : List (Entry P)) :
    (s.play xs).Rests ∧ (s.play xs).docket = s.docket.follow (s.errands xs) := by
  induction xs generalizing s with
  | nil => exact ⟨h, rfl⟩
  | cons x xs ih =>
    obtain ⟨rests, docket, -⟩ := h.serve x
    obtain ⟨last, same⟩ := ih rests
    rw [docket] at same
    exact ⟨last, same⟩

/-- In whatever state its calls have left a synchronizer, the next one leaves what the docket does:
the same state, the same answer, the same wakers in the same order. -/
theorem follows_docket (id : Nat) (holding : P.State) (warm : Nat) (retainLimit : Option Nat)
    (xs : List (Entry P)) (x : Entry P) :
    let s₀ := (create id holding warm retainLimit : Sync P)
    let s := s₀.play xs
    let obeyed := s.docket.run (s.errand x)
    s.docket = Docket.follow { holding } (s₀.errands xs) ∧
      (s.serve x).after.sync.docket = obeyed.1.fresh ∧
      (s.serve x).answer = obeyed.2 ∧
      (s.serve x).after.wakes = obeyed.1.wakes ∧
      Section.Names (s.enter x) (s.serve x).after (s.serve x).place
        (x.call.retired? (s.serve x).answer) := by
  obtain ⟨start, new⟩ := create_rests (P := P) id holding warm retainLimit
  obtain ⟨rests, docket⟩ := start.play xs
  rw [new] at docket
  exact ⟨docket, (rests.serve x).2⟩

end Sync

/-! ## Deeds are calls -/

namespace Scene

/-- The critical section of a deed. There is none if the deed happens elsewhere or the future knows
its answer. -/
def call? (c : Scene P) : Deed P → Option (Call P)
  | .tryAcquire request => some (.acquire request .zero none none)
  | .acquire request timeout token steal => some (.acquire request timeout token steal)
  | .poll k waker => (c.futures[k]?.bind (·.stage.id?)).map (.poll · waker)
  | .drop k =>
    c.futures[k]?.bind fun f =>
      match f.stage with
      | .waiting id => some (.abandon id)
      | .ready (.ok _) => some (.giveBack fun h => .ok (P.release h f.request))
      | .ready (.error _) | .done => none
  | .release request =>
    some (.giveBack (request.elim Section.returnedStanding Section.returned))
  | .dropGuard request => some (.giveBack (Section.returned request))
  | .dispose => some .dispose
  | .pollDispose waker => some (.pollDispose waker)
  | .trigger slot => some (.trigger slot)
  | .elsewhere .. => none

def errand (c : Scene P) (x : Deed P) : Errand P :=
  ⟨c.timers.now, c.tokens, (c.call? x).bind c.inside.order?⟩

theorem dropGuard_eq (s : Section P) (r : P.Request) :
    let t := (s.releaseBy (Section.returned r)).1
    (s.dropGuard r).sync = t.sync ∧ (s.dropGuard r).wakes = t.wakes ∧
      (s.dropGuard r).events.filterMap Event.granted? = t.events.filterMap Event.granted? := by
  unfold Section.dropGuard
  rcases hr : s.release (some r) with ⟨t, r' | _⟩ <;>
    rw [show s.releaseBy (Section.returned r) = _ from hr]
  · refine ⟨rfl, rfl, ?_⟩
    rw [List.filterMap_append]
    exact List.append_nil _
  · exact ⟨rfl, rfl, rfl⟩

theorem perform_eq (c : Scene P) (x : Deed P) :
    let after := (c.call? x).elim c.inside fun y => (c.inside.serve y).after
    (c.perform x).after.sync = after.sync ∧ (c.perform x).after.wakes = after.wakes ∧
      (c.perform x).granted = after.events.filterMap Event.granted? := by
  cases x with
  | poll k waker =>
    simp only [Effect.granted, perform, call?]
    rcases c.futures[k]? with _ | f
    · exact ⟨rfl, rfl, rfl⟩
    · dsimp only [Option.bind_some]
      rcases f.stage with r | id | _
      · exact ⟨rfl, rfl, rfl⟩
      · simp only [Section.pollStage, Stage.id?, Option.map_some, Option.elim_some, Section.serve]
        rcases c.inside.poll id waker with ⟨t, _ | r⟩ <;> exact ⟨rfl, rfl, rfl⟩
      · exact ⟨rfl, rfl, rfl⟩
  | drop k =>
    simp only [Effect.granted, perform, call?]
    rcases c.futures[k]? with _ | f
    · exact ⟨rfl, rfl, rfl⟩
    · dsimp only [Option.bind_some]
      rcases f.stage with (r | _) | id | _ <;> exact ⟨rfl, rfl, rfl⟩
  | dropGuard r => exact dropGuard_eq c.inside r
  | _ => exact ⟨rfl, rfl, rfl⟩

variable {c : Scene P} {d : Docket P} {L : List Nat}

/-- A deed leaves what the docket leaves after its errand. -/
theorem Shows.after_eq (h : c.Shows d L) (x : Deed P) :
    (d.after c x).fresh = (d.run (c.errand x)).1.fresh ∧
      (d.after c x).wakes = (d.run (c.errand x)).1.wakes ∧
      (d.after c x).granted = (d.run (c.errand x)).1.granted := by
  obtain ⟨L₁, rests₁, -⟩ := h.perform x
  obtain ⟨sync, wakes, granted⟩ := c.perform_eq x
  obtain ⟨L₂, rests₂⟩ : ∃ L₂, ((c.call? x).elim c.inside fun y =>
      (c.inside.serve y).after).Rests (d.run (c.errand x)).1 L₂ := by
    unfold errand
    rcases c.call? x with _ | y
    · exact ⟨L, h.rests⟩
    · obtain ⟨L₂, agrees⟩ := h.rests.agrees y
      exact ⟨L₂, agrees.rests⟩
  refine ⟨?_, ?_, ?_⟩
  · rw [← rests₁.docket_eq, ← rests₂.docket_eq, sync]
  · rw [rests₁.wakes, rests₂.wakes, wakes]
  · rw [rests₁.granted, rests₂.granted]
    exact granted

/-- The synchronizer of a scene is one that calls have left. -/
theorem sync_played (id : Nat) (holding : P.State) (warm : Nat) (retainLimit : Option Nat)
    (timers : Timers) (tokens : Tokens) (xs : List (Deed P)) :
    ∃ es, ((start id holding warm retainLimit timers tokens).run xs).sync =
      (Sync.create id holding warm retainLimit).play es := by
  suffices ∀ c : Scene P, ∃ es, (c.run xs).sync = c.sync.play es from this (start id holding ..)
  intro c
  induction xs generalizing c with
  | nil => exact ⟨[], rfl⟩
  | cons x xs ih =>
    obtain ⟨es, later⟩ := ih (c.after x)
    have first := (c.perform_eq x).1
    rcases hy : c.call? x with _ | y <;> rw [hy] at first
    · have stay : (c.after x).sync = c.sync := first
      exact ⟨es, by rw [← stay]; exact later⟩
    · refine ⟨⟨c.timers, c.tokens, y⟩ :: es, later.trans ?_⟩
      rw [show (c.after x).sync = _ from first]
      rfl

end Scene

end Turnstile
