import Turnstile.Proofs.Resting

/-!
# Operations on the docket

What callers and triggers do in one critical section, from rest to rest.
-/

namespace Turnstile

/-- When a timeout that starts `now` is over. -/
def Timeout.deadline? (now : Time) : Timeout → Option Time
  | forever => none
  | after d => some (now.add d)

theorem Timeout.deadline?_eq_some {timeout : Timeout} {now deadline : Time}
    (h : timeout.deadline? now = some deadline) :
    ∃ d, timeout = .after d ∧ deadline.toNat = min (now.toNat + d) Time.maxNanos := by
  rcases timeout with _ | d
  · cases h
  · obtain rfl := Option.some.inj h
    exact ⟨d, rfl, Time.toNat_add now d⟩

/-- What a pending acquisition's own token or deadline has brought about. The token wins. -/
def Petition.cause? {R : Type} (e : Petition R) (now : Time) (cancelled : Nat → Bool) :
    Option Outcome :=
  if e.token.any cancelled then some .cancelled
  else if e.deadline.any (· ≤ now) then some .timedOut
  else none

theorem Petition.cause?_eq_some {R : Type} {e : Petition R} {now : Time} {cancelled : Nat → Bool}
    {o : Outcome} (h : e.cause? now cancelled = some o) :
    (o = .cancelled ∧ ∃ token, e.token = some token ∧ cancelled token = true) ∨
      (o = .timedOut ∧ (∃ deadline, e.deadline = some deadline ∧ deadline ≤ now) ∧
        e.token.any cancelled = false) := by
  unfold Petition.cause? at h
  split at h
  · rename_i hc
    left
    refine ⟨(Option.some.inj h).symm, ?_⟩
    rcases ht : e.token with _ | token <;> rw [ht] at hc
    · cases hc
    · exact ⟨token, rfl, hc⟩
  · rename_i hc
    split at h
    · rename_i hd
      right
      refine ⟨(Option.some.inj h).symm, ?_, by simpa using hc⟩
      rcases hdl : e.deadline with _ | deadline <;> rw [hdl] at hd
      · cases hd
      · exact ⟨deadline, rfl, by simpa using hd⟩
    · cases h

namespace Section

variable {P : Policy}

/-! ## Joining -/

theorem register?_eq_some {ts : Tokens} {i : Nat} (h : ts.refuses i = false) (w : Waker) :
    ∃ ts' r, ts.register? i w = some (ts', r) ∧ r.token = i ∧
      ∀ j, ts'.flag? j = ts.flag? j := by
  unfold Tokens.refuses at h
  unfold Tokens.register?
  rcases hi : ts.get? i with _ | t
  · rw [hi] at h; cases h
  · rw [hi, Option.all_some] at h
    exact ⟨_, _, if_neg (by rw [h]; decide), rfl, fun j => flag?_update ts i j fun _ => rfl⟩

theorem subscribe?_eq_some {ts : Tokens} {token : Option Nat} (h : token.any ts.refuses = false)
    (w : Waker) : ∃ ts' r, subscribe? ts token w = some (ts', r) ∧ r.map (·.token) = token ∧
      ∀ i, ts'.flag? i = ts.flag? i := by
  rcases token with _ | i
  · exact ⟨ts, none, rfl, rfl, fun _ => rfl⟩
  · obtain ⟨ts', r, hr, hi, hc⟩ := register?_eq_some (i := i) (by simpa using h) w
    exact ⟨ts', some r, by simp [subscribe?, hr], by simp [hi], hc⟩

theorem refuses_eq (ts : Tokens) (i : Nat) : ts.refuses i = (ts.flag? i).all id := by
  unfold Tokens.refuses Tokens.flag?
  rcases ts.get? i with _ | t <;> rfl

theorem arm_spec (timers : Timers) (timeout : Timeout) (w : Waker) :
    (arm timers timeout w).1.now = timers.now ∧
      (arm timers timeout w).2.1 = timeout.deadline? timers.now := by
  cases timeout <;> exact ⟨rfl, rfl⟩

/-- The petition of an acquisition made now, as the next in line. -/
def petition (s : Section P) (request : P.Request) (timeout : Timeout) (token : Option Nat) :
    Petition P.Request :=
  { ticket := s.sync.arrivals, request, deadline := timeout.deadline? s.timers.now, token }

/-- What joining the line adds: a new id, whose waiter is pending. -/
structure Joined (s t : Section P) (id : WaiterId) (request : P.Request) : Prop where
  frame : Frame (some id.slot) s t
  free : s.sync.line.bare? id.slot = none
  current : t.sync.line.pool.IsCurrent id
  waiter : (t.sync.line.bare? id.slot).map Waiter.key = some (s.sync.arrivals, request)

theorem enqueue_rests {s : Section P} {d : Docket P} {L : List Nat} (h : s.Shows d L)
    (hf : s.Fronted L) (request : P.Request) (timeout : Timeout) {token : Option Nat}
    (ht : token.any s.tokens.refuses = false) :
    ∃ id L', (s.enqueue request timeout token).2 = .waiting id ∧
      (s.enqueue request timeout token).1.Shows
        { d with
          pending := d.pending ++ [s.petition request timeout token], arrivals := d.arrivals + 1 }
        L' ∧
      (s.enqueue request timeout token).1.Fronted L' ∧
      Joined s (s.enqueue request timeout token).1 id request := by
  have rents := Pool.rent_rents h.sound
  unfold enqueue
  rcases hr : s.sync.line.pool.rent with ⟨pool, id⟩
  rw [hr] at rents
  simp only at rents
  obtain ⟨ts, r, hsub, hreg, hcanc⟩ := subscribe?_eq_some ht (Waker.trigger s.sync.id id.slot)
  obtain ⟨hnow, hdead⟩ := arm_spec s.timers timeout (Waker.trigger s.sync.id id.slot)
  simp only [hsub]
  rcases ha : arm s.timers timeout (Waker.trigger s.sync.id id.slot) with ⟨timers, deadline, timer⟩
  rw [ha] at hnow hdead
  simp only at hnow hdead ⊢
  obtain ⟨hi, holds⟩ := Line.Holds.rent h.line rents
  set f : Waiter P.Request → Waiter P.Request := fun w =>
    { w with request, ticket := s.sync.arrivals, registration := r, deadline, timer } with hfdef
  set l : Line P.Request := { s.sync.line with pool } with hl
  -- The waiter gets its data in its slot, then the slot gets its place in line.
  have waiter : (l.update id.slot f).waiter? id.slot = some (f (Waiter.idle s.sync.line.pool.blank)) := by
    rw [Line.waiter?_update, if_pos rfl, show l.waiter? id.slot = _ from rents.rented? id.slot,
      if_pos rfl, Option.map_some]
  have turns := (l.update_turns id.slot (f := f) (g := f) fun _ _ => rfl).trans
    (Line.enqueue_turns (l.update id.slot f) id.slot)
  have line := (Line.Holds.update holds id.slot (f := f) (fun _ => rfl) fun _ => rfl).enqueue waiter hi
  have bare : ∀ j, ((l.update id.slot f).enqueue id.slot).bare? j =
      if j = id.slot then some (f (Waiter.idle s.sync.line.pool.blank)) else
        s.sync.line.bare? j := by
    intro j
    rw [turns.bare?, Line.bare?_rent rents]
    split <;> rfl
  have free : s.sync.line.bare? id.slot = none := by
    unfold Line.bare?
    rw [show s.sync.line.waiter? id.slot = none from rents.free, Option.map_none]
  have roll := h.roll.arrive free hi (w := f (Waiter.idle s.sync.line.pool.blank))
    (e := s.petition request timeout token) rfl rfl h.arrivals.symm bare (by
      simp only [Waiter.petition?, Waiter.isPending, hfdef, Waiter.idle, Option.isNone_none, if_true,
        hreg, hdead, petition])
  refine ⟨id, L ++ [id.slot], rfl, ⟨?_, line, roll, h.holding, h.phase, ?_, h.awaitingEnd, h.wakes, ?_⟩,
    ?_, ?_⟩
  · exact turns.sound rents.sound
  · show d.arrivals + 1 = s.sync.arrivals + 1
    rw [h.arrivals]
  · simp [tell, Event.granted?, h.granted]
  · intro j hj
    show ∃ w, ((l.update id.slot f).enqueue id.slot).bare? j = some w ∧ _
    rw [bare]
    split
    · exact ⟨_, rfl, rfl⟩
    · rename_i hji
      cases L with
      | nil => exact absurd (Option.some.inj hj).symm hji
      | cons i M => exact hf j hj
  · refine ⟨⟨rfl, hnow, hcanc, ?_, ?_⟩, free, ?_, ?_⟩
    · exact fun id' _ hc => turns.keeps id' (rents.keeps id' hc)
    · intro j hj
      show (((l.update id.slot f).enqueue id.slot).bare? j).map _ = _
      rw [bare, if_neg fun e => hj (by rw [e])]
    · exact turns.keeps id rents.current
    · show (((l.update id.slot f).enqueue id.slot).bare? id.slot).map _ = _
      rw [bare, if_pos rfl]
      rfl

theorem Frame.petition {but : Option Nat} {s t : Section P} (h : Frame but s t)
    (arrivals : t.sync.arrivals = s.sync.arrivals) (request : P.Request) (timeout : Timeout)
    (token : Option Nat) : t.petition request timeout token = s.petition request timeout token := by
  unfold Section.petition
  rw [h.now, arrivals]

theorem Frame.refuses {but : Option Nat} {s t : Section P} (h : Frame but s t) :
    t.tokens.refuses = s.tokens.refuses := by
  funext i
  rw [refuses_eq, refuses_eq, h.flags]

/-- What the caller of an acquisition gets: an answer, or an id for a place in line. -/
def Begun (s t : Section P) (request : P.Request) (stage : Stage) :
    Option (Except Refusal Unit) → Prop
  | some answer => stage = .ready answer ∧ Frame none s t
  | none => ∃ id, stage = .waiting id ∧ Joined s t id request

theorem Begun.of_frame {s t u : Section P} {request : P.Request} {stage : Stage}
    {answer : Option (Except Refusal Unit)} (h : Begun t u request stage answer)
    (frame : Frame none s t) (arrivals : t.sync.arrivals = s.sync.arrivals) :
    Begun s u request stage answer := by
  rcases answer with _ | answer
  · obtain ⟨id, stage, j⟩ := h
    refine ⟨id, stage, (frame.but_any id.slot).trans j.frame, ?_, j.current, by rw [j.waiter, arrivals]⟩
    have := frame.keys id.slot (by simp)
    rw [j.free] at this
    simpa using this.symm
  · exact ⟨h.1, frame.trans h.2⟩

/-- An acquisition after a steal has done its part. -/
def letIn (s : Section P) (request : P.Request) (timeout : Timeout) (token : Option Nat) :
    Section P × Stage :=
  if s.sync.line.isEmpty && P.allows s.sync.holding request then
    let s := s.setHolding (P.enter s.sync.holding request)
    (s.tell (.admitted request), .ready (.ok ()))
  else if timeout.isZero then (s, .ready (.error .timedOut))
  else if token.any s.tokens.refuses then (s, .ready (.error .cancelled))
  else s.enqueue request timeout token

theorem letIn_rests {s : Section P} {d : Docket P} {L : List Nat} (h : s.Rests d L)
    (hp : d.phase = .active) (request : P.Request) (timeout : Timeout) (token : Option Nat) :
    let joined := d.join (s.petition request timeout token) timeout.isZero
      (token.any s.tokens.refuses)
    ∃ L', (s.letIn request timeout token).1.Rests joined.1 L' ∧
      Begun s (s.letIn request timeout token).1 request (s.letIn request timeout token).2
        joined.2 := by
  have rests := h.rests.join hp (s.petition request timeout token) timeout.isZero
    (token.any s.tokens.refuses)
  have cond : (s.sync.line.isEmpty && P.allows s.sync.holding request) =
      (d.pending.isEmpty && P.allows d.holding request) := by
    rw [h.pending_isEmpty h.fronted, h.holding]
  unfold letIn
  rw [cond]
  rcases ha : d.pending.isEmpty && P.allows d.holding request with _ | _
  · rcases hz : timeout.isZero with _ | _
    · rcases hr : token.any s.tokens.refuses with _ | _
      · rw [hz, hr, Docket.join_of_queued ha h.arrivals.symm] at rests
        rw [Docket.join_of_queued ha h.arrivals.symm]
        simp only [Bool.false_eq_true, if_false]
        obtain ⟨id, L', stage, shown, fronted, joined⟩ :=
          enqueue_rests h.toShows h.fronted request timeout hr
        exact ⟨L', ⟨shown, fronted, rests⟩, id, stage, joined⟩
      · rw [Docket.join_of_refused ha]
        simp only [Bool.false_eq_true, if_false, if_true]
        exact ⟨L, h, rfl, Frame.refl _ s⟩
    · rw [Docket.join_of_zero ha]
      simp only [Bool.false_eq_true, if_false, if_true]
      exact ⟨L, h, rfl, Frame.refl _ s⟩
  · rw [Docket.join_of_allowed ha] at rests ⊢
    simp only [if_true]
    refine ⟨L, ⟨⟨h.sound, h.line, h.roll.congr rfl rfl rfl, ?_, h.phase, h.arrivals, h.awaitingEnd,
      h.wakes, ?_⟩, h.fronted, rests⟩, rfl, ?_⟩
    · show P.enter d.holding request = P.enter s.sync.holding request
      rw [h.holding]
    · simp [tell, setHolding, Event.granted?, h.granted]
    · exact (setHolding_frame s _ none).trans (tell_frame _ _ none)

theorem evict_rests {s : Section P} {d : Docket P} {L : List Nat} (h : s.Rests d L)
    (hp : d.phase = .active) (steal : Option Reason) :
    ∃ L', (steal.elim s s.evictLine).exposeHead.Rests (d.evict steal) L' ∧
      Frame none s (steal.elim s s.evictLine).exposeHead := by
  obtain ⟨M, shown, frame⟩ : ∃ M, (steal.elim s s.evictLine).Shows (d.evict steal) M ∧
      Frame none s (steal.elim s s.evictLine) := by
    rcases steal with _ | r
    · exact ⟨L, h.toShows, Frame.refl _ s⟩
    · obtain ⟨shown, frame⟩ := resolveAll_shows h.toShows (.interrupted r)
      refine ⟨[], ⟨shown.sound, shown.line, shown.roll, shown.holding, shown.phase, shown.arrivals,
        shown.awaitingEnd, shown.wakes, ?_⟩, frame.trans (tell_frame _ _ none)⟩
      simp [evictLine, tell, Event.granted?, shown.granted, Docket.evict]
  obtain ⟨L', shown', fronted, frame', -⟩ := exposeHead_shows shown
  exact ⟨L', ⟨shown', fronted, h.rests.evict hp steal⟩, frame.trans frame'⟩

theorem acquire_rests {s : Section P} {d : Docket P} {L : List Nat} (h : s.Rests d L)
    (request : P.Request) (timeout : Timeout) (token : Option Nat) (steal : Option Reason) :
    let acquired := d.acquire (s.petition request timeout token) timeout.isZero
      (token.any s.tokens.refuses) steal
    ∃ L', (s.acquire request timeout token steal).1.Rests acquired.1 L' ∧
      Begun s (s.acquire request timeout token steal).1 request
        (s.acquire request timeout token steal).2 acquired.2 := by
  have unfolded : s.acquire request timeout token steal =
      if s.sync.phase ≠ .active then (s, .ready (.error .disposed))
      else (steal.elim s s.evictLine).exposeHead.letIn request timeout token := rfl
  rw [unfolded]
  unfold Docket.acquire
  rw [← h.phase]
  by_cases hp : d.phase = .active
  · rw [if_neg (not_not_intro hp), if_neg (not_not_intro hp)]
    obtain ⟨M, rests, frame⟩ := evict_rests h hp steal
    obtain ⟨-, phase, arrivals, -⟩ := Docket.evict_fields d steal
    rw [hp] at phase
    obtain ⟨L', rests', begun⟩ := letIn_rests rests phase request timeout token
    have arrivals : (steal.elim s s.evictLine).exposeHead.sync.arrivals = s.sync.arrivals := by
      rw [← rests.arrivals, ← h.arrivals, arrivals]
    rw [frame.petition arrivals, frame.refuses] at rests' begun
    exact ⟨L', rests', begun.of_frame frame arrivals⟩
  · rw [if_pos hp, if_pos hp]
    exact ⟨L, h, rfl, Frame.refl _ s⟩

/-! ## Polling -/

theorem poll_of_pending {s : Section P} {id : WaiterId} {w : Waiter P.Request}
    (hw : s.sync.line.pool.get? id = some w) (ho : w.outcome = none) (k : Waker) :
    s.poll id k = (s.update id.slot fun w => { w with waker := some k }, none) := by
  unfold poll
  rw [hw]
  simp only [ho]

theorem poll_of_outcome {s : Section P} {id : WaiterId} {w : Waiter P.Request}
    (hw : s.sync.line.pool.get? id = some w) {o : Outcome} (ho : w.outcome = some o) (k : Waker) :
    s.poll id k = (s.leave id false, some o.result) := by
  unfold poll
  rw [hw]
  simp only [ho]

theorem poll_pending {s : Section P} {d : Docket P} {L : List Nat} (h : s.Rests d L)
    {id : WaiterId} {w : Waiter P.Request} (hw : s.sync.line.pool.get? id = some w)
    (ho : w.outcome = none) (k : Waker) :
    (s.poll id k).2 = none ∧ (s.poll id k).1.Rests (d.await w.ticket k) L ∧
      Frame none s (s.poll id k).1 := by
  have hb := bare?_of_waiter? (waiter?_of_get? hw)
  rw [poll_of_pending hw ho]
  have turns : Turns s (s.update id.slot fun w => { w with waker := some k }) id.slot
      (fun w => { w with waker := some k }) :=
    ⟨s.sync.line.update_turns id.slot fun _ _ => rfl, rfl, rfl, fun _ => rfl⟩
  have line : (s.update id.slot fun w => { w with waker := some k }).sync.line.Holds L :=
    h.line.update id.slot (fun _ => rfl) fun _ => rfl
  have roll := h.roll.await hb ho k (turns.line.bare?_eq hb)
  refine ⟨rfl, ⟨turns.shows h.toShows line roll rfl rfl rfl rfl h.wakes h.granted, ?_,
    h.rests.await _ k⟩, turns.frame (fun _ => rfl) none⟩
  intro j hj
  obtain ⟨u, hu, hp⟩ := h.fronted j hj
  rw [turns.line.bare?_eq hb]
  split
  · exact ⟨_, rfl, ho⟩
  · exact ⟨u, hu, hp⟩

theorem poll_resolved {s : Section P} {d : Docket P} {L : List Nat} (h : s.Rests d L)
    {id : WaiterId} {w : Waiter P.Request} (hw : s.sync.line.pool.get? id = some w) {o : Outcome}
    (ho : w.outcome = some o) (k : Waker) :
    (s.poll id k).2 = some o.result ∧ ∃ L', (s.poll id k).1.Rests (d.forget w.ticket) L' ∧
      Frame (some id.slot) s (s.poll id k).1 ∧ (s.poll id k).1.sync.line.bare? id.slot = none := by
  rw [poll_of_outcome hw ho]
  exact ⟨rfl, leave_forget h hw (by simp [ho]) rfl⟩

/-! ## Giving back -/

theorem releaseBy_rests {s : Section P} {d : Docket P} {L : List Nat} (h : s.Rests d L)
    (f : P.State → Except Refusal P.State) :
    (s.releaseBy f).2 = (d.giveIf f).2 ∧
      ∃ L', (s.releaseBy f).1.Rests (d.giveIf f).1 L' ∧ Frame none s (s.releaseBy f).1 := by
  unfold releaseBy Docket.giveIf
  rw [← h.phase, ← h.holding]
  split
  · exact ⟨rfl, L, h, Frame.refl _ s⟩
  · rcases f d.holding with r | hold
    · exact ⟨rfl, L, h, Frame.refl _ s⟩
    · have given : (s.setHolding hold).Shows { d with holding := hold } L :=
        ⟨h.sound, h.line, h.roll.congr rfl rfl rfl, rfl, h.phase, h.arrivals, h.awaitingEnd,
          h.wakes, h.granted⟩
      obtain ⟨L', rests, frame⟩ := given.settles h.rests.closed
      exact ⟨rfl, L', rests, (setHolding_frame s hold none).trans frame⟩

theorem giveIf_ok {d : Docket P} {f : P.State → Except Refusal P.State}
    (hr : (d.giveIf f).2 = .ok ()) :
    ∃ hold, f d.holding = .ok hold ∧ (d.giveIf f).1 = d.give hold := by
  unfold Docket.giveIf at hr ⊢
  split at hr
  · cases hr
  · rename_i hp
    rw [if_neg hp]
    rcases hd : f d.holding with e | hold
    · rw [hd] at hr
      cases hr
    · exact ⟨hold, rfl, rfl⟩

theorem returned_eq {r : P.Request} {h hold : P.State} (hr : returned r h = .ok hold) :
    hold = P.release h r := by
  unfold returned at hr
  split at hr
  · exact (Except.ok.inj hr).symm
  · cases hr

theorem returnedStanding_eq {h hold : P.State} (hr : returnedStanding h = .ok hold) :
    ∃ r, P.desk.standing h = some r ∧ hold = P.release h r := by
  unfold returnedStanding at hr
  split at hr
  · cases hr
  · rename_i r hs
    exact ⟨r, hs, (Except.ok.inj hr).symm⟩

theorem release_ok {s : Section P} {d : Docket P} {L : List Nat} (h : s.Rests d L)
    {request : Option P.Request} (hr : (s.release request).2 = .ok ()) :
    ∃ r, request.or (P.desk.standing s.sync.holding) = some r ∧
      (d.giveIf (request.elim returnedStanding returned)).1 = d.give (P.release d.holding r) := by
  have answer := (releaseBy_rests h (request.elim returnedStanding returned)).1
  obtain ⟨hold, hf, eq⟩ := giveIf_ok (answer.symm.trans hr)
  rw [eq, ← h.holding]
  rcases request with _ | r
  · obtain ⟨r, hs, rfl⟩ := returnedStanding_eq hf
    exact ⟨r, by rw [Option.none_or, hs], rfl⟩
  · rw [returned_eq hf]
    exact ⟨r, by rw [Option.some_or], rfl⟩

theorem dropGuard_rests {s : Section P} {d : Docket P} {L : List Nat} (h : s.Rests d L)
    (request : P.Request) :
    ∃ L', (s.dropGuard request).Rests (d.giveIf (returned request)).1 L' ∧
      Frame none s (s.dropGuard request) := by
  obtain ⟨-, L', rests, frame⟩ := releaseBy_rests h (returned request)
  unfold dropGuard
  rcases hr : s.release (some request) with ⟨t, r⟩
  have ht : (s.releaseBy (returned request)).1 = t := congrArg Prod.fst hr
  rw [ht] at rests frame
  rcases r with r | _
  · refine ⟨L', ⟨⟨rests.sound, rests.line, rests.roll, rests.holding, rests.phase, rests.arrivals,
      rests.awaitingEnd, rests.wakes, ?_⟩, rests.fronted, rests.rests⟩, frame.trans
      ⟨rfl, rfl, fun _ => rfl, fun _ _ h => h, fun _ _ => rfl⟩⟩
    simp [Event.granted?, rests.granted]
  · exact ⟨L', rests, frame⟩

/-! ## Triggers -/

theorem triggered?_eq {s : Section P} {w : Waiter P.Request} {e : Petition P.Request}
    (he : w.petition? = some e) : s.triggered? w = e.cause? s.timers.now s.tokens.isCancelled := by
  unfold Waiter.petition? at he
  split at he
  · rw [← Option.some.inj he]
    simp [triggered?, Petition.cause?, Option.any_map]
  · cases he

/-- The petition that a trigger of slot `i` resolves, with its outcome. -/
def fired? (s : Section P) (i : Nat) : Option (Petition P.Request × Outcome) :=
  ((s.waiter? i).bind Waiter.petition?).bind fun e =>
    (e.cause? s.timers.now s.tokens.isCancelled).map (e, ·)

theorem fired?_eq_some {s : Section P} {i : Nat} {e : Petition P.Request} {o : Outcome}
    (h : s.fired? i = some (e, o)) :
    (∃ w, s.waiter? i = some w ∧ w.petition? = some e) ∧
      e.cause? s.timers.now s.tokens.isCancelled = some o := by
  unfold fired? at h
  obtain ⟨e', he, hc⟩ := Option.bind_eq_some_iff.mp h
  obtain ⟨o', ho, hpair⟩ := Option.map_eq_some_iff.mp hc
  obtain ⟨rfl, rfl⟩ := Prod.mk.inj hpair
  exact ⟨Option.bind_eq_some_iff.mp he, ho⟩

theorem Shows.mem_of_fired {s : Section P} {d : Docket P} {L : List Nat} (h : s.Shows d L) {i : Nat}
    {e : Petition P.Request} {o : Outcome} (he : s.fired? i = some (e, o)) : e ∈ d.pending := by
  obtain ⟨⟨w, hw, hp⟩, -⟩ := fired?_eq_some he
  exact h.roll.mem_pending (w := w.bare) (bare?_of_waiter? hw) hp

theorem trigger_rests {s : Section P} {d : Docket P} {L : List Nat} (h : s.Rests d L) (i : Nat) :
    ∃ L', (s.trigger i).Rests ((s.fired? i).elim d fun p => d.trigger p.1 p.2) L' ∧
      Frame none s (s.trigger i) := by
  unfold trigger fired?
  rcases hw : s.waiter? i with _ | w
  · exact ⟨L, h, Frame.refl _ s⟩
  dsimp only
  by_cases hp : w.isPending = true
  · have ho : w.outcome = none := Option.isNone_iff_eq_none.mp hp
    have hb := bare?_of_waiter? hw
    have he := Waiter.petition?_of_pending ho
    have he' : w.bare.petition? = some _ := Waiter.petition?_of_pending ho
    rw [if_pos hp, triggered?_eq he, Option.bind_some, he, Option.bind_some]
    rcases Petition.cause? _ s.timers.now s.tokens.isCancelled with _ | o
    · exact ⟨L, h, Frame.refl _ s⟩
    simp only [Option.map_some, Option.elim_some]
    have hi : i ∈ L := (h.roll.regular _ _ hb).queued ho
    have hl : w.linked = true := (Chained.linked h.line i w hw).mpr hi
    rw [if_pos hl]
    have told : (s.tell (.resolved i w.ticket o)).waiter? i = some w := hw
    obtain ⟨resolved, holds, wakes, events⟩ := resolve_turns told o
    -- Until somebody takes it out, it stands in line with its outcome.
    have lingering : Turns ((s.tell (.resolved i w.ticket o)).resolve i o)
        (((s.tell (.resolved i w.ticket o)).resolve i o).update i fun w =>
          { w with lingers := w.linked }) i (fun w => { w with lingers := true }) := by
      refine ⟨Line.update_turns _ i fun u hu => ?_, rfl, rfl, fun _ => rfl⟩
      have := (Chained.linked (holds L h.line) i u hu).mpr hi
      simp [Waiter.bare, this]
    have turns := resolved.trans lingering
    have settled : (fun w : Waiter P.Request => { w with lingers := true }) ∘
        (fun w => w.settled o w.lingers) = Waiter.settled o (decide (i ∈ L)) := by
      simp only [hi, decide_true]
      rfl
    rw [settled] at turns
    have roll := h.roll.settle hb he' o (.inl rfl) (turns.line.bare?_eq hb)
    have line : (((s.tell (.resolved i w.ticket o)).resolve i o).update i fun w =>
        { w with lingers := w.linked }).sync.line.Holds L :=
      (holds L h.line).update i (fun _ => rfl) fun _ => rfl
    have silent : (s.tell (.resolved i w.ticket o)).Shows d L :=
      ⟨h.sound, h.line, h.roll, h.holding, h.phase, h.arrivals, h.awaitingEnd, h.wakes,
        by simp [tell, Event.granted?, h.granted]⟩
    have shown := turns.shows silent line roll rfl rfl rfl rfl
      (show d.wakes ++ w.waker.toList = _ by rw [h.wakes]; exact wakes.symm)
      (silent.granted.trans (congrArg _ events.symm))
    obtain ⟨L', shown', fronted, frame⟩ := grantRun_shows shown
    exact ⟨L', ⟨shown', fronted, h.rests.trigger (h.roll.mem_pending hb he') o⟩,
      (tell_frame s _ none).trans ((turns.frame (fun _ => rfl) none).trans frame)⟩
  · have he : w.petition? = none := Waiter.petition?_eq_none fun ho => hp (by
      simp [Waiter.isPending, ho])
    rw [if_neg hp, Option.bind_some, he]
    exact ⟨L, h, Frame.refl _ s⟩

/-! ## Disposal -/

theorem dispose_rests {s : Section P} {d : Docket P} {L : List Nat} (h : s.Rests d L) :
    ∃ L', s.dispose.Rests d.dispose L' ∧ Frame none s s.dispose := by
  have rests := h.rests.dispose
  unfold dispose Docket.dispose at *
  rw [← h.phase]
  by_cases hp : d.phase = .active
  · rw [if_neg (not_not_intro hp)] at rests
    rw [if_neg (not_not_intro hp), if_neg (not_not_intro hp)]
    have closing : ({ s with sync := { s.sync with phase := .disposing } } : Section P).Shows
        { d with phase := .disposing } L :=
      ⟨h.sound, h.line, h.roll.congr rfl rfl rfl, h.holding, rfl, h.arrivals, h.awaitingEnd, h.wakes,
        h.granted⟩
    obtain ⟨shown, frame⟩ := resolveAll_shows closing .disposed
    rcases hr : ({ s with sync := { s.sync with phase := .disposing } } : Section P).resolveAll
      .disposed with ⟨t, count⟩
    rw [hr] at shown frame
    simp only [hr]
    have told : (t.tell (.disposing count (P.isIdle t.sync.holding))).Shows
        (Docket.resolveAll { d with phase := .disposing } .disposed) [] :=
      ⟨shown.sound, shown.line, shown.roll, shown.holding, shown.phase, shown.arrivals,
        shown.awaitingEnd, shown.wakes, by simp [tell, Event.granted?, shown.granted]⟩
    obtain ⟨shown', fronted, frame'⟩ := endDisposal_shows told (by simp [Fronted])
    refine ⟨[], ⟨shown', fronted, rests⟩, ?_⟩
    have begun : Frame none s { s with sync := { s.sync with phase := .disposing } } :=
      ⟨rfl, rfl, fun _ => rfl, fun _ _ h => h, fun _ _ => rfl⟩
    exact begun.trans (frame.trans ((tell_frame t _ none).trans frame'))
  · rw [if_pos hp, if_pos hp]
    exact ⟨L, h, Frame.refl _ s⟩

theorem pollDispose_rests {s : Section P} {d : Docket P} {L : List Nat} (h : s.Rests d L)
    (k : Waker) :
    (s.pollDispose k).1.Rests { d with awaitingEnd := (s.pollDispose k).1.sync.awaitingEnd } L ∧
      Frame none s (s.pollDispose k).1 := by
  have self : s.Rests { d with awaitingEnd := s.sync.awaitingEnd } L := by
    rw [← h.awaitingEnd]
    exact h
  unfold pollDispose
  split
  · exact ⟨self, Frame.refl _ s⟩
  · split
    · exact ⟨self, Frame.refl _ s⟩
    · exact ⟨⟨⟨h.sound, h.line, h.roll.congr rfl rfl rfl, h.holding, h.phase, h.arrivals, rfl, h.wakes,
        h.granted⟩, h.fronted, h.rests.blocked, h.rests.closed, h.rests.busy⟩, rfl, rfl, fun _ => rfl,
        fun _ _ h => h, fun _ _ => rfl⟩

end Section

end Turnstile
