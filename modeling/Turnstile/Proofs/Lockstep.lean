import Turnstile.Proofs.Twins

/-!
# Sections in lockstep

What one critical section does to twin synchronizers leaves them twins, with the same answers and the
same wakes. The events differ in the slots that they name.
-/

namespace Turnstile

variable {P : Policy}

/-- Without the slot. -/
def Notice.blurred {R : Type} : Notice R → Notice R
  | .enqueued request _ ticket queued => .enqueued request 0 ticket queued
  | .granted request _ ticket => .granted request 0 ticket
  | .resolved _ ticket outcome => .resolved 0 ticket outcome
  | n => n

def Event.blurred {R : Type} : Event R → Event R
  | .notice sync kind n => .notice sync kind n.blurred
  | e => e

/-- The waiter of one acquisition on both sides, with slot `f i` for slot `i`. -/
inductive Stage.Twin (f : Nat → Nat) : Stage → Stage → Prop
  | ready (result : Except Refusal Unit) : Twin f (.ready result) (.ready result)
  | waiting {id id' : WaiterId} (slot : id'.slot = f id.slot) : Twin f (.waiting id) (.waiting id')
  | done : Twin f .done .done

/-- Whoever waits has a rental that has not ended. -/
def Stage.Stands {R : Type} (stage : Stage) (p : Pool R) : Prop :=
  ∀ id, stage = .waiting id → p.IsCurrent id

/-- Two synchronizers that differ in the slots of their waiters only. -/
structure Sync.Twin (f : Nat → Nat) (s t : Sync P) : Prop where
  line : s.line.Twin f t.line
  id : t.id = s.id
  holding : t.holding = s.holding
  phase : t.phase = s.phase
  arrivals : t.arrivals = s.arrivals
  awaitingEnd : t.awaitingEnd = s.awaitingEnd
  plain : targets s.awaitingEnd = []

namespace Section

/-- Sections of synchronizer `n` on both sides. The slots stand for each other, and so do the triggers
with the timers and the tokens. -/
structure Twin (g : Nat → Nat → Nat) (n : Nat) (s t : Section P) : Prop where
  id : s.sync.id = n
  sync : s.sync.Twin (g n) t.sync
  timers : t.timers = s.timers.redirect (Waker.rename g)
  tokens : t.tokens = s.tokens.redirect (Waker.rename g)
  wakes : t.wakes = s.wakes
  plain : targets s.wakes = []
  events : t.events.map Event.blurred = s.events.map Event.blurred

/-- The timers and the tokens wake waiters here only in slots that somebody has rented. -/
structure Minded (s : Section P) : Prop where
  timers : ∀ k j, (k, .trigger s.sync.id j) ∈ s.timers.pending → s.waiter? j ≠ none
  tokens : ∀ t n l j, s.tokens.listener? t n = some l → l.waker = some (.trigger s.sync.id j) →
    s.waiter? j ≠ none

theorem waiter?_update {s : Section P} {i : Nat} {w : Waiter P.Request} (hw : s.waiter? i = some w)
    (k : Waiter P.Request → Waiter P.Request) : (s.update i k).waiter? i = some (k w) := by
  show Line.waiter? (s.sync.line.update i k) i = _
  rw [Line.waiter?_update, if_pos rfl, show s.sync.line.waiter? i = some w from hw]
  rfl

theorem waiter?_disarm {s : Section P} {i : Nat} {w : Waiter P.Request} (hw : s.waiter? i = some w) :
    (s.disarm i).waiter? i = some { w with timer := none, registration := none } := by
  unfold disarm
  rw [hw]
  exact waiter?_update hw fun w => { w with timer := none, registration := none }

theorem waiter?_resolve {s : Section P} {i : Nat} {w : Waiter P.Request} (hw : s.waiter? i = some w)
    (o : Outcome) :
    (s.resolve i o).waiter? i =
      some { w with outcome := some o, waker := none, timer := none, registration := none } := by
  unfold resolve
  rw [hw]
  exact waiter?_disarm (waiter?_update hw fun w => { w with outcome := some o, waker := none })

namespace Twin

variable {g : Nat → Nat → Nat} {n : Nat} {s t : Section P} {i : Nat} {w : Waiter P.Request}

/-! ## Parts -/

theorem line (h : s.Twin g n t) : s.sync.line.Twin (g n) t.sync.line := h.sync.line

theorem isPending_eq (h : s.Twin g n t) (hw : s.waiter? i = some w) :
    t.isPending (g n i) = s.isPending i := by
  rw [Section.isPending_eq (bare?_of_waiter? hw),
    Section.isPending_eq (h.line.bare? i _ (bare?_of_waiter? hw))]

theorem setLine (h : s.Twin g n t) {l m : Line P.Request} (twin : l.Twin (g n) m) :
    (s.setLine l).Twin g n (t.setLine m) :=
  { h with sync := { h.sync with line := twin } }

theorem setHolding (h : s.Twin g n t) (holding : P.State) :
    (s.setHolding holding).Twin g n (t.setHolding holding) :=
  { h with sync := { h.sync with holding := rfl } }

theorem tell (h : s.Twin g n t) {x x' : Notice P.Request} (same : x'.blurred = x.blurred) :
    (s.tell x).Twin g n (t.tell x') := by
  refine { h with events := ?_ }
  unfold Section.tell
  rw [List.map_append, List.map_append, h.events, h.sync.id, h.sync.holding]
  simp only [List.map_cons, List.map_nil, Event.blurred, same]

theorem gather (h : s.Twin g n t) {ws : List Waker} (plain : targets ws = []) :
    (s.gather ws).Twin g n (t.gather ws) := by
  refine { h with wakes := congrArg (· ++ ws) h.wakes, plain := ?_ }
  show List.filterMap _ (s.wakes ++ ws) = []
  rw [List.filterMap_append, show List.filterMap _ s.wakes = [] from h.plain,
    show List.filterMap _ ws = [] from plain, List.append_nil]

/-! ## Resolving waiters -/

theorem update (h : s.Twin g n t) (hw : s.waiter? i = some w)
    {k : Waiter P.Request → Waiter P.Request} (bare : ∀ w : Waiter P.Request, (k w).bare = k w.bare)
    (next : ∀ w, (k w).next = w.next) (linked : ∀ w, (k w).linked = w.linked)
    (plain : (k w.bare).waker.bind Waker.target? = none) :
    (s.update i k).Twin g n (t.update (g n i) k) := by
  obtain ⟨v, hv, same, -⟩ := h.line.waiter hw
  refine h.setLine (h.line.update hw (bare w) (fun u hu => ?_) next linked plain)
  rw [hv] at hu
  rw [← Option.some.inj hu, bare, same]

theorem disarm (h : s.Twin g n t) (hw : s.waiter? i = some w) :
    (s.disarm i).Twin g n (t.disarm (g n i)) := by
  obtain ⟨v, hv, same, -⟩ := h.line.waiter hw
  have timer : v.timer = w.timer := congrArg (·.timer) same
  have registration : v.registration = w.registration := congrArg (·.registration) same
  have cleared := h.update hw (k := fun w => { w with timer := none, registration := none })
    (fun _ => rfl) (fun _ => rfl) (fun _ => rfl) (h.line.plain i w.bare (bare?_of_waiter? hw))
  unfold Section.disarm
  rw [hw, show t.waiter? (g n i) = some v from hv]
  refine { cleared with timers := ?_, tokens := ?_ }
  · show v.timer.elim t.timers t.timers.cancel = Timers.redirect _ (w.timer.elim _ _)
    rw [timer, h.timers]
    rcases w.timer with _ | k
    · rfl
    · exact Timers.cancel_redirect _ k
  · show v.registration.elim t.tokens t.tokens.unregister =
      Tokens.redirect _ (w.registration.elim _ _)
    rw [registration, h.tokens]
    rcases w.registration with _ | r
    · rfl
    · exact Tokens.unregister_redirect _ r

theorem resolve (h : s.Twin g n t) (hw : s.waiter? i = some w) (o : Outcome) :
    (s.resolve i o).Twin g n (t.resolve (g n i) o) := by
  obtain ⟨v, hv, same, -⟩ := h.line.waiter hw
  have waker : v.waker = w.waker := congrArg (·.waker) same
  have settled := h.update hw (k := fun w => { w with outcome := some o, waker := none })
    (fun _ => rfl) (fun _ => rfl) (fun _ => rfl) rfl
  have here := waiter?_update hw fun w => { w with outcome := some o, waker := none }
  unfold Section.resolve
  rw [hw, show t.waiter? (g n i) = some v from hv]
  dsimp only
  rw [waker]
  refine (settled.disarm here).gather ?_
  have plain := h.line.plain i w.bare (bare?_of_waiter? hw)
  rcases hk : w.waker with _ | k
  · rfl
  · rw [show w.bare.waker = some k from hk, Option.bind_some] at plain
    simp [targets, plain]

theorem exposeAtMost (h : s.Twin g n t) (fuel : Nat) :
    (s.exposeAtMost fuel).Twin g n (t.exposeAtMost fuel) := by
  induction fuel generalizing s t with
  | zero => exact h
  | succ fuel ih =>
    unfold Section.exposeAtMost
    rw [h.line.head_eq]
    rcases hi : s.sync.line.head with _ | i
    · exact h
    · obtain ⟨w, hw⟩ := h.line.waiter_of_head hi
      dsimp only [Option.map_some]
      rw [h.isPending_eq hw]
      split
      · exact h
      · exact ih (h.setLine h.line.dequeue.1)

theorem exposeHead (h : s.Twin g n t) : s.exposeHead.Twin g n t.exposeHead := by
  unfold Section.exposeHead
  rw [h.line.length_eq]
  exact h.exposeAtMost _

theorem grantAtMost (h : s.Twin g n t) (fuel : Nat) :
    (s.grantAtMost fuel).Twin g n (t.grantAtMost fuel) := by
  induction fuel generalizing s t with
  | zero => exact h.exposeHead
  | succ fuel ih =>
    have exposed := h.exposeHead
    unfold Section.grantAtMost
    dsimp only
    rw [exposed.line.head_eq]
    rcases hi : s.exposeHead.sync.line.head with _ | i
    · exact exposed
    obtain ⟨w, hw⟩ := exposed.line.waiter_of_head hi
    obtain ⟨v, hv, same, -⟩ := exposed.line.waiter hw
    have request : v.request = w.request := congrArg (·.request) same
    have ticket : v.ticket = w.ticket := congrArg (·.ticket) same
    simp only [Option.map_some, Option.bind_some,
      show s.exposeHead.waiter? i = some w from hw,
      show t.exposeHead.waiter? (g n i) = some v from hv,
      exposed.sync.holding, request, ticket]
    split
    · have entered := (exposed.setLine exposed.line.dequeue.1).setHolding
        (P.enter s.exposeHead.sync.holding w.request)
      obtain ⟨u, hu⟩ := Line.waiter?_dequeue hw
      rw [show (t.exposeHead.setLine t.exposeHead.sync.line.dequeue.1).sync.holding =
        s.exposeHead.sync.holding from exposed.sync.holding]
      exact ih ((entered.resolve hu .granted).tell rfl)
    · exact exposed

theorem grantRun (h : s.Twin g n t) : s.grantRun.Twin g n t.grantRun := by
  unfold Section.grantRun
  rw [h.line.length_eq]
  exact h.grantAtMost _

theorem sweep (h : s.Twin g n t) (o : Outcome) (fuel count : Nat) :
    (s.sweep o fuel count).1.Twin g n (t.sweep o fuel count).1 ∧
      (t.sweep o fuel count).2 = (s.sweep o fuel count).2 := by
  induction fuel generalizing s t count with
  | zero => exact ⟨h, rfl⟩
  | succ fuel ih =>
    obtain ⟨left, first⟩ := h.line.dequeue
    have found : s.sync.line.dequeue.2 = none ∨
        ∃ i w, s.sync.line.dequeue.2 = some i ∧ s.sync.line.dequeue.1.waiter? i = some w := by
      obtain ⟨L, line, -⟩ := h.line.places
      cases L with
      | nil => exact .inl (by rw [Line.dequeue_nil line])
      | cons i L =>
        obtain ⟨w, hw⟩ := Chained.waiter_of_mem line List.mem_cons_self
        obtain ⟨u, hu⟩ := Line.waiter?_dequeue hw
        exact .inr ⟨i, u, by rw [Line.dequeue_cons line], hu⟩
    unfold Section.sweep
    rcases hs : s.sync.line.dequeue with ⟨l, i⟩
    rcases ht : t.sync.line.dequeue with ⟨m, j⟩
    rw [hs, ht] at left first
    rw [hs] at found
    dsimp only at left first found
    subst first
    rcases found with rfl | ⟨i, w, rfl, hw⟩
    · exact ⟨h, rfl⟩
    have next := h.setLine left
    dsimp only [Option.map_some]
    rw [show (t.setLine m).isPending (g n i) = (s.setLine l).isPending i from
      next.isPending_eq hw]
    split
    · exact ih (next.resolve hw o) _
    · exact ih next _

theorem resolveAll (h : s.Twin g n t) (o : Outcome) :
    (s.resolveAll o).1.Twin g n (t.resolveAll o).1 ∧ (t.resolveAll o).2 = (s.resolveAll o).2 := by
  unfold Section.resolveAll
  rw [h.line.length_eq]
  exact h.sweep o _ 0

theorem evictLine (h : s.Twin g n t) (reason : Reason) :
    (s.evictLine reason).Twin g n (t.evictLine reason) := by
  obtain ⟨swept, count⟩ := h.resolveAll (.interrupted reason)
  unfold Section.evictLine
  dsimp only
  rw [count]
  exact swept.tell rfl

theorem endDisposal (h : s.Twin g n t) : s.endDisposal.Twin g n t.endDisposal := by
  have quiet : t.sync.isQuiet = s.sync.isQuiet := by
    unfold Sync.isQuiet
    rw [h.sync.holding, h.line.isEmpty_eq]
  unfold Section.endDisposal
  rw [h.sync.phase, quiet, h.sync.awaitingEnd]
  split
  · have ended : Twin g n
        { s with
          sync :=
            { s.sync with
              phase := .disposed, awaitingEnd := []
              line := { s.sync.line with pool := s.sync.line.pool.close } } }
        { t with
          sync :=
            { t.sync with
              phase := .disposed, awaitingEnd := []
              line := { t.sync.line with pool := t.sync.line.pool.close } } } := by
      exact
        { h with
          sync :=
            { h.sync with line := h.line.close, phase := rfl, awaitingEnd := rfl, plain := rfl } }
    exact (ended.gather h.sync.plain).tell rfl
  · exact h

/-! ## Acquiring -/

theorem enqueue (h : s.Twin g n t) (minded : s.Minded) (request : P.Request) (timeout : Timeout)
    {token : Option Nat} (taken : token.any s.tokens.refuses = false) :
    ∃ g', (s.enqueue request timeout token).1.Twin g' n (t.enqueue request timeout token).1 ∧
      (s.enqueue request timeout token).2.Twin (g' n) (t.enqueue request timeout token).2 ∧
      ∀ i j, g' i j = g i j ∨ i = n ∧ s.waiter? j = none := by
  obtain rfl := h.id
  have rents := Pool.rent_rents h.line.sound.1
  have rents' := Pool.rent_rents h.line.sound.2
  unfold Section.enqueue
  generalize s.sync.line.pool.rent = a at rents ⊢
  generalize t.sync.line.pool.rent = b at rents' ⊢
  obtain ⟨p, id⟩ := a
  obtain ⟨q, id'⟩ := b
  dsimp only at rents rents' ⊢
  have free : s.waiter? id.slot = none := rents.free
  have timers : t.timers =
      s.timers.redirect (Waker.rename (renew g s.sync.id id.slot id'.slot)) := by
    refine h.timers.trans (Timers.redirect_congr _ fun e he => (Waker.rename_renew ?_).symm)
    intro same
    exact minded.timers e.1 id.slot (by rw [← same]; exact he) free
  have tokens : t.tokens =
      s.tokens.redirect (Waker.rename (renew g s.sync.id id.slot id'.slot)) := by
    refine h.tokens.trans (Tokens.redirect_congr _ fun k n l hl w hw => (Waker.rename_renew ?_).symm)
    rintro rfl
    exact minded.tokens k n l id.slot hl hw free
  have signal : Waker.trigger t.sync.id id'.slot =
      (Waker.trigger s.sync.id id.slot).rename (renew g s.sync.id id.slot id'.slot) := by
    rw [h.sync.id, Waker.rename, renew_self]
  obtain ⟨ts, r, subscribed, -⟩ :=
    Section.subscribe?_eq_some taken (.trigger s.sync.id id.slot)
  rw [signal, tokens, timers, Tokens.subscribe?_redirect, Timers.arm_redirect, subscribed]
  rcases arm s.timers timeout (.trigger s.sync.id id.slot) with ⟨timers', deadline, timer⟩
  dsimp only [Option.map_some]
  rw [h.sync.arrivals]
  have line := h.line.join rents rents' (k := fun w =>
    { w with request, ticket := s.sync.arrivals, registration := r, deadline, timer })
    (fun _ => rfl) (fun _ => rfl) (fun _ => rfl) fun _ => rfl
  rw [← renew_row] at line
  refine ⟨renew g s.sync.id id.slot id'.slot, ?_, .waiting renew_self.symm, fun i j => ?_⟩
  · refine tell ?_ (congrArg (Notice.enqueued request 0 s.sync.arrivals) line.length_eq)
    exact { h with sync := { h.sync with line, arrivals := rfl }, timers := rfl, tokens := rfl }
  · by_cases here : i = s.sync.id ∧ j = id.slot
    · exact .inr ⟨here.1, here.2 ▸ free⟩
    · exact .inl (renew_of_ne here)

theorem letIn (h : s.Twin g n t) (minded : s.Minded) (request : P.Request) (timeout : Timeout)
    (token : Option Nat) :
    ∃ g', (s.letIn request timeout token).1.Twin g' n (t.letIn request timeout token).1 ∧
      (s.letIn request timeout token).2.Twin (g' n) (t.letIn request timeout token).2 ∧
      ∀ i j, g' i j = g i j ∨ i = n ∧ s.waiter? j = none := by
  have refused : token.any t.tokens.refuses = token.any s.tokens.refuses := by
    rw [h.tokens]
    exact congrArg token.any (funext fun i => Tokens.refuses_redirect _ i)
  unfold Section.letIn
  rw [h.line.isEmpty_eq, h.sync.holding, refused]
  split
  · exact ⟨g, (h.setHolding _).tell rfl, .ready _, fun _ _ => .inl rfl⟩
  · split
    · exact ⟨g, h, .ready _, fun _ _ => .inl rfl⟩
    · split
      · exact ⟨g, h, .ready _, fun _ _ => .inl rfl⟩
      · exact h.enqueue minded request timeout (Bool.eq_false_iff.mpr ‹_›)

theorem acquire (h : s.Twin g n t) {d : Docket P} {L : List Nat} (rests : s.Rests d L)
    (minded : ∀ u, s.Lapses u → u.Minded) (request : P.Request) (timeout : Timeout)
    (token : Option Nat) (steal : Option Reason) :
    ∃ g', (s.acquire request timeout token steal).1.Twin g' n
        (t.acquire request timeout token steal).1 ∧
      (s.acquire request timeout token steal).2.Twin (g' n)
        (t.acquire request timeout token steal).2 ∧
      ∀ i j, g' i j = g i j ∨ i = n ∧ s.waiter? j = none := by
  have unfolded (u : Section P) : u.acquire request timeout token steal =
      if u.sync.phase ≠ .active then (u, .ready (.error .disposed))
      else (steal.elim u u.evictLine).exposeHead.letIn request timeout token := rfl
  rw [unfolded, unfolded, h.sync.phase]
  split
  · exact ⟨g, h, .ready _, fun _ _ => .inl rfl⟩
  · rename_i active
    have active : d.phase = .active := rests.phase.trans (not_not.mp active)
    obtain ⟨-, -, frame⟩ := evict_rests rests active steal
    have evicted : (steal.elim s s.evictLine).exposeHead.Twin g n
        (steal.elim t t.evictLine).exposeHead := by
      rcases steal with _ | reason
      · exact h.exposeHead
      · exact (h.evictLine reason).exposeHead
    obtain ⟨g', twin, stage, new⟩ := evicted.letIn (minded _ (s.evict_lapses steal)) request
      timeout token
    refine ⟨g', twin, stage, fun i j => (new i j).imp_right fun ⟨here, free⟩ => ⟨here, ?_⟩⟩
    have kept := frame.keys j (by simp)
    rw [show Line.bare? _ j = none from Option.map_eq_none_iff.mpr free, Option.map_none] at kept
    exact Option.map_eq_none_iff.mp (Option.map_eq_none_iff.mp kept.symm)

/-! ## Leaving -/

theorem get? (h : s.Twin g n t) {id id' : WaiterId} (slot : id'.slot = g n id.slot)
    (hc : s.sync.line.pool.IsCurrent id) (hc' : t.sync.line.pool.IsCurrent id') :
    ∃ w v, s.sync.line.pool.get? id = some w ∧ t.sync.line.pool.get? id' = some v ∧
      v.bare = w.bare ∧ v.linked = w.linked := by
  obtain ⟨w, hw⟩ := hc.rented?_ne_none h.line.sound.1
  obtain ⟨v, hv, bare, linked⟩ := h.line.waiter hw
  exact ⟨w, v, Pool.get?_eq_some.mpr ⟨hc, hw⟩, Pool.get?_eq_some.mpr ⟨hc', slot ▸ hv⟩, bare, linked⟩

theorem detach (h : s.Twin g n t) {id id' : WaiterId} (slot : id'.slot = g n id.slot)
    {w v : Waiter P.Request} (hw : s.sync.line.pool.get? id = some w)
    (hv : t.sync.line.pool.get? id' = some v) (linked : v.linked = w.linked) :
    (s.detach id w.linked).Twin g n (t.detach id' v.linked) := by
  obtain ⟨L, line, line'⟩ := h.line.places
  have here := waiter?_of_get? hw
  have ends := unhitch_ends h.line.sound.1 line hw
  have ends' := unhitch_ends h.line.sound.2 line' hv
  have disarmed := h.disarm here
  obtain ⟨k, turns, -, holds, -, -⟩ := unhitch_turns line here
  have unhitched : (s.unhitch id.slot w.linked).Twin g n (t.unhitch id'.slot v.linked) := by
    unfold Section.unhitch
    rw [linked, slot]
    dsimp only
    split
    · rename_i standing
      exact disarmed.setLine (disarmed.line.erase (waiter?_disarm here) standing)
    · exact disarmed
  obtain ⟨u, hu, -⟩ := waiter?_of_bare? ((turns.line.bare?_eq (bare?_of_waiter? here) id.slot).trans
    (if_pos rfl))
  refine unhitched.setLine (unhitched.line.ends slot ends ends' hu ?_)
  by_contra standing
  have := (Chained.linked holds id.slot u hu).mp (by simpa using standing)
  rw [(Chained.nodup line).mem_erase_iff] at this
  exact this.1 rfl

theorem leave (h : s.Twin g n t) {id id' : WaiterId} (slot : id'.slot = g n id.slot)
    (hc : s.sync.line.pool.IsCurrent id) (hc' : t.sync.line.pool.IsCurrent id')
    (abandoned : Bool) : (s.leave id abandoned).Twin g n (t.leave id' abandoned) := by
  obtain ⟨w, v, hw, hv, bare, linked⟩ := h.get? slot hc hc'
  have outcome : v.outcome = w.outcome := congrArg (·.outcome) bare
  have request : v.request = w.request := congrArg (·.request) bare
  have detached := h.detach slot hw hv linked
  rw [leave_eq hw, leave_eq hv]
  dsimp only
  rw [outcome, request]
  rw [linked] at detached ⊢
  have returned : Twin g n
      (if (abandoned && decide (w.outcome = some .granted)) = true then
        ((s.detach id w.linked).setHolding
          (P.release (s.detach id w.linked).sync.holding w.request)).tell (.handedBack w.request)
      else s.detach id w.linked)
      (if (abandoned && decide (w.outcome = some .granted)) = true then
        ((t.detach id' w.linked).setHolding
          (P.release (t.detach id' w.linked).sync.holding w.request)).tell (.handedBack w.request)
      else t.detach id' w.linked) := by
    split
    · rw [detached.sync.holding]
      exact (detached.setHolding _).tell rfl
    · exact detached
  split
  · exact returned.grantRun.endDisposal
  · exact returned.endDisposal

theorem poll (h : s.Twin g n t) {id id' : WaiterId} (slot : id'.slot = g n id.slot)
    (hc : s.sync.line.pool.IsCurrent id) (hc' : t.sync.line.pool.IsCurrent id') {waker : Waker}
    (caller : waker.target? = none) :
    (s.poll id waker).1.Twin g n (t.poll id' waker).1 ∧
      (t.poll id' waker).2 = (s.poll id waker).2 := by
  obtain ⟨w, v, hw, hv, bare, linked⟩ := h.get? slot hc hc'
  have outcome : v.outcome = w.outcome := congrArg (·.outcome) bare
  unfold Section.poll
  rw [hw, hv]
  dsimp only
  rw [outcome]
  rcases w.outcome with _ | o
  · rw [slot]
    exact ⟨h.update (waiter?_of_get? hw) (fun _ => rfl) (fun _ => rfl) (fun _ => rfl) caller, rfl⟩
  · exact ⟨h.leave slot hc hc' false, rfl⟩

theorem pollStage (h : s.Twin g n t) {stage stage' : Stage} (same : stage.Twin (g n) stage')
    (hc : stage.Stands s.sync.line.pool) (hc' : stage'.Stands t.sync.line.pool) {waker : Waker}
    (caller : waker.target? = none) :
    (s.pollStage stage waker).1.Twin g n (t.pollStage stage' waker).1 ∧
      (s.pollStage stage waker).2.1.Twin (g n) (t.pollStage stage' waker).2.1 ∧
      (t.pollStage stage' waker).2.2 = (s.pollStage stage waker).2.2 := by
  cases same with
  | ready result => exact ⟨h, .done, rfl⟩
  | @waiting id id' slot =>
    obtain ⟨polled, answer⟩ := h.poll slot (hc id rfl) (hc' id' rfl) caller
    unfold Section.pollStage
    dsimp only
    rcases hs : s.poll id waker with ⟨s', r⟩
    rcases ht : t.poll id' waker with ⟨t', r'⟩
    rw [hs, ht] at polled answer
    dsimp only at polled answer ⊢
    subst answer
    rcases r' with _ | r
    · exact ⟨polled, .waiting slot, rfl⟩
    · exact ⟨polled, .done, rfl⟩
  | done => exact ⟨h, .done, rfl⟩

/-! ## Giving back -/

theorem releaseBy (h : s.Twin g n t) (f : P.State → Except Refusal P.State) :
    (s.releaseBy f).1.Twin g n (t.releaseBy f).1 ∧ (t.releaseBy f).2 = (s.releaseBy f).2 := by
  unfold Section.releaseBy
  rw [h.sync.phase, h.sync.holding]
  split
  · exact ⟨h, rfl⟩
  · split
    · exact ⟨h, rfl⟩
    · exact ⟨(h.setHolding _).grantRun.endDisposal, rfl⟩

theorem dropStage (h : s.Twin g n t) (request : P.Request) {stage stage' : Stage}
    (same : stage.Twin (g n) stage') (hc : stage.Stands s.sync.line.pool)
    (hc' : stage'.Stands t.sync.line.pool) :
    (s.dropStage request stage).Twin g n (t.dropStage request stage') := by
  cases same with
  | ready result =>
    rcases result with r | _
    · exact h
    · exact (h.releaseBy _).1
  | @waiting id id' slot => exact h.leave slot (hc id rfl) (hc' id' rfl) true
  | done => exact h

theorem dropGuard (h : s.Twin g n t) (request : P.Request) :
    (s.dropGuard request).Twin g n (t.dropGuard request) := by
  obtain ⟨given, answer⟩ := h.releaseBy (returned request)
  unfold Section.dropGuard Section.release
  rw [Option.elim_some]
  rcases hs : s.releaseBy (returned request) with ⟨s', r⟩
  rcases ht : t.releaseBy (returned request) with ⟨t', r'⟩
  rw [hs, ht] at given answer
  dsimp only at given answer ⊢
  subst answer
  rcases r' with r | _
  · refine { given with events := ?_ }
    rw [List.map_append, List.map_append, given.events]
  · exact given

/-! ## Triggers -/

theorem trigger (h : s.Twin g n t) (hw : s.waiter? i = some w) :
    (s.trigger i).Twin g n (t.trigger (g n i)) := by
  obtain ⟨v, hv, bare, linked⟩ := h.line.waiter hw
  have pending : v.isPending = w.isPending := congrArg (·.isPending) bare
  have ticket : v.ticket = w.ticket := congrArg (·.ticket) bare
  have triggered : t.triggered? v = s.triggered? w := by
    unfold Section.triggered?
    rw [show v.registration = w.registration from congrArg (·.registration) bare,
      show v.deadline = w.deadline from congrArg (·.deadline) bare, h.timers, h.tokens]
    simp only [Tokens.isCancelled_redirect, Timers.now_redirect]
    rfl
  unfold Section.trigger
  rw [hw, show t.waiter? (g n i) = some v from hv]
  dsimp only
  rw [pending, triggered, ticket]
  split
  · split
    · exact h
    · rename_i o _
      have told : Twin g n (s.tell (.resolved i w.ticket o))
          (t.tell (.resolved (g n i) w.ticket o)) := h.tell rfl
      have resolved := told.resolve hw o
      have here := waiter?_resolve (s := s.tell (.resolved i w.ticket o)) hw o
      have there := waiter?_resolve (s := t.tell (.resolved (g n i) w.ticket o)) hv o
      -- Both stand in line or neither does, so both linger or neither does.
      have lingering := resolved.line.update here (k := fun w => { w with lingers := w.linked })
        (b := fun u => { u with lingers := w.linked }) rfl
        (fun u hu => by
          rw [← Option.some.inj (there.symm.trans hu), ← linked]
          exact congrArg (fun u : Waiter P.Request =>
            { u with
              outcome := some o, waker := none, timer := none, registration := none
              lingers := v.linked }) bare)
        (fun _ => rfl) (fun _ => rfl) rfl
      have settled : Twin g n
          (((s.tell (.resolved i w.ticket o)).resolve i o).update i fun w =>
            { w with lingers := w.linked })
          (((t.tell (.resolved (g n i) w.ticket o)).resolve (g n i) o).update
            (g n i) fun w => { w with lingers := w.linked }) :=
        resolved.setLine lingering
      rw [linked]
      split
      · exact settled.grantRun
      · exact settled
  · exact h

/-! ## Disposal -/

theorem dispose (h : s.Twin g n t) : s.dispose.Twin g n t.dispose := by
  unfold Section.dispose
  rw [h.sync.phase]
  split
  · exact h
  · have closing : Twin g n { s with sync := { s.sync with phase := .disposing } }
        { t with sync := { t.sync with phase := .disposing } } :=
      { h with sync := { h.sync with phase := rfl } }
    obtain ⟨swept, count⟩ := closing.resolveAll .disposed
    dsimp only
    rw [count, swept.sync.holding]
    exact (swept.tell rfl).endDisposal

theorem pollDispose (h : s.Twin g n t) {waker : Waker} (caller : waker.target? = none) :
    (s.pollDispose waker).1.Twin g n (t.pollDispose waker).1 ∧
      (t.pollDispose waker).2 = (s.pollDispose waker).2 := by
  unfold Section.pollDispose
  rw [h.sync.phase, h.sync.awaitingEnd]
  split
  · exact ⟨h, rfl⟩
  · split
    · exact ⟨h, rfl⟩
    · refine ⟨{ h with sync := { h.sync with awaitingEnd := rfl, plain := ?_ } }, rfl⟩
      show List.filterMap _ (s.sync.awaitingEnd ++ [waker]) = []
      rw [List.filterMap_append, show List.filterMap _ s.sync.awaitingEnd = [] from h.sync.plain]
      simp [caller]

end Twin

end Section

end Turnstile
