import Turnstile.Proofs.Roll
import Turnstile.Item

/-!
# Critical sections on the docket

`Section.Shows s d L` says that `s`, in line as `L`, shows the docket `d`. Each operation of a
section is one of the docket, and apart from the waiters that it resolves it leaves things alone.
-/

namespace Turnstile

/-- The ticket that an event grants. -/
def Event.granted? {R : Type} : Event R → Option Nat
  | .notice _ _ (.granted _ _ ticket) => some ticket
  | _ => none

/-- The flag of token `i`, if there is such a token. -/
def Tokens.flag? (ts : Tokens) (i : Nat) : Option Bool := (ts.get? i).map (·.cancelled)

/-- What an acquisition keeps until its rental ends. -/
def Waiter.key {R : Type} (w : Waiter R) : Nat × R := (w.ticket, w.request)

namespace Section

variable {P : Policy}

structure Shows (s : Section P) (d : Docket P) (L : List Nat) : Prop where
  sound : s.sync.line.pool.Sound
  line : s.sync.line.Holds L
  roll : d.Shows s.sync.line.bare? L
  holding : d.holding = s.sync.holding
  phase : d.phase = s.sync.phase
  arrivals : d.arrivals = s.sync.arrivals
  awaitingEnd : d.awaitingEnd = s.sync.awaitingEnd
  wakes : d.wakes = s.wakes
  granted : d.granted = s.events.filterMap Event.granted?

/-- Whoever is first in line is pending. -/
def Fronted (s : Section P) (L : List Nat) : Prop :=
  ∀ i, L.head? = some i → ∃ w, s.sync.line.bare? i = some w ∧ w.outcome = none

/-- What `t` has in common with `s`, whatever became of slot `but`. -/
structure Frame (but : Option Nat) (s t : Section P) : Prop where
  id : t.sync.id = s.sync.id
  now : t.timers.now = s.timers.now
  flags : ∀ i, t.tokens.flag? i = s.tokens.flag? i
  keeps : ∀ id : WaiterId, some id.slot ≠ but →
    s.sync.line.pool.IsCurrent id → t.sync.line.pool.IsCurrent id
  keys : ∀ i, some i ≠ but →
    (t.sync.line.bare? i).map Waiter.key = (s.sync.line.bare? i).map Waiter.key

namespace Frame

variable {s t u : Section P} {but : Option Nat}

theorem refl (but : Option Nat) (s : Section P) : Frame but s s :=
  ⟨rfl, rfl, fun _ => rfl, fun _ _ h => h, fun _ _ => rfl⟩

theorem trans (h : Frame but s t) (h' : Frame but t u) : Frame but s u :=
  ⟨h'.id.trans h.id, h'.now.trans h.now, fun i => (h'.flags i).trans (h.flags i),
    fun id hb hc => h'.keeps id hb (h.keeps id hb hc),
    fun i hb => (h'.keys i hb).trans (h.keys i hb)⟩

theorem vacant (h : Frame none s t) {i : Nat} (hi : s.sync.line.bare? i = none) :
    t.sync.line.bare? i = none := by
  have := h.keys i (by simp)
  rw [hi] at this
  simpa using this

theorem but_any (h : Frame none s t) (i : Nat) : Frame (some i) s t :=
  ⟨h.id, h.now, h.flags, fun id _ => h.keeps id (by simp), fun j _ => h.keys j (by simp)⟩

end Frame

theorem tell_frame (s : Section P) (n : Notice P.Request) (but : Option Nat) :
    Frame but s (s.tell n) := ⟨rfl, rfl, fun _ => rfl, fun _ _ h => h, fun _ _ => rfl⟩

theorem setHolding_frame (s : Section P) (h : P.State) (but : Option Nat) :
    Frame but s (s.setHolding h) := ⟨rfl, rfl, fun _ => rfl, fun _ _ h => h, fun _ _ => rfl⟩

/-- `t` is `s` with the waiter in slot `i` changed by `f`. -/
structure Turns (s t : Section P) (i : Nat) (f : Waiter P.Request → Waiter P.Request) : Prop where
  line : s.sync.line.Turns t.sync.line i f
  sync : t.sync = { s.sync with line := t.sync.line }
  now : t.timers.now = s.timers.now
  flags : ∀ i, t.tokens.flag? i = s.tokens.flag? i

namespace Turns

variable {s t u : Section P} {i : Nat} {f g : Waiter P.Request → Waiter P.Request}

theorem trans (h : Turns s t i f) (h' : Turns t u i g) : Turns s u i (g ∘ f) :=
  ⟨h.line.trans h'.line, by rw [h'.sync, h.sync], h'.now.trans h.now,
    fun i => (h'.flags i).trans (h.flags i)⟩

theorem frame (h : Turns s t i f) (hf : ∀ w, (f w).key = w.key) (but : Option Nat) :
    Frame but s t := by
  refine ⟨by rw [h.sync], h.now, h.flags, fun id _ => h.line.keeps id, fun j _ => ?_⟩
  rw [h.line.bare?]
  split
  · rcases s.sync.line.bare? j with _ | w
    · rfl
    · exact congrArg some (hf w)
  · rfl

theorem shows (h : Turns s t i f) {d d' : Docket P} {L L' : List Nat} (hs : s.Shows d L)
    (line : t.sync.line.Holds L') (roll : d'.Shows t.sync.line.bare? L')
    (holding : d'.holding = d.holding) (phase : d'.phase = d.phase)
    (arrivals : d'.arrivals = d.arrivals) (awaitingEnd : d'.awaitingEnd = d.awaitingEnd)
    (wakes : d'.wakes = t.wakes) (granted : d'.granted = t.events.filterMap Event.granted?) :
    t.Shows d' L' :=
  ⟨h.line.sound hs.sound, line, roll, by rw [holding, hs.holding, h.sync],
    by rw [phase, hs.phase, h.sync], by rw [arrivals, hs.arrivals, h.sync],
    by rw [awaitingEnd, hs.awaitingEnd, h.sync], wakes, granted⟩

end Turns

/-! ## Disarming and resolving -/

theorem flag?_update (ts : Tokens) (i j : Nat) {f : Token → Token}
    (hf : ∀ t, (f t).cancelled = t.cancelled) : (ts.update i f).flag? j = ts.flag? j := by
  unfold Tokens.update Tokens.flag? Tokens.get?
  simp only [Array.getElem?_modify]
  split
  · rcases ts.all[j]? with _ | t
    · rfl
    · exact congrArg some (hf t)
  · rfl

theorem waiter?_of_bare? {s : Section P} {i : Nat} {w : Waiter P.Request}
    (h : s.sync.line.bare? i = some w) : ∃ u, s.waiter? i = some u ∧ u.bare = w :=
  Option.map_eq_some_iff.mp h

theorem bare?_of_waiter? {s : Section P} {i : Nat} {w : Waiter P.Request}
    (h : s.waiter? i = some w) : s.sync.line.bare? i = some w.bare := by
  show (s.waiter? i).map Waiter.bare = _
  rw [h, Option.map_some]

theorem waiter?_of_get? {s : Section P} {id : WaiterId} {w : Waiter P.Request}
    (h : s.sync.line.pool.get? id = some w) : s.waiter? id.slot = some w :=
  (Pool.get?_eq_some.mp h).2

theorem disarm_turns {s : Section P} {i : Nat} {w : Waiter P.Request} (hw : s.waiter? i = some w) :
    Turns s (s.disarm i) i (fun w => { w with timer := none, registration := none }) ∧
      (∀ L, s.sync.line.Holds L → (s.disarm i).sync.line.Holds L) ∧
      (s.disarm i).wakes = s.wakes ∧ (s.disarm i).events = s.events := by
  unfold disarm
  rw [hw]
  refine ⟨⟨s.sync.line.update_turns i fun _ _ => rfl, rfl, ?_, ?_⟩, ?_, rfl, rfl⟩
  · show (w.timer.elim s.timers s.timers.cancel).now = _
    rcases w.timer with _ | k <;> rfl
  · intro j
    show (w.registration.elim s.tokens s.tokens.unregister).flag? j = _
    rcases w.registration with _ | r
    · rfl
    · exact flag?_update _ r.token j fun _ => rfl
  · exact fun L h => h.update i (fun _ => rfl) fun _ => rfl

theorem resolve_turns {s : Section P} {i : Nat} {w : Waiter P.Request} (hw : s.waiter? i = some w)
    (o : Outcome) :
    Turns s (s.resolve i o) i (fun w => w.settled o w.lingers) ∧
      (∀ L, s.sync.line.Holds L → (s.resolve i o).sync.line.Holds L) ∧
      (s.resolve i o).wakes = s.wakes ++ w.waker.toList ∧ (s.resolve i o).events = s.events := by
  have h1 : Turns s (s.update i fun w => { w with outcome := some o, waker := none }) i
      (fun w => { w with outcome := some o, waker := none }) :=
    ⟨s.sync.line.update_turns i fun _ _ => rfl, rfl, rfl, fun _ => rfl⟩
  have hw' : (s.update i fun w => { w with outcome := some o, waker := none }).waiter? i =
      some { w with outcome := some o, waker := none } := by
    show Line.waiter? _ i = _
    rw [show (s.update i _).sync.line = s.sync.line.update i _ from rfl, Line.waiter?_update,
      if_pos rfl, show s.sync.line.waiter? i = some w from hw]
    rfl
  obtain ⟨h2, holds, wakes, events⟩ := disarm_turns hw'
  have h := h1.trans h2
  unfold resolve
  rw [hw]
  refine ⟨⟨h.line, h.sync, h.now, h.flags⟩, ?_, ?_, events⟩
  · exact fun L hL => holds L (hL.update i (fun _ => rfl) fun _ => rfl)
  · show (disarm _ i).wakes ++ _ = _
    rw [wakes]
    rfl

theorem isPending_eq {s : Section P} {i : Nat} {w : Waiter P.Request}
    (h : s.sync.line.bare? i = some w) : s.isPending i = w.outcome.isNone := by
  obtain ⟨u, hu, rfl⟩ := waiter?_of_bare? h
  simp [isPending, hu, Waiter.isPending, Waiter.bare]

theorem setLine_turns {s : Section P} {m : Line P.Request} {i : Nat}
    {f : Waiter P.Request → Waiter P.Request} (h : s.sync.line.Turns m i f) :
    Turns s (s.setLine m) i f := ⟨h, rfl, rfl, fun _ => rfl⟩

theorem Shows.bare?_of_mem {s : Section P} {d : Docket P} {L : List Nat} (h : s.Shows d L) {i : Nat}
    (hi : i ∈ L) : ∃ w, s.sync.line.bare? i = some w := by
  obtain ⟨u, hu⟩ := Chained.waiter_of_mem h.line hi
  exact ⟨u.bare, by simp [Line.bare?, hu]⟩

/-! ## Granting -/

theorem exposeAtMost_shows {s : Section P} {d : Docket P} {L : List Nat} (h : s.Shows d L)
    {fuel : Nat} (hf : L.length ≤ fuel) :
    ∃ L', (s.exposeAtMost fuel).Shows d L' ∧ (s.exposeAtMost fuel).Fronted L' ∧
      Frame none s (s.exposeAtMost fuel) ∧ L'.length ≤ L.length := by
  induction fuel generalizing s L with
  | zero =>
    obtain rfl := List.eq_nil_of_length_eq_zero (Nat.le_zero.mp hf)
    exact ⟨[], h, by simp [Fronted], Frame.refl _ s, Nat.le_refl _⟩
  | succ fuel ih =>
    unfold exposeAtMost
    rw [Chained.head_eq h.line]
    cases L with
    | nil => exact ⟨[], h, by simp [Fronted], Frame.refl _ s, Nat.le_refl _⟩
    | cons i M =>
      obtain ⟨w, hw⟩ := h.bare?_of_mem List.mem_cons_self
      simp only [List.head?_cons, isPending_eq hw]
      rcases ho : w.outcome with _ | o
      · refine ⟨i :: M, h, ?_, Frame.refl _ s, Nat.le_refl _⟩
        rintro j hj
        obtain rfl := Option.some.inj hj
        exact ⟨w, hw, ho⟩
      · -- A dead waiter at the head is unlinked, which the docket does not show.
        have hd : w.outcome ≠ none := by simp [ho]
        obtain ⟨holds, turns⟩ := Line.Holds.dequeue h.line
        have ht := setLine_turns turns
        have roll := h.roll.remove hw hd (turns.bare?_eq hw)
        rw [List.erase_cons_head] at roll
        have h' := ht.shows h holds roll rfl rfl rfl rfl h.wakes h.granted
        obtain ⟨L', shows', fronted, frame, len⟩ := ih h' (by simpa using hf)
        exact ⟨L', shows', fronted, (ht.frame (fun _ => rfl) none).trans frame,
          Nat.le_trans len (Nat.le_succ _)⟩

theorem exposeHead_shows {s : Section P} {d : Docket P} {L : List Nat} (h : s.Shows d L) :
    ∃ L', s.exposeHead.Shows d L' ∧ s.exposeHead.Fronted L' ∧ Frame none s s.exposeHead ∧
      L'.length ≤ L.length :=
  exposeAtMost_shows h (Nat.le_of_eq (Chained.length h.line).symm)

theorem Shows.pending_cons {s : Section P} {d : Docket P} {i : Nat} {M : List Nat}
    (h : s.Shows d (i :: M)) {w : Waiter P.Request} (hw : s.sync.line.bare? i = some w)
    {e : Petition P.Request} (he : w.petition? = some e) : ∃ es, d.pending = e :: es := by
  refine ⟨M.filterMap fun j => (s.sync.line.bare? j).bind Waiter.petition?, ?_⟩
  rw [h.roll.pending, List.filterMap_cons, hw, Option.bind_some, he]

theorem Shows.pending_isEmpty {s : Section P} {d : Docket P} {L : List Nat} (h : s.Shows d L)
    (hf : s.Fronted L) : d.pending.isEmpty = s.sync.line.isEmpty := by
  rw [Line.Holds.isEmpty_eq h.line]
  cases L with
  | nil => rw [h.roll.pending]; rfl
  | cons i M =>
    obtain ⟨w, hw, ho⟩ := hf i rfl
    obtain ⟨es, he⟩ := h.pending_cons hw (Waiter.petition?_of_pending ho)
    rw [he]
    rfl

theorem Shows.strike_head {s : Section P} {d : Docket P} {L : List Nat} (h : s.Shows d L)
    {e : Petition P.Request} {es : List (Petition P.Request)} (hd : d.pending = e :: es) :
    (d.strike e.ticket).pending = es := by
  have sorted := h.roll.sorted
  rw [hd, List.map_cons, List.pairwise_cons] at sorted
  simp only [Docket.strike, hd]
  rw [List.filter_cons_of_neg (by simp), List.filter_eq_self]
  intro x hx
  have := sorted.1 x.ticket (List.mem_map_of_mem hx)
  simp only [ne_eq, decide_eq_true_eq]
  omega

theorem dequeue_resolve_shows {s : Section P} {d : Docket P} {i : Nat} {M : List Nat}
    (h : s.Shows d (i :: M)) {w : Waiter P.Request} (hw : s.sync.line.bare? i = some w)
    {e : Petition P.Request} (he : w.petition? = some e) (o : Outcome) :
    ((s.setLine s.sync.line.dequeue.1).resolve i o).Shows
        (Docket.settle o (d.strike e.ticket) e) M ∧
      Frame none s ((s.setLine s.sync.line.dequeue.1).resolve i o) ∧
      ((s.setLine s.sync.line.dequeue.1).resolve i o).events = s.events ∧
      ((s.setLine s.sync.line.dequeue.1).resolve i o).sync.holding = s.sync.holding := by
  obtain ⟨holds, turns⟩ := Line.Holds.dequeue h.line
  have h1 := setLine_turns turns
  have hni : i ∉ M := (List.nodup_cons.mp (Chained.nodup h.line)).1
  have hw' : (s.setLine s.sync.line.dequeue.1).sync.line.bare? i = some w.calm := by
    show s.sync.line.dequeue.1.bare? i = _
    rw [turns.bare?_eq hw, if_pos rfl]
  obtain ⟨u, hu, hb⟩ := waiter?_of_bare? hw'
  obtain ⟨h2, holds2, wakes, events⟩ := resolve_turns hu o
  have h12 := h1.trans h2
  have hL : M = i :: M ∨ M = (i :: M).erase i := .inr (by simp)
  have settled : (fun w : Waiter P.Request => w.settled o w.lingers) ∘ Waiter.calm =
      Waiter.settled o (decide (i ∈ M)) := by
    simp only [hni, decide_false]
    rfl
  rw [settled] at h12
  have roll := h.roll.settle hw he o hL (h12.line.bare?_eq hw)
  have waker : u.waker = e.waker := by
    have : u.bare.waker = w.waker := by rw [hb]; rfl
    unfold Waiter.petition? at he
    split at he
    · rw [← Option.some.inj he]; exact this
    · cases he
  refine ⟨h12.shows h (holds2 _ holds) roll rfl rfl rfl rfl ?_ ?_, h12.frame (fun _ => rfl) none,
    events, by rw [h12.sync]⟩
  · rw [wakes, waker]
    show d.wakes ++ _ = s.wakes ++ _
    rw [h.wakes]
  · rw [events]
    exact h.granted

theorem Shows.tell_granted {s : Section P} {d : Docket P} {L : List Nat} (h : s.Shows d L)
    (r : P.Request) (i t : Nat) :
    (s.tell (.granted r i t)).Shows { d with granted := d.granted ++ [t] } L :=
  ⟨h.sound, h.line, h.roll.congr rfl rfl rfl, h.holding, h.phase, h.arrivals, h.awaitingEnd, h.wakes,
    by simp [tell, Event.granted?, h.granted]⟩

/-- One grant: the waiter at the head, in slot `i`, enters. -/
def grantFirst (s : Section P) (i : Nat) (w : Waiter P.Request) : Section P :=
  let s := s.setLine s.sync.line.dequeue.1
  let s := s.setHolding (P.enter s.sync.holding w.request)
  (s.resolve i .granted).tell (.granted w.request i w.ticket)

theorem grantFirst_shows {s : Section P} {d : Docket P} {i : Nat} {M : List Nat}
    (h : s.Shows d (i :: M)) {w : Waiter P.Request} (hw : s.waiter? i = some w)
    {e : Petition P.Request} (he : w.bare.petition? = some e) {es : List (Petition P.Request)}
    (hes : d.pending = e :: es) :
    (s.grantFirst i w).Shows (d.grantHead e es) M ∧ Frame none s (s.grantFirst i w) := by
  have hb := bare?_of_waiter? hw
  obtain ⟨ht, hr⟩ : e.ticket = w.ticket ∧ e.request = w.request := by
    unfold Waiter.petition? at he
    split at he
    · rw [← Option.some.inj he]; exact ⟨rfl, rfl⟩
    · cases he
  -- Taking the holding first makes no difference to the line.
  have ready : (s.setHolding (P.enter s.sync.holding w.request)).Shows
      { d with holding := P.enter d.holding e.request } (i :: M) :=
    ⟨h.sound, h.line, h.roll.congr rfl rfl rfl, by rw [h.holding, hr]; rfl, h.phase, h.arrivals,
      h.awaitingEnd, h.wakes, h.granted⟩
  obtain ⟨resolved, frame, -, -⟩ := dequeue_resolve_shows ready hb he .granted
  have told := resolved.tell_granted w.request i w.ticket
  have same : { Docket.settle .granted
      (Docket.strike { d with holding := P.enter d.holding e.request } e.ticket) e with
      granted := d.granted ++ [w.ticket] } = d.grantHead e es := by
    rw [← h.strike_head hes, ← ht]
    rfl
  rw [← same]
  exact ⟨told, (setHolding_frame s _ none).trans (frame.trans (tell_frame _ _ none))⟩

theorem grantAtMost_shows {s : Section P} {d : Docket P} {L : List Nat} (h : s.Shows d L)
    {fuel : Nat} (hf : L.length ≤ fuel) :
    ∃ L', (s.grantAtMost fuel).Shows d.grantRun L' ∧ (s.grantAtMost fuel).Fronted L' ∧
      Frame none s (s.grantAtMost fuel) := by
  induction fuel generalizing s d L with
  | zero =>
    obtain rfl := List.eq_nil_of_length_eq_zero (Nat.le_zero.mp hf)
    rw [Docket.grantRun_nil d h.roll.pending]
    obtain ⟨M, shown, fronted, frame, -⟩ := exposeHead_shows h
    exact ⟨M, shown, fronted, frame⟩
  | succ fuel ih =>
    obtain ⟨M, shown, fronted, frame, len⟩ := exposeHead_shows h
    unfold grantAtMost
    simp only [Chained.head_eq shown.line]
    cases M with
    | nil =>
      rw [Docket.grantRun_nil d shown.roll.pending]
      exact ⟨[], shown, fronted, frame⟩
    | cons i M =>
      obtain ⟨w, hw, ho⟩ := fronted i rfl
      obtain ⟨u, hu, rfl⟩ := waiter?_of_bare? hw
      have he := Waiter.petition?_of_pending ho
      obtain ⟨es, hes⟩ := shown.pending_cons hw he
      simp only [List.head?_cons, Option.bind_some, hu, Option.map_some]
      by_cases ha : P.allows s.exposeHead.sync.holding u.request = true
      · rw [if_pos ha, Docket.grantRun_cons d hes (by rw [shown.holding]; exact ha)]
        obtain ⟨next, frame'⟩ := grantFirst_shows shown hu he hes
        obtain ⟨L', shows', fronted', frame''⟩ := ih next (by simp at len; omega)
        exact ⟨L', shows', fronted', (frame.trans frame').trans frame''⟩
      · rw [if_neg ha, Docket.grantRun_blocked d hes
          (by rw [shown.holding]; exact Bool.eq_false_iff.mpr ha)]
        exact ⟨i :: M, shown, fronted, frame⟩

theorem grantRun_shows {s : Section P} {d : Docket P} {L : List Nat} (h : s.Shows d L) :
    ∃ L', s.grantRun.Shows d.grantRun L' ∧ s.grantRun.Fronted L' ∧ Frame none s s.grantRun :=
  grantAtMost_shows h (Nat.le_of_eq (Chained.length h.line).symm)

/-! ## Emptying the line -/

theorem sweep_shows {s : Section P} {d : Docket P} {L : List Nat} (h : s.Shows d L) (o : Outcome)
    {fuel : Nat} (hf : L.length ≤ fuel) (count : Nat) :
    (s.sweep o fuel count).1.Shows (d.resolveAll o) [] ∧ Frame none s (s.sweep o fuel count).1 := by
  -- The fuel outlasts the line. Whoever has its outcome already is only taken out.
  induction fuel generalizing s d L count with
  | zero =>
    obtain rfl := List.eq_nil_of_length_eq_zero (Nat.le_zero.mp hf)
    rw [Docket.resolveAll_nil o d h.roll.pending]
    exact ⟨h, Frame.refl _ s⟩
  | succ fuel ih =>
    unfold sweep
    cases L with
    | nil =>
      rw [Line.dequeue_nil h.line, Docket.resolveAll_nil o d h.roll.pending]
      exact ⟨h, Frame.refl _ s⟩
    | cons i M =>
      obtain ⟨holds, turns⟩ := Line.Holds.dequeue h.line
      have first := Line.dequeue_cons h.line
      obtain ⟨m, hm⟩ : ∃ m, s.sync.line.dequeue = (m, some i) := ⟨_, first⟩
      have hm1 : s.sync.line.dequeue.1 = m := by rw [hm]
      simp only [hm]
      obtain ⟨w, hw⟩ := h.bare?_of_mem List.mem_cons_self
      have hw' : (s.setLine m).sync.line.bare? i = some w.calm := by
        show m.bare? i = _
        rw [← hm1, turns.bare?_eq hw, if_pos rfl]
      rw [isPending_eq hw']
      rcases ho : w.outcome with _ | o'
      · have he := Waiter.petition?_of_pending ho
        obtain ⟨es, hes⟩ := h.pending_cons hw he
        obtain ⟨resolved, frame, -, -⟩ := dequeue_resolve_shows h hw he o
        rw [hm1] at resolved frame
        have same : Docket.settle o (d.strike w.ticket)
            ⟨w.ticket, w.request, w.deadline, w.registration.map (·.token), w.waker⟩ =
            { Docket.settle o d
              ⟨w.ticket, w.request, w.deadline, w.registration.map (·.token), w.waker⟩ with
              pending := es } := by
          rw [← h.strike_head hes]
          rfl
        rw [same] at resolved
        rw [Docket.resolveAll_cons o d hes]
        have := ih resolved (by simpa using hf) (count + 1)
        simp only [Waiter.calm, ho, Option.isNone_none, if_true]
        exact ⟨this.1, frame.trans this.2⟩
      · have ht := setLine_turns turns
        have roll := h.roll.remove hw (by simp [ho]) (turns.bare?_eq hw)
        rw [List.erase_cons_head] at roll
        have next := ht.shows h holds roll rfl rfl rfl rfl h.wakes h.granted
        rw [hm1] at ht next
        have := ih next (by simpa using hf) count
        simp only [Waiter.calm, ho, Option.isNone_some, Bool.false_eq_true, if_false]
        exact ⟨this.1, (ht.frame (fun _ => rfl) none).trans this.2⟩

theorem resolveAll_shows {s : Section P} {d : Docket P} {L : List Nat} (h : s.Shows d L)
    (o : Outcome) :
    (s.resolveAll o).1.Shows (d.resolveAll o) [] ∧ Frame none s (s.resolveAll o).1 :=
  sweep_shows h o (Nat.le_of_eq (Chained.length h.line).symm) 0

/-! ## Ending disposal -/

theorem endDisposal_shows {s : Section P} {d : Docket P} {L : List Nat} (h : s.Shows d L)
    (hf : s.Fronted L) :
    s.endDisposal.Shows d.endDisposal L ∧ s.endDisposal.Fronted L ∧ Frame none s s.endDisposal := by
  have cond : (s.sync.phase = .disposing && s.sync.isQuiet : Bool) =
      (d.phase = .disposing && P.isIdle d.holding && d.pending.isEmpty : Bool) := by
    rw [h.phase, h.holding, h.pending_isEmpty hf, Bool.and_assoc]
    rfl
  unfold endDisposal Docket.endDisposal
  rw [cond]
  split
  · have alike := Pool.close_alike h.sound
    have bare := Line.bare?_alike alike
    refine ⟨⟨Pool.close_sound h.sound, h.line.alike alike, ?_, h.holding, rfl, h.arrivals, rfl, ?_,
      ?_⟩, ?_, rfl, rfl, fun _ => rfl, fun id _ => alike.keeps id, fun i _ => ?_⟩
    · show Docket.Shows _ (Line.bare? { s.sync.line with pool := s.sync.line.pool.close }) L
      rw [bare]
      exact h.roll.congr rfl rfl rfl
    · show d.wakes ++ d.awaitingEnd = s.wakes ++ s.sync.awaitingEnd
      rw [h.wakes, h.awaitingEnd]
    · simp [tell, gather, Event.granted?, h.granted]
    · intro i hi
      obtain ⟨w, hw⟩ := hf i hi
      refine ⟨w, ?_⟩
      show Line.bare? { s.sync.line with pool := s.sync.line.pool.close } i = some w ∧ _
      rw [bare]
      exact hw
    · show (Line.bare? { s.sync.line with pool := s.sync.line.pool.close } i).map _ = _
      rw [bare]
  · exact ⟨h, hf, Frame.refl _ s⟩

/-- A section that nobody works on. -/
structure Rests (s : Section P) (d : Docket P) (L : List Nat) : Prop extends Shows s d L where
  fronted : s.Fronted L
  rests : d.Rests

/-- Granting and ending disposal put a section in order. -/
theorem Shows.settles {s : Section P} {d : Docket P} {L : List Nat} (h : s.Shows d L)
    (closed : d.phase ≠ .active → d.pending = []) :
    ∃ L', s.grantRun.endDisposal.Rests d.grantRun.endDisposal L' ∧
      Frame none s s.grantRun.endDisposal := by
  obtain ⟨L', shows', fronted, frame⟩ := grantRun_shows h
  obtain ⟨shows'', fronted', frame'⟩ := endDisposal_shows shows' fronted
  exact ⟨L', ⟨shows'', fronted', Docket.grantRun_endDisposal_rests closed⟩, frame.trans frame'⟩

end Section

end Turnstile
