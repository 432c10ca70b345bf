import Turnstile.Proofs.Operations

/-!
# What a section arms and disarms

A waiter is armed while the timers or its token may still reach it. Whoever is pending is armed, and
whoever gets an outcome or goes away lapses: its timer is cancelled and its subscription ends. Only
an acquisition that joins the line arms anybody, itself. This is all that a section does to the
timers and to the tokens.
-/

namespace Turnstile

variable {R : Type} {P : Policy}

/-- What a waiter has out with the timers and with its token. -/
structure Arms where
  ticket : Nat
  deadline : Option Time
  timer : Option TimerKey
  registration : Option Registration
  deriving DecidableEq, Repr

/-- What an acquisition asks of the timers and of a token. -/
structure Asking where
  timeout : Timeout
  token : Option Nat
  deriving DecidableEq, Repr

namespace Waiter

def arms? (w : Waiter R) : Option Arms :=
  if w.isPending || !w.isDisarmed then some ⟨w.ticket, w.deadline, w.timer, w.registration⟩
  else none

theorem arms?_eq_some {w : Waiter R} {a : Arms} (h : w.arms? = some a) :
    a = ⟨w.ticket, w.deadline, w.timer, w.registration⟩ := by
  unfold arms? at h
  split at h
  · exact (Option.some.inj h).symm
  · cases h

theorem arms?_of_pending {w : Waiter R} (h : w.outcome = none) :
    w.arms? = some ⟨w.ticket, w.deadline, w.timer, w.registration⟩ := by
  simp [arms?, isPending, h]

theorem arms?_of_quiet {w : Waiter R} (h : w.outcome ≠ none) (timer : w.timer = none)
    (registration : w.registration = none) : w.arms? = none := by
  obtain ⟨o, ho⟩ := Option.ne_none_iff_exists'.mp h
  simp [arms?, isPending, isDisarmed, ho, timer, registration]

theorem arms?_eq_none {w : Waiter R} (h : w.arms? = none) :
    w.timer = none ∧ w.registration = none := by
  unfold arms? at h
  split at h
  · cases h
  · rename_i hw
    simp only [isDisarmed, Bool.or_eq_true, not_or, Bool.not_eq_true, Bool.not_eq_false',
      Bool.and_eq_true, Option.isNone_iff_eq_none] at hw
    exact hw.2

end Waiter

namespace Line

/-- What the waiter in slot `i` has out. -/
def arms? (l : Line R) (i : Nat) : Option Arms := (l.waiter? i).bind Waiter.arms?

variable {l m : Line R}

theorem arms?_eq_bare (l : Line R) (i : Nat) : l.arms? i = (l.bare? i).bind Waiter.arms? := by
  unfold arms? bare?
  rcases l.waiter? i with _ | w <;> rfl

theorem arms?_of_bare? {i : Nat} (h : m.bare? i = l.bare? i) : m.arms? i = l.arms? i := by
  rw [arms?_eq_bare, arms?_eq_bare, h]

theorem arms?_update (l : Line R) (i : Nat) {f : Waiter R → Waiter R}
    (hf : ∀ w, (f w).arms? = w.arms?) (j : Nat) : (l.update i f).arms? j = l.arms? j := by
  unfold arms?
  rw [waiter?_update]
  split
  · rcases l.waiter? j with _ | w
    · rfl
    · exact hf w
  · rfl

theorem Turns.arms? {i : Nat} {f : Waiter R → Waiter R} (h : l.Turns m i f)
    (hf : ∀ w, (f w).arms? = w.arms?) (j : Nat) : m.arms? j = l.arms? j := by
  rw [arms?_eq_bare, arms?_eq_bare, h.bare?]
  split
  · rcases l.bare? j with _ | w
    · rfl
    · exact hf w
  · rfl

theorem arms?_dequeue (l : Line R) (j : Nat) : l.dequeue.1.arms? j = l.arms? j := by
  unfold dequeue
  split
  · rfl
  · exact l.arms?_update _ (f := unlinked) (fun _ => rfl) j

end Line

namespace Section

variable {s t u : Section P}

/-! ## Lapsing -/

/-- What `t` has in common with `s`, whoever lapsed. -/
structure Alike (s t : Section P) : Prop where
  id : t.sync.id = s.sync.id
  arrivals : t.sync.arrivals = s.sync.arrivals

theorem Alike.refl (s : Section P) : s.Alike s := ⟨rfl, rfl⟩

/-- The timers and the tokens are as before, and so is whatever anybody has out with them. -/
structure Silent (s t : Section P) : Prop extends s.Alike t where
  timers : t.timers = s.timers
  tokens : t.tokens = s.tokens
  arms : ∀ i, t.sync.line.arms? i = s.sync.line.arms? i

/-- The waiter in slot `i` takes back all that it has out. -/
structure Lapse (s t : Section P) (i : Nat) (a : Arms) : Prop extends s.Alike t where
  armed : s.sync.line.arms? i = some a
  timers : t.timers = a.timer.elim s.timers s.timers.cancel
  tokens : t.tokens = a.registration.elim s.tokens s.tokens.unregister
  arms : ∀ j, t.sync.line.arms? j = if j = i then none else s.sync.line.arms? j

/-- `t` is what lapses of one waiter after another make of `s`. -/
inductive Lapses (s : Section P) : Section P → Prop
  | refl : Lapses s s
  | silent {t u : Section P} (h : Lapses s t) (q : t.Silent u) : Lapses s u
  | lapse {t u : Section P} {i : Nat} {a : Arms} (h : Lapses s t) (q : t.Lapse u i a) : Lapses s u

theorem Lapses.keeps {I : Section P → Prop} (h : s.Lapses t) (hs : I s)
    (silent : ∀ t u, Silent t u → I t → I u) (lapse : ∀ t u i a, Lapse t u i a → I t → I u) :
    I t := by
  induction h with
  | refl => exact hs
  | silent _ q ih => exact silent _ _ q ih
  | lapse _ q ih => exact lapse _ _ _ _ q ih

theorem Lapses.trans (h : s.Lapses t) (h' : t.Lapses u) : s.Lapses u :=
  h'.keeps h (fun _ _ q h => h.silent q) fun _ _ _ _ q h => h.lapse q

theorem Silent.lapses (q : s.Silent t) : s.Lapses t := .silent .refl q

theorem Lapses.arms? (h : s.Lapses t) {i : Nat} {a : Arms} (ha : t.sync.line.arms? i = some a) :
    s.sync.line.arms? i = some a := by
  revert ha
  refine h.keeps (I := fun t => t.sync.line.arms? i = some a → s.sync.line.arms? i = some a) id
    (fun t u q ih ha => ih ((q.arms i).symm.trans ha)) fun t u j b q ih ha => ?_
  rw [q.arms] at ha
  split at ha
  · cases ha
  · exact ih ha

theorem lapses_of_cleared {i : Nat} {w : Waiter P.Request} (alike : s.Alike t)
    (hw : s.waiter? i = some w) (timers : t.timers = w.timer.elim s.timers s.timers.cancel)
    (tokens : t.tokens = w.registration.elim s.tokens s.tokens.unregister)
    (arms : ∀ j, t.sync.line.arms? j = if j = i then none else s.sync.line.arms? j) :
    s.Lapses t := by
  have armed : s.sync.line.arms? i = w.arms? := by
    show (s.waiter? i).bind _ = _
    rw [hw, Option.bind_some]
  rcases ha : w.arms? with _ | a
  · obtain ⟨timer, registration⟩ := Waiter.arms?_eq_none ha
    rw [timer] at timers
    rw [registration] at tokens
    refine Silent.lapses ⟨alike, timers, tokens, fun j => ?_⟩
    rw [arms]
    split
    · subst j
      rw [armed, ha]
    · rfl
  · obtain rfl := Waiter.arms?_eq_some ha
    exact .lapse .refl ⟨alike, armed.trans ha, timers, tokens, arms⟩

/-! ## Sections without a new waiter -/

theorem setLine_silent (s : Section P) {line : Line P.Request}
    (arms : ∀ i, line.arms? i = s.sync.line.arms? i) : s.Silent (s.setLine line) :=
  ⟨⟨rfl, rfl⟩, rfl, rfl, arms⟩

theorem update_silent (s : Section P) (i : Nat) {f : Waiter P.Request → Waiter P.Request}
    (hf : ∀ w, (f w).arms? = w.arms?) : s.Silent (s.update i f) :=
  s.setLine_silent (s.sync.line.arms?_update i hf)

theorem setHolding_silent (s : Section P) (h : P.State) : s.Silent (s.setHolding h) :=
  ⟨⟨rfl, rfl⟩, rfl, rfl, fun _ => rfl⟩

theorem tell_silent (s : Section P) (n : Notice P.Request) : s.Silent (s.tell n) :=
  ⟨⟨rfl, rfl⟩, rfl, rfl, fun _ => rfl⟩

theorem resolve_lapses (s : Section P) (i : Nat) (o : Outcome) : s.Lapses (s.resolve i o) := by
  rcases hw : s.waiter? i with _ | w
  · unfold resolve
    rw [hw]
    exact .refl
  obtain ⟨turns, -, -, -⟩ := resolve_turns hw o
  have told : (s.update i fun w => { w with outcome := some o, waker := none }).waiter? i =
      some { w with outcome := some o, waker := none } := by
    show Line.waiter? (s.sync.line.update i _) i = _
    rw [Line.waiter?_update, if_pos rfl, show s.sync.line.waiter? i = some w from hw]
    rfl
  refine lapses_of_cleared (w := w) ⟨by rw [turns.sync], by rw [turns.sync]⟩ hw ?_ ?_ fun j => ?_
  · unfold resolve disarm
    rw [hw]
    dsimp only
    rw [told]
    rfl
  · unfold resolve disarm
    rw [hw]
    dsimp only
    rw [told]
    rfl
  · rw [Line.arms?_eq_bare, turns.line.bare?]
    split
    · rcases s.sync.line.bare? j with _ | v <;> rfl
    · rw [Line.arms?_eq_bare]

theorem exposeAtMost_lapses (s : Section P) (fuel : Nat) : s.Lapses (s.exposeAtMost fuel) := by
  induction fuel generalizing s with
  | zero => exact .refl
  | succ fuel ih =>
    unfold exposeAtMost
    split
    · exact .refl
    · split
      · exact .refl
      · exact (s.setLine_silent s.sync.line.arms?_dequeue).lapses.trans (ih _)

theorem grantAtMost_lapses (s : Section P) (fuel : Nat) : s.Lapses (s.grantAtMost fuel) := by
  induction fuel generalizing s with
  | zero => exact s.exposeAtMost_lapses _
  | succ fuel ih =>
    have exposed : s.Lapses s.exposeHead := s.exposeAtMost_lapses _
    unfold grantAtMost
    dsimp only
    split
    · exact exposed
    · rename_i i w _
      split
      · have taken := exposed.silent (s.exposeHead.setLine_silent
          s.exposeHead.sync.line.arms?_dequeue)
        have granted := (taken.silent (setHolding_silent _
          (P.enter s.exposeHead.sync.holding w.request))).trans (resolve_lapses _ i .granted)
        exact (granted.silent (tell_silent _ _)).trans (ih _)
      · exact exposed

theorem grantRun_lapses (s : Section P) : s.Lapses s.grantRun := s.grantAtMost_lapses _

theorem sweep_lapses (s : Section P) (o : Outcome) (fuel count : Nat) :
    s.Lapses (s.sweep o fuel count).1 := by
  induction fuel generalizing s count with
  | zero => exact .refl
  | succ fuel ih =>
    have first := (s.setLine_silent s.sync.line.arms?_dequeue).lapses
    unfold sweep
    rcases hd : s.sync.line.dequeue with ⟨line, _ | i⟩
    · exact .refl
    · rw [hd] at first
      dsimp only
      split
      · exact (first.trans (resolve_lapses _ i o)).trans (ih _ _)
      · exact first.trans (ih _ _)

theorem endDisposal_silent (sound : s.sync.line.pool.Sound) : s.Silent s.endDisposal := by
  unfold endDisposal
  split
  · refine ⟨⟨rfl, rfl⟩, rfl, rfl, fun i => Line.arms?_of_bare? ?_⟩
    exact congrFun (Line.bare?_alike (Pool.close_alike sound)) i
  · exact ⟨.refl s, rfl, rfl, fun _ => rfl⟩

variable {d : Docket P} {L : List Nat}

theorem Shows.settles_lapses (h : s.Shows d L) : s.Lapses s.grantRun.endDisposal := by
  obtain ⟨L', shown, -, -⟩ := grantRun_shows h
  exact s.grantRun_lapses.silent (endDisposal_silent shown.sound)

theorem Shows.detach_lapses (h : s.Shows d L) {id : WaiterId} {w : Waiter P.Request}
    (hw : s.sync.line.pool.get? id = some w) : s.Lapses (s.detach id w.linked) := by
  have hwait := waiter?_of_get? hw
  obtain ⟨shown, frame, bare⟩ := detach_shows h hw
  have kept : (s.detach id w.linked).sync.arrivals = s.sync.arrivals := by
    rw [← shown.arrivals, ← h.arrivals]
    split <;> rfl
  refine lapses_of_cleared ⟨frame.id, kept⟩ hwait ?_ ?_ fun j => ?_
  · unfold detach unhitch disarm
    rw [hwait]
    dsimp only
    split <;> rfl
  · unfold detach unhitch disarm
    rw [hwait]
    dsimp only
    split <;> rfl
  · rw [Line.arms?_eq_bare, bare]
    split
    · rfl
    · rw [Line.arms?_eq_bare]

theorem Rests.leave_lapses (h : s.Rests d L) (id : WaiterId) (abandoned : Bool) :
    s.Lapses (s.leave id abandoned) := by
  rcases hw : s.sync.line.pool.get? id with _ | w
  · rw [leave, hw]
    exact .refl
  obtain ⟨shown, -, -⟩ := detach_shows h.toShows hw
  -- Handing a grant back changes the holding only.
  obtain ⟨t, e, lapses, shows, eq⟩ : ∃ t e, s.Lapses t ∧ t.Shows e (L.erase id.slot) ∧
      s.leave id abandoned = (if w.linked || (abandoned && w.outcome = some .granted) then
        t.grantRun else t).endDisposal := by
    rw [leave_eq hw]
    dsimp only
    rcases abandoned && decide (w.outcome = some .granted) with _ | _
    · exact ⟨_, _, h.detach_lapses hw, shown, rfl⟩
    · refine ⟨_, { (if w.outcome = none then d.strike w.ticket else d.forget w.ticket) with
          holding := P.release (s.detach id w.linked).sync.holding w.request },
        ((h.detach_lapses hw).silent (setHolding_silent _ _)).silent
          (tell_silent _ (.handedBack w.request)), ?_, rfl⟩
      exact ⟨shown.sound, shown.line, shown.roll.congr rfl rfl rfl, rfl, shown.phase, shown.arrivals,
        shown.awaitingEnd, shown.wakes, by simp [tell, setHolding, Event.granted?, shown.granted]⟩
  rw [eq]
  split
  · exact lapses.trans shows.settles_lapses
  · exact lapses.silent (endDisposal_silent shows.sound)

theorem Rests.poll_lapses (h : s.Rests d L) (id : WaiterId) (waker : Waker) :
    s.Lapses (s.poll id waker).1 := by
  unfold poll
  split
  · exact .refl
  · split
    · exact (s.update_silent id.slot (f := fun w => { w with waker := some waker })
        fun _ => rfl).lapses
    · exact h.leave_lapses id false

theorem Rests.pollStage_lapses (h : s.Rests d L) (stage : Stage) (waker : Waker) :
    s.Lapses (s.pollStage stage waker).1 := by
  rcases stage with r | id | _
  · exact .refl
  · have polled := h.poll_lapses id waker
    unfold pollStage
    dsimp only
    generalize s.poll id waker = p at polled ⊢
    rcases p with ⟨t, _ | r⟩ <;> exact polled
  · exact .refl

theorem Rests.releaseBy_lapses (h : s.Rests d L) (f : P.State → Except Refusal P.State) :
    s.Lapses (s.releaseBy f).1 := by
  unfold releaseBy
  split
  · exact .refl
  · split
    · exact .refl
    · rename_i holding _
      have given : (s.setHolding holding).Shows { d with holding } L :=
        ⟨h.sound, h.line, h.roll.congr rfl rfl rfl, rfl, h.phase, h.arrivals, h.awaitingEnd, h.wakes,
          h.granted⟩
      exact (setHolding_silent s holding).lapses.trans given.settles_lapses

theorem Rests.dropStage_lapses (h : s.Rests d L) (request : P.Request) (stage : Stage) :
    s.Lapses (s.dropStage request stage) := by
  rcases stage with (_ | _) | id | _
  · exact .refl
  · exact h.releaseBy_lapses _
  · exact h.leave_lapses id true
  · exact .refl

theorem Rests.dropGuard_lapses (h : s.Rests d L) (request : P.Request) :
    s.Lapses (s.dropGuard request) := by
  have released := h.releaseBy_lapses (returned request)
  unfold dropGuard release
  rw [Option.elim_some]
  generalize s.releaseBy (returned request) = p at released ⊢
  rcases p with ⟨t, _ | _⟩
  · exact released.silent ⟨⟨rfl, rfl⟩, rfl, rfl, fun _ => rfl⟩
  · exact released

theorem trigger_lapses (s : Section P) (i : Nat) : s.Lapses (s.trigger i) := by
  unfold trigger
  split
  · exact .refl
  · split
    · split
      · exact .refl
      · rename_i w _ _ _ o _
        have resolved := ((tell_silent s (.resolved i w.ticket o)).lapses.trans
          (resolve_lapses _ i o)).silent
          (update_silent _ i (f := fun w => { w with lingers := w.linked }) fun _ => rfl)
        dsimp only
        split
        · exact resolved.trans (grantRun_lapses _)
        · exact resolved
    · exact .refl

theorem Rests.dispose_lapses (h : s.Rests d L) : s.Lapses s.dispose := by
  unfold dispose
  split
  · exact .refl
  · have closing : ({ s with sync := { s.sync with phase := .disposing } } : Section P).Shows
        { d with phase := .disposing } L :=
      ⟨h.sound, h.line, h.roll.congr rfl rfl rfl, h.holding, rfl, h.arrivals, h.awaitingEnd, h.wakes,
        h.granted⟩
    obtain ⟨shown, -⟩ := resolveAll_shows closing .disposed
    have begun : s.Silent { s with sync := { s.sync with phase := .disposing } } :=
      ⟨⟨rfl, rfl⟩, rfl, rfl, fun _ => rfl⟩
    have swept := begun.lapses.trans (sweep_lapses _ .disposed s.sync.line.length 0)
    exact (swept.silent (tell_silent _ _)).silent (endDisposal_silent (s := tell _ _) shown.sound)

theorem pollDispose_silent (s : Section P) (waker : Waker) : s.Silent (s.pollDispose waker).1 := by
  unfold pollDispose
  split
  · exact ⟨.refl s, rfl, rfl, fun _ => rfl⟩
  · split <;> exact ⟨⟨rfl, rfl⟩, rfl, rfl, fun _ => rfl⟩

/-! ## Joining the line -/

/-- Somebody has joined the line in slot `i` and has `a` out. -/
structure Enrols (s t : Section P) (q : Asking) (i : Nat) (a : Arms) : Prop where
  id : t.sync.id = s.sync.id
  arrivals : t.sync.arrivals = s.sync.arrivals + 1
  ticket : a.ticket = s.sync.arrivals
  free : s.sync.line.arms? i = none
  timers : arm s.timers q.timeout (.trigger s.sync.id i) = (t.timers, a.deadline, a.timer)
  tokens : subscribe? s.tokens q.token (.trigger s.sync.id i) = some (t.tokens, a.registration)
  arms : ∀ j, t.sync.line.arms? j = if j = i then some a else s.sync.line.arms? j

/-- Nobody comes to have anything out but an acquisition that asks. -/
def Works (s t : Section P) (ask : Option Asking) : Prop :=
  s.Lapses t ∨
    ∃ q ∈ ask, ∃ u v i a, s.Lapses u ∧ u.Enrols v q i a ∧ v.Lapses t

theorem Works.keeps {I : Section P → Prop} {ask : Option Asking} (h : s.Works t ask) (hs : I s)
    (silent : ∀ t u, Silent t u → I t → I u) (lapse : ∀ t u i a, Lapse t u i a → I t → I u)
    (enrol : ∀ q ∈ ask, ∀ t u i a, t.Enrols u q i a → I t → I u) : I t := by
  rcases h with lapses | ⟨q, hq, u, v, i, a, before, enrols, after⟩
  · exact lapses.keeps hs silent lapse
  · exact after.keeps (enrol q hq u v i a enrols (before.keeps hs silent lapse)) silent lapse

theorem Lapses.works (h : s.Lapses t) (ask : Option Asking) : s.Works t ask := .inl h

theorem Works.lapses {ask : Option Asking} (h : s.Works t ask) (h' : t.Lapses u) : s.Works u ask := by
  rcases h with lapses | ⟨q, hq, v, v', i, a, before, enrols, after⟩
  · exact .inl (lapses.trans h')
  · exact .inr ⟨q, hq, v, v', i, a, before, enrols, after.trans h'⟩

theorem enqueue_enrols (sound : s.sync.line.pool.Sound) (request : P.Request) (timeout : Timeout)
    {token : Option Nat} (taken : token.any s.tokens.refuses = false) :
    ∃ i a, s.Enrols (s.enqueue request timeout token).1 ⟨timeout, token⟩ i a := by
  have rents := Pool.rent_rents sound
  unfold enqueue
  rcases hr : s.sync.line.pool.rent with ⟨pool, id⟩
  rw [hr] at rents
  obtain ⟨tokens, r, hsub, -⟩ := subscribe?_eq_some taken (.trigger s.sync.id id.slot)
  dsimp only
  rw [hsub]
  rcases ha : arm s.timers timeout (.trigger s.sync.id id.slot) with ⟨timers, deadline, timer⟩
  refine ⟨id.slot, ⟨s.sync.arrivals, deadline, timer, r⟩, rfl, rfl, rfl, ?_, ha, hsub, fun j => ?_⟩
  · show (s.sync.line.waiter? id.slot).bind _ = none
    rw [show s.sync.line.waiter? id.slot = none from rents.free, Option.bind_none]
  · show (Line.enqueue _ _).arms? j = _
    rw [(Line.enqueue_turns _ _).arms? (fun _ => rfl), Line.arms?, Line.waiter?_update,
      show Line.waiter? { s.sync.line with pool } j = _ from rents.rented? j]
    split <;> rfl

theorem evict_lapses (s : Section P) (steal : Option Reason) :
    s.Lapses (steal.elim s s.evictLine).exposeHead := by
  have evicted : s.Lapses (steal.elim s s.evictLine) := by
    rcases steal with _ | r
    · exact .refl
    · exact (s.sweep_lapses (.interrupted r) _ 0).silent (tell_silent _ _)
  exact evicted.trans (exposeAtMost_lapses _ _)

theorem Rests.acquire_works (h : s.Rests d L) (request : P.Request) (timeout : Timeout)
    (token : Option Nat) (steal : Option Reason) :
    s.Works (s.acquire request timeout token steal).1 (some ⟨timeout, token⟩) := by
  unfold acquire
  split
  · exact .inl .refl
  rename_i hp
  have active : d.phase = .active := h.phase.trans (not_not.mp hp)
  have exposed := s.evict_lapses steal
  obtain ⟨L', rests, -⟩ := evict_rests h active steal
  dsimp only
  split
  · exact .inl ((exposed.silent (setHolding_silent _ _)).silent (tell_silent _ _))
  · split
    · exact .inl exposed
    · split
      · exact .inl exposed
      · rename_i taken
        obtain ⟨i, a, enrols⟩ :=
          enqueue_enrols rests.sound request timeout (Bool.eq_false_iff.mpr taken)
        exact .inr ⟨_, rfl, _, _, i, a, exposed, enrols, .refl⟩

theorem Rests.lock_works (h : s.Rests d L) (request : P.Request) (waker : Waker) :
    let begun := s.acquire request .forever none none
    s.Works (begun.1.pollStage begun.2 waker).1 (some ⟨.forever, none⟩) := by
  obtain ⟨L', rests, -⟩ := acquire_rests h request .forever none none
  exact (h.acquire_works request .forever none none).lapses (rests.pollStage_lapses _ waker)

/-! ## At rest -/

/-- Nobody is armed but whoever is pending. -/
theorem Shows.pending_of_arms (h : s.Shows d L) {i : Nat} {a : Arms}
    (ha : s.sync.line.arms? i = some a) :
    ∃ w, s.waiter? i = some w ∧ w.outcome = none ∧
      a = ⟨w.ticket, w.deadline, w.timer, w.registration⟩ := by
  obtain ⟨w, hw, ha⟩ := Option.bind_eq_some_iff.mp ha
  refine ⟨w, hw, ?_, Waiter.arms?_eq_some ha⟩
  by_contra resolved
  obtain ⟨timer, registration, -⟩ := (h.roll.regular _ _ (bare?_of_waiter? hw)).quiet resolved
  rw [Waiter.arms?_of_quiet resolved timer registration] at ha
  cases ha

end Section

end Turnstile
