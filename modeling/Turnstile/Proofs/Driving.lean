import Turnstile.Proofs.Driver
import Turnstile.Proofs.Watch

/-!
# Scripts drive the timers

The timers of a machine are those of a driver, whatever its script does: waiters that arm themselves
register, those that are resolved cancel, and each call that processes the timers stands on the
agenda with those that it still has to wake.
-/

namespace Turnstile

variable {P : Policy}

/-! ## Between two calls -/

namespace Timers

/-- What registering, cancelling, clearing and moving the clock make of the timers. -/
inductive Worked (t : Timers) : Timers → Prop
  | refl : Worked t t
  | register {u : Timers} (h : Worked t u) (d : Time) (w : Waker) : Worked t (u.register d w).1
  | cancel {u : Timers} (h : Worked t u) (k : TimerKey) : Worked t (u.cancel k)
  | clear {u : Timers} (h : Worked t u) : Worked t u.clear
  | clock {u : Timers} (h : Worked t u) (now : Time) : Worked t { u with now }

variable {t u v : Timers}

theorem Worked.trans (h : t.Worked u) (h' : u.Worked v) : t.Worked v := by
  induction h' with
  | refl => exact h
  | register _ d w ih => exact ih.register d w
  | cancel _ k ih => exact ih.cancel k
  | clear _ ih => exact ih.clear
  | clock _ now ih => exact ih.clock now

theorem Worked.of_eq (h : u = t) : t.Worked u := h ▸ .refl

end Timers

/-- The act begins no call and goes on with none. -/
def Act.isPlain : Act → Bool
  | .process | .proceed => false
  | _ => true

theorem Driver.of_worked {d : Driver} {t : Timers} (h : d.timers.Worked t) :
    ∃ xs, (∀ x ∈ xs, x.isPlain = true) ∧ (d.run xs).timers = t ∧ (d.run xs).rounds = d.rounds := by
  have another {u : Timers} {xs : List Act} (x : Act) (plain : x.isPlain = true)
      (before : ∀ y ∈ xs, y.isPlain = true) (rounds : (d.run xs).rounds = d.rounds)
      (same : ((d.run xs).act x).timers = u)
      (stay : ((d.run xs).act x).rounds = (d.run xs).rounds) :
      ∃ ys, (∀ y ∈ ys, y.isPlain = true) ∧ (d.run ys).timers = u ∧
        (d.run ys).rounds = d.rounds := by
    refine ⟨xs ++ [x], ?_, ?_, ?_⟩
    · intro y hy
      rcases List.mem_append.mp hy with hy | hy
      · exact before y hy
      · rwa [List.mem_singleton.mp hy]
    · rw [run_append]
      exact same
    · rw [run_append]
      exact stay.trans rounds
  induction h with
  | refl => exact ⟨[], by simp, rfl, rfl⟩
  | register _ dl w ih =>
    obtain ⟨xs, plain, rfl, rounds⟩ := ih
    exact another (.register dl w) rfl plain rounds rfl rfl
  | cancel _ k ih =>
    obtain ⟨xs, plain, rfl, rounds⟩ := ih
    exact another (.cancel k) rfl plain rounds rfl rfl
  | clear _ ih =>
    obtain ⟨xs, plain, rfl, rounds⟩ := ih
    exact another .clear rfl plain rounds rfl rfl
  | clock _ now ih =>
    obtain ⟨xs, plain, rfl, rounds⟩ := ih
    exact another (.clock now) rfl plain rounds rfl rfl

namespace Section

variable {s t : Section P}

theorem Works.worked {ask : Option Asking} (h : s.Works t ask) : s.timers.Worked t.timers := by
  refine h.keeps (I := fun u => s.timers.Worked u.timers) .refl (fun u v q hu => ?_)
    (fun u v i a q hu => ?_) fun q _ u v i a enrols hu => ?_
  · rwa [q.timers]
  · rw [q.timers]
    rcases a.timer with _ | k
    · exact hu
    · exact hu.cancel k
  · have armed := congrArg Prod.fst enrols.timers
    rcases ht : q.timeout with _ | d <;> rw [ht] at armed
    · exact hu.trans (.of_eq armed.symm)
    · exact (hu.register (u.timers.now.add d) _).trans (.of_eq armed.symm)

end Section

namespace World

variable {w w' : World P} {items : List (Item P)} {ask : Option (Nat × Asking)}

theorem Steps.worked (h : w.Steps ask w') : w.timers.Worked w'.timers := by
  obtain ⟨i, _ | ⟨hi, works⟩⟩ := h
  · exact .refl
  · exact works.worked

theorem Plays.worked_visit {α : Type} (h : w.Plays items) (i : Nat) (otherwise : α)
    (f : Section P → Section P × α) (lapses : ∀ s d L, Section.Rests s d L → s.Lapses (f s).1) :
    w.timers.Worked (w.visit i otherwise f).world.timers := by
  have steps : w.Steps none (w.visit i otherwise f).world := h.visit_lapses i otherwise f lapses
  exact steps.worked

theorem worked_lookup {α : Type} {names : Names α} {name : String} {f : α → Turn P}
    (found : ∀ a, w.timers.Worked (f a).world.timers) :
    w.timers.Worked (w.lookup names name f).world.timers := by
  unfold lookup
  split
  · exact .refl
  · exact found _

theorem Plays.worked_poll (h : w.Plays items) (slot : String) (waker : Waker) :
    w.timers.Worked (w.poll slot waker).world.timers := by
  refine worked_lookup fun item => ?_
  split
  · exact .refl
  · rename_i v hv
    have erased : ({ w with slots := w.slots.erase slot } : World P).Plays items :=
      h.mono rfl fun _ => .refl _
    exact (erased.pollItem_steps hv).worked

theorem Plays.worked_discard (h : w.Plays items) (item : Item P) :
    w.timers.Worked (w.discard item).world.timers := by
  rcases h.discard_steps item none with ⟨r, rfl⟩ | steps
  · exact .refl
  · exact steps.worked

theorem Plays.worked_acquire (h : w.Plays items) (o : Object) (name : String) (a : Acquiring P) :
    w.timers.Worked (w.acquire o name a).world.timers := by
  have begun (token : Option Nat) (timeout : Timeout) (tokens : Tokens) : w.timers.Worked
      (World.startAcquisition { w with tokens } o name a timeout token).world.timers := by
    unfold World.startAcquisition
    dsimp only
    split
    · exact .refl
    · have steps := Plays.visit_asks (w := { w with tokens }) (h.mono rfl fun _ => .refl _) o.sync
        .done (fun s => s.acquire a.request timeout token a.steal)
        fun _ _ _ rests => rests.acquire_works a.request timeout token a.steal
      exact steps.worked
  unfold World.acquire
  dsimp only
  split
  · split
    · exact .refl
    · exact begun _ _ _
  · refine worked_lookup fun t => ?_
    split
    · exact .refl
    · exact begun _ _ _

theorem worked_moveClock (t : Time) : w.timers.Worked (w.moveClock t).world.timers := by
  unfold moveClock setClock
  split
  · exact .refl
  · exact Timers.Worked.refl.clock t

theorem Plays.worked_start (h : w.Plays items) (step : Step P) (hs : step ≠ .process) :
    w.timers.Worked (w.start step).world.timers := by
  cases step with
  | process => exact absurd rfl hs
  | create name raw holding settings =>
    show w.timers.Worked (w.create name raw holding settings).world.timers
    unfold World.create
    split
    · exact .refl
    · split <;> exact .refl
  | tryAcquire object request =>
    refine worked_lookup fun o => ?_
    unfold World.tryAcquire
    split
    · exact .refl
    · exact (h.visit_asks _ _ _ fun _ _ _ rests =>
        rests.acquire_works request .zero none none).worked
  | acquire object name a => exact worked_lookup fun o => h.worked_acquire o name a
  | release object request =>
    refine worked_lookup fun o => ?_
    unfold World.release
    split
    · exact .refl
    · exact h.worked_visit _ _ _ fun _ _ _ rests => rests.releaseBy_lapses _
  | dispose object name =>
    exact worked_lookup fun o => h.worked_visit _ _ _ fun _ _ _ rests => rests.dispose_lapses
  | poll slot waker onWake =>
    have plays : (w.setOnWake waker onWake).Plays items :=
      h.mono (setOnWake_fields w waker onWake).1 fun _ => .refl _
    have polled := plays.worked_poll slot (.task waker)
    rwa [(w.setOnWake_still waker onWake).1] at polled
  | drop slot =>
    refine worked_lookup fun item => ?_
    have erased : ({ w with slots := w.slots.erase slot } : World P).Plays items :=
      h.mono rfl fun _ => .refl _
    exact erased.worked_discard item
  | createToken name => exact .of_eq (w.nameToken_still _ _ name).2.1
  | child token name =>
    refine worked_lookup fun t => ?_
    unfold World.child
    dsimp only
    split <;> exact .of_eq (w.nameToken_still _ _ name).2.1
  | cloneToken token name =>
    exact worked_lookup fun t => .of_eq (w.nameToken_still _ _ name).2.1
  | dropToken token => exact worked_lookup fun t => .of_eq (w.forgetToken_still token).2.1
  | cancel token =>
    refine worked_lookup fun t => ?_
    unfold World.cancel
    split <;> exact .refl
  | register token name waker onWake =>
    refine worked_lookup fun t => ?_
    unfold World.register
    split <;> exact .of_eq (w.setOnWake_still waker onWake).1
  | advance | advanceTo | setClock => exact worked_moveClock _
  | createTimer name moment waker onWake =>
    show w.timers.Worked ((w.setOnWake waker onWake).createTimer name moment waker).world.timers
    have same := (w.setOnWake_still waker onWake).1
    cases moment <;>
      exact (Timers.Worked.of_eq same).trans (Timers.Worked.refl.register _ (.task waker))
  | cancelTimer timer => exact worked_lookup fun k => Timers.Worked.refl.cancel k
  | clearTimers => exact Timers.Worked.refl.clear
  | sameTimer a b => exact worked_lookup fun _ => worked_lookup fun _ => .refl
  | clone | dropObject | lock | holding | describe | isWaiting | guarded | isRegistrationCancelled
  | describeSlot | describeToken =>
    exact worked_lookup fun _ => .refl
  | now | describeClock | nextDeadline | timers | describeTimers | wait | waitWaker => exact .refl

end World

/-! ## Answers -/

def Answer.isCount : Answer P → Bool
  | .count _ => true
  | _ => false

theorem Turn.counts_eq (t : Turn P) : t.counts = t.answer.isCount := rfl

namespace World

theorem isCount_outcomeAnswer (lenient : Bool) (r : Except Refusal Unit) :
    (outcomeAnswer lenient r : Answer P).isCount = false := by
  rcases r with r | _
  · cases r <;> cases lenient <;> rfl
  · cases lenient <;> rfl

theorem isCount_pollItem {w : World P} {waker : Waker} {item : Item P}
    {v : Visit P (Item P × Answer P)} (hv : w.pollItem? waker item = some v) :
    v.value.2.isCount = false := by
  cases item with
  | acquisition sync request lenient stage =>
    have polled (p : Polled) :
        (p.2.elim .pending (outcomeAnswer lenient) : Answer P).isCount = false := by
      rcases p with ⟨stage, _ | r⟩
      · rfl
      · exact isCount_outcomeAnswer lenient r
    rcases stage with r | id | _ <;> obtain rfl := Option.some.inj hv
    · exact polled _
    · exact polled _
    · rfl
  | locking sync request stage =>
    have locked (p : Polled) : (Item.locked sync request p).2.isCount = false := by
      rcases p with ⟨stage, _ | _ | _⟩ <;> rfl
    rcases stage with _ | r | id | _ <;> obtain rfl := Option.some.inj hv
    · exact locked _
    · exact locked _
    · exact locked _
    · rfl
  | disposal sync =>
    obtain rfl := Option.some.inj hv
    show Answer.isCount (if _ then .disposed else .pending) = false
    split <;> rfl
  | guard | registration => cases hv

theorem counts_lookup {α : Type} {w : World P} {names : Names α} {name : String} {f : α → Turn P}
    (found : ∀ a, (f a).counts = false) : (w.lookup names name f).counts = false := by
  unfold lookup
  split
  · rfl
  · exact found _

theorem counts_poll (w : World P) (slot : String) (waker : Waker) :
    (w.poll slot waker).counts = false := by
  refine counts_lookup fun item => ?_
  split
  · rfl
  · exact isCount_pollItem ‹_›

theorem counts_startAcquisition (w : World P) (o : Object) (name : String) (a : Acquiring P)
    (timeout : Timeout) (token : Option Nat) :
    (w.startAcquisition o name a timeout token).counts = false := by
  unfold World.startAcquisition
  dsimp only
  split <;> rfl

theorem counts_acquire (w : World P) (o : Object) (name : String) (a : Acquiring P) :
    (w.acquire o name a).counts = false := by
  unfold World.acquire
  dsimp only
  split
  · split
    · rfl
    · exact counts_startAcquisition ..
  · refine counts_lookup fun t => ?_
    split
    · rfl
    · exact counts_startAcquisition ..

theorem counts_start (w : World P) (step : Step P) (hs : step ≠ .process) :
    (w.start step).counts = false := by
  cases step with
  | process => exact absurd rfl hs
  | create name raw holding settings =>
    show (w.create name raw holding settings).counts = false
    unfold World.create
    split
    · rfl
    · split <;> rfl
  | tryAcquire object request =>
    refine counts_lookup fun o => ?_
    unfold World.tryAcquire
    split
    · rfl
    · rw [Turn.counts_eq]
      dsimp only [ofVisit]
      split <;> rfl
  | acquire object name a => exact counts_lookup fun o => counts_acquire w o name a
  | release object request =>
    refine counts_lookup fun o => ?_
    unfold World.release
    split
    · rfl
    · rw [Turn.counts_eq]
      dsimp only [ofVisit]
      split <;> rfl
  | poll slot waker onWake => exact counts_poll _ slot (.task waker)
  | cancel token =>
    refine counts_lookup fun t => ?_
    unfold World.cancel
    split <;> rfl
  | child token name =>
    refine counts_lookup fun t => ?_
    unfold World.child
    dsimp only
    split <;> rfl
  | register token name waker onWake =>
    refine counts_lookup fun t => ?_
    unfold World.register
    split <;> rfl
  | createTimer name moment waker onWake =>
    show ((w.setOnWake waker onWake).createTimer name moment waker).counts = false
    unfold World.createTimer
    rw [Turn.counts_eq]
    show Answer.isCount (if _ then _ else _) = false
    split <;> rfl
  | isWaiting slot | isRegistrationCancelled slot =>
    refine counts_lookup fun item => ?_
    rw [Turn.counts_eq]
    dsimp only [reply]
    split <;> rfl
  | guarded slot =>
    refine counts_lookup fun item => ?_
    rw [Turn.counts_eq]
    dsimp only [reply]
    split
    · split <;> rfl
    · rfl
  | describeSlot slot =>
    refine counts_lookup fun item => ?_
    rw [Turn.counts_eq]
    dsimp only [reply]
    rcases item.detail? w.syncs w.tokens with _ | text <;> rfl
  | holding object =>
    refine counts_lookup fun o => ?_
    rw [Turn.counts_eq]
    dsimp only [reply]
    rcases w.sync? o with _ | s <;> rfl
  | describe object =>
    refine counts_lookup fun o => ?_
    rw [Turn.counts_eq]
    dsimp only [World.describe, reply]
    split <;> rfl
  | sameTimer a b => exact counts_lookup fun _ => counts_lookup fun _ => rfl
  | clone | dropObject | lock | dispose | drop | cloneToken | dropToken | describeToken
  | cancelTimer =>
    exact counts_lookup fun _ => rfl
  | createToken | advance | advanceTo | setClock | now | describeClock | nextDeadline | timers
  | clearTimers | describeTimers | wait | waitWaker => rfl

end World

/-! ## Calls on an agenda -/

/-- A call on an agenda: those that it still has to wake, and its answer. The clock itself wants
none. -/
structure Standing where
  left : List Waker
  answer : Option Nat
  deriving DecidableEq

def Round.Stands (r : Round) (c : Standing) : Prop :=
  c.left = r.left.map Prod.snd ∧ ∀ n ∈ c.answer, n = r.count

namespace Frame

def isCount : Frame P → Bool
  | .finish _ answer => answer.isCount
  | _ => false

def isAwait : Frame P → Bool
  | .await .. | .awaitWaker .. => true
  | _ => false

/-- A call's wakes stand right before this. -/
def isNext (aside : Bool) : Frame P → Bool := if aside then isAwait else isCount

/-- The calls that stand on an agenda, the innermost first. Those that a call still has to wake come
right before its answer, or before the look of whoever lets the clock run. -/
def calls : List (Frame P) → List Standing
  | [] => []
  | .finish _ (.count n) :: fs => ⟨[], some n⟩ :: calls fs
  | .wake true ws :: fs => if fs.head?.any isAwait then ⟨ws, none⟩ :: calls fs else calls fs
  | .wake false ws :: fs =>
    if fs.head?.any isCount then (calls fs).modifyHead fun c => { c with left := ws } else calls fs
  | _ :: fs => calls fs

/-- Nothing goes into a slot right before a call is answered. -/
def Tidy : List (Frame P) → Prop
  | [] => True
  | .put _ _ :: fs => fs.head?.any isCount = false ∧ Tidy fs
  | _ :: fs => Tidy fs

variable {f : Frame P} {fs : List (Frame P)} {ws : List Waker}

theorem calls_finish {top : Bool} {answer : Answer P} (other : answer.isCount = false) :
    calls (.finish top answer :: fs) = calls fs := by
  cases answer with
  | count n => cases other
  | _ => rfl

theorem calls_wake {aside : Bool} (next : fs.head?.any (isNext aside) = false) :
    calls (.wake aside ws :: fs) = calls fs := by
  cases aside <;> exact if_neg (by simpa [isNext] using next)

theorem calls_next {aside : Bool} (next : fs.head?.any (isNext aside) = true) :
    ∃ answer cs, (∀ ws, calls (.wake aside ws :: fs) = ⟨ws, answer⟩ :: cs) ∧
      calls fs = if aside then cs else ⟨[], answer⟩ :: cs := by
  cases aside with
  | true => exact ⟨none, calls fs, fun ws => if_pos next, rfl⟩
  | false =>
    obtain ⟨f, fs, rfl⟩ : ∃ f gs, fs = f :: gs := by
      cases fs with
      | nil => cases next
      | cons f gs => exact ⟨f, gs, rfl⟩
    obtain ⟨top, n, rfl⟩ : ∃ top n, f = .finish top (.count n) := by
      cases f with
      | finish top answer =>
        cases answer with
        | count n => exact ⟨top, n, rfl⟩
        | _ => cases next
      | _ => cases next
    exact ⟨some n, calls fs, fun ws => rfl, rfl⟩

theorem calls_turn (top : Bool) (t : Turn P) (other : t.answer.isCount = false) (fs : List (Frame P)) :
    let after : List (Frame P) :=
      t.firing.toList.map .children ++ t.put.toList.map (fun p => .put p.1 p.2)
        ++ t.held.toList.map .letGo ++ [.finish top t.answer]
    calls (.wake false t.wakes :: (after ++ fs)) = calls fs ∧
      (Tidy fs → Tidy (.wake false t.wakes :: (after ++ fs))) := by
  obtain ⟨_, answer, wakes, _, _ | c, _ | p, _ | h⟩ := t <;>
    simp [calls, Tidy, isCount, other, calls_finish other]

end Frame

/-! ## Machines -/

namespace Machine

/-- The timers of the machine are those of the driver, and so are its calls. -/
structure Drives (m : Machine P) (d : Driver) : Prop where
  timers : d.timers = m.world.timers
  rounds : d.rounds.Forall₂ Round.Stands (Frame.calls m.agenda)
  tidy : Frame.Tidy m.agenda

/-- The next step goes on with the innermost call: this wakes somebody or returns. -/
def proceeds (m : Machine P) : Bool :=
  match m.agenda with
  | .wake true _ :: fs => fs.head?.any Frame.isAwait
  | .wake false ws :: fs => !ws.isEmpty && fs.head?.any Frame.isCount
  | f :: _ => f.isCount
  | [] => false

/-- What the next step does with the timers. -/
inductive Acts (m : Machine P) : List Act → Prop
  | plain {xs : List Act} (next : m.next? ≠ some .process) (stays : m.proceeds = false)
      (plain : ∀ x ∈ xs, x.isPlain = true) : Acts m xs
  | process (next : m.next? = some .process) : Acts m [.process]
  | proceed {xs : List Act} (proceeds : m.proceeds = true) (plain : ∀ x ∈ xs, x.isPlain = true) :
    Acts m (.proceed :: xs)
  /-- The clock runs to the next deadline and processes the timers itself. -/
  | elapse {xs : List Act} {now : Time} (waits : m.agenda.head?.any Frame.isAwait = true)
      (plain : ∀ x ∈ xs, x.isPlain = true) : Acts m (xs ++ [.clock now, .process])

/-- Plain acts bring the driver to where the machine is. -/
def Follows (m : Machine P) (d : Driver) : Prop :=
  ∃ xs, (∀ x ∈ xs, x.isPlain = true) ∧ m.Drives (d.run xs)

variable {m m' : Machine P} {d : Driver} {items : List (Item P)}

theorem Drives.follows (h : m.Drives d) : m.Follows d := ⟨[], by simp, h⟩

theorem Drives.change (h : m.Drives d) (timers : m.world.timers.Worked m'.world.timers)
    (calls : Frame.calls m'.agenda = Frame.calls m.agenda)
    (tidy : Frame.Tidy m.agenda → Frame.Tidy m'.agenda) : m'.Follows d := by
  rw [← h.timers] at timers
  obtain ⟨xs, plain, same, rounds⟩ := Driver.of_worked timers
  exact ⟨xs, plain, same, by rw [rounds, calls]; exact h.rounds, tidy h.tidy⟩

theorem Follows.trans {xs : List Act} (plain : ∀ x ∈ xs, x.isPlain = true)
    (h : m.Follows (d.run xs)) : m.Follows d := by
  obtain ⟨ys, plain', drives⟩ := h
  refine ⟨xs ++ ys, fun x hx => ?_, by rwa [Driver.run_append]⟩
  exact (List.mem_append.mp hx).elim (plain x) (plain' x)

theorem Drives.deliver (h : m.Drives d) (top : Bool) (answer : Answer P) :
    (m.deliver top answer).Follows d := by
  unfold Machine.deliver
  split <;> exact h.change .refl rfl id

theorem Drives.take (h : m.Drives d) {t : Turn P} (timers : m.world.timers.Worked t.world.timers)
    (other : t.counts = false) (top : Bool) : (m.take top t).Follows d := by
  obtain ⟨calls, tidy⟩ := Frame.calls_turn top t other m.agenda
  exact h.change timers calls tidy

theorem Drives.begin (h : m.Drives d) (plays : m.world.Plays items) (top : Bool) (s : Step P)
    (hs : s ≠ .process) : (m.begin top s).Follows d := by
  cases s with
  | wait slot => exact h.change .refl rfl id
  | waitWaker waker => exact h.change .refl rfl id
  | _ => exact h.take (plays.worked_start _ hs) (m.world.counts_start _ hs) top

theorem Drives.process (h : m.Drives d) (top : Bool) :
    (m.begin top .process).Drives (d.act .process) := by
  refine ⟨?_, ?_, h.tidy⟩
  · show d.timers.takeDue.1 = m.world.timers.takeDue.1
    rw [h.timers]
  · refine .cons ⟨?_, ?_⟩ h.rounds
    · show m.world.timers.takeDue.2.map Prod.snd = d.timers.takeDue.2.map Prod.snd
      rw [h.timers]
    · rintro n ⟨⟩
      show m.world.timers.takeDue.2.length = d.timers.takeDue.2.length
      rw [h.timers]

theorem Drives.elapse (h : m.Drives d) (top : Bool) {f : Frame P} (await : f.isAwait = true) :
    (m.elapse top f).Follows d ∨
      ∃ now, (m.elapse top f).Drives (d.run [.clock now, .process]) := by
  unfold Machine.elapse
  split
  · exact .inl (h.deliver top .pending)
  rename_i v hv
  obtain ⟨t, -, rfl⟩ := Option.map_eq_some_iff.mp hv
  let now := m.world.timers.now.advanceTo t
  have calls : Frame.calls (.wake true (({ m.world.timers with now } : Timers).takeDue.2.map
      Prod.snd) :: f :: m.agenda) =
      ⟨({ m.world.timers with now } : Timers).takeDue.2.map Prod.snd, none⟩ ::
        Frame.calls m.agenda := by
    cases f with
    | await | awaitWaker => rfl
    | _ => cases await
  refine .inr ⟨now, ?_, ?_, ?_⟩
  · show ({ d.timers with now } : Timers).takeDue.1 = { m.world.timers with now }.takeDue.1
    rw [h.timers]
  · show List.Forall₂ Round.Stands ((d.act (.clock now)).begins :: d.rounds) _
    refine calls ▸ .cons ⟨?_, by simp⟩ h.rounds
    show _ = ({ d.timers with now } : Timers).takeDue.2.map Prod.snd
    rw [h.timers]
  · show Frame.Tidy (f :: m.agenda)
    cases f with
    | await | awaitWaker => exact h.tidy
    | _ => cases await

theorem Drives.wake (h : m.Drives d) (plays : m.world.Plays items) (aside : Bool) (w : Waker)
    {ws : List Waker} {fs : List (Frame P)} (agenda : m.agenda = .wake aside ws :: fs) :
    (m.wake aside w).Follows d := by
  cases w with
  | task name =>
    unfold Machine.wake
    dsimp only
    split
    · exact h.change .refl rfl id
    · exact h.change .refl rfl id
  | sleeper => exact h.change .refl rfl id
  | trigger i j =>
    have apart : m.agenda.head?.any (Frame.isNext aside) = false := by
      rw [agenda]
      cases aside <;> rfl
    have worked := plays.worked_visit i () (fun s => (s.trigger j, ())) fun s _ _ _ => s.trigger_lapses j
    exact h.change worked
      (Frame.calls_wake apart) id

theorem Drives.put (h : m.Drives d) (plays : m.world.Plays items) (slot : String) (item : Item P)
    (tidy : m.agenda.head?.any Frame.isCount = false) : (m.put slot item).Follows d := by
  unfold Machine.put
  dsimp only
  split
  · exact h.change .refl rfl id
  · rename_i old _
    have filled : ({ m.world with slots := m.world.slots.insert slot item } : World P).Plays
        items :=
      plays.mono rfl fun _ => .refl _
    exact h.change (filled.worked_discard old) (Frame.calls_wake tidy) id

theorem Drives.await (h : m.Drives d) (plays : m.world.Plays items) (top : Bool) (slot : String) :
    (m.await top slot).Follows d ∨ ∃ xs now, (∀ x ∈ xs, x.isPlain = true) ∧
      (m.await top slot).Drives (d.run (xs ++ [.clock now, .process])) := by
  have polled := plays.worked_poll slot .sleeper
  unfold Machine.await
  dsimp only
  split
  · rename_i name item _ _
    let w := (m.world.poll slot .sleeper).world
    obtain ⟨xs, plain, drives⟩ :
        Follows { m with world := { w with slots := w.slots.insert name item } } d :=
      h.change polled rfl id
    rcases drives.elapse top (f := .await top slot) rfl with follows | ⟨now, drives⟩
    · exact .inl (follows.trans plain)
    · exact .inr ⟨xs, now, plain, by rwa [Driver.run_append]⟩
  · exact .inl (h.take polled (m.world.counts_poll slot .sleeper) top)

section

variable {answer : Option Nat} {cs : List Standing}

theorem Drives.proceed {aside : Bool} {w : Waker} {ws : List Waker}
    (timers : d.timers = m.world.timers)
    (rounds : d.rounds.Forall₂ Round.Stands (⟨w :: ws, answer⟩ :: cs))
    (calls : Frame.calls (.wake aside ws :: m.agenda) = ⟨ws, answer⟩ :: cs)
    (tidy : Frame.Tidy m.agenda) (plays : m.world.Plays items) :
    ((m.push [.wake aside ws]).wake aside w).Follows (d.act .proceed) := by
  obtain ⟨⟨number, left, count⟩, rs, ⟨same, answered⟩, rest, hr⟩ := List.forall₂_cons_right_iff.mp rounds
  obtain ⟨e, es, rfl, rfl, rfl⟩ := List.map_eq_cons_iff.mp same.symm
  have next : d.act .proceed =
      { d with rounds := ⟨number, es, count⟩ :: rs }.note (.woke number e) := by
    show d.proceed = _
    rw [Driver.proceed, hr]
  have went : (m.push [.wake aside (es.map Prod.snd)]).Drives (d.act .proceed) := by
    rw [next]
    exact ⟨timers, calls ▸ .cons ⟨rfl, answered⟩ rest, tidy⟩
  exact went.wake plays aside e.2 rfl

theorem Drives.returns (timers : d.timers = m.world.timers)
    (rounds : d.rounds.Forall₂ Round.Stands (⟨[], answer⟩ :: cs))
    (calls : Frame.calls m.agenda = cs) (tidy : Frame.Tidy m.agenda) :
    m.Drives (d.act .proceed) := by
  obtain ⟨⟨number, left, count⟩, rs, ⟨same, -⟩, rest, hr⟩ := List.forall₂_cons_right_iff.mp rounds
  obtain rfl := List.map_eq_nil_iff.mp same.symm
  have next : d.act .proceed = { d with rounds := rs }.note (.returned number count) := by
    show d.proceed = _
    rw [Driver.proceed, hr]
  rw [next]
  exact ⟨timers, calls ▸ rest, tidy⟩

end

theorem Follows.acts (h : m'.Follows d) (next : m.next? ≠ some .process)
    (stays : m.proceeds = false) : ∃ xs, m.Acts xs ∧ m'.Drives (d.run xs) := by
  obtain ⟨xs, plain, drives⟩ := h
  exact ⟨xs, .plain next stays plain, drives⟩

theorem Follows.proceeds (h : m'.Follows (d.act .proceed)) (proceeds : m.proceeds = true) :
    ∃ xs, m.Acts xs ∧ m'.Drives (d.run xs) := by
  obtain ⟨xs, plain, drives⟩ := h
  exact ⟨.proceed :: xs, .proceed proceeds plain, drives⟩

theorem Drives.rouse {aside : Bool} {ws : List Waker} {agenda : List (Frame P)}
    (h : m.Drives d) (hm : m.agenda = .wake aside ws :: agenda) (plays : m.world.Plays items) :
    ∃ xs, m.Acts xs ∧ ({ m with agenda }.perform (.wake aside ws)).Drives (d.run xs) := by
  have unplanned : m.next? ≠ some .process := by
    rw [next?, hm]
    nofun
  have tidy : Frame.Tidy agenda := by
    have tidy := h.tidy
    rwa [hm] at tidy
  have rounds := h.rounds
  rw [hm] at rounds
  by_cases next : agenda.head?.any (Frame.isNext aside) = true
  · obtain ⟨answer, cs, calls, rest⟩ := Frame.calls_next next
    rw [calls] at rounds
    rcases ws with _ | ⟨w, ws⟩
    · cases aside with
      | false =>
        refine Follows.acts (Drives.follows ⟨h.timers, ?_, tidy⟩) unplanned ?_
        · exact rest ▸ rounds
        · rw [Machine.proceeds, hm]
          rfl
      | true =>
        refine Follows.proceeds
          (Drives.returns (m := { m with agenda }) h.timers rounds rest tidy).follows ?_
        rw [Machine.proceeds, hm]
        exact next
    · refine Follows.proceeds (Drives.proceed (m := { m with agenda }) h.timers rounds (calls ws) tidy plays) ?_
      rw [Machine.proceeds, hm]
      cases aside <;> exact next
  · have next := Bool.eq_false_iff.mpr next
    have stays : m.proceeds = false := by
      rw [Machine.proceeds, hm]
      cases aside with
      | true => exact next
      | false =>
        show (!ws.isEmpty && agenda.head?.any Frame.isCount) = false
        rw [show agenda.head?.any Frame.isCount = false from next, Bool.and_false]
    have popped : ∀ ws, Drives { m with agenda := .wake aside ws :: agenda } d := by
      intro ws
      refine ⟨h.timers, ?_, tidy⟩
      rw [Frame.calls_wake next] at rounds
      exact (Frame.calls_wake next).symm ▸ rounds
    rcases ws with _ | ⟨w, ws⟩
    · refine Follows.acts ?_ unplanned stays
      exact (popped []).change .refl (Frame.calls_wake next).symm id
    · exact Follows.acts ((popped ws).wake plays aside w rfl) unplanned stays

theorem Drives.pop {f : Frame P} {agenda : List (Frame P)} (h : m.Drives d)
    (hm : m.agenda = f :: agenda) (calls : Frame.calls (f :: agenda) = Frame.calls agenda)
    (tidy : Frame.Tidy (f :: agenda) → Frame.Tidy agenda) : Drives { m with agenda } d := by
  have rounds := h.rounds
  have tidied := h.tidy
  rw [hm] at rounds tidied
  exact ⟨h.timers, calls ▸ rounds, tidy tidied⟩

theorem Drives.perform {f : Frame P} {agenda : List (Frame P)}
    (h : m.Drives d) (hm : m.agenda = f :: agenda) (plays : m.world.Plays items) :
    ∃ xs, m.Acts xs ∧ ({ m with agenda }.perform f).Drives (d.run xs) := by
  let rest : Machine P := { m with agenda }
  have acts {n : Machine P} (follows : n.Follows d) (begins : f.begins? = none)
      (stays : f.isCount = false) (silent : ∀ aside ws, f ≠ .wake aside ws) :
      ∃ xs, m.Acts xs ∧ n.Drives (d.run xs) := by
    refine follows.acts ?_ ?_
    · rw [next?, hm]
      simp [begins]
    · rw [Machine.proceeds, hm]
      cases f with
      | wake aside ws => exact absurd rfl (silent aside ws)
      | _ => exact stays
  cases f with
  | wake aside ws => exact h.rouse hm plays
  | children t =>
    exact acts ((h.pop hm rfl id).change .refl rfl id) rfl rfl nofun
  | cancel tokens =>
    have popped := h.pop hm rfl id
    rcases tokens with _ | ⟨t, ts⟩
    · exact acts popped.follows rfl rfl nofun
    · refine acts (n := (rest.push [.cancel ts]).cancelChild t) ?_ rfl rfl nofun
      unfold Machine.cancelChild
      split <;> exact popped.change .refl rfl id
  | run steps =>
    have popped := h.pop hm rfl id
    rcases steps with _ | ⟨s, ss⟩
    · exact acts popped.follows rfl rfl nofun
    · have planned : (rest.push [.run ss]).Drives d := ⟨popped.timers, popped.rounds, popped.tidy⟩
      by_cases hs : s = .process
      · subst hs
        refine ⟨_, .process (by rw [next?, hm]; rfl), planned.process false⟩
      · refine (planned.begin plays false s hs).acts ?_ ?_
        · rw [next?, hm]
          simpa [Frame.begins?] using hs
        · rw [Machine.proceeds, hm]
          rfl
  | put slot item =>
    have tidy := h.tidy
    rw [hm] at tidy
    exact acts ((h.pop hm rfl And.right).put plays slot item tidy.1) rfl rfl nofun
  | letGo t => exact acts ((h.pop hm rfl id).change .refl rfl id) rfl rfl nofun
  | finish top answer =>
    rcases hc : answer.isCount with _ | _
    · exact acts ((h.pop hm (Frame.calls_finish hc) id).deliver top answer) rfl hc nofun
    · obtain ⟨n, rfl⟩ : ∃ n, answer = .count n := by
        cases answer with
        | count n => exact ⟨n, rfl⟩
        | _ => cases hc
      have rounds := h.rounds
      have tidy := h.tidy
      rw [hm] at rounds tidy
      have returned : rest.Drives (d.act .proceed) := Drives.returns h.timers rounds rfl tidy
      refine (returned.deliver top (.count n)).proceeds ?_
      rw [Machine.proceeds, hm]
      rfl
  | await top slot =>
    have popped := h.pop hm rfl id
    rcases popped.await plays top slot with follows | ⟨xs, now, plain, drives⟩
    · exact acts follows rfl rfl nofun
    · exact ⟨_, .elapse (by rw [hm]; rfl) plain, drives⟩
  | awaitWaker top waker =>
    have popped := h.pop hm rfl id
    show ∃ xs, m.Acts xs ∧ Drives (if waker ∈ m.woken then _ else _) (d.run xs)
    split
    · exact acts (popped.deliver top .fired) rfl rfl nofun
    · rcases popped.elapse top (f := .awaitWaker top waker) rfl with follows | ⟨now, drives⟩
      · exact acts follows rfl rfl nofun
      · exact ⟨[] ++ _, .elapse (by rw [hm]; rfl) (by simp), drives⟩

theorem Drives.step (h : m.Drives d) (plays : m.Plays) :
    ∃ xs, m.Acts xs ∧ m.step.Drives (d.run xs) := by
  have plays : m.world.Plays m.items := plays
  unfold Machine.step
  split
  · exact h.perform ‹_› plays
  · rename_i idle
    have stays : m.proceeds = false := by
      rw [Machine.proceeds, idle]
    split
    · rename_i s script hs
      have planned : Drives { m with script } d := ⟨h.timers, h.rounds, h.tidy⟩
      have next : m.next? = some s := by
        rw [next?, idle, hs]
        rfl
      by_cases hs : s = .process
      · subst hs
        exact ⟨_, .process next, planned.process true⟩
      · refine (planned.begin plays true s hs).acts ?_ stays
        rw [next]
        simpa using hs
    · refine h.follows.acts ?_ stays
      rename_i hs
      rw [next?, idle, hs]
      nofun

/-- What the first `n` steps do with the timers. -/
inductive ActsIn (m₀ : Machine P) : Nat → List Act → Prop
  | zero : ActsIn m₀ 0 []
  | succ {n : Nat} {xs ys : List Act} (h : ActsIn m₀ n xs) (acts : (step^[n] m₀).Acts ys) :
    ActsIn m₀ (n + 1) (xs ++ ys)

/-- Whatever a script does, the timers of its machine are those of a driver that does the same, and
the calls that have not returned stand on the agenda with those that they still have to wake. -/
theorem Fresh.drives {m₀ : Machine P} (fresh : m₀.Fresh) (n : Nat) :
    ∃ xs, m₀.ActsIn n xs ∧
      (step^[n] m₀).Drives (Driver.run { timers := { now := m₀.world.timers.now } } xs) := by
  induction n with
  | zero =>
    obtain ⟨now, ownClock, running, script, rfl⟩ := fresh
    exact ⟨[], .zero, rfl, .nil, trivial⟩
  | succ n ih =>
    rw [Function.iterate_succ_apply']
    obtain ⟨xs, before, drives⟩ := ih
    obtain ⟨ys, acts, drives⟩ := drives.step (fresh.plays n)
    exact ⟨xs ++ ys, .succ before acts, by rwa [Driver.run_append]⟩

end Machine

namespace Driver

/-- Whatever anybody does with the timers and the clock, those who are woken included, each call
that processes the timers wakes exactly those that were due when it began. The calls of a script do
so. -/
theorem processes_due (now : Time) (xs ys : List Act) :
    let d : Driver := run { timers := { now } } xs
    d.Accounts ∧ d.Serves ((d.act .process).run ys) ∧
      ∀ m₀ : Machine P, m₀.Fresh → m₀.world.timers.now = now → ∀ n, ∃ zs, m₀.ActsIn n zs ∧
        (Machine.step^[n] m₀).Drives (run { timers := { now } } zs) := by
  intro d
  have sound := (start_sound now).run xs
  refine ⟨sound.accounts, sound.serves ((start_numbered now).run xs) ys, ?_⟩
  rintro m₀ fresh rfl n
  exact fresh.drives n

/-- Of two timers that are due, the first to fire cancels the second in vain and sets a third that is
overdue. -/
def vain : Machine Policy.standard :=
  .ofScript (.blank (Time.ofNanos 9) none false)
    [.createTimer "first" (.at (Time.ofNanos 5)) "a" (some
        [.cancelTimer "second", .createTimer "third" (.at (Time.ofNanos 1)) "c" none]),
      .createTimer "second" (.at (Time.ofNanos 5)) "b" none, .process]

theorem processes_due_vain :
    Frame.calls (Machine.step^[12] vain).agenda = [⟨[.task "b"], some 2⟩] ∧
      (Machine.step^[12] vain).world.timers.count = 1 ∧
      ∃ zs, vain.ActsIn 12 zs ∧
        (Machine.step^[12] vain).Drives (run { timers := { now := Time.ofNanos 9 } } zs) := by
  refine ⟨by decide +kernel, by decide +kernel, ?_⟩
  exact (processes_due (Time.ofNanos 9) [] []).2.2 vain ⟨_, _, _, _, rfl⟩ rfl 12

end Driver

end Turnstile
