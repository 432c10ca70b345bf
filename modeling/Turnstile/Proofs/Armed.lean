import Turnstile.Holding
import Turnstile.Proofs.Watch

/-!
# Armed while pending

Whoever waits with a deadline has one timer, whoever waits with a token has one subscription, and
nobody else is in either. Whatever is taken from the timers or the tokens on the way resolves the
waiter that it was taken for.
-/

namespace Turnstile

variable {P : Policy} {careful : Prop}

/-! ## One section -/

namespace World

variable {w w' : World P} {i : Nat} {s : Sync P}

theorem outside_known (hi : w.syncs[i]? = some s) {t u : Section P} (id : u.sync.id = t.sync.id)
    (known : ∀ (k : Nat) (v : Sync P), (w.outside i t).syncs[k]? = some v → v.id = k) (k : Nat)
    (v : Sync P) (hk : (w.outside i u).syncs[k]? = some v) : v.id = k := by
  have before := known k
  rw [outside_sync hi] at before hk
  split at hk
  · rename_i here
    rw [← Option.some.inj hk, id]
    exact before _ (if_pos here)
  · rename_i apart
    exact before v (by rw [if_neg apart]; exact hk)

theorem outside_silent (hi : w.syncs[i]? = some s) {t u : Section P} (q : t.Silent u) :
    (w.outside i u).arms? = (w.outside i t).arms? := by
  funext k j
  rw [outside_arms? hi, outside_arms? hi]
  split
  · exact q.arms j
  · rfl

theorem outside_lapse (hi : w.syncs[i]? = some s) {t u : Section P} {j : Nat} {a : Arms}
    (q : t.Lapse u j a) :
    (w.outside i t).arms? i j = some a ∧ Lapsed (w.outside i t).arms? (w.outside i u).arms? i j := by
  constructor
  · rw [outside_arms? hi, if_pos rfl, q.armed]
  · intro k l
    rw [outside_arms? hi, outside_arms? hi]
    by_cases hk : k = i
    · subst hk
      simp [q.arms]
    · simp [hk]

theorem outside_enrols (hi : w.syncs[i]? = some s) {t u : Section P} {q : Asking} {j : Nat}
    {a : Arms} (h : t.Enrols u q j a) :
    Enrolled (w.outside i t).arms? (w.outside i u).arms? i j a := by
  refine ⟨?_, fun k l => ?_⟩
  · rw [outside_arms? hi, if_pos rfl, h.free]
  · rw [outside_arms? hi, outside_arms? hi]
    by_cases hk : k = i
    · subst hk
      simp [h.arms]
    · simp [hk]

theorem arms?_push {s : Sync P} (idle : ∀ j, s.line.arms? j = none) :
    ({ w with syncs := w.syncs.push s } : World P).arms? = w.arms? := by
  funext i j
  unfold arms?
  rw [Array.getElem?_push]
  split
  · rename_i hi
    subst hi
    rw [Option.bind_some, idle, Array.getElem?_eq_none (Nat.le_refl _)]
    rfl
  · rfl

end World

/-! ## Whoever is armed is served -/

namespace Watch

/-- The tokens serve those who are armed, and so do the timers if the callers are careful, but for
those whom a wake is owed. -/
structure Serves (careful : Prop) (x : Watch P) : Prop where
  known : ∀ (i : Nat) (s : Sync P), x.world.syncs[i]? = some s → s.id = i
  timers : careful → x.world.timers.Serves x.world.arms? x.world.keys x.late
  tokens : x.world.tokens.Serves x.world.arms? x.kept x.early

variable {x y : Watch P} {ask : Option (Nat × Asking)}

theorem Serves.still (h : x.Serves careful) (q : x.Still y) : y.Serves careful := by
  have arms : y.world.arms? = x.world.arms? := by
    funext i j
    unfold World.arms?
    rw [q.syncs]
  refine ⟨fun i s hi => h.known i s (q.syncs ▸ hi), ?_, ?_⟩
  · rw [arms, q.timers]
    exact fun c => (h.timers c).mono q.keys q.late
  · rw [arms]
    exact (h.tokens.same q.faces).mono q.kept q.early

theorem Serves.visit (h : x.Serves careful) {w : World P} (q : x.world.Steps ask w) :
    ({ x with world := w } : Watch P).Serves careful := by
  obtain ⟨i, works⟩ := q
  refine works.keeps (I := fun w => ({ x with world := w } : Watch P).Serves careful) h
    (fun s hi t u q ih => ?_) (fun s hi t u j a q ih => ?_) fun s hi q _ t u j a enrols ih => ?_
  · refine ⟨World.outside_known hi q.id ih.known, fun c => ?_, ?_⟩
    · show u.timers.Serves (x.world.outside i u).arms? _ _
      rw [World.outside_silent hi q, q.timers]
      exact ih.timers c
    · show u.tokens.Serves (x.world.outside i u).arms? _ _
      rw [World.outside_silent hi q, q.tokens]
      exact ih.tokens
  · obtain ⟨armed, lapsed⟩ := World.outside_lapse hi q
    refine ⟨World.outside_known hi q.id ih.known, fun c => ?_, ?_⟩
    · show u.timers.Serves (x.world.outside i u).arms? _ _
      rw [q.timers]
      exact (ih.timers c).lapse armed lapsed
    · show u.tokens.Serves (x.world.outside i u).arms? _ _
      rw [q.tokens]
      exact ih.tokens.lapse armed lapsed
  · have enrolled := World.outside_enrols hi enrols
    have id : t.sync.id = i := ih.known i t.sync (by rw [World.outside_sync hi, if_pos rfl])
    have timers := enrols.timers
    have tokens := enrols.tokens
    rw [id] at timers tokens
    exact ⟨World.outside_known hi enrols.id ih.known, fun c => (ih.timers c).enrol enrolled timers,
      ih.tokens.enrol enrolled tokens⟩

theorem Goes.serves (h : x.Goes careful ask y) (hx : x.Serves careful) : y.Serves careful := by
  induction h with
  | refl => exact hx
  | still _ q ih => exact ih.still q
  | visit _ q ih => exact ih.visit q
  | @found z s _ id idle ih =>
    have arms := World.arms?_push (w := z.world) idle
    refine ⟨fun i s hi => ?_, by rw [arms]; exact ih.timers, by rw [arms]; exact ih.tokens⟩
    have hi := (Array.getElem?_push ..).symm.trans hi
    split at hi
    · rename_i new
      rw [← Option.some.inj hi, id, new]
    · exact ih.known i s hi
  | woken _ q calm lates earlies ih =>
    have visited := ih.visit q
    exact ⟨visited.known, fun c => (visited.timers c).woken (fun a ha => (calm a ha).1) lates,
      visited.tokens.woken (fun a ha => (calm a ha).2) earlies⟩
  | clock now _ forward _ ih =>
    exact ⟨ih.known, fun c => (ih.timers c).clock (forward c), ih.tokens⟩
  | clear careless _ ih => exact ⟨ih.known, fun c => absurd c careless, ih.tokens⟩
  | due _ ih => exact ⟨ih.known, fun c => (ih.timers c).takeDue, ih.tokens⟩
  | timer d waker _ keys ih =>
    exact ⟨ih.known, fun c => (ih.timers c).register d waker keys, ih.tokens⟩
  | untimer _ hk ih => exact ⟨ih.known, fun c => (ih.timers c).cancel hk, ih.tokens⟩
  | fire t _ ih => exact ⟨ih.known, ih.timers, ih.tokens.fire t⟩
  | mint _ ih => exact ⟨ih.known, ih.timers, ih.tokens.create⟩
  | subscribe _ hr ih => exact ⟨ih.known, ih.timers, ih.tokens.register hr⟩
  | unsubscribe _ gone ih => exact ⟨ih.known, ih.timers, ih.tokens.drop gone⟩

end Watch

/-! ## Nobody is armed anew but an acquisition -/

namespace World

/-- The number of acquisitions that were ever queued at synchronizer `i`. -/
def arrivals (w : World P) (i : Nat) : Nat := (w.syncs[i]?.map (·.arrivals)).getD 0

/-- Whoever was there before is armed as it was or not at all, and no timer comes back. -/
structure Since (w w' : World P) : Prop where
  arrivals : ∀ i, w.arrivals i ≤ w'.arrivals i
  arms : ∀ i j a, w'.arms? i j = some a → a.ticket < w.arrivals i → w.arms? i j = some a
  numbers : w.timers.nextNumber ≤ w'.timers.nextNumber
  timers : ∀ e ∈ w'.timers.pending, e.1.number < w.timers.nextNumber → e ∈ w.timers.pending

/-- `a` is what an acquisition has out that has asked `q` in `w`. -/
structure Grounds (w : World P) (i : Nat) (q : Asking) (a : Arms) : Prop where
  ticket : w.arrivals i ≤ a.ticket
  deadline : a.deadline = q.timeout.deadline? w.timers.now
  token : a.registration.map (·.token) = q.token

variable {w w' w'' : World P} {ask : Option (Nat × Asking)}

theorem Since.refl (w : World P) : w.Since w :=
  ⟨fun _ => Nat.le_refl _, fun _ _ _ ha _ => ha, Nat.le_refl _, fun _ he _ => he⟩

theorem Since.trans (h : w.Since w') (h' : w'.Since w'') : w.Since w'' :=
  ⟨fun i => Nat.le_trans (h.arrivals i) (h'.arrivals i),
    fun i j a ha hn => h.arms i j a (h'.arms i j a ha (Nat.lt_of_lt_of_le hn (h.arrivals i))) hn,
    Nat.le_trans h.numbers h'.numbers,
    fun e he hn => h.timers e (h'.timers e he (Nat.lt_of_lt_of_le hn h.numbers)) hn⟩

/-- What has happened since `w`, in one step that makes the acquisition `ask`. -/
structure Gains (w : World P) (ask : Option (Nat × Asking)) (w' : World P) : Prop extends
    Since w w' where
  clock : ∀ q ∈ ask, q.2.timeout.deadline? w'.timers.now = q.2.timeout.deadline? w.timers.now
  enrolled : ∀ i j a, w'.arms? i j = some a →
    w.arms? i j = some a ∨ ∃ q, ask = some (i, q) ∧ w.Grounds i q a

theorem Gains.refl (w : World P) (ask : Option (Nat × Asking)) : w.Gains ask w :=
  ⟨.refl w, fun _ _ => rfl, fun _ _ _ ha => .inl ha⟩

theorem Gains.step (h : w.Gains ask w') (arrivals : ∀ i, w'.arrivals i ≤ w''.arrivals i)
    (arms : ∀ i j a, w''.arms? i j = some a → w'.arms? i j = some a)
    (numbers : w'.timers.nextNumber ≤ w''.timers.nextNumber)
    (timers : ∀ e ∈ w''.timers.pending, e.1.number < w'.timers.nextNumber →
      e ∈ w'.timers.pending)
    (clock : w''.timers.now = w'.timers.now ∨ ∀ q ∈ ask, q.2.timeout = .forever) :
    w.Gains ask w'' := by
  refine ⟨h.toSince.trans ⟨arrivals, fun i j a ha _ => arms i j a ha, numbers, timers⟩,
    fun q hq => ?_, fun i j a ha => h.enrolled i j a (arms i j a ha)⟩
  rcases clock with same | forever
  · rw [same]
    exact h.clock q hq
  · rw [forever q hq]
    rfl

theorem Gains.still (h : w.Gains ask w') (syncs : w''.syncs = w'.syncs)
    (timers : w''.timers = w'.timers) : w.Gains ask w'' := by
  refine h.step (fun i => ?_) (fun i j a ha => ?_) (by rw [timers]) (fun e he _ => timers ▸ he)
    (.inl (by rw [timers]))
  · unfold World.arrivals
    rw [syncs]
  · unfold World.arms? at ha ⊢
    rwa [← syncs]

theorem outside_arrivals {i : Nat} {s : Sync P} (hi : w.syncs[i]? = some s) (t : Section P) (k : Nat) :
    (w.outside i t).arrivals k = if k = i then t.sync.arrivals else w.arrivals k := by
  unfold arrivals
  rw [outside_sync hi]
  split <;> rfl

theorem Gains.visit (h : w.Gains ask w') (q : w'.Steps ask w'') : w.Gains ask w'' := by
  obtain ⟨i, works⟩ := q
  refine works.keeps (I := fun x => w.Gains ask x) h (fun s hi t u q ih => ?_)
    (fun s hi t u j a q ih => ?_) fun s hi q hq t u j a enrols ih => ?_
  · refine ih.step (fun k => ?_) (fun k j a ha => ?_)
      (Nat.le_of_eq (congrArg Timers.nextNumber q.timers).symm) (fun e he _ => ?_) (.inl ?_)
    · rw [outside_arrivals hi, outside_arrivals hi, q.arrivals]
    · rwa [← outside_silent hi q]
    · rwa [show (w'.outside i u).timers = (w'.outside i t).timers from q.timers] at he
    · exact congrArg Timers.now q.timers
  · -- Whoever leaves the line takes its timer along.
    have timers : u.timers.now = t.timers.now ∧ u.timers.nextNumber = t.timers.nextNumber ∧
        ∀ e ∈ u.timers.pending, e ∈ t.timers.pending := by
      rw [q.timers]
      rcases a.timer with _ | k
      · exact ⟨rfl, rfl, fun _ he => he⟩
      · exact ⟨rfl, rfl, fun _ he => (Timers.mem_cancel.mp he).1⟩
    refine ih.step (fun k => ?_) (fun k l b hb => ?_) (Nat.le_of_eq timers.2.1.symm)
      (fun e he _ => timers.2.2 e he) (.inl timers.1)
    · rw [outside_arrivals hi, outside_arrivals hi, q.arrivals]
    · exact ((outside_lapse hi q).2.old hb).1
  · -- Whoever is new in the line is the one that asked.
    obtain ⟨⟨i', q⟩, filtered, rfl⟩ := Option.map_eq_some_iff.mp hq
    have asked : ask = some (i', q) ∧ decide (i' = i) = true :=
      Option.filter_eq_some_iff.mp filtered
    obtain rfl : i' = i := of_decide_eq_true asked.2
    have enrolled := outside_enrols hi enrols
    obtain ⟨now, deadline⟩ := Section.arm_spec t.timers q.timeout (.trigger t.sync.id j)
    have timers := enrols.timers
    rw [timers] at now deadline
    have grounds : w.Grounds i' q a := by
      refine ⟨?_, deadline.trans (ih.clock (i', q) asked.1), ?_⟩
      · rw [enrols.ticket]
        have before := ih.arrivals i'
        rwa [outside_arrivals hi, if_pos rfl] at before
      · have subscribed := enrols.tokens
        rcases hk : q.token with _ | k
        · rw [hk] at subscribed
          rw [← (Prod.mk.inj (Option.some.inj subscribed)).2]
          rfl
        · rw [hk] at subscribed
          obtain ⟨⟨ts, r⟩, hr, pair⟩ := Option.map_eq_some_iff.mp subscribed
          rw [← (Prod.mk.inj pair).2]
          unfold Tokens.register? at hr
          split at hr
          · cases hr
          · split at hr
            · cases hr
            · rw [← (Prod.mk.inj (Option.some.inj hr)).2]
              rfl
    have arrivals (k : Nat) : (w'.outside i' t).arrivals k ≤ (w'.outside i' u).arrivals k := by
      rw [outside_arrivals hi, outside_arrivals hi, enrols.arrivals]
      split
      · exact Nat.le_succ _
      · exact Nat.le_refl _
    have registered : t.timers.nextNumber ≤ u.timers.nextNumber ∧
        ∀ e ∈ u.timers.pending, e.1.number < t.timers.nextNumber → e ∈ t.timers.pending := by
      unfold Section.arm at timers
      split at timers
      · obtain ⟨same, -⟩ := Prod.mk.inj timers
        rw [← same]
        exact ⟨Nat.le_refl _, fun _ he _ => he⟩
      · obtain ⟨same, -⟩ := Prod.mk.inj timers
        rw [← same]
        refine ⟨Nat.le_succ _, fun e he old => ?_⟩
        rcases Timers.mem_register.mp he with rfl | he
        · exact absurd old (Nat.lt_irrefl _)
        · exact he
    have cases (k l : Nat) (b : Arms) (hb : (w'.outside i' u).arms? k l = some b) :
        (k = i' ∧ b = a) ∨ (w'.outside i' t).arms? k l = some b :=
      (enrolled.cases hb).imp_left fun here => ⟨here.1, here.2.2⟩
    refine ⟨⟨fun k => Nat.le_trans (ih.arrivals k) (arrivals k), fun k l b hb old => ?_,
      Nat.le_trans ih.numbers registered.1, fun e he old => ?_⟩, fun q' hq' => ?_,
      fun k l b hb => ?_⟩
    · rcases cases k l b hb with ⟨rfl, rfl⟩ | hb
      · exact absurd old (Nat.not_lt.mpr grounds.ticket)
      · exact ih.arms k l b hb old
    · exact ih.timers e (registered.2 e he (Nat.lt_of_lt_of_le old ih.numbers)) old
    · rw [show (w'.outside i' u).timers.now = t.timers.now from now]
      exact ih.clock q' hq'
    · rcases cases k l b hb with ⟨rfl, rfl⟩ | hb
      · exact .inr ⟨q, asked.1, grounds⟩
      · exact ih.enrolled k l b hb

end World

theorem Watch.Goes.gains {x y : Watch P} {ask : Option (Nat × Asking)}
    (h : x.Goes careful ask y) : x.world.Gains ask y.world := by
  induction h with
  | refl => exact .refl _ ask
  | still _ q ih => exact ih.still q.syncs q.timers
  | visit _ q ih => exact ih.visit q
  | @found z s _ id idle ih =>
    refine ih.step (fun i => ?_) (fun i j a ha => ?_) (Nat.le_refl _) (fun _ he _ => he) (.inl rfl)
    · unfold World.arrivals
      rw [Array.getElem?_push]
      split
      · rename_i new
        rw [new, Array.getElem?_eq_none (Nat.le_refl _)]
        exact Nat.zero_le _
      · exact Nat.le_refl _
    · rwa [World.arms?_push (w := z.world) idle] at ha
  | woken _ q _ _ _ ih =>
    obtain ⟨i, works⟩ := q
    exact ih.visit ⟨i, by
      rcases works with _ | ⟨hi, lapses | ⟨q, hq, -⟩⟩
      · exact .nobody
      · exact .visited hi (.inl lapses)
      · cases hq⟩
  | clock now _ _ forever ih =>
    exact ih.step (fun _ => Nat.le_refl _) (fun _ _ _ ha => ha) (Nat.le_refl _) (fun _ he _ => he)
      (.inr forever)
  | clear _ _ ih =>
    exact ih.step (fun _ => Nat.le_refl _) (fun _ _ _ ha => ha) (Nat.le_refl _)
      (fun _ he _ => nomatch he) (.inl rfl)
  | due _ ih =>
    exact ih.step (fun _ => Nat.le_refl _) (fun _ _ _ ha => ha) (Nat.le_refl _)
      (fun _ he _ => (List.dropWhile_sublist _).subset he) (.inl rfl)
  | timer d waker _ keys ih =>
    refine ih.step (fun _ => Nat.le_refl _) (fun _ _ _ ha => ha) (Nat.le_succ _)
      (fun e he old => ?_) (.inl rfl)
    rcases Timers.mem_register.mp he with rfl | he
    · exact absurd old (Nat.lt_irrefl _)
    · exact he
  | untimer _ hk ih =>
    exact ih.step (fun _ => Nat.le_refl _) (fun _ _ _ ha => ha) (Nat.le_refl _)
      (fun _ he _ => (Timers.mem_cancel.mp he).1) (.inl rfl)
  | fire t _ ih => exact ih.still rfl rfl
  | mint _ ih => exact ih.still rfl rfl
  | subscribe _ hr ih => exact ih.still rfl rfl
  | unsubscribe _ gone ih => exact ih.still rfl rfl

/-! ## Runs -/

namespace World

/-- What the pending acquisition in slot `j` of synchronizer `i` has out. -/
def pending? (w : World P) (i j : Nat) : Option Arms :=
  (w.syncs[i]?.bind fun s => s.line.waiter? j).bind fun v =>
    if v.isPending then some ⟨v.ticket, v.deadline, v.timer, v.registration⟩ else none

/-- The timers that are set for slot `j` of synchronizer `i`. -/
def timersFor (w : World P) (i j : Nat) : List TimerKey :=
  (w.timers.pending.filter (·.2 = .trigger i j)).map Prod.fst

/-- Slot `j` of synchronizer `i` has subscribed to token `t`, in its slot `n`. -/
def Listens (w : World P) (i j t n : Nat) : Prop :=
  ∃ l, w.tokens.listener? t n = some l ∧ l.waker = some (.trigger i j)

/-- Each pending acquisition has the one timer and the one subscription that it asked for, and nobody
else has any. -/
structure Armed (w : World P) : Prop where
  timers : ∀ i j, w.timersFor i j = ((w.pending? i j).bind (·.timer)).toList
  deadlines : ∀ i j a, w.pending? i j = some a → a.timer.map (·.deadline) = a.deadline
  listeners : ∀ i j t n, w.Listens i j t n ↔
    ∃ a r, w.pending? i j = some a ∧ a.registration = some r ∧ r.token = t ∧ r.slot = n
  free : ∀ i j a r, w.pending? i j = some a → a.registration = some r →
    w.tokens.isCancelled r.token = false

variable {w : World P} {items : List (Item P)} {i j : Nat} {a : Arms}

theorem Plays.arms?_eq_pending? (h : w.Plays items) (i j : Nat) : w.arms? i j = w.pending? i j := by
  unfold arms? pending? Line.arms?
  rcases hi : w.syncs[i]? with _ | s
  · rfl
  · obtain ⟨d, L, rests⟩ := h.rests hi
    rw [Option.bind_some, Option.bind_some]
    rcases hv : s.line.waiter? j with _ | v
    · rfl
    · rw [Option.bind_some, Option.bind_some]
      by_cases hp : v.isPending = true
      · rw [if_pos hp, Waiter.arms?_of_pending (Option.isNone_iff_eq_none.mp hp)]
      · rw [if_neg hp]
        have resolved : v.outcome ≠ none := fun none => hp (Option.isNone_iff_eq_none.mpr none)
        obtain ⟨timer, registration, -⟩ :=
          (rests.roll.regular _ _ (Section.bare?_of_waiter? (s := w.inside s) hv)).quiet resolved
        exact Waiter.arms?_of_quiet resolved timer registration

theorem Plays.numbered (h : w.Plays items) (ha : w.arms? i j = some a) :
    a.ticket < w.arrivals i := by
  obtain ⟨s, hi, ha⟩ := Option.bind_eq_some_iff.mp ha
  obtain ⟨d, L, rests⟩ := h.rests hi
  obtain ⟨v, hv, -, rfl⟩ := rests.pending_of_arms ha
  have numbered := (rests.roll.regular _ _ (Section.bare?_of_waiter? hv)).numbered
  unfold arrivals
  rw [hi]
  exact Nat.lt_of_lt_of_eq numbered rests.arrivals

theorem Plays.slot_unique (h : w.Plays items) {j' : Nat} {b : Arms} (ha : w.arms? i j = some a)
    (hb : w.arms? i j' = some b) (same : a.ticket = b.ticket) : j = j' := by
  obtain ⟨s, hi, ha⟩ := Option.bind_eq_some_iff.mp ha
  obtain ⟨s', hi', hb⟩ := Option.bind_eq_some_iff.mp hb
  obtain rfl := Option.some.inj (hi.symm.trans hi')
  obtain ⟨d, L, rests⟩ := h.rests hi
  obtain ⟨v, hv, -, rfl⟩ := rests.pending_of_arms ha
  obtain ⟨v', hv', -, rfl⟩ := rests.pending_of_arms hb
  exact rests.roll.unique _ _ _ _ (Section.bare?_of_waiter? hv) (Section.bare?_of_waiter? hv') same

end World

theorem Watch.Serves.armed {x : Watch P} (h : x.Serves True) (late : x.late = []) (early : x.early = [])
    (rests : ∀ i j, x.world.arms? i j = x.world.pending? i j) : x.world.Armed := by
  have timers := h.timers trivial
  have tokens := h.tokens
  rw [late, show x.world.arms? = x.world.pending? from funext fun i => funext (rests i)] at timers
  rw [early, show x.world.arms? = x.world.pending? from funext fun i => funext (rests i)] at tokens
  refine ⟨fun i j => ?_, timers.deadline, fun i j t n => ⟨fun ⟨l, hl, hw⟩ => ?_, ?_⟩,
    fun i j a r ha hr => ?_⟩
  · have mine (k : TimerKey) (hk : k ∈ x.world.timersFor i j) :
        (x.world.pending? i j).bind (·.timer) = some k := by
      obtain ⟨e, he, rfl⟩ := List.mem_map.mp hk
      obtain ⟨he, here⟩ := List.mem_filter.mp he
      obtain ⟨a, ha, timer⟩ := timers.owned e.1 i j (of_decide_eq_true here ▸ he)
      rw [ha]
      exact timer
    rcases hk : (x.world.pending? i j).bind (·.timer) with _ | k
    · refine List.eq_nil_iff_forall_not_mem.mpr fun k hk' => ?_
      rw [mine k hk'] at hk
      cases hk
    · obtain ⟨a, ha, timer⟩ := Option.bind_eq_some_iff.mp hk
      have known : k ∈ x.world.timersFor i j := by
        rcases timers.armed i j a ha k timer with waits | ⟨-, owed⟩
        · exact List.mem_map.mpr ⟨_, List.mem_filter.mpr ⟨waits, by simp⟩, rfl⟩
        · cases owed
      have once : (x.world.timersFor i j).Nodup :=
        timers.sound.distinct.sublist (List.filter_sublist.map _)
      have all : x.world.timersFor i j = List.replicate (x.world.timersFor i j).length k :=
        List.eq_replicate_of_mem fun k' hk' => Option.some.inj ((mine k' hk').symm.trans hk)
      rw [all] at once known ⊢
      have most := List.nodup_replicate.mp once
      have least := List.length_pos_of_mem known
      rw [List.length_replicate] at least
      rw [show (x.world.timersFor i j).length = 1 by omega]
      rfl
  · obtain ⟨a, ha, registration⟩ := tokens.owned t n l i j hl hw
    exact ⟨a, _, ha, registration, rfl, rfl⟩
  · rintro ⟨a, r, ha, hr, rfl, rfl⟩
    rcases tokens.armed i j a ha r hr with ⟨-, hears⟩ | ⟨-, owed⟩
    · exact ⟨_, hears, rfl⟩
    · cases owed
  · rcases tokens.armed i j a ha r hr with ⟨free, -⟩ | ⟨-, owed⟩
    · exact free
    · cases owed

namespace Machine

/-- No cancellation and no processing of timers is in progress. -/
def isCalm (m : Machine P) : Bool := m.agenda.all fun f => !f.processing && !f.cancelling

/-- The script itself is about to process the timers. -/
def processes (m : Machine P) : Bool :=
  match m.agenda, m.script with
  | [], .process :: _ => true
  | _, _ => false

/-- The callers have a handle on the timers, and while timers are processed nobody turns the clock
back. -/
def Handled (m₀ : Machine P) (n : Nat) : Prop := ∀ k < n, (step^[k] m₀).Handles

/-- The next step queues the acquisition that has `a` out, with what it asks for. -/
structure Enqueues (m : Machine P) (i : Nat) (q : Asking) (a : Arms) : Prop where
  asks : m.asks? = some (i, q)
  first : m.world.arrivals i ≤ a.ticket
  last : a.ticket < m.step.world.arrivals i
  deadline : a.deadline.map Time.toNat =
    q.timeout.duration?.map fun d => min (m.world.timers.now.toNat + d) Time.maxNanos
  token : a.registration.map (·.token) = q.token

variable {m₀ : Machine P}

theorem Fresh.serves_if (h : m₀.Fresh) {n : Nat} (handled : careful → m₀.Handled n) :
    (step^[n] m₀).watch.Serves careful := by
  induction n with
  | zero =>
    obtain ⟨now, ownClock, running, script, rfl⟩ := h
    have nobody (i j : Nat) :
        (ofScript (.blank now ownClock running) script : Machine P).watch.world.arms?
        i j = none := by
      simp [watch, World.watch, ofScript, World.blank, World.arms?]
    have none (t : Nat) : ({} : Tokens).face? t = none := by simp [Tokens.face?, Tokens.get?]
    refine ⟨fun i s hi => by simp [watch, World.watch, ofScript, World.blank] at hi,
      fun _ => ⟨⟨by simp [watch, World.watch, ofScript, World.blank],
        by simp [watch, World.watch, ofScript, World.blank],
        by simp [watch, World.watch, ofScript, World.blank]⟩, ?_, ?_, ?_, ?_, ?_, ?_⟩,
      ⟨⟨fun t c l hl => ?_, fun t n s _ hs => ?_⟩, ?_, fun t n s i j hs => ?_, ?_, ?_⟩⟩
    · intro k hk
      cases hk
    · intro i j a ha
      cases (nobody i j).symm.trans ha
    · intro i j a ha
      cases (nobody i j).symm.trans ha
    · intro i j a ha
      cases (nobody i j).symm.trans ha
    · intro i j a ha
      cases (nobody i j).symm.trans ha
    · intro k i j hk
      cases hk
    · cases (none t).symm.trans hl
    · have hs : (({} : Tokens).face? t).bind (fun f => f.2.slots[n]?) = some s := hs
      rw [none t] at hs
      cases hs
    · intro i j a ha
      cases (nobody i j).symm.trans ha
    · have hs : (({} : Tokens).face? t).bind (fun f => f.2.slots[n]?) = some s := hs
      rw [none t] at hs
      cases hs
    · intro r hr
      cases hr
    · exact List.nodup_nil
  | succ n ih =>
    rw [Function.iterate_succ_apply']
    exact (goes_step (h.plays n) fun c => handled c n (Nat.lt_succ_self n)).serves
      (ih fun c k hk => handled c k (Nat.lt_succ_of_lt hk))

theorem Fresh.serves (h : m₀.Fresh) {n : Nat} (handled : m₀.Handled n) :
    (step^[n] m₀).watch.Serves True := h.serves_if fun _ => handled

theorem Fresh.gains (h : m₀.Fresh) {k : Nat} (handled : (step^[k] m₀).Handles) :
    (step^[k] m₀).world.Gains (step^[k] m₀).asks? (step^[k + 1] m₀).world := by
  rw [Function.iterate_succ_apply']
  exact (goes_step (h.plays k) fun _ : True => handled).gains

theorem Fresh.since (h : m₀.Fresh) {k n : Nat} (handled : m₀.Handled n) (le : k ≤ n) :
    (step^[k] m₀).world.Since (step^[n] m₀).world := by
  induction n with
  | zero =>
    obtain rfl := Nat.le_zero.mp le
    exact .refl _
  | succ n ih =>
    rcases Nat.le_succ_iff.mp le with le | rfl
    · exact (ih (fun k hk => handled k (Nat.lt_succ_of_lt hk)) le).trans
        (h.gains (handled n (Nat.lt_succ_self n))).toSince
    · exact .refl _

theorem deadline?_toNat (timeout : Timeout) (now : Time) :
    (timeout.deadline? now).map Time.toNat =
      timeout.duration?.map fun d => min (now.toNat + d) Time.maxNanos := by
  cases timeout with
  | forever => rfl
  | after d => exact congrArg some (Time.toNat_add now d)

theorem Fresh.enqueued (h : m₀.Fresh) {n : Nat} (handled : m₀.Handled n) {i j : Nat} {a : Arms}
    (ha : (step^[n] m₀).world.arms? i j = some a) :
    ∃ k < n, ∃ q, (step^[k] m₀).Enqueues i q a := by
  induction n with
  | zero =>
    obtain ⟨now, ownClock, running, script, rfl⟩ := h
    simp [ofScript, World.blank, World.arms?] at ha
  | succ n ih =>
    rcases (h.gains (handled n (Nat.lt_succ_self n))).enrolled i j a ha with before | ⟨q, asks, grounds⟩
    · obtain ⟨k, hk, queued⟩ := ih (fun k hk => handled k (Nat.lt_succ_of_lt hk)) before
      exact ⟨k, Nat.lt_succ_of_lt hk, queued⟩
    · refine ⟨n, Nat.lt_succ_self n, q, asks, grounds.ticket, ?_, ?_, grounds.token⟩
      · rw [← Function.iterate_succ_apply' step n m₀]
        exact (h.plays (n + 1)).numbered ha
      · rw [grounds.deadline, deadline?_toNat]

theorem processes_step {m : Machine P} (h : m.processes = true) :
    m.agenda = [] ∧ m.step.world.arms? = m.world.arms? ∧
      m.step.world.timers = m.world.timers.takeDue.1 := by
  unfold processes at h
  split at h
  · rename_i agenda script
    refine ⟨agenda, ?_, ?_⟩ <;>
    · unfold step
      rw [agenda, script]
      rfl
  · cases h

/-- When the timers have been processed, nobody is still pending whose deadline had come. -/
theorem Fresh.expired (h : m₀.Fresh) {k n : Nat} (handled : m₀.Handled n) (later : k < n)
    (call : (step^[k] m₀).processes = true) (returned : (step^[n] m₀).agenda = []) {i j j' : Nat}
    {a b : Arms} {d : Time} (ha : (step^[k] m₀).world.arms? i j = some a)
    (deadline : a.deadline = some d) (due : d ≤ (step^[k] m₀).world.timers.now)
    (hb : (step^[n] m₀).world.arms? i j' = some b) : b.ticket ≠ a.ticket := by
  intro same
  obtain ⟨-, arms, timers⟩ := processes_step call
  rw [← Function.iterate_succ_apply' step k m₀] at arms timers
  have since := h.since handled later
  -- It has been pending all the while, in the same slot.
  have numbered : a.ticket < (step^[k + 1] m₀).world.arrivals i :=
    (h.plays (k + 1)).numbered (by rw [arms, ha])
  have before := since.arms i j' b hb (same ▸ numbered)
  rw [arms] at before
  obtain rfl := (h.plays k).slot_unique ha before same.symm
  obtain rfl := Option.some.inj (ha.symm.trans before)
  -- Its timer is set at the end, so it was set when the timers had just been taken.
  have serves := (h.serves handled).timers trivial
  have set := serves.deadline i j a hb
  rw [deadline] at set
  obtain ⟨key, timer, rfl⟩ := Option.map_eq_some_iff.mp set
  have waits : (key, .trigger i j) ∈ (step^[n] m₀).world.timers.pending := by
    rcases serves.armed i j a hb key timer with waits | ⟨-, owed⟩
    · exact waits
    · have nobody : attended Frame.processing (step^[n] m₀).agenda = [] := by
        rw [returned]
        rfl
      rw [show (step^[n] m₀).watch.late = _ from nobody] at owed
      cases owed
  have first := h.serves fun l hl => handled l (Nat.lt_of_lt_of_le hl later)
  have old : key.number < (step^[k + 1] m₀).world.timers.nextNumber :=
    (first.timers trivial).numbered i j a (by
      show (step^[k + 1] m₀).world.arms? i j = some a
      rw [arms, ha]) key timer
  have stays := since.timers _ waits old
  rw [timers] at stays
  exact ((h.serves fun l hl => handled l (Nat.lt_trans hl later)).timers trivial).sound.stays stays due

/-- Whenever nothing is being cancelled and no timers are being processed, each pending acquisition
has the one timer and the one subscription that it asked for when it was queued, and nobody else has
any. When the script has processed the timers, nobody is still pending whose deadline had come. -/
theorem armed_while_pending (fresh : m₀.Fresh) {n : Nat} (handled : m₀.Handled n) :
    ((step^[n] m₀).isCalm = true → (step^[n] m₀).world.Armed ∧
      ∀ i j a, (step^[n] m₀).world.pending? i j = some a →
        ∃ k < n, ∃ q, (step^[k] m₀).Enqueues i q a) ∧
    ((step^[n] m₀).agenda = [] → ∀ k < n, (step^[k] m₀).processes = true →
      ∀ i j a d, (step^[k] m₀).world.pending? i j = some a → a.deadline = some d →
        d ≤ (step^[k] m₀).world.timers.now →
        ∀ j' b, (step^[n] m₀).world.pending? i j' = some b → b.ticket ≠ a.ticket) := by
  have rests (k i j : Nat) : (step^[k] m₀).world.arms? i j = (step^[k] m₀).world.pending? i j :=
    (fresh.plays k).arms?_eq_pending? i j
  constructor
  · intro calm
    have none (p : Frame P → Bool)
        (hp : ∀ f, (!f.processing && !f.cancelling) = true → p f = false) :
        attended p (step^[n] m₀).agenda = [] := by
      by_contra some
      obtain ⟨f, hf, meets⟩ := List.any_eq_true.mp (any_of_attended some)
      rw [hp f (List.all_eq_true.mp calm f hf)] at meets
      cases meets
    refine ⟨(fresh.serves handled).armed (none _ fun f hf => by simp_all)
      (none _ fun f hf => by simp_all) (rests n), fun i j a ha => ?_⟩
    exact fresh.enqueued handled ((rests n i j).trans ha)
  · intro returned k later call i j a d ha deadline due j' b hb
    exact fresh.expired handled later call returned ((rests k i j).trans ha) deadline due
      ((rests n i j').trans hb)

/-- Somebody waits for a lock until its deadline comes. -/
def expiring : Machine Policy.standard :=
  ofScript (.blank .zero none false)
    [.create "lock" false (.exclusive true) {}, .createToken "token",
      .acquire "lock" "waiting"
        { request := .entry, timeout := .ok (.after 5), token := some "token" },
      .advance 5, .process]

theorem armed_while_pending_expiring :
    (step^[14] expiring).world.timersFor 0 0 = [⟨⟨5⟩, 0⟩] ∧
      ∀ j b, (step^[19] expiring).world.pending? 0 j = some b → b.ticket ≠ 0 := by
  have fresh : expiring.Fresh := ⟨.zero, none, false, _, rfl⟩
  have handled : ∀ k < 19, ((step^[k] expiring).next?.any Step.clears) = false := by
    decide +kernel
  have forward : ∀ k < 19, (step^[k] expiring).agenda.any Frame.processing = true →
      (step^[k] expiring).world.timers.now ≤ (step^[k] expiring).step.world.timers.now := by
    decide +kernel
  have all : expiring.Handled 19 := fun k hk => ⟨handled k hk, forward k hk⟩
  constructor
  · have before : expiring.Handled 14 := fun k hk => all k (Nat.lt_trans hk (by decide))
    rw [((armed_while_pending fresh before).1 (by decide +kernel)).1.timers]
    decide +kernel
  · exact (armed_while_pending fresh all).2 (List.isEmpty_iff.mp (by decide +kernel)) 14 (by decide)
      (by decide +kernel) 0 0 ⟨0, some ⟨5⟩, some ⟨⟨5⟩, 0⟩, some ⟨0, 0, 0⟩⟩ ⟨5⟩ (by decide +kernel) rfl
      (by decide +kernel)

end Machine

end Turnstile
