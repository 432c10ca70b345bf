import Turnstile.Proofs.Exactness
import Turnstile.Proofs.Observing
import Turnstile.Proofs.Sharers

/-!
# Whoever leaves the line

An acquisition leaves the line when its future is dropped, or when it is woken after its token has
been cancelled or its time has run out. In each case the others close ranks and whoever may enter now
does, and a wake that comes later finds nobody to resolve.
-/

namespace Turnstile

variable {P : Policy}

/-! ## Those who stay -/

namespace Docket

variable {d : Docket P}

/-- Those whom the policy lets in when acquisition `t` is in the line no more. -/
def successors (d : Docket P) (t : Nat) : List (Petition P.Request) :=
  P.admissible d.holding (d.strike t).pending

/-- Acquisition `t` has left the line `d`, and nobody else has but those who were let in then. -/
structure Loses (d : Docket P) (t : Nat) (d' : Docket P) : Prop where
  holding : d'.holding = P.entered d.holding (d.successors t)
  phase : d'.phase = d.phase
  pending : d'.pending = (d.strike t).pending.drop (d.successors t).length
  granted : d'.granted = d.granted ++ (d.successors t).map (·.ticket)

theorem loses_trigger (d : Docket P) (e : Petition P.Request) (o : Outcome) :
    d.Loses e.ticket (d.trigger e o) := by
  obtain ⟨holding, pending, phase, -⟩ := grantRun_fields (settle o (d.strike e.ticket) e)
  exact ⟨holding, phase, pending, rfl⟩

theorem withdraw_of_pending {t : Nat} (unsettled : d.settled t = none) (active : d.phase = .active) :
    d.withdraw t = (d.strike t).grantRun := by
  obtain ⟨-, -, phase, -⟩ := grantRun_fields (d.strike t)
  have active : (d.strike t).grantRun.phase = .active := phase.trans active
  unfold withdraw
  rw [unsettled]
  exact if_neg (by simp [active])

theorem loses_withdraw {t : Nat} (unsettled : d.settled t = none) (active : d.phase = .active) :
    d.Loses t (d.withdraw t) := by
  obtain ⟨holding, pending, phase, -⟩ := grantRun_fields (d.strike t)
  rw [withdraw_of_pending unsettled active]
  exact ⟨holding, phase, pending, rfl⟩

theorem mem_withdraw_wakes {t : Nat} (unsettled : d.settled t = none) (active : d.phase = .active)
    {waker : Waker} (hw : waker ∈ (d.withdraw t).wakes) :
    waker ∈ d.wakes ∨ ∃ y ∈ d.pending, y.waker = some waker := by
  have gathered : (d.strike t).grantRun.wakes = d.wakes ++ (d.successors t).filterMap (·.waker) :=
    foldl_settle_wakes .granted _ (d.strike t)
  rw [withdraw_of_pending unsettled active, gathered, List.mem_append] at hw
  refine hw.imp_right fun granted => ?_
  obtain ⟨y, hy, same⟩ := List.mem_filterMap.mp granted
  exact ⟨y, List.filter_sublist.subset ((admissible_sublist _ _).subset hy), same⟩

end Docket

namespace Sync

variable {s s' : Sync P} {t : Nat}

/-- The pending acquisitions but for `t`, first come first. -/
def others (s : Sync P) (t : Nat) : List (Petition P.Request) := s.petitions.filter (·.ticket ≠ t)

/-- Those whom the policy lets in when acquisition `t` is in the line no more. -/
def successors (s : Sync P) (t : Nat) : List (Petition P.Request) :=
  P.admissible s.holding (s.others t)

/-- `s'` is what `s` is without acquisition `t`: whoever may enter then has entered, and those who
stay are in their order. -/
structure Without (s : Sync P) (t : Nat) (s' : Sync P) : Prop where
  holding : s'.holding = P.entered s.holding (s.successors t)
  phase : s'.phase = s.phase
  petitions : s'.petitions = (s.others t).drop (s.successors t).length

theorem Without.ticket_ne (h : s.Without t s') {e : Petition P.Request} (he : e ∈ s'.petitions) :
    e.ticket ≠ t := by
  rw [h.petitions] at he
  exact of_decide_eq_true (List.mem_filter.mp (List.drop_subset _ _ he)).2

end Sync

namespace Section

variable {s : Section P} {L : List Nat} {d' : Docket P} {t : Nat}

theorem Rests.without {u : Sync P} (h : s.Rests d' L) (loses : u.docket.Loses t d') :
    u.Without t s.sync ∧
      s.events.filterMap Event.granted? = (u.successors t).map (·.ticket) :=
  ⟨⟨h.holding.symm.trans loses.holding, h.phase.symm.trans loses.phase,
    h.petitions_eq.trans loses.pending⟩, h.granted.symm.trans loses.granted⟩

theorem Rests.leave_without (h : s.Rests s.sync.docket L) (tame : s.sync.docket.Tame)
    {id : WaiterId} {v : Waiter P.Request} (hv : s.sync.line.pool.get? id = some v)
    (pending : v.outcome = none) :
    s.sync.Without v.ticket (s.leave id true).sync ∧
      (s.leave id true).events.filterMap Event.granted? =
        (s.sync.successors v.ticket).map (·.ticket) ∧
      targets (s.leave id true).wakes = [] ∧
      (s.leave id true).sync.line.arms? id.slot = none := by
  obtain ⟨L', rests, -, bare⟩ := leave_withdraw h hv
  have mem := h.roll.mem_pending (bare?_of_waiter? (waiter?_of_get? hv))
    (Waiter.petition?_of_pending pending)
  have unsettled := h.roll.unsettled mem
  have active : s.sync.docket.phase = .active := by
    by_contra ended
    rw [h.rests.closed ended] at mem
    cases mem
  obtain ⟨without, granted⟩ := rests.without (Docket.loses_withdraw unsettled active)
  refine ⟨without, granted, List.filterMap_eq_nil_iff.mpr fun waker hw => ?_, ?_⟩
  · rw [← rests.wakes] at hw
    rcases Docket.mem_withdraw_wakes unsettled active hw with before | ⟨y, hy, same⟩
    · cases before
    · have quiet := tame y hy
      rwa [same] at quiet
  · rw [Line.arms?_eq_bare, bare]
    rfl

end Section

/-! ## Wakes -/

/-- The token of the acquisition has been cancelled or its time has run out. -/
def Petition.Ends {R : Type} (e : Petition R) (now : Time) (cancelled : Nat → Bool) : Prop :=
  (∃ t ∈ e.token, cancelled t = true) ∨ ∃ d ∈ e.deadline, d ≤ now

theorem Petition.Ends.cause {R : Type} {e : Petition R} {now : Time} {cancelled : Nat → Bool}
    (h : e.Ends now cancelled) : ∃ o, e.cause? now cancelled = some o := by
  unfold cause?
  split
  · exact ⟨_, rfl⟩
  · rename_i spared
    rcases h with ⟨t, token, gone⟩ | ⟨d, deadline, due⟩
    · exact absurd (by rw [Option.mem_def.mp token]; exact gone) spared
    · rw [Option.mem_def.mp deadline, Option.any_some, if_pos (decide_eq_true due)]
      exact ⟨_, rfl⟩

namespace World

variable {w : World P} {i j : Nat} {s : Sync P} {e : Petition P.Request}

/-- The acquisition that waits in slot `j` of synchronizer `i`. -/
def petition? (w : World P) (i j : Nat) : Option (Petition P.Request) :=
  (w.waiter? i j).bind Waiter.petition?

theorem petition?_eq (hs : w.syncs[i]? = some s) (j : Nat) :
    w.petition? i j = (s.line.waiter? j).bind Waiter.petition? := by
  unfold petition? waiter?
  rw [hs]
  rfl

theorem arms?_of_petition? (waits : w.petition? i j = some e) :
    ∃ a, w.arms? i j = some a ∧ a.Fits e := by
  obtain ⟨v, hv, hp⟩ := Option.bind_eq_some_iff.mp waits
  obtain ⟨s, hs, hv⟩ := Option.bind_eq_some_iff.mp hv
  exact arms?_of_petition hs hv hp

theorem Tame.petition?_of_arms? (tame : w.Tame) {a : Arms} (ha : w.arms? i j = some a) :
    ∃ e, w.petition? i j = some e ∧ a.Fits e := by
  obtain ⟨s, hs, armed⟩ := Option.bind_eq_some_iff.mp ha
  obtain ⟨L, rests⟩ := tame.rests hs
  obtain ⟨v, hv, pending, rfl⟩ := rests.pending_of_arms armed
  have waits : w.petition? i j = some _ := (petition?_eq hs j).trans
    (Option.bind_eq_some_iff.mpr ⟨v, hv, Waiter.petition?_of_pending pending⟩)
  exact ⟨_, waits, rfl, rfl, rfl⟩

theorem Tame.mem_petitions (tame : w.Tame) (hs : w.syncs[i]? = some s) :
    e ∈ s.petitions ↔ ∃ j, w.petition? i j = some e := by
  obtain ⟨L, rests⟩ := tame.rests hs
  constructor
  · intro he
    obtain ⟨j, b, -, hb, hp⟩ := rests.roll.of_mem_pending (e := e) he
    obtain ⟨v, hv, rfl⟩ := Section.waiter?_of_bare? (s := w.inside s) hb
    exact ⟨j, (petition?_eq hs j).trans (Option.bind_eq_some_iff.mpr ⟨v, hv, hp⟩)⟩
  · rintro ⟨j, waits⟩
    obtain ⟨v, hv, hp⟩ := Option.bind_eq_some_iff.mp ((petition?_eq hs j).symm.trans waits)
    exact rests.roll.mem_pending (Section.bare?_of_waiter? (s := w.inside s) hv) hp

theorem touch_of_unarmed (unarmed : w.arms? i j = none) :
    (w.touch i fun s => s.trigger j) = { world := w, value := () } := by
  rcases hi : w.syncs[i]? with _ | s
  · exact touch_eq_of_none hi _
  · have still : (w.inside s).trigger j = w.inside s := by
      unfold Section.trigger
      rcases hv : (w.inside s).waiter? j with _ | v
      · rfl
      · have idle : v.isPending = false := by
          by_contra pending
          rw [Bool.not_eq_false] at pending
          have armed : (w.inside s).sync.line.arms? j ≠ none := by
            simp [Line.arms?, show s.line.waiter? j = some v from hv, inside,
              Waiter.arms?_of_pending (Option.isNone_iff_eq_none.mp pending)]
          exact armed ((arms?_inside hi j).symm.trans unarmed)
        simp [idle]
    rw [touch_eq hi, still, outside_inside hi]
    rfl

theorem Tame.trigger_without (tame : w.Tame) (hs : w.syncs[i]? = some s)
    (waits : w.petition? i j = some e) (ends : e.Ends w.timers.now w.tokens.isCancelled) :
    (∃ u, (w.touch i fun s => s.trigger j).world.syncs = w.syncs.setIfInBounds i u ∧
      s.Without e.ticket u) ∧
    (w.touch i fun s => s.trigger j).events.filterMap Event.granted? =
      (s.successors e.ticket).map (·.ticket) ∧
    (w.touch i fun s => s.trigger j).world.arms? i j = none := by
  obtain ⟨L, rests⟩ := tame.rests hs
  obtain ⟨o, cause⟩ := ends.cause
  have fires : (w.inside s).fired? j = some (e, o) := by
    rw [petition?_eq hs] at waits
    unfold Section.fired?
    rw [show (w.inside s).waiter? j = s.line.waiter? j from rfl, waits, Option.bind_some]
    exact Option.map_eq_some_iff.mpr ⟨o, cause, rfl⟩
  obtain ⟨L', fired, frame⟩ := Section.trigger_rests rests j
  rw [fires] at fired
  obtain ⟨without, granted⟩ := fired.without (s.docket.loses_trigger e o)
  have touched := touch_eq hs fun s => s.trigger j
  refine ⟨⟨_, by rw [touched]; rfl, without⟩, by rw [touched]; exact granted, ?_⟩
  -- Whoever has anything out in the slot would still be in line with the same ticket.
  by_contra armed
  obtain ⟨a, ha⟩ := Option.ne_none_iff_exists'.mp armed
  obtain ⟨b, hb, fits⟩ := arms?_of_petition? waits
  obtain rfl := Option.some.inj (hb.symm.trans (arms?_of_trigger ha))
  rw [touched] at ha
  have after : ((w.inside s).trigger j).sync.line.arms? j = some b := by
    rwa [outside_arms? hs, if_pos rfl] at ha
  obtain ⟨v, hv, pending, rfl⟩ := fired.pending_of_arms after
  have mem := fired.roll.mem_pending (Section.bare?_of_waiter? hv)
    (Waiter.petition?_of_pending pending)
  exact without.ticket_ne (fired.petitions_eq ▸ mem) fits.ticket

end World

/-! ## Cancellations that do not come far -/

namespace Tokens

variable {ts ts' ts'' : Tokens}

/-- Nobody that was gone is back, no token has got a child, and whoever was cancelled still is. -/
structure Fades (ts ts' : Tokens) : Prop where
  children : ∀ p, ts'.childrenOf p ⊆ ts.childrenOf p
  alive : ∀ c, ts'.isAlive c = true → ts.isAlive c = true
  cancelled : ∀ c, ts.isCancelled c = true → ts'.isCancelled c = true

theorem Fades.refl (ts : Tokens) : ts.Fades ts :=
  ⟨fun _ => List.Subset.refl _, fun _ h => h, fun _ h => h⟩

theorem Fades.trans (h : ts.Fades ts') (h' : ts'.Fades ts'') : ts.Fades ts'' :=
  ⟨fun p => List.Subset.trans (h'.children p) (h.children p), fun c hc => h.alive c (h'.alive c hc),
    fun c hc => h'.cancelled c (h.cancelled c hc)⟩

theorem Follows.fades (h : ts.Follows ts') : ts.Fades ts' :=
  ⟨fun p => h.children p ▸ List.Subset.refl _, h.alive, fun c hc => (h.cancelled c).trans hc⟩

theorem fades_fire (ts : Tokens) (t : Nat) : ts.Fades (ts.fire t).1 := by
  refine ⟨fun p => by rw [childrenOf_fire]; exact List.Subset.refl _, fun c hc => ?_,
    fun c hc => isCancelled_of_fire hc t⟩
  rcases ht : ts.get? t with _ | u
  · rwa [show (ts.fire t).1 = ts by simp [fire, ht]] at hc
  · simp only [fire_eq ht, isAlive, get?_update] at hc ⊢
    split at hc
    · rename_i here
      subst here
      simpa [ht, Token.isAlive, Listeners.anyOccupied, Listeners.takeWakers] using hc
    · exact hc

theorem fades_takeChildren (ts : Tokens) (t : Nat) : ts.Fades (ts.takeChildren t).1 := by
  refine ⟨fun p => ?_, fun c hc => ?_, fun c hc => (isCancelled_takeChildren ts t c).trans hc⟩
  · rw [childrenOf_takeChildren]
    split
    · exact List.nil_subset _
    · exact List.Subset.refl _
  · simp only [takeChildren, isAlive, get?_update] at hc ⊢
    split at hc
    · rcases hu : ts.get? c with _ | u <;> rw [hu] at hc
      · exact hc
      · exact hc
    · exact hc

end Tokens

theorem Petition.Ends.fades {e : Petition P.Request} {now : Time} {ts ts' : Tokens}
    (h : e.Ends now ts.isCancelled) (fades : ts.Fades ts') : e.Ends now ts'.isCancelled :=
  h.imp_left fun ⟨t, token, gone⟩ => ⟨t, token, fades.cancelled t gone⟩

/-- What is left of a cancellation that comes to no token but those of `R`, as far as they live. -/
def Frame.Within (ts : Tokens) (R : Nat → Prop) : Frame P → Prop
  | .wake .. | .run _ | .finish .. => True
  | .children p => R p
  | .cancel cs => ∀ c ∈ cs, ts.isAlive c = true → R c
  | _ => False

theorem Frame.Within.cancels {ts : Tokens} {R : Nat → Prop} {f : Frame P} (h : f.Within ts R) :
    f.cancels = true := by
  cases f with
  | wake | run | children | cancel | finish => rfl
  | _ => exact h.elim

namespace Machine

variable {m : Machine P} {f : Frame P} {rest : List (Frame P)}

/-- The tickets that have been granted so far. -/
def granted (m : Machine P) : List Nat :=
  (m.reports.flatMap (·.events) ++ m.events).filterMap Event.granted?

/-- The next step changes no line, wakes no waiter and cancels no token. -/
structure Idles (m : Machine P) : Prop where
  syncs : m.step.world.syncs = m.world.syncs
  timers : m.step.world.timers = m.world.timers
  tokens : m.world.tokens.Fades m.step.world.tokens
  waking : targets m.waking?.toList = []
  gathers : m.gathers = []
  granted : m.step.granted = m.granted

/-- The next step wakes the waiter in slot `j` of synchronizer `i`. -/
structure Rouses (m : Machine P) (i j : Nat) : Prop where
  waking : m.waking? = some (.trigger i j)
  world : m.step.world = (m.world.touch i fun s => s.trigger j).world
  gathers : m.gathers = (m.world.touch i fun s => s.trigger j).wakes
  granted : m.step.granted =
    m.granted ++ (m.world.touch i fun s => s.trigger j).events.filterMap Event.granted?

/-- The next step cancels token `t`, which is another one's child. -/
structure Fires (m : Machine P) (t : Nat) : Prop where
  next : ∃ ts rest, m.agenda = .cancel (t :: ts) :: rest
  alive : m.world.tokens.isAlive t = true
  world : m.step.world = { m.world with tokens := (m.world.tokens.fire t).1 }
  gathers : m.gathers = (m.world.tokens.fire t).2
  granted : m.step.granted = m.granted

theorem cases_of_cancels (planned : m.agenda = f :: rest) (cancels : f.cancels = true)
    (idle : m.next? = none) : m.Idles ∨ (∃ i j, m.Rouses i j) ∨ ∃ t, m.Fires t := by
  obtain ⟨world, agenda, script, woken, wakes, nested, events, reports⟩ := m
  obtain rfl : agenda = f :: rest := planned
  cases f with
  | wake aside ws =>
    rcases ws with _ | ⟨name | _ | ⟨i, j⟩, ws⟩
    · exact .inl ⟨rfl, rfl, .refl _, rfl, rfl, rfl⟩
    · left
      rcases found : world.onWake.find? name with _ | steps <;>
      refine ⟨?_, ?_, ?_, rfl, rfl, ?_⟩ <;>
      simp [step, perform, wake, push, found, granted, Tokens.Fades.refl]
    · exact .inl ⟨rfl, rfl, .refl _, rfl, rfl, rfl⟩
    · refine .inr (.inl ⟨i, j, rfl, rfl, rfl, ?_⟩)
      simp [step, perform, wake, push, follow, report, granted]
  | run steps =>
    rcases steps with _ | ⟨s, ss⟩
    · exact .inl ⟨rfl, rfl, .refl _, rfl, rfl, rfl⟩
    · cases idle
  | children p => exact .inl ⟨rfl, rfl, world.tokens.fades_takeChildren p, rfl, rfl, rfl⟩
  | cancel ts =>
    rcases ts with _ | ⟨t, ts⟩
    · exact .inl ⟨rfl, rfl, .refl _, rfl, rfl, rfl⟩
    · by_cases fires : (world.tokens.isAlive t && !world.tokens.isCancelled t) = true
      · refine .inr (.inr ⟨t, ⟨ts, rest, rfl⟩, (Bool.and_eq_true_iff.mp fires).1, ?_, ?_, ?_⟩)
        · simp [step, perform, cancelChild, push, report, fires]
        · simp [gathers, gathersFor, fires]
        · simp [step, perform, cancelChild, push, report, fires, granted, Event.granted?]
      · have spared : step ⟨world, .cancel (t :: ts) :: rest, script, woken, wakes, nested, events,
            reports⟩ = ⟨world, .cancel ts :: rest, script, woken, wakes, nested, events, reports⟩ :=
          if_neg fires
        left
        refine ⟨?_, ?_, ?_, rfl, if_neg fires, ?_⟩ <;> rw [spared]
        · exact .refl _
        · rfl
  | finish top answer =>
    left
    cases top
    · exact ⟨rfl, rfl, .refl _, rfl, rfl, rfl⟩
    · refine ⟨rfl, rfl, .refl _, rfl, rfl, ?_⟩
      simp [step, perform, deliver, granted]
  | _ => cases cancels

variable {w₀ : World P} {R : Nat → Prop} {i j : Nat}

/-- Of the tokens of `R` one comes only to tokens of `R`, and nobody waits with one of them but who is
in slot `j` of synchronizer `i`. -/
structure Sole (w₀ : World P) (R : Nat → Prop) (i j : Nat) : Prop where
  closed : ∀ p c, R p → c ∈ w₀.tokens.childrenOf p → w₀.tokens.isAlive c = true → R c
  alone : ∀ k l a r, w₀.arms? k l = some a → a.registration = some r → R r.token → (k, l) = (i, j)

theorem Sole.aims (sole : Sole w₀ R i j) (serves : m.watch.Serves False)
    (arms : ∀ k l a, m.world.arms? k l = some a → w₀.arms? k l = some a) {t : Nat} (reached : R t)
    {p : Nat × Nat} (hp : p ∈ targets (m.world.tokens.fire t).2) : p = (i, j) := by
  obtain ⟨k, l⟩ := p
  obtain ⟨n, l', hl, waker⟩ := listener?_of_fire (trigger_of_mem_targets hp)
  obtain ⟨a, ha, registration⟩ := serves.tokens.owned t n l' k l hl waker
  exact sole.alone k l a _ (arms k l a ha) registration reached

/-- What is left of a call that began in `w₀` concerns nobody but who is in slot `j` of
synchronizer `i`. -/
structure Confined (w₀ : World P) (R : Nat → Prop) (i j : Nat) (m : Machine P) : Prop where
  within : ∀ f ∈ m.agenda, f.Within w₀.tokens R
  tokens : w₀.tokens.Fades m.world.tokens
  arms : ∀ k l a, m.world.arms? k l = some a → w₀.arms? k l = some a
  aims : ∀ p ∈ targets m.due, ∀ a, m.world.arms? p.1 p.2 = some a → p = (i, j)

theorem within_of_rouses {ts : Tokens} (h : f.rouses = true) : f.Within ts R := by
  cases f with
  | wake | run => trivial
  | _ => cases h

theorem Confined.within_step (h : m.Confined w₀ R i j) (sole : Sole w₀ R i j)
    (planned : m.agenda = f :: rest) (idle : m.next? = none) :
    ∀ g ∈ m.step.agenda, g.Within w₀.tokens R := by
  have within := h.within
  rw [planned] at within
  obtain ⟨first, others⟩ := List.forall_mem_cons.mp within
  suffices new : ∃ F, m.step.agenda = F ++ rest ∧ ∀ g ∈ F, g.Within w₀.tokens R by
    obtain ⟨F, plan, all⟩ := new
    rw [plan]
    exact fun g hg => (List.mem_append.mp hg).elim (all g) (others g)
  by_cases rouses : f.rouses = true
  · obtain ⟨⟨F, plan, all⟩, -⟩ := step_of_rouses planned rouses idle
    exact ⟨F, plan, fun g hg => within_of_rouses (all g hg)⟩
  have tokens := h.tokens
  obtain ⟨world, agenda, script, woken, wakes, nested, events, reports⟩ := m
  obtain rfl : agenda = f :: rest := planned
  cases f with
  | wake | run => exact absurd rfl rouses
  | children p =>
    refine ⟨[.cancel (world.tokens.childrenOf p)], rfl, ?_⟩
    intro g hg
    obtain rfl := List.mem_singleton.mp hg
    exact fun c hc alive => sole.closed p c first (tokens.children p hc) alive
  | cancel ts =>
    rcases ts with _ | ⟨t, ts⟩
    · exact ⟨[], rfl, by simp⟩
    obtain ⟨own, later⟩ := List.forall_mem_cons.mp first
    by_cases fires : (world.tokens.isAlive t && !world.tokens.isCancelled t) = true
    · refine ⟨[.wake false (world.tokens.fire t).2, .children t, .cancel ts], ?_, ?_⟩
      · simp [step, perform, cancelChild, push, report, fires]
      · simp only [List.forall_mem_cons, List.not_mem_nil, false_imp_iff, implies_true, and_true]
        exact ⟨trivial, own (tokens.alive t (Bool.and_eq_true_iff.mp fires).1), later⟩
    · refine ⟨[.cancel ts], ?_, fun g hg => ?_⟩
      · simp [step, perform, cancelChild, push, fires]
      · obtain rfl := List.mem_singleton.mp hg
        exact later
  | finish top answer => exact ⟨[], agenda_deliver _ top answer, by simp⟩
  | _ => exact first.elim

theorem Confined.step (h : m.Confined w₀ R i j) (sole : Sole w₀ R i j) (plays : m.Plays)
    (tame : m.world.Tame) (serves : m.watch.Serves False) (planned : m.agenda = f :: rest)
    (idle : m.next? = none) : m.step.Confined w₀ R i j := by
  have within := h.within_step sole planned idle
  have cancels := (h.within f (planned ▸ List.mem_cons_self)).cancels
  obtain ⟨later, before, after⟩ := m.targets_step
  have later_aims (p : Nat × Nat) (hp : p ∈ later) := h.aims p (before ▸ List.mem_append_right _ hp)
  rcases cases_of_cancels planned cancels idle with idles | ⟨k, l, rouses⟩ | ⟨t, fires⟩
  · have arms : m.step.world.arms? = m.world.arms? := by
      unfold World.arms?
      rw [idles.syncs]
    refine ⟨within, h.tokens.trans idles.tokens, by rw [arms]; exact h.arms, ?_⟩
    rw [after, idles.gathers, arms]
    exact later_aims
  · obtain ⟨x, works⟩ : m.world.Steps none (m.world.touch k fun s => s.trigger l).world :=
      World.Plays.visit_lapses plays _ _ _ fun s _ _ _ => s.trigger_lapses l
    have follows := (works.follows (by simp)).1
    rw [← rouses.world] at follows
    have arms (x y : Nat) (a : Arms) (ha : m.step.world.arms? x y = some a) :
        m.world.arms? x y = some a := World.arms?_of_trigger (rouses.world ▸ ha)
    refine ⟨within, h.tokens.trans follows.fades, fun x y a ha => h.arms x y a (arms x y a ha), ?_⟩
    rw [after, rouses.gathers, tame.targets_trigger]
    exact fun p hp a ha => later_aims p hp a (arms p.1 p.2 a ha)
  · have arms : m.step.world.arms? = m.world.arms? := by
      unfold World.arms?
      rw [fires.world]
    refine ⟨within, ?_, by rw [arms]; exact h.arms, ?_⟩
    · rw [fires.world]
      exact h.tokens.trans (m.world.tokens.fades_fire t)
    · rw [after, arms]
      intro p hp a ha
      rcases List.mem_append.mp hp with new | old
      · obtain ⟨ts, rest', agenda⟩ := fires.next
        have listed : (Frame.cancel (t :: ts)).Within w₀.tokens R :=
          h.within _ (agenda ▸ List.mem_cons_self)
        have reached : R t := listed t List.mem_cons_self (h.tokens.alive t fires.alive)
        exact sole.aims serves h.arms reached (fires.gathers ▸ new)
      · exact later_aims p old a ha

/-! ## One wake and those that come after it -/

variable {s : Sync P} {e : Petition P.Request} {G : List Nat}

/-- Nothing has happened yet to any line, and the acquisition `e` in slot `j` of synchronizer `i` is
still to be woken. -/
structure Leaving (w₀ : World P) (G : List Nat) (i j : Nat) (e : Petition P.Request) (m : Machine P) :
    Prop where
  syncs : m.world.syncs = w₀.syncs
  granted : m.granted = G
  due : (i, j) ∈ targets m.due
  ends : e.Ends m.world.timers.now m.world.tokens.isCancelled

/-- The acquisition in slot `j` of synchronizer `i`, which had ticket `t` in `s`, has left the line, and
nothing else has happened. -/
structure Gone (w₀ : World P) (G : List Nat) (i j : Nat) (s : Sync P) (t : Nat) (m : Machine P) :
    Prop where
  syncs : ∃ u, m.world.syncs = w₀.syncs.setIfInBounds i u ∧ s.Without t u
  granted : m.granted = G ++ (s.successors t).map (·.ticket)
  unarmed : m.world.arms? i j = none

theorem Rouses.still {k l : Nat} (h : m.Rouses k l) (unarmed : m.world.arms? k l = none) :
    m.step.world = m.world ∧ m.gathers = [] ∧ m.step.granted = m.granted := by
  obtain ⟨-, world, gathers, granted⟩ := h
  rw [World.touch_of_unarmed unarmed] at world gathers granted
  exact ⟨world, gathers, granted.trans (List.append_nil _)⟩

theorem Confined.unarmed {k l : Nat} (h : m.Confined w₀ R i j) (rouses : m.Rouses k l)
    (apart : (k, l) ≠ (i, j)) : m.world.arms? k l = none := by
  by_contra armed
  obtain ⟨a, ha⟩ := Option.ne_none_iff_exists'.mp armed
  obtain ⟨later, before, -⟩ := m.targets_step
  refine apart (h.aims (k, l) ?_ a ha)
  rw [before, rouses.waking]
  exact List.mem_cons_self

theorem Leaving.step (h : m.Leaving w₀ G i j e) (confined : m.Confined w₀ R i j)
    (hs : w₀.syncs[i]? = some s) (waits : w₀.petition? i j = some e) (tame : m.world.Tame)
    (planned : m.agenda = f :: rest) (idle : m.next? = none) :
    m.step.Leaving w₀ G i j e ∨ m.step.Gone w₀ G i j s e.ticket := by
  obtain ⟨later, before, after⟩ := m.targets_step
  have due := h.due
  rw [before] at due
  have cancels := (confined.within f (planned ▸ List.mem_cons_self)).cancels
  rcases cases_of_cancels planned cancels idle with idles | ⟨k, l, rouses⟩ | ⟨t, fires⟩
  · rw [idles.waking] at due
    refine .inl ⟨idles.syncs.trans h.syncs, idles.granted.trans h.granted, ?_, ?_⟩
    · rw [after, idles.gathers]
      exact due
    · rw [idles.timers]
      exact h.ends.fades idles.tokens
  · rw [rouses.waking] at due
    by_cases here : (k, l) = (i, j)
    · obtain ⟨rfl, rfl⟩ := Prod.mk.inj here
      right
      have hs' : m.world.syncs[k]? = some s := by rw [h.syncs, hs]
      have waits' : m.world.petition? k l = some e := by
        rw [World.petition?_eq hs', ← World.petition?_eq hs, waits]
      obtain ⟨⟨u, syncs, without⟩, granted, unarmed⟩ := tame.trigger_without hs' waits' h.ends
      refine ⟨⟨u, ?_, without⟩, ?_, ?_⟩
      · rw [rouses.world, syncs, h.syncs]
      · rw [rouses.granted, h.granted, granted]
      · rw [rouses.world, unarmed]
    · obtain ⟨world, gathers, granted⟩ := rouses.still (confined.unarmed rouses here)
      refine .inl ⟨by rw [world, h.syncs], granted.trans h.granted, ?_, by rw [world]; exact h.ends⟩
      rw [after, gathers]
      exact (List.mem_cons.mp due).resolve_left (Ne.symm here)
  · have silent : m.waking? = none := by
      obtain ⟨ts, rest', agenda⟩ := fires.next
      rw [waking?, agenda]
    rw [silent] at due
    refine .inl ⟨by rw [fires.world, h.syncs], fires.granted.trans h.granted, ?_, ?_⟩
    · rw [after]
      exact List.mem_append_right _ due
    · rw [fires.world]
      exact h.ends.fades (m.world.tokens.fades_fire t)

theorem Gone.step {t : Nat} (h : m.Gone w₀ G i j s t) (confined : m.Confined w₀ R i j)
    (planned : m.agenda = f :: rest) (idle : m.next? = none) : m.step.Gone w₀ G i j s t := by
  have cancels := (confined.within f (planned ▸ List.mem_cons_self)).cancels
  suffices still : m.step.world.syncs = m.world.syncs ∧ m.step.granted = m.granted by
    obtain ⟨u, syncs, without⟩ := h.syncs
    refine ⟨⟨u, still.1.trans syncs, without⟩, still.2.trans h.granted, ?_⟩
    rw [← h.unarmed, World.arms?, still.1, World.arms?]
  rcases cases_of_cancels planned cancels idle with idles | ⟨k, l, rouses⟩ | ⟨c, fires⟩
  · exact ⟨idles.syncs, idles.granted⟩
  · have unarmed : m.world.arms? k l = none := by
      by_cases here : (k, l) = (i, j)
      · obtain ⟨rfl, rfl⟩ := Prod.mk.inj here
        exact h.unarmed
      · exact confined.unarmed rouses here
    obtain ⟨world, -, granted⟩ := rouses.still unarmed
    exact ⟨by rw [world], granted⟩
  · exact ⟨by rw [fires.world], fires.granted⟩

theorem Fresh.gone {m₀ : Machine P} (fresh : m₀.Fresh) {k n : Nat} (returns : m₀.Returns k n)
    (alone : m₀.Undisturbed k) (sole : Sole w₀ R i j) (hs : w₀.syncs[i]? = some s)
    (waits : w₀.petition? i j = some e) (confined : (step^[k + 1] m₀).Confined w₀ R i j)
    (begun : (step^[k + 1] m₀).Leaving w₀ G i j e ∨
      (step^[k + 1] m₀).Gone w₀ G i j s e.ticket) :
    (step^[n] m₀).Gone w₀ G i j s e.ticket := by
  have either : (step^[n] m₀).Confined w₀ R i j ∧
      ((step^[n] m₀).Leaving w₀ G i j e ∨ (step^[n] m₀).Gone w₀ G i j s e.ticket) := by
    refine returns.induct alone
      (I := fun m => m.Confined w₀ R i j ∧ (m.Leaving w₀ G i j e ∨ m.Gone w₀ G i j s e.ticket))
      ⟨confined, begun⟩ fun l _ busy quiet ih => ?_
    obtain ⟨confined, begun⟩ := ih
    obtain ⟨f, rest, planned⟩ := List.exists_cons_of_ne_nil busy
    refine ⟨confined.step sole (fresh.plays l) (fresh.tame l) (fresh.serves_if False.elim) planned
      quiet, ?_⟩
    rcases begun with leaving | gone
    · exact leaving.step confined hs waits (fresh.tame l) planned quiet
    · exact .inr (gone.step confined planned quiet)
  rcases either.2 with leaving | gone
  · have due := leaving.due
    rw [Machine.due, returns.done] at due
    cases due
  · exact gone

end Machine

end Turnstile
