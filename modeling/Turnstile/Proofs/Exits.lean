import Turnstile.Proofs.Departing

/-!
# Three ways out of the line

A pending acquisition leaves the line when its future is dropped, when a token is cancelled with which
only it waits, or when the timers are processed after its time has run out and no other's. The others
cannot tell which it was, nor whether its future is polled afterwards.
-/

namespace Turnstile

variable {P : Policy}

/-! ## Deadlines -/

namespace World

variable {w w' : World P} {ask : Option (Nat × Asking)} {i j : Nat}

/-- The timers stand in the order in which they fire, and that of a waiter fires at its deadline. -/
structure Timed (w : World P) : Prop where
  sound : w.timers.Sound
  deadlines : ∀ i j a, w.arms? i j = some a → a.timer.map (·.deadline) = a.deadline

theorem Timed.of_arms (h : w.Timed) (sound : w'.timers.Sound)
    (arms : ∀ i j a, w'.arms? i j = some a → w.arms? i j = some a) : w'.Timed :=
  ⟨sound, fun i j a ha => h.deadlines i j a (arms i j a ha)⟩

theorem timed_of_arm {timers timers' : Timers} {timeout : Timeout} {waker : Waker} {a : Arms}
    (sound : timers.Sound) (armed : Section.arm timers timeout waker = (timers', a.deadline, a.timer)) :
    timers'.Sound ∧ a.timer.map (·.deadline) = a.deadline := by
  cases timeout with
  | forever =>
    obtain ⟨rfl, rest⟩ := Prod.mk.inj armed
    obtain ⟨deadline, timer⟩ := Prod.mk.inj rest
    rw [← deadline, ← timer]
    exact ⟨sound, rfl⟩
  | after d =>
    obtain ⟨rfl, rest⟩ := Prod.mk.inj armed
    obtain ⟨deadline, timer⟩ := Prod.mk.inj rest
    rw [← deadline, ← timer]
    exact ⟨sound.register _ _, rfl⟩

theorem Timed.visit (h : w.Timed) (q : w.Steps ask w') : w'.Timed := by
  obtain ⟨i, works⟩ := q
  refine works.keeps (I := World.Timed) h (fun s hi t u q ih => ?_) (fun s hi t u j a q ih => ?_)
    fun s hi q _ t u j a enrols ih => ?_
  · refine ih.of_arms ?_ ?_
    · show u.timers.Sound
      rw [q.timers]
      exact ih.sound
    · rw [outside_silent hi q]
      exact fun _ _ _ hb => hb
  · refine ih.of_arms ?_ fun k l b hb => ((outside_lapse hi q).2.old hb).1
    show u.timers.Sound
    rw [q.timers]
    rcases a.timer with _ | key
    · exact ih.sound
    · exact Timers.Sound.cancel ih.sound key
  · obtain ⟨sound, deadline⟩ := timed_of_arm ih.sound enrols.timers
    refine ⟨sound, fun k l b hb => ?_⟩
    rcases (outside_enrols hi enrols).cases hb with ⟨-, -, rfl⟩ | hb
    · exact deadline
    · exact ih.deadlines k l b hb

theorem Timed.takes (h : w.Timed) (owned : w.Owned) {key : TimerKey} {a : Arms} {d : Time}
    (registered : (key, .trigger i j) ∈ w.timers.pending) (ha : w.arms? i j = some a)
    (deadline : a.deadline = some d) (due : d ≤ w.timers.now) :
    .trigger i j ∈ w.timers.takeDue.2.map Prod.snd := by
  obtain ⟨b, hb, timer⟩ := owned key i j registered
  obtain rfl := Option.some.inj (hb.symm.trans ha)
  have own := h.deadlines i j b hb
  rw [timer, deadline] at own
  have same : key.deadline = d := Option.some.inj own
  rcases Timers.fires_or_stays registered with ⟨-, taken⟩ | stays
  · exact List.mem_map_of_mem taken
  · exact absurd (same ▸ due) (h.sound.stays stays)

end World

theorem Watch.Goes.timed {x y : Watch P} {ask : Option (Nat × Asking)} (h : x.Goes False ask y)
    (timed : x.world.Timed) : y.world.Timed := by
  induction h with
  | refl => exact timed
  | @still y z _ q ih =>
    refine ih.of_arms (by rw [q.timers]; exact ih.sound) fun i j a ha => ?_
    unfold World.arms? at ha ⊢
    rwa [← q.syncs]
  | visit _ q ih | woken _ q _ _ _ ih => exact ih.visit q
  | found _ _ idle ih =>
    refine ih.of_arms ih.sound fun i j a ha => ?_
    rwa [World.arms?_push idle] at ha
  | clock _ _ _ _ ih =>
    exact ih.of_arms ⟨ih.sound.numbered, ih.sound.distinct, ih.sound.sorted⟩ fun _ _ _ ha => ha
  | clear _ _ ih => exact ih.of_arms (ih.sound.sublist (List.nil_sublist _)) fun _ _ _ ha => ha
  | due _ ih => exact ih.of_arms ih.sound.takeDue fun _ _ _ ha => ha
  | timer d waker _ _ ih => exact ih.of_arms (ih.sound.register d _) fun _ _ _ ha => ha
  | untimer _ _ ih => exact ih.of_arms (ih.sound.cancel _) fun _ _ _ ha => ha
  | fire | mint | subscribe | unsubscribe =>
    rename_i ih
    exact ih.of_arms ih.sound fun _ _ _ ha => ha

theorem Machine.Fresh.timed {m₀ : Machine P} (fresh : m₀.Fresh) (n : Nat) :
    (step^[n] m₀).world.Timed := by
  induction n with
  | zero =>
    obtain ⟨now, ownClock, running, script, rfl⟩ := fresh
    refine ⟨⟨nofun, List.nodup_nil, .nil⟩, fun i j a ha => ?_⟩
    simp [ofScript, World.blank, World.arms?] at ha
  | succ n ih =>
    rw [Function.iterate_succ_apply']
    exact (goes_step (fresh.plays n) fun c : False => c.elim).timed ih

/-! ## Steps of the script -/

/-- The time to which a step moves the clock. -/
def Step.moves? (w : World P) : Step P → Option Time
  | .advance nanos => some (w.clock.advance nanos)
  | .advanceTo t => some (w.clock.advanceTo t)
  | .setClock t => some t
  | _ => none

namespace Machine

variable {m : Machine P} {x : Step P} {rest : List (Step P)}

theorem step_of_script {t : Turn P} (idle : m.agenda = []) (script : m.script = x :: rest)
    (begins : ∀ m' : Machine P, m'.world = m.world → m'.begin true x = m'.take true t) :
    m.step.world = t.world ∧ m.step.script = rest ∧
      m.step.agenda = .wake false t.wakes :: (t.firing.toList.map .children ++
        t.put.toList.map (fun p : String × Item P => .put p.1 p.2) ++ t.held.toList.map .letGo ++
        [.finish true t.answer]) ∧
      m.step.granted = m.granted ++ t.events.filterMap Event.granted? := by
  have begun : m.step = ({ m with script := rest } : Machine P).take true t := by
    unfold step
    rw [idle, script]
    exact begins _ rfl
  rw [begun]
  refine ⟨rfl, rfl, ?_, ?_⟩
  · simp [take, push, report, idle]
  · simp [take, push, report, granted]

/-- The script goes on with these steps. -/
def andThen (m : Machine P) (steps : List (Step P)) : Machine P :=
  { m with script := m.script ++ steps }

theorem begin_andThen (m : Machine P) (top : Bool) (x : Step P) (steps : List (Step P)) :
    (m.andThen steps).begin top x = (m.begin top x).andThen steps := by
  cases x <;> rfl

theorem elapse_andThen (m : Machine P) (top : Bool) (again : Frame P) (steps : List (Step P)) :
    (m.andThen steps).elapse top again = (m.elapse top again).andThen steps := by
  unfold elapse
  rw [show (m.andThen steps).world.elapse? = m.world.elapse? from rfl]
  rcases m.world.elapse? with _ | v
  · cases top <;> rfl
  · rfl

theorem perform_andThen (m : Machine P) (f : Frame P) (steps : List (Step P)) :
    (m.andThen steps).perform f = (m.perform f).andThen steps := by
  cases f with
  | wake aside ws =>
    rcases ws with _ | ⟨name | _ | ⟨i, j⟩, ws⟩
    · rfl
    · simp only [perform, wake, push, andThen]
      rcases m.world.onWake.find? name with _ | ss <;> rfl
    · rfl
    · rfl
  | cancel ts =>
    rcases ts with _ | ⟨t, ts⟩
    · rfl
    · rcases fires : (m.world.tokens.isAlive t && !m.world.tokens.isCancelled t) with _ | _ <;>
      simp [perform, cancelChild, push, report, andThen, fires]
  | run ss =>
    rcases ss with _ | ⟨x, ss⟩
    · rfl
    · exact begin_andThen (m.push [.run ss]) false x steps
  | put slot item =>
    simp only [perform, put, andThen]
    rcases m.world.slots.find? slot with _ | old <;> rfl
  | finish top answer => cases top <;> rfl
  | await top slot =>
    have same : (m.andThen steps).world = m.world := rfl
    simp only [perform, await, same]
    rcases (m.world.poll slot .sleeper).put with _ | ⟨name, item⟩
    · rfl
    · cases (m.world.poll slot .sleeper).answer with
      | pending => exact elapse_andThen { m with world := _ } top _ steps
      | _ => rfl
  | awaitWaker top waker =>
    have same : (m.andThen steps).woken = m.woken := rfl
    simp only [perform, same]
    by_cases woken : waker ∈ m.woken
    · rw [if_pos woken, if_pos woken]
      cases top <;> rfl
    · rw [if_neg woken, if_neg woken]
      exact m.elapse_andThen top _ steps
  | children | letGo => rfl

theorem step_andThen (undone : m.isDone = false) (steps : List (Step P)) :
    (m.andThen steps).step = m.step.andThen steps := by
  obtain ⟨world, agenda, script, woken, wakes, nested, events, reports⟩ := m
  rcases agenda with _ | ⟨f, rest⟩
  · rcases script with _ | ⟨x, script⟩
    · cases undone
    · exact begin_andThen ⟨world, [], script, woken, wakes, nested, events, reports⟩ true x steps
  · exact perform_andThen ⟨world, rest, script, woken, wakes, nested, events, reports⟩ f steps

theorem iterate_andThen {n : Nat} (undone : ∀ j < n, (step^[j] m).isDone = false)
    (steps : List (Step P)) : step^[n] (m.andThen steps) = (step^[n] m).andThen steps := by
  induction n with
  | zero => rfl
  | succ n ih =>
    rw [Function.iterate_succ_apply', ih fun j hj => undone j (Nat.lt_succ_of_lt hj),
      Function.iterate_succ_apply', step_andThen (undone n (Nat.lt_succ_self n))]

theorem steps_of_moves {now : Time} (idle : m.agenda = []) (script : m.script = x :: rest)
    (moves : x.moves? m.world = some now) :
    (step^[3] m).world = m.world.setClock now ∧ (step^[3] m).agenda = [] ∧
      (step^[3] m).script = rest ∧ (step^[3] m).granted = m.granted := by
  obtain ⟨world, agenda, script', woken, wakes, nested, events, reports⟩ := m
  obtain rfl : agenda = [] := idle
  obtain rfl : script' = x :: rest := script
  cases x with
  | advance | advanceTo | setClock =>
    obtain rfl := Option.some.inj moves
    refine ⟨rfl, rfl, rfl, ?_⟩
    simp [step, begin, World.start, World.moveClock, World.reply, take, push, report, perform,
      deliver, granted]
  | _ => cases moves

end Machine

/-! ## The future is dropped -/

/-- The synchronizer and the rental of the future in an item, if it waits. -/
def Item.place? : Item P → Option (Nat × WaiterId)
  | .acquisition i _ _ (.waiting id) | .locking i _ (some (.waiting id)) => some (i, id)
  | _ => none

theorem Item.place?_eq_some {item : Item P} {i : Nat} {id : WaiterId}
    (h : item.place? = some (i, id)) :
    (∃ r lenient, item = .acquisition i r lenient (.waiting id)) ∨
      ∃ r, item = .locking i r (some (.waiting id)) := by
  unfold place? at h
  split at h
  · obtain ⟨rfl, rfl⟩ := Prod.mk.inj (Option.some.inj h)
    exact .inl ⟨_, _, rfl⟩
  · obtain ⟨rfl, rfl⟩ := Prod.mk.inj (Option.some.inj h)
    exact .inr ⟨_, rfl⟩
  · cases h

namespace World

theorem setClock_syncs (w : World P) (now : Time) : (w.setClock now).syncs = w.syncs := by
  unfold setClock
  split <;> rfl

theorem setClock_pending (w : World P) (now : Time) :
    (w.setClock now).timers.pending = w.timers.pending := by
  unfold setClock
  split <;> rfl

variable {w : World P} {items : List (Item P)} {item : Item P} {i : Nat} {id : WaiterId} {s : Sync P}
  {e : Petition P.Request}

theorem Plays.get?_of_place? (h : w.Plays items) (kept : item ∈ items)
    (place : item.place? = some (i, id)) (hs : w.syncs[i]? = some s) :
    ∃ v, s.line.pool.get? id = some v := by
  have current : s.line.pool.IsCurrent id := by
    have stands := h.stands kept
    obtain ⟨r, lenient, rfl⟩ | ⟨r, rfl⟩ := Item.place?_eq_some place
    · exact Stage.StandsAt.stands stands hs id rfl
    · exact Stage.StandsAt.stands stands hs id rfl
  obtain ⟨d, L, rests⟩ := h.rests hs
  obtain ⟨v, hv⟩ := current.rented?_ne_none rests.sound
  exact ⟨v, Pool.get?_eq_some.mpr ⟨current, hv⟩⟩

theorem discard_of_place? (place : item.place? = some (i, id)) :
    w.discard item = w.touch i fun s => s.leave id true := by
  obtain ⟨r, lenient, rfl⟩ | ⟨r, rfl⟩ := Item.place?_eq_some place
  · rfl
  · rfl

theorem drop_of_place? {slot : String} (found : w.slots.find? slot = some item)
    (place : item.place? = some (i, id)) (hs : w.syncs[i]? = some s) :
    w.drop slot =
      { world := { w.outside i ((w.inside s).leave id true) with slots := w.slots.erase slot }
        answer := .dropped
        wakes := ((w.inside s).leave id true).wakes
        events := ((w.inside s).leave id true).events } := by
  have emptied : ({ w with slots := w.slots.erase slot } : World P).syncs[i]? = some s := hs
  unfold drop lookup
  rw [found]
  dsimp only
  rw [discard_of_place? place, touch_eq emptied]
  rfl

end World

namespace Machine

variable {m m₀ : Machine P} {k i j : Nat} {s : Sync P} {e : Petition P.Request}

theorem sole_of_none (w : World P) (i j : Nat) : Sole w (fun _ => False) i j :=
  ⟨fun _ _ none => none.elim, fun _ _ _ _ _ _ none => none.elim⟩

theorem Plays.dropped (plays : m.Plays) (tame : m.world.Tame) {slot : String}
    {rest : List (Step P)} {item : Item P} {id : WaiterId} (idle : m.agenda = [])
    (script : m.script = .drop slot :: rest) (found : m.world.slots.find? slot = some item)
    (place : item.place? = some (i, id)) (hs : m.world.syncs[i]? = some s)
    (waits : m.world.petition? i id.slot = some e) :
    m.step.Confined m.world (fun _ => False) i id.slot ∧
      m.step.Gone m.world m.granted i id.slot s e.ticket := by
  obtain ⟨v, hv⟩ := World.Plays.get?_of_place? plays
    (List.mem_append_left _ (World.mem_items found)) place hs
  obtain ⟨u, hu, hp⟩ := Option.bind_eq_some_iff.mp ((World.petition?_eq hs _).symm.trans waits)
  obtain rfl : v = u :=
    Option.some.inj ((Section.waiter?_of_get? (s := m.world.inside s) hv).symm.trans hu)
  obtain ⟨L, rests⟩ := tame.rests hs
  obtain ⟨without, granted, wakes, unarmed⟩ := rests.leave_without (tame i s hs).docket hv
    (Waiter.pending_of_petition? hp)
  rw [← Waiter.ticket_of_petition? hp] at without granted
  have lapses := rests.leave_lapses id true
  have works : m.world.Works i none (m.world.outside i ((m.world.inside s).leave id true)) :=
    .visited hs (lapses.works _)
  obtain ⟨world, -, agenda, grants⟩ := m.step_of_script idle script fun m' same =>
    (show m'.begin true (.drop slot) = m'.take true (m.world.drop slot) by rw [← same]; rfl)
  rw [World.drop_of_place? found place hs] at world agenda grants
  have arms : m.step.world.arms? = (m.world.outside i ((m.world.inside s).leave id true)).arms? := by
    rw [world]
    rfl
  refine ⟨⟨?_, ?_, fun k l a ha => ?_, ?_⟩, ⟨_, by rw [world]; rfl, without⟩,
    grants.trans (congrArg _ granted), ?_⟩
  · rw [agenda]
    simp [Frame.Within]
  · rw [world]
    exact (works.follows (by simp)).1.fades
  · rw [arms, World.outside_arms? hs] at ha
    split at ha
    · rename_i here
      subst here
      rw [World.arms?_inside hs]
      exact lapses.arms? ha
    · exact ha
  · have nobody : targets m.step.due = [] := by
      rw [due, agenda]
      simpa [Frame.wakers] using wakes
    rw [nobody]
    simp
  · rw [arms, World.outside_arms? hs, if_pos rfl]
    exact unarmed

end Machine

/-! ## Its token is cancelled -/

theorem Tokens.mem_fire_of_hears {ts : Tokens} {r : Registration} {waker : Waker}
    (hears : ts.Hears r waker) : waker ∈ (ts.fire r.token).2 := by
  obtain ⟨f, hf, listed⟩ := Option.bind_eq_some_iff.mp hears
  rw [fire_wakers, hf]
  exact List.mem_filterMap.mpr ⟨_, Array.mem_toList_iff.mpr (Array.mem_of_getElem? listed), rfl⟩

namespace Machine

variable {m m₀ : Machine P} {k i j : Nat} {e : Petition P.Request}

/-- Of all who wait only `e` at synchronizer `i` does so with token `t` or with one below it. -/
def Uses (m₀ : Machine P) (k t i : Nat) (e : Petition P.Request) : Prop :=
  ∀ (i' : Nat) (s : Sync P), (step^[k] m₀).world.syncs[i']? = some s → ∀ e' ∈ s.petitions,
    ∀ c ∈ e'.token, m₀.Below k t c → i' = i ∧ e'.ticket = e.ticket

theorem Fresh.sole_of_uses (fresh : m₀.Fresh) {t : Nat} (uses : m₀.Uses k t i e)
    (waits : (step^[k] m₀).world.petition? i j = some e) :
    Sole (step^[k] m₀).world (m₀.Below k t) i j := by
  refine ⟨fun p c below hc alive => below.tail ⟨mem_heirs.mp ((fresh.children k p).subset hc), alive⟩,
    fun k' l a r ha hr below => ?_⟩
  obtain ⟨s, hs, -⟩ := Option.bind_eq_some_iff.mp ha
  obtain ⟨e', waits', fits'⟩ := (fresh.tame k).petition?_of_arms? ha
  have token : e'.token = some r.token := by
    rw [← fits'.token, hr]
    rfl
  obtain ⟨rfl, ticket⟩ :=
    uses k' s hs e' (((fresh.tame k).mem_petitions hs).mpr ⟨l, waits'⟩) r.token token below
  obtain ⟨b, hb, fits⟩ := World.arms?_of_petition? waits
  have same : a.ticket = b.ticket := fits'.ticket.trans (ticket.trans fits.ticket.symm)
  rw [World.Plays.slot_unique (fresh.plays k) ha hb same]

theorem mem_targets_fire {t : Nat} (serves : m.watch.Serves False) (idle : m.agenda = [])
    (waits : m.world.petition? i j = some e) (token : e.token = some t) :
    (i, j) ∈ targets (m.world.tokens.fire t).2 := by
  obtain ⟨a, ha, fits⟩ := World.arms?_of_petition? waits
  obtain ⟨r, hr, rfl⟩ := Option.map_eq_some_iff.mp (fits.token.trans token)
  rcases serves.tokens.armed i j a ha r hr with ⟨-, hears⟩ | ⟨-, owed⟩
  · exact mem_targets (Tokens.mem_fire_of_hears hears)
  · have nobody : attended Frame.cancelling m.agenda = [] := by
      rw [idle]
      rfl
    rw [show m.watch.early = _ from nobody] at owed
    cases owed

theorem Cancels.granted {t : Nat} (h : m.Cancels t) : m.step.granted = m.granted := by
  obtain ⟨idle, name, rest, script, named⟩ := cancelling?_eq_some h.call
  have told : (m.world.cancel t).events = [.tokenFired (m.world.tokens.fire t).2.length] := by
    unfold World.cancel
    rw [if_neg (by simp [h.free])]
  obtain ⟨-, -, -, grants⟩ := m.step_of_script idle script fun m' same =>
    (show m'.begin true (.cancel name) = m'.take true (m.world.cancel t) by
      simp only [begin, World.start, World.lookup, same, named])
  rw [grants, told]
  exact List.append_nil _

theorem Fresh.cancelled (fresh : m₀.Fresh) {t : Nat} (call : (step^[k] m₀).Cancels t)
    (uses : m₀.Uses k t i e) (waits : (step^[k] m₀).world.petition? i j = some e)
    (token : e.token = some t) :
    (step^[k + 1] m₀).Confined (step^[k] m₀).world (m₀.Below k t) i j ∧
      (step^[k + 1] m₀).Leaving (step^[k] m₀).world (step^[k] m₀).granted i j e := by
  have serves : (step^[k] m₀).watch.Serves False := fresh.serves_if False.elim
  have sole := fresh.sole_of_uses uses waits
  have gone := fresh.stays_cancelled call.call (Nat.lt_succ_self k)
  obtain ⟨world, agenda⟩ := call.begins
  rw [Function.iterate_succ_apply'] at gone ⊢
  have arms : (step^[k] m₀).step.world.arms? = (step^[k] m₀).world.arms? := by
    rw [world]
    rfl
  have due : (step^[k] m₀).step.due = ((step^[k] m₀).world.tokens.fire t).2 := by
    rw [Machine.due, agenda]
    simp [Frame.wakers]
  refine ⟨⟨?_, ?_, fun k l a ha => arms ▸ ha, ?_⟩, by rw [world], ?_, ?_, .inl ⟨t, token, gone⟩⟩
  · rw [agenda]
    have own : m₀.Below k t t := .refl
    simp [Frame.Within, own]
  · rw [world]
    exact Tokens.fades_fire _ t
  · rw [due]
    exact fun p hp a _ => sole.aims serves (fun _ _ _ ha => ha) .refl hp
  · exact call.granted
  · rw [due]
    exact mem_targets_fire serves (cancelling?_eq_some call.call).1 waits token

end Machine

/-! ## Its time has run out -/

/-- The deadline of the acquisition `e` in slot `j` of synchronizer `i` has come by `now`, and no
timer is due then but its own. -/
structure World.Expires (w : World P) (i j : Nat) (e : Petition P.Request)
    (now : Time) : Prop where
  registered : ∃ key, (key, .trigger i j) ∈ w.timers.pending
  due : ∃ d ∈ e.deadline, d ≤ now
  alone : ∀ x ∈ w.timers.pending, x.1.deadline ≤ now → x.2 = .trigger i j

namespace Machine

variable {m m₀ : Machine P} {k i j : Nat} {e : Petition P.Request}

theorem expired {rest : List (Step P)} (timed : m.world.Timed) (owned : m.world.Owned)
    (idle : m.agenda = []) (script : m.script = .process :: rest)
    (waits : m.world.petition? i j = some e)
    (expires : m.world.Expires i j e m.world.timers.now) :
    m.step.Confined m.world (fun _ => False) i j ∧ m.step.Leaving m.world m.granted i j e := by
  obtain ⟨world, -, agenda, grants⟩ := m.step_of_script idle script fun m' same =>
    (show m'.begin true .process = m'.take true m.world.process by rw [← same]; rfl)
  obtain ⟨key, registered⟩ := expires.registered
  obtain ⟨d, deadline, come⟩ := expires.due
  obtain ⟨a, ha, fits⟩ := World.arms?_of_petition? waits
  have due : m.step.due = m.world.timers.takeDue.2.map Prod.snd := by
    rw [due, agenda]
    simp [Frame.wakers, World.process]
  have arms : m.step.world.arms? = m.world.arms? := by
    rw [world]
    rfl
  refine ⟨⟨?_, ?_, fun k l a ha => arms ▸ ha, ?_⟩, ?_, ?_, ?_, .inr ⟨d, deadline, ?_⟩⟩
  · rw [agenda]
    simp [Frame.Within, World.process]
  · rw [world]
    exact .refl _
  · rw [due]
    rintro ⟨k, l⟩ hp a -
    obtain ⟨x, hx, waker⟩ := List.mem_map.mp (trigger_of_mem_targets hp)
    have own := expires.alone x ((List.takeWhile_sublist _).subset hx)
      (by simpa [Timers.isDue] using List.mem_takeWhile_imp hx)
    obtain ⟨rfl, rfl⟩ := Waker.trigger.inj (waker.symm.trans own)
    rfl
  · rw [world]
    rfl
  · rw [grants]
    exact List.append_nil _
  · rw [due]
    exact mem_targets (timed.takes owned registered ha (fits.deadline.trans deadline) come)
  · rw [world]
    exact come

/-! ## Whichever it was -/

/-- After `k` steps the script is about to make the acquisition `e` leave the line, which waits in slot
`j` of synchronizer `i`. The last argument is the step that begins the last thing it does for it. -/
inductive Leaves (m₀ : Machine P) (k i j : Nat) (e : Petition P.Request) : Nat → Prop
  /-- Its future is dropped. -/
  | dropped {slot : String} {rest : List (Step P)} {item : Item P} {id : WaiterId}
      (idle : (step^[k] m₀).agenda = []) (script : (step^[k] m₀).script = .drop slot :: rest)
      (found : (step^[k] m₀).world.slots.find? slot = some item)
      (place : item.place? = some (i, id)) (own : id.slot = j) : Leaves m₀ k i j e k
  /-- Its token is cancelled, and only it waits with the token or with one below it. -/
  | cancelled {t : Nat} (call : (step^[k] m₀).Cancels t) (token : e.token = some t)
      (uses : m₀.Uses k t i e) : Leaves m₀ k i j e k
  /-- The clock is moved to a time at which its deadline has come and no other timer is due, and then
  the timers are processed. -/
  | expired {move : Step P} {rest : List (Step P)} {now : Time} (idle : (step^[k] m₀).agenda = [])
      (script : (step^[k] m₀).script = move :: .process :: rest)
      (moves : move.moves? (step^[k] m₀).world = some now)
      (expires : (step^[k] m₀).world.Expires i j e ((step^[k] m₀).world.setClock now).timers.now) :
      Leaves m₀ k i j e (k + 3)

variable {last : Nat} {s : Sync P}

theorem Leaves.gone (leaves : m₀.Leaves k i j e last) (fresh : m₀.Fresh)
    (hs : (step^[k] m₀).world.syncs[i]? = some s)
    (waits : (step^[k] m₀).world.petition? i j = some e) (alone : m₀.Undisturbed last) :
    ∃ n, m₀.Returns last n ∧
      (step^[n] m₀).Gone (step^[k] m₀).world (step^[k] m₀).granted i j s e.ticket := by
  cases leaves with
  | @dropped slot rest item id idle script found place own =>
    subst own
    obtain ⟨confined, gone⟩ :=
      Plays.dropped (fresh.plays k) (fresh.tame k) idle script found place hs waits
    rw [← Function.iterate_succ_apply' step k m₀] at confined gone
    obtain ⟨n, returns⟩ := fresh.returns_of_cancels (fun f hf => (confined.within f hf).cancels) alone
    exact ⟨n, returns, fresh.gone returns alone (sole_of_none _ _ _) hs waits confined (.inr gone)⟩
  | @cancelled t call token uses =>
    obtain ⟨confined, leaving⟩ := fresh.cancelled call uses waits token
    obtain ⟨n, returns⟩ := fresh.returns call alone
    exact ⟨n, returns, fresh.gone returns alone (fresh.sole_of_uses uses waits) hs waits confined
      (.inl leaving)⟩
  | @expired move rest now idle script moves expires =>
    obtain ⟨world, idle', script', granted⟩ := (step^[k] m₀).steps_of_moves idle script moves
    rw [← Function.iterate_add_apply, Nat.add_comm 3 k] at world idle' script' granted
    have same : (step^[k + 3] m₀).world.syncs = (step^[k] m₀).world.syncs := by
      rw [world, World.setClock_syncs]
    have hs' : (step^[k + 3] m₀).world.syncs[i]? = some s := by rw [same, hs]
    have waits' : (step^[k + 3] m₀).world.petition? i j = some e := by
      rw [World.petition?_eq hs', ← World.petition?_eq hs, waits]
    have expires' : (step^[k + 3] m₀).world.Expires i j e (step^[k + 3] m₀).world.timers.now := by
      rw [world]
      exact ⟨by rw [World.setClock_pending]; exact expires.registered, expires.due,
        by rw [World.setClock_pending]; exact expires.alone⟩
    obtain ⟨confined, leaving⟩ :=
      Machine.expired (fresh.timed _) (fresh.minded _).owned idle' script' waits' expires'
    rw [← Function.iterate_succ_apply' step (k + 3) m₀] at confined leaving
    obtain ⟨n, returns⟩ := fresh.returns_of_cancels (fun f hf => (confined.within f hf).cancels) alone
    obtain ⟨syncs, grants, unarmed⟩ := fresh.gone returns alone (sole_of_none _ _ _) hs' waits'
      confined (.inl leaving)
    exact ⟨n, returns, same ▸ syncs, granted ▸ grants, unarmed⟩

end Machine

theorem Item.waits_of_place? {item : Item P} {i : Nat} {id : WaiterId}
    (place : item.place? = some (i, id)) :
    item.Waits ∧ item.sync? = some i ∧ item.id? = some id := by
  obtain ⟨r, lenient, rfl⟩ | ⟨r, rfl⟩ := Item.place?_eq_some place
  · exact ⟨.acquisition _ _ _ nofun, rfl, rfl⟩
  · exact ⟨.locking _ _ nofun, rfl, rfl⟩

theorem World.Plays.poll_of_unarmed {w : World P} {items : List (Item P)} (h : w.Plays items)
    {slot : String} {item : Item P} {i : Nat} {id : WaiterId} {s : Sync P}
    (found : w.slots.find? slot = some item) (kept : item ∈ items)
    (place : item.place? = some (i, id)) (hs : w.syncs[i]? = some s)
    (unarmed : w.arms? i id.slot = none) (waker : Waker) :
    ∃ s', (w.poll slot waker).world.syncs[i]? = some s' ∧ s'.holding = s.holding ∧
      s'.phase = s.phase ∧ s'.petitions = s.petitions := by
  obtain ⟨waits, sync, own⟩ := Item.waits_of_place? place
  have looks := h.looks found kept waits waker
  obtain ⟨s', hs', -, unmoved⟩ := looks.own i s sync hs
  refine ⟨s', hs', unmoved.holding, unmoved.phase, unmoved.petitions.trans ?_⟩
  obtain ⟨v, hv⟩ := h.get?_of_place? kept place hs
  obtain ⟨d, L, rests⟩ := h.rests hs
  have hw := Section.waiter?_of_get? (s := w.inside s) hv
  have resolved : v.outcome ≠ none := fun pending => by
    rw [arms?_inside hs] at unarmed
    have armed : (w.inside s).sync.line.arms? id.slot = some _ :=
      Option.bind_eq_some_iff.mpr ⟨v, hw, Waiter.arms?_of_pending pending⟩
    rw [unarmed] at armed
    cases armed
  have apart (e : Petition P.Request) (he : e ∈ s.petitions) : v.ticket ≠ e.ticket := fun same =>
    rests.roll.ticket_ne_of_resolved (Section.bare?_of_waiter? hw) resolved
      (rests.petitions_eq ▸ he) same.symm
  rw [own]
  exact (List.map_congr_left fun e he => if_neg (by simp [hv, apart e he])).trans (List.map_id' _)

namespace Machine

variable {m m₀ m₀' : Machine P} {k k' last last' n i j : Nat} {s : Sync P} {e : Petition P.Request}

/-- Between step `k` and step `n` the acquisition that waited in slot `j` of synchronizer `i` with
ticket `t` has left `s`, which has become `u`. Nothing else has happened, and its future may be polled
then. -/
structure Departs (m₀ : Machine P) (k n i j : Nat) (s : Sync P) (t : Nat) (u : Sync P) : Prop where
  here : (step^[n] m₀).world.syncs[i]? = some u
  without : s.Without t u
  elsewhere : ∀ l ≠ i, (step^[n] m₀).world.syncs[l]? = (step^[k] m₀).world.syncs[l]?
  granted : (step^[n] m₀).granted = (step^[k] m₀).granted ++ (s.successors t).map (·.ticket)
  polled : ∀ slot item id waker, (step^[n] m₀).world.slots.find? slot = some item →
    item.place? = some (i, id) → id.slot = j →
    ((step^[n] m₀).world.poll slot waker).events = [] ∧
    (∀ l ≠ i, ((step^[n] m₀).world.poll slot waker).world.syncs[l]? =
      (step^[n] m₀).world.syncs[l]?) ∧
    ∃ v, ((step^[n] m₀).world.poll slot waker).world.syncs[i]? = some v ∧
      v.holding = u.holding ∧ v.phase = u.phase ∧ v.petitions = u.petitions

theorem Fresh.departs (fresh : m₀.Fresh) (hs : (step^[k] m₀).world.syncs[i]? = some s) {t : Nat}
    (gone : (step^[n] m₀).Gone (step^[k] m₀).world (step^[k] m₀).granted i j s t) :
    ∃ u, m₀.Departs k n i j s t u := by
  obtain ⟨⟨u, syncs, without⟩, granted, unarmed⟩ := gone
  have here : (step^[n] m₀).world.syncs[i]? = some u := by
    rw [syncs]
    exact Array.getElem?_setIfInBounds_self_of_lt (Array.getElem?_eq_some_iff.mp hs).1
  refine ⟨u, here, without, fun l apart => ?_, granted, fun slot item id waker found place own => ?_⟩
  · rw [syncs]
    exact Array.getElem?_setIfInBounds_ne (Ne.symm apart)
  · subst own
    have kept : item ∈ (step^[n] m₀).items := List.mem_append_left _ (World.mem_items found)
    obtain ⟨waits, sync, -⟩ := Item.waits_of_place? place
    have looks := World.Plays.looks (fresh.plays n) found kept waits waker
    refine ⟨looks.events, fun l apart => looks.apart l ?_,
      World.Plays.poll_of_unarmed (fresh.plays n) found kept place here unarmed waker⟩
    rw [sync]
    exact fun same => apart (Option.some.inj same).symm

/-- However an acquisition leaves a line, those who stay are the same in the same order, and so are
those who are let in, the holding and the phase. -/
theorem same_of_leaves (fresh : m₀.Fresh) (fresh' : m₀'.Fresh)
    (hs : (step^[k] m₀).world.syncs[i]? = some s) (hs' : (step^[k'] m₀').world.syncs[i]? = some s)
    (waits : (step^[k] m₀).world.petition? i j = some e) (leaves : m₀.Leaves k i j e last)
    (leaves' : m₀'.Leaves k' i j e last') (alone : m₀.Undisturbed last)
    (alone' : m₀'.Undisturbed last') :
    ∃ n n' u u', m₀.Returns last n ∧ m₀'.Returns last' n' ∧
      m₀.Departs k n i j s e.ticket u ∧ m₀'.Departs k' n' i j s e.ticket u' ∧
      u'.holding = u.holding ∧ u'.phase = u.phase ∧ u'.petitions = u.petitions := by
  have waits' : (step^[k'] m₀').world.petition? i j = some e := by
    rw [World.petition?_eq hs', ← World.petition?_eq hs, waits]
  obtain ⟨n, returns, gone⟩ := leaves.gone fresh hs waits alone
  obtain ⟨n', returns', gone'⟩ := leaves'.gone fresh' hs' waits' alone'
  obtain ⟨u, departs⟩ := fresh.departs hs gone
  obtain ⟨u', departs'⟩ := fresh'.departs hs' gone'
  have without := departs.without
  have without' := departs'.without
  exact ⟨n, n', u, u', returns, returns', departs, departs',
    without'.holding.trans without.holding.symm, without'.phase.trans without.phase.symm,
    without'.petitions.trans without.petitions.symm⟩

/-- Two wait at a semaphore with one permit left. The first wants both, with a token and a deadline,
and the second wants one. -/
def leaving (steps : List (Step Policy.standard)) : Machine Policy.standard :=
  ofScript (.blank .zero none false)
    ([.create "semaphore" false (.permits 2 2) {}, .tryAcquire "semaphore" (Request.permits 1),
      .createToken "token",
      .acquire "semaphore" "large"
        { request := Request.permits 2, timeout := .ok (.after 5), token := some "token" },
      .acquire "semaphore" "small" { request := Request.permits 1, timeout := .ok .forever }] ++
      steps)

theorem leaving_reaches (steps : List (Step Policy.standard)) :
    step^[18] (leaving steps) = (step^[18] (leaving [])).andThen steps := by
  have same : leaving steps = (leaving []).andThen steps := rfl
  rw [same, iterate_andThen (by decide +kernel)]

theorem leaving_idle (steps : List (Step Policy.standard)) :
    (step^[18] (leaving steps)).agenda = [] ∧ (step^[18] (leaving steps)).script = steps := by
  have done : (step^[18] (leaving [])).agenda.isEmpty = true ∧
      (step^[18] (leaving [])).script.isEmpty = true := by decide +kernel
  have script := List.isEmpty_iff.mp done.2
  rw [leaving_reaches]
  exact ⟨List.isEmpty_iff.mp done.1, by rw [andThen, script, List.nil_append]⟩

theorem leaving_uses {t : Nat} {e : Petition Policy.standard.Request} (first : e.ticket = 0) :
    (leaving [.cancel "token"]).Uses 18 t 0 e := by
  have line : (step^[18] (leaving [])).world.syncs.size = 1 ∧
      (step^[18] (leaving [])).world.syncs[0]?.all (fun s =>
        s.petitions.all fun e => e.ticket = 0 || e.token.isNone) = true := by decide +kernel
  intro i s hs e' he c hc _
  rw [leaving_reaches] at hs
  obtain rfl : i = 0 := by
    have known : i < (step^[18] (leaving [])).world.syncs.size := (Array.getElem?_eq_some_iff.mp hs).1
    omega
  have each := line.2
  rw [show (step^[18] (leaving [])).world.syncs[0]? = some s from hs, Option.all_some] at each
  have own := List.all_eq_true.mp each e' he
  rw [Option.mem_def.mp hc, Option.isNone_some, Bool.or_false, decide_eq_true_eq] at own
  exact ⟨rfl, own.trans first.symm⟩

theorem leaving_dropped {e : Petition Policy.standard.Request} :
    (leaving [.drop "large"]).Leaves 18 0 0 e 18 := by
  obtain ⟨idle, script⟩ := leaving_idle [.drop "large"]
  have found : (step^[18] (leaving [.drop "large"])).world.slots.find? "large" =
      some (.acquisition 0 (Request.permits 2) false (.waiting ⟨0, 0⟩)) := by
    rw [leaving_reaches]
    rfl
  exact .dropped idle script found rfl rfl

theorem leaving_cancelled {e : Petition Policy.standard.Request} (first : e.ticket = 0)
    (token : e.token = some 0) : (leaving [.cancel "token"]).Leaves 18 0 0 e 18 :=
  .cancelled ⟨by decide +kernel, by decide +kernel⟩ token (leaving_uses first)

theorem leaving_expired {e : Petition Policy.standard.Request}
    (deadline : e.deadline.any (· ≤ Time.zero.advance 5) = true) :
    (leaving [.advance 5, .process]).Leaves 18 0 0 e 21 := by
  obtain ⟨idle, script⟩ := leaving_idle [.advance 5, .process]
  obtain ⟨d, hd, come⟩ := (Option.any_eq_true ..).mp deadline
  have timers : ((step^[18] (leaving [])).world.setClock
        ((step^[18] (leaving [])).world.clock.advance 5)).timers.now = Time.zero.advance 5 ∧
      (step^[18] (leaving [])).world.timers.pending.any (·.2 = .trigger 0 0) = true ∧
      (step^[18] (leaving [])).world.timers.pending.all (fun x =>
        x.1.deadline ≤ Time.zero.advance 5 → x.2 = .trigger 0 0) = true := by decide +kernel
  obtain ⟨now, own, alone⟩ := timers
  refine .expired idle script rfl ?_
  rw [leaving_reaches]
  refine ⟨?_, ⟨d, hd, ?_⟩, fun x hx due => ?_⟩
  · obtain ⟨⟨key, waker⟩, hx, same⟩ := List.any_eq_true.mp own
    obtain rfl : waker = .trigger 0 0 := of_decide_eq_true same
    exact ⟨key, hx⟩
  · exact now ▸ of_decide_eq_true come
  · exact of_decide_eq_true (List.all_eq_true.mp alone x hx) (now ▸ due)

theorem leaving_undisturbed : (leaving [.drop "large"]).Undisturbed 18 ∧
    (leaving [.cancel "token"]).Undisturbed 18 ∧
    (leaving [.advance 5, .process]).Undisturbed 21 := by
  have dropped : (leaving [.drop "large"]).Returns 18 21 :=
    returns_of_isEmpty (by decide) (by decide +kernel) (by decide +kernel)
  have cancelled : (leaving [.cancel "token"]).Returns 18 25 :=
    returns_of_isEmpty (by decide) (by decide +kernel) (by decide +kernel)
  have expired : (leaving [.advance 5, .process]).Returns 21 26 :=
    returns_of_isEmpty (by decide) (by decide +kernel) (by decide +kernel)
  exact ⟨dropped.undisturbed (by decide +kernel), cancelled.undisturbed (by decide +kernel),
    expired.undisturbed (by decide +kernel)⟩

/-- In each case the second of them is let in. -/
theorem same_of_leaves_large : ∃ s e, (step^[18] (leaving [])).world.syncs[0]? = some s ∧
    (step^[18] (leaving [])).world.petition? 0 0 = some e ∧
    (s.successors e.ticket).map (·.ticket) = [1] ∧
    (∃ n n' u u', (leaving [.drop "large"]).Departs 18 n 0 0 s e.ticket u ∧
      (leaving [.cancel "token"]).Departs 18 n' 0 0 s e.ticket u' ∧
      u'.holding = u.holding ∧ u'.phase = u.phase ∧ u'.petitions = u.petitions) ∧
    ∃ n n' u u', (leaving [.drop "large"]).Departs 18 n 0 0 s e.ticket u ∧
      (leaving [.advance 5, .process]).Departs 18 n' 0 0 s e.ticket u' ∧
      u'.holding = u.holding ∧ u'.phase = u.phase ∧ u'.petitions = u.petitions := by
  obtain ⟨s, hs⟩ : ∃ s, (step^[18] (leaving [])).world.syncs[0]? = some s :=
    Option.isSome_iff_exists.mp (by decide +kernel)
  obtain ⟨e, he⟩ : ∃ e, (step^[18] (leaving [])).world.petition? 0 0 = some e :=
    Option.isSome_iff_exists.mp (by decide +kernel)
  have large : ((step^[18] (leaving [])).world.petition? 0 0).all (fun e =>
      e.ticket = 0 ∧ e.token = some 0 ∧ e.deadline.any (· ≤ Time.zero.advance 5)) = true ∧
      (step^[18] (leaving [])).world.syncs[0]?.all (fun s =>
        (s.successors 0).map (·.ticket) = [1]) = true := by decide +kernel
  obtain ⟨own, next⟩ := large
  rw [he, Option.all_some, decide_eq_true_eq] at own
  obtain ⟨ticket, token, deadline⟩ := own
  rw [hs, Option.all_some, decide_eq_true_eq] at next
  have reaches (steps : List (Step Policy.standard)) :
      (step^[18] (leaving steps)).world.syncs[0]? = some s := by
    rw [leaving_reaches]
    exact hs
  have waits : (step^[18] (leaving [.drop "large"])).world.petition? 0 0 = some e := by
    rw [leaving_reaches]
    exact he
  have fresh (steps : List (Step Policy.standard)) : (leaving steps).Fresh :=
    ⟨.zero, none, false, _, rfl⟩
  obtain ⟨dropped, cancelled, expired⟩ := leaving_undisturbed
  obtain ⟨n, n', u, u', -, -, rest⟩ := same_of_leaves (fresh _) (fresh _) (reaches _) (reaches _)
    waits leaving_dropped (leaving_cancelled ticket token) dropped cancelled
  obtain ⟨k, k', v, v', -, -, rest'⟩ := same_of_leaves (fresh _) (fresh _) (reaches _) (reaches _)
    waits leaving_dropped (leaving_expired deadline) dropped expired
  exact ⟨s, e, hs, he, ticket ▸ next, ⟨n, n', u, u', rest⟩, ⟨k, k', v, v', rest'⟩⟩

end Machine

end Turnstile
