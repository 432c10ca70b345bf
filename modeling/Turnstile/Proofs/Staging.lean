import Turnstile.Proofs.Agenda
import Turnstile.Proofs.Visits

/-!
# What a step stages

The next step of a machine runs at most one critical section of a synchronizer, and whatever that does
there is a deed of a scene or two. All wakers that the step gathers are those that the deeds gather,
and those that it takes from the timers or from a token.
-/

namespace Turnstile

variable {P : Policy}

/-- The wakers that deeds gather one after the other. -/
def Scene.gathers (c : Scene P) : List (Deed P) → List Waker
  | [] => []
  | x :: xs => (c.perform x).after.wakes ++ (c.after x).gathers xs

namespace Item

/-- Polling the item makes these deeds of synchronizer `i`. A locking future acquires first. -/
inductive Polls (i : Nat) (c : Scene P) (waker : Waker) : Item P → List (Deed P) → Prop
  | acquisition {k : Nat} {f : Future P} (lenient : Bool) (hk : c.futures[k]? = some f) :
    Polls i c waker (.acquisition i f.request lenient f.stage) [.poll k waker]
  | locking {k : Nat} {f : Future P} (hk : c.futures[k]? = some f) :
    Polls i c waker (.locking i f.request (some f.stage)) [.poll k waker]
  | locks (request : P.Request) :
    Polls i c waker (.locking i request none)
      [.acquire request .forever none none, .poll c.futures.length waker]
  | disposal : Polls i c waker (.disposal i) [.pollDispose waker]

/-- Dropping the item makes these deeds of synchronizer `i`. -/
inductive Drops (i : Nat) (c : Scene P) : Item P → List (Deed P) → Prop
  | acquisition {k : Nat} {f : Future P} (lenient : Bool) (hk : c.futures[k]? = some f) :
    Drops i c (.acquisition i f.request lenient f.stage) [.drop k]
  | locking {k : Nat} {f : Future P} (hk : c.futures[k]? = some f) :
    Drops i c (.locking i f.request (some f.stage)) [.drop k]
  | guard (request : P.Request) : Drops i c (.guard i request) [.dropGuard request]

end Item

namespace World

/-- Synchronizer `i` is that of the scene, with the timers and the tokens of the world. -/
structure Hosts (w : World P) (i : Nat) (c : Scene P) : Prop where
  sync : w.syncs[i]? = some c.sync
  timers : c.timers = w.timers
  tokens : c.tokens = w.tokens

/-- Beginning the step makes these deeds of synchronizer `i`. An acquisition retains its token
first. -/
inductive Stages (w : World P) (i : Nat) (c : Scene P) : Step P → List (Deed P) → Prop
  | tryAcquire {object : String} {raw : Bool} {request : P.Request}
    (named : w.objects.find? object = some ⟨i, raw⟩)
    (fit : w.complaint? ⟨i, raw⟩ P.desk.entry request = none) :
    Stages w i c (.tryAcquire object request) [.tryAcquire request]
  | acquire {object name : String} {raw : Bool} {a : Acquiring P} {timeout : Timeout}
    {token : Option Nat} (named : w.objects.find? object = some ⟨i, raw⟩)
    (fit : w.complaint? ⟨i, raw⟩ P.desk.entry a.request = none) (timed : a.timeout = .ok timeout)
    (carried : a.token.map w.tokenNames.find? = token.map some) :
    Stages w i c (.acquire object name a)
      [.elsewhere w.timers (token.elim w.tokens w.tokens.retain),
        .acquire a.request timeout token a.steal]
  | release {object : String} {raw : Bool} {request : Option P.Request}
    (named : w.objects.find? object = some ⟨i, raw⟩)
    (fit : request.bind (w.complaint? ⟨i, raw⟩ P.desk.exit) = none) :
    Stages w i c (.release object request) [.release request]
  | dispose {object name : String} {raw : Bool}
    (named : w.objects.find? object = some ⟨i, raw⟩) : Stages w i c (.dispose object name) [.dispose]
  | poll {slot name : String} {onWake : Option (List (Step P))} {item : Item P} {xs : List (Deed P)}
    (held : w.slots.find? slot = some item) (polls : item.Polls i c (.task name) xs) :
    Stages w i c (.poll slot name onWake) xs
  | drop {slot : String} {item : Item P} {xs : List (Deed P)}
    (held : w.slots.find? slot = some item) (drops : item.Drops i c xs) :
    Stages w i c (.drop slot) xs

/-- The wakers that beginning the step takes from the timers or from a token. -/
def signals (w : World P) : Step P → List Waker
  | .process => w.timers.takeDue.2.map Prod.snd
  | .cancel token =>
    (w.tokenNames.find? token).elim [] fun t =>
      if w.tokens.isCancelled t then [] else (w.tokens.fire t).2
  | _ => []

end World

namespace Machine

/-- The next step makes these deeds of synchronizer `i`. -/
inductive Stages (m : Machine P) (i : Nat) (c : Scene P) : List (Deed P) → Prop
  | step {s : Step P} {xs : List (Deed P)} (next : m.next? = some s)
    (stages : m.world.Stages i c s xs) : Stages m i c xs
  | trigger {aside : Bool} {j : Nat} {ws : List Waker} {agenda : List (Frame P)}
    (hm : m.agenda = .wake aside (.trigger i j :: ws) :: agenda) : Stages m i c [.trigger j]
  | put {slot : String} {item old : Item P} {agenda : List (Frame P)} {xs : List (Deed P)}
    (hm : m.agenda = .put slot item :: agenda) (held : m.world.slots.find? slot = some old)
    (drops : old.Drops i c xs) : Stages m i c xs
  | await {top : Bool} {slot : String} {item : Item P} {agenda : List (Frame P)}
    {xs : List (Deed P)} (hm : m.agenda = .await top slot :: agenda)
    (held : m.world.slots.find? slot = some item) (polls : item.Polls i c .sleeper xs) :
    Stages m i c xs

/-- The wakers that what the next step does for the frame takes from the timers or from a token. -/
def signalsFor (m : Machine P) : Frame P → List Waker
  | .cancel (t :: _) =>
    if m.world.tokens.isAlive t && !m.world.tokens.isCancelled t then (m.world.tokens.fire t).2
    else []
  | .run (s :: _) => m.world.signals s
  | .await _ slot =>
    let t := m.world.poll slot .sleeper
    match t.put, t.answer with
    | some _, .pending => elapsing t.world
    | _, _ => []
  | .awaitWaker _ waker => if waker ∈ m.woken then [] else elapsing m.world
  | _ => []

/-- The wakers that the next step takes from the timers or from a token. -/
def signals (m : Machine P) : List Waker :=
  match m.agenda with
  | f :: _ => m.signalsFor f
  | [] => m.script.head?.elim [] m.world.signals

end Machine

/-! ## Deeds in a world -/

namespace Scene

variable {c : Scene P}

theorem gathers_singleton (x : Deed P) : c.gathers [x] = (c.perform x).after.wakes :=
  List.append_nil _

theorem after_poll {k : Nat} {f : Future P} (hk : c.futures[k]? = some f) (waker : Waker) :
    (c.perform (.poll k waker)).after = (c.inside.pollStage f.stage waker).1 := by
  rw [perform, hk]

theorem Shows.locks {d : Docket P} {L : List Nat} (h : c.Shows d L) (request : P.Request)
    (waker : Waker) :
    let begun := c.inside.acquire request .forever none none
    let polled := (begun.1.pollStage begun.2 waker).1
    let xs : List (Deed P) := [.acquire request .forever none none, .poll c.futures.length waker]
    polled.wakes = c.gathers xs ∧ polled.sync = (c.run xs).sync := by
  intro begun polled xs
  let c' := c.after (.acquire request .forever none none)
  have here : c'.futures[c.futures.length]? = some _ := List.getElem?_concat_length
  have second : (c'.perform (.poll c.futures.length waker)).after =
      (c'.inside.pollStage begun.2 waker).1 := after_poll here waker
  obtain ⟨same, answers⟩ := h.poll_acquired request waker
  have quiet : begun.1.wakes = [] := Section.acquire_wakes request .forever none
  have silent : polled.wakes = [] ∧ (c'.inside.pollStage begun.2 waker).1.wakes = [] := by
    rcases hs : begun.2 with r | id | _
    · simp only [polled, hs]
      exact ⟨quiet, rfl⟩
    · obtain ⟨w, hw, pending⟩ := h.waits_of_acquired hs
      have answer : (begun.1.pollStage begun.2 waker).2.2 = none := by
        have hw : begun.1.sync.line.pool.get? id = some w := hw
        simp only [hs, Section.pollStage, Section.poll, hw, pending]
      have answer' : (c'.inside.pollStage begun.2 waker).2.2 = none := by
        rw [show (c'.inside.pollStage begun.2 waker).2 = _ from answers]
        exact answer
      rw [← hs]
      exact ⟨(Section.pollStage_wakes answer).trans quiet, Section.pollStage_wakes answer'⟩
    · simp only [polled, hs]
      exact ⟨quiet, rfl⟩
  constructor
  · have begins : (c.perform (.acquire request .forever none none)).after.wakes = [] := quiet
    rw [silent.1, gathers, begins, gathers_singleton, second, silent.2]
    rfl
  · show _ = (c'.perform (.poll c.futures.length waker)).after.sync
    rw [second]
    exact same.symm

end Scene

namespace World

/-- From `w` the deeds lead to the synchronizers of `w'`, and gather these wakers. -/
structure Makes (w : World P) (i : Nat) (c : Scene P) (xs : List (Deed P)) (wakes : List Waker)
    (w' : World P) : Prop where
  wakes : wakes = c.gathers xs
  syncs : w'.syncs = w.syncs.setIfInBounds i (c.run xs).sync

variable {w w' : World P} {i : Nat} {c : Scene P} {xs : List (Deed P)} {item : Item P}

theorem Hosts.inside_eq (h : w.Hosts i c) : w.inside c.sync = c.inside := by
  rw [inside, Scene.inside, h.timers, h.tokens]

theorem Hosts.visit {α : Type} (h : w.Hosts i c) (otherwise : α) (f : Section P → Section P × α)
    (wakes : (f c.inside).1.wakes = c.gathers xs) (sync : (f c.inside).1.sync = (c.run xs).sync) :
    w.Makes i c xs (w.visit i otherwise f).wakes (w.visit i otherwise f).world := by
  rw [← h.inside_eq] at wakes sync
  unfold World.visit
  rw [h.sync]
  exact ⟨wakes, congrArg (w.syncs.setIfInBounds i) sync⟩

theorem Hosts.visit_one {α : Type} (h : w.Hosts i c) (otherwise : α)
    (f : Section P → Section P × α) (x : Deed P) (deed : (f c.inside).1 = (c.perform x).after) :
    w.Makes i c [x] (w.visit i otherwise f).wakes (w.visit i otherwise f).world := by
  refine h.visit otherwise f ?_ ?_
  · rw [deed, Scene.gathers_singleton]
  · rw [deed]
    rfl

theorem Hosts.stays (h : w.Hosts i c) (quiet : c.gathers xs = [])
    (same : (c.run xs).sync = c.sync) : w.Makes i c xs [] w := by
  refine ⟨quiet.symm, ?_⟩
  obtain ⟨hlt, hi⟩ := Array.getElem?_eq_some_iff.mp h.sync
  rw [same, ← hi, Array.setIfInBounds_def, dif_pos hlt, Array.set_getElem_self]

theorem Hosts.pollItem (h : w.Hosts i c) (reach : c.Reachable) {waker : Waker}
    (polls : item.Polls i c waker xs) :
    ∃ v, w.pollItem? waker item = some v ∧ w.Makes i c xs v.wakes v.world := by
  have nothing {k : Nat} {f : Future P} (hk : c.futures[k]? = some f) (done : f.stage = .done) :
      w.Makes i c [.poll k waker] [] w := by
    have idle := Scene.after_poll hk waker
    rw [done] at idle
    exact h.stays (by rw [Scene.gathers_singleton, idle]; rfl) (congrArg (·.sync) idle)
  cases polls with
  | @acquisition k f lenient hk =>
    rcases hs : f.stage with r | id | _
    · exact ⟨_, rfl, h.visit_one _ _ _ (hs ▸ (Scene.after_poll hk waker).symm)⟩
    · exact ⟨_, rfl, h.visit_one _ _ _ (hs ▸ (Scene.after_poll hk waker).symm)⟩
    · exact ⟨_, rfl, nothing hk hs⟩
  | @locking k f hk =>
    rcases hs : f.stage with r | id | _
    · exact ⟨_, rfl, h.visit_one _ _ _ (hs ▸ (Scene.after_poll hk waker).symm)⟩
    · exact ⟨_, rfl, h.visit_one _ _ _ (hs ▸ (Scene.after_poll hk waker).symm)⟩
    · exact ⟨_, rfl, nothing hk hs⟩
  | locks request =>
    obtain ⟨d, L, shows⟩ := reach.shows
    obtain ⟨wakes, sync⟩ := shows.locks request waker
    exact ⟨_, rfl, h.visit _ _ wakes sync⟩
  | disposal => exact ⟨_, rfl, h.visit_one _ _ (.pollDispose waker) rfl⟩

theorem Hosts.discard (h : w.Hosts i c) (drops : item.Drops i c xs) :
    w.Makes i c xs (w.discard item).wakes (w.discard item).world := by
  cases drops with
  | acquisition lenient hk => exact h.visit_one _ _ _ (by rw [Scene.drop_eq hk])
  | locking hk => exact h.visit_one _ _ _ (by rw [Scene.drop_eq hk])
  | guard request => exact h.visit_one _ _ (.dropGuard request) rfl

theorem lookup_eq {α : Type} {names : Names α} {name : String} {a : α}
    (found : names.find? name = some a) (f : α → Turn P) : w.lookup names name f = f a := by
  rw [lookup, found]

theorem Hosts.poll (h : w.Hosts i c) (reach : c.Reachable) {slot : String} {waker : Waker}
    (held : w.slots.find? slot = some item) (polls : item.Polls i c waker xs) :
    w.Makes i c xs (w.poll slot waker).wakes (w.poll slot waker).world := by
  have taken : Hosts { w with slots := w.slots.erase slot } i c := ⟨h.sync, h.timers, h.tokens⟩
  obtain ⟨v, hv, makes⟩ := taken.pollItem reach polls
  rw [World.poll, lookup_eq held, hv]
  exact ⟨makes.wakes, makes.syncs⟩

theorem complaint?_congr (o : Object) (rule : P.State → P.Request → Option String)
    (request : P.Request) (syncs : w'.syncs = w.syncs) :
    w'.complaint? o rule request = w.complaint? o rule request := by
  simp only [complaint?, sync?, syncs]

theorem Hosts.startAcquisition (h : w.Hosts i c) {raw : Bool} {a : Acquiring P}
    (fit : w.complaint? ⟨i, raw⟩ P.desk.entry a.request = none) (name : String) (timeout : Timeout)
    (token : Option Nat) :
    let t := w.startAcquisition ⟨i, raw⟩ name a timeout token
    w.Makes i c [.acquire a.request timeout token a.steal] t.wakes t.world := by
  intro t
  simp only [t, World.startAcquisition, fit]
  exact h.visit_one Stage.done _ (.acquire a.request timeout token a.steal) rfl

theorem Hosts.acquire (h : w.Hosts i c) {raw : Bool} {a : Acquiring P} {timeout : Timeout}
    {token : Option Nat} (fit : w.complaint? ⟨i, raw⟩ P.desk.entry a.request = none)
    (timed : a.timeout = .ok timeout) (carried : a.token.map w.tokenNames.find? = token.map some)
    (name : String) :
    let t := w.acquire ⟨i, raw⟩ name a
    w.Makes i c [.elsewhere w.timers (token.elim w.tokens w.tokens.retain),
      .acquire a.request timeout token a.steal] t.wakes t.world := by
  intro t
  let tokens := token.elim w.tokens w.tokens.retain
  have moved : Hosts { w with tokens } i (c.after (.elsewhere w.timers tokens)) := ⟨h.sync, rfl, rfl⟩
  have began : t.wakes = ({ w with tokens }.startAcquisition ⟨i, raw⟩ name a timeout token).wakes ∧
      t.world = ({ w with tokens }.startAcquisition ⟨i, raw⟩ name a timeout token).world := by
    rcases ht : a.token with _ | n <;> rw [ht] at carried
    · rcases token with _ | u
      · simp only [t, World.acquire, ht, timed]
        exact ⟨rfl, rfl⟩
      · cases carried
    · rcases token with _ | u
      · cases carried
      · simp only [t, World.acquire, ht, lookup_eq (Option.some.inj carried), timed]
        exact ⟨rfl, rfl⟩
  have made := moved.startAcquisition ((complaint?_congr ⟨i, raw⟩ _ a.request rfl).trans fit) name
    timeout token
  rw [began.1, began.2]
  exact ⟨made.wakes, made.syncs⟩

theorem Stages.makes {s : Step P} (stages : w.Stages i c s xs) (h : w.Hosts i c)
    (reach : c.Reachable) :
    w.Makes i c xs (w.start s).wakes (w.start s).world ∧ w.signals s = [] := by
  cases stages with
  | tryAcquire named fit =>
    refine ⟨?_, rfl⟩
    rw [start, lookup_eq named, World.tryAcquire, fit]
    exact h.visit_one _ _ (.tryAcquire _) rfl
  | acquire named fit timed carried =>
    refine ⟨?_, rfl⟩
    rw [start, lookup_eq named]
    exact h.acquire fit timed carried _
  | release named fit =>
    refine ⟨?_, rfl⟩
    rw [start, lookup_eq named, World.release, fit]
    exact h.visit_one _ _ (.release _) rfl
  | dispose named =>
    refine ⟨?_, rfl⟩
    rw [start, lookup_eq named]
    exact h.visit_one _ _ .dispose rfl
  | @poll _ name onWake _ _ held polls =>
    refine ⟨?_, rfl⟩
    cases onWake with
    | none => exact h.poll reach held polls
    | some steps =>
      have told : Hosts (w.setOnWake name (some steps)) i c := ⟨h.sync, h.timers, h.tokens⟩
      exact ⟨(told.poll reach held polls).wakes, (told.poll reach held polls).syncs⟩
  | @drop slot _ _ held drops =>
    refine ⟨?_, rfl⟩
    have taken : Hosts { w with slots := w.slots.erase slot } i c := ⟨h.sync, h.timers, h.tokens⟩
    rw [start, World.drop, lookup_eq held]
    exact ⟨(taken.discard drops).wakes, (taken.discard drops).syncs⟩

end World

namespace Machine

variable {m : Machine P} {c : Scene P} {i : Nat} {xs : List (Deed P)}

theorem world_deliver (top : Bool) (answer : Answer P) :
    (m.deliver top answer).world = m.world := by
  cases top <;> rfl

theorem world_begin (top : Bool) (s : Step P) : (m.begin top s).world = (m.world.start s).world := by
  cases s <;> rfl

theorem syncs_elapse (top : Bool) (again : Frame P) :
    (m.elapse top again).world.syncs = m.world.syncs := by
  unfold elapse
  split
  · rw [world_deliver]
  · rename_i v hv
    obtain ⟨t, -, rfl⟩ := Option.map_eq_some_iff.mp hv
    rfl

theorem syncs_await (top : Bool) (slot : String) :
    (m.await top slot).world.syncs = (m.world.poll slot .sleeper).world.syncs := by
  unfold await
  dsimp only
  split
  · exact syncs_elapse top _
  · rfl

theorem begins_of_next {s : Step P} (next : m.next? = some s) :
    m.gathers = (m.world.start s).wakes ∧ m.signals = m.world.signals s ∧
      m.step.world = (m.world.start s).world := by
  obtain ⟨world, agenda, script, woken, wakes, nested, events, reports⟩ := m
  rcases agenda with _ | ⟨f, agenda⟩
  · rcases script with _ | ⟨s', script⟩
    · cases next
    · obtain rfl := Option.some.inj next
      exact ⟨rfl, rfl, world_begin true s'⟩
  · obtain ⟨ss, rfl⟩ : ∃ ss, f = .run (s :: ss) := by
      cases f with
      | run steps =>
        rcases steps with _ | ⟨s', ss⟩
        · cases next
        · obtain rfl := Option.some.inj next
          exact ⟨ss, rfl⟩
      | _ => cases next
    exact ⟨rfl, rfl, world_begin false s⟩

/-- All that the next step gathers is gathered by its deeds or comes from the timers or a token. -/
theorem Stages.gathers_eq (stages : m.Stages i c xs) (h : m.world.Hosts i c)
    (reach : c.Reachable) :
    m.gathers = c.gathers xs ++ m.signals ∧
      m.step.world.syncs = m.world.syncs.setIfInBounds i (c.run xs).sync := by
  cases stages with
  | step next stages =>
    obtain ⟨gathers, signals, world⟩ := begins_of_next next
    obtain ⟨makes, silent⟩ := stages.makes h reach
    rw [gathers, signals, world, silent, List.append_nil]
    exact ⟨makes.wakes, makes.syncs⟩
  | @trigger aside j ws agenda hm =>
    have makes := h.visit_one () (fun s => (s.trigger j, ())) (.trigger j) rfl
    have signals : m.signals = [] := by rw [Machine.signals, hm]; rfl
    have gathers : m.gathers = (m.world.touch i fun s => s.trigger j).wakes := by
      rw [Machine.gathers, hm]
      rfl
    rw [gathers, signals, List.append_nil]
    refine ⟨makes.wakes, ?_⟩
    rw [Machine.step, hm]
    exact makes.syncs
  | @put slot item old agenda _ hm held drops =>
    have filled : World.Hosts { m.world with slots := m.world.slots.insert slot item } i c :=
      ⟨h.sync, h.timers, h.tokens⟩
    have makes := filled.discard drops
    have signals : m.signals = [] := by rw [Machine.signals, hm]; rfl
    rw [Machine.gathers, hm, signals, List.append_nil]
    refine ⟨?_, ?_⟩
    · simp only [gathersFor, held]
      exact makes.wakes
    · rw [Machine.step, hm]
      simp only [perform, Machine.put, held]
      exact makes.syncs
  | @await top slot item agenda _ hm held polls =>
    have makes := h.poll reach held polls
    refine ⟨?_, ?_⟩
    · rw [Machine.gathers, Machine.signals, hm, ← makes.wakes]
      rfl
    · rw [Machine.step, hm]
      exact (syncs_await top slot).trans makes.syncs

end Machine

/-! ## Steps that make no deed -/

namespace World

variable {w w' : World P} {i : Nat} {items rest : List (Item P)} {item : Item P}

/-- Every synchronizer is as it was, and perhaps there is a new one. -/
def Preserves (w w' : World P) : Prop :=
  w'.syncs = w.syncs ∨ ∃ id holding warm retainLimit,
    w'.syncs = w.syncs.push (Sync.create id holding warm retainLimit)

/-- A scene of some synchronizer is there in which this is done. -/
def Finds (w : World P) (p : Nat → Scene P → List (Deed P) → Prop) : Prop :=
  ∃ i c xs, c.Reachable ∧ w.Hosts i c ∧ p i c xs

/-- The turn wakes nobody and leaves every synchronizer as it was. -/
def Idles (w : World P) (t : Turn P) : Prop := t.wakes = [] ∧ w.Preserves t.world

theorem Plays.hosts (h : w.Plays items) {s : Sync P} (hi : w.syncs[i]? = some s) :
    ∃ c : Scene P, c.Reachable ∧ w.Hosts i c ∧
      (items.flatMap (Item.shares i)).Subperm (c.futures.map Future.share) := by
  obtain ⟨c, reach, rfl, shares⟩ := h.scene i s hi
  exact ⟨_, reach.run [.elsewhere w.timers w.tokens], ⟨hi, rfl, rfl⟩, shares⟩

theorem Plays.future (h : w.Plays items) (mem : item ∈ items) {stage : Stage} {request : P.Request}
    (shares : item.shares i = stage.shares request) (there : w.syncs[i]? ≠ none)
    (asks : stage.shares request ≠ []) :
    ∃ (c : Scene P) (k : Nat) (f : Future P), c.Reachable ∧ w.Hosts i c ∧
      c.futures[k]? = some f ∧ f.request = request ∧ f.stage = stage := by
  obtain ⟨s, hi⟩ := Option.ne_none_iff_exists'.mp there
  obtain ⟨c, reach, hosts, sub⟩ := h.hosts hi
  have share : (request, stage) ∈ item.shares i := by
    rw [shares]
    rcases stage with (_ | _) | _ | _
    · exact absurd rfl asks
    · exact List.mem_cons_self
    · exact List.mem_cons_self
    · exact absurd rfl asks
  have known : (request, stage) ∈ c.futures.map Future.share :=
    sub.subset (List.mem_flatMap.mpr ⟨item, mem, share⟩)
  obtain ⟨f, hf, same⟩ := List.mem_map.mp known
  obtain ⟨k, hk⟩ := List.mem_iff_getElem?.mp hf
  obtain ⟨rfl, rfl⟩ := Prod.mk.inj same
  exact ⟨c, k, f, reach, hosts, hk, rfl, rfl⟩

theorem visit_idle {α : Type} (otherwise : α) {f : Section P → Section P × α}
    (idle : w.syncs[i]? = none ∨ ∀ s, (f s).1 = s) :
    (w.visit i otherwise f).wakes = [] ∧ (w.visit i otherwise f).world.syncs = w.syncs := by
  unfold World.visit
  rcases hi : w.syncs[i]? with _ | s
  · exact ⟨rfl, rfl⟩
  · have same := (idle.resolve_left (by simp [hi])) { sync := s, timers := w.timers, tokens := w.tokens }
    dsimp only
    rw [same]
    obtain ⟨hlt, rfl⟩ := Array.getElem?_eq_some_iff.mp hi
    refine ⟨rfl, ?_⟩
    show w.syncs.setIfInBounds i w.syncs[i] = w.syncs
    rw [Array.setIfInBounds_def, dif_pos hlt, Array.set_getElem_self]

theorem pollStage_idle {stage : Stage} {request : P.Request} (asks : stage.shares request = [])
    (waker : Waker) (s : Section P) : (s.pollStage stage waker).1 = s := by
  rcases stage with (_ | _) | _ | _
  · rfl
  · cases asks
  · cases asks
  · rfl

theorem dropStage_idle {stage : Stage} {request : P.Request} (asks : stage.shares request = [])
    (s : Section P) : s.dropStage request stage = s := by
  rcases stage with (_ | _) | _ | _
  · rfl
  · cases asks
  · cases asks
  · rfl

theorem Plays.finds_or_nobody (h : w.Plays items) (i : Nat)
    {p : Nat → Scene P → List (Deed P) → Prop} (deeds : ∀ c : Scene P, ∃ xs, p i c xs) :
    w.Finds p ∨ w.syncs[i]? = none := by
  rcases hi : w.syncs[i]? with _ | s
  · exact .inr rfl
  · obtain ⟨c, reach, hosts, -⟩ := h.hosts hi
    obtain ⟨xs, made⟩ := deeds c
    exact .inl ⟨i, c, xs, reach, hosts, made⟩

theorem Plays.stage_finds (h : w.Plays items) (mem : item ∈ items) {stage : Stage}
    {request : P.Request} (shares : item.shares i = stage.shares request)
    {p : Nat → Scene P → List (Deed P) → Prop}
    (deeds : ∀ (c : Scene P) (k : Nat) (f : Future P), c.futures[k]? = some f → f.request = request →
      f.stage = stage → ∃ xs, p i c xs) :
    w.Finds p ∨ w.syncs[i]? = none ∨ stage.shares request = [] := by
  by_cases idle : w.syncs[i]? = none ∨ stage.shares request = []
  · exact .inr idle
  · obtain ⟨there, asks⟩ := not_or.mp idle
    obtain ⟨c, k, f, reach, hosts, hk, asked, reached⟩ := h.future mem shares there asks
    obtain ⟨xs, made⟩ := deeds c k f hk asked reached
    exact .inl ⟨i, c, xs, reach, hosts, made⟩

theorem pollItem?_visits {stage : Stage} {request : P.Request} {waker : Waker}
    {v : Visit P (Item P × Answer P)} (hv : w.pollItem? waker item = some v)
    (holds : (∃ lenient, item = .acquisition i request lenient stage) ∨
      item = .locking i request (some stage)) :
    ∃ otherwise : Polled, v.wakes = (w.visit i otherwise fun s => s.pollStage stage waker).wakes ∧
      v.world.syncs = (w.visit i otherwise fun s => s.pollStage stage waker).world.syncs := by
  have still : (w.visit i ((.done, none) : Polled) fun s => s.pollStage .done waker).wakes = [] ∧
      (w.visit i ((.done, none) : Polled) fun s => s.pollStage .done waker).world.syncs = w.syncs :=
    w.visit_idle _ (.inr fun _ => rfl)
  rcases holds with ⟨lenient, rfl⟩ | rfl <;> rcases stage with r | id | _ <;>
    obtain rfl := Option.some.inj hv
  case inl.done | inr.done => exact ⟨_, still.1.symm, still.2.symm⟩
  all_goals exact ⟨_, rfl, rfl⟩

theorem Plays.pollItem_finds (h : w.Plays items) (mem : item ∈ items) {waker : Waker}
    {v : Visit P (Item P × Answer P)} (hv : w.pollItem? waker item = some v) :
    w.Finds (fun i c xs => item.Polls i c waker xs) ∨ v.wakes = [] ∧ v.world.syncs = w.syncs := by
  have staged {i : Nat} {stage : Stage} {request : P.Request}
      (holds : (∃ lenient, item = .acquisition i request lenient stage) ∨
        item = .locking i request (some stage))
      (shares : item.shares i = stage.shares request)
      (polls : ∀ (c : Scene P) (k : Nat) (f : Future P), c.futures[k]? = some f →
        f.request = request → f.stage = stage → ∃ xs, item.Polls i c waker xs) :
      w.Finds (fun i c xs => item.Polls i c waker xs) ∨
        v.wakes = [] ∧ v.world.syncs = w.syncs := by
    refine (h.stage_finds mem shares polls).imp_right fun idle => ?_
    obtain ⟨otherwise, wakes, syncs⟩ := pollItem?_visits hv holds
    rw [wakes, syncs]
    exact w.visit_idle otherwise (idle.imp_right fun asks => pollStage_idle asks waker)
  cases item with
  | acquisition sync request lenient stage =>
    refine staged (.inl ⟨lenient, rfl⟩) (if_pos rfl) fun c k f hk asked reached => ?_
    subst asked reached
    exact ⟨_, .acquisition lenient hk⟩
  | locking sync request stage =>
    rcases stage with _ | stage
    · obtain rfl := Option.some.inj hv
      exact (h.finds_or_nobody sync fun c => ⟨_, .locks request⟩).imp_right fun nobody =>
        w.visit_idle ((.done, none) : Polled) (.inl nobody)
    · refine staged (.inr rfl) (if_pos rfl) fun c k f hk asked reached => ?_
      subst asked reached
      exact ⟨_, .locking hk⟩
  | disposal sync =>
    obtain rfl := Option.some.inj hv
    exact (h.finds_or_nobody sync fun c => ⟨_, .disposal⟩).imp_right fun nobody =>
      w.visit_idle false (.inl nobody)
  | guard sync request => cases hv
  | registration r => cases hv

theorem Plays.discard_finds (h : w.Plays items) (mem : item ∈ items) :
    w.Finds (fun i c xs => item.Drops i c xs) ∨
      (w.discard item).wakes = [] ∧ (w.discard item).world.syncs = w.syncs := by
  cases item with
  | acquisition sync request lenient stage =>
    refine (h.stage_finds mem (if_pos rfl : _ = stage.shares request) fun c k f hk asked reached =>
      ?_).imp_right fun idle => ?_
    · subst asked reached
      exact ⟨_, .acquisition lenient hk⟩
    · exact w.visit_idle () (idle.imp_right fun asks => dropStage_idle asks)
  | locking sync request stage =>
    rcases stage with _ | stage
    · exact .inr ⟨rfl, rfl⟩
    · refine (h.stage_finds mem (if_pos rfl : _ = stage.shares request) fun c k f hk asked reached =>
        ?_).imp_right fun idle => ?_
      · subst asked reached
        exact ⟨_, .locking hk⟩
      · exact w.visit_idle () (idle.imp_right fun asks => dropStage_idle asks)
  | guard sync request =>
    exact (h.finds_or_nobody sync fun c => ⟨_, .guard request⟩).imp_right fun nobody =>
      w.visit_idle () (.inl nobody)
  | disposal sync => exact .inr ⟨rfl, rfl⟩
  | registration r => exact .inr ⟨rfl, rfl⟩

theorem idles_of_syncs {t : Turn P} (quiet : t.wakes = []) (same : t.world.syncs = w.syncs) :
    w.Idles t :=
  ⟨quiet, .inl same⟩

theorem finds_lookup {α : Type} {names : Names α} {name : String} {f : α → Turn P}
    {p : Nat → Scene P → List (Deed P) → Prop}
    (found : ∀ a, names.find? name = some a → w.Finds p ∨ w.Idles (f a)) :
    w.Finds p ∨ w.Idles (w.lookup names name f) := by
  unfold World.lookup
  rcases ha : names.find? name with _ | a
  · exact .inr (idles_of_syncs rfl rfl)
  · exact found a ha

theorem idles_lookup {α : Type} {names : Names α} {name : String} {f : α → Turn P}
    (found : ∀ a, w.Idles (f a)) : w.Idles (w.lookup names name f) := by
  unfold World.lookup
  split
  · exact idles_of_syncs rfl rfl
  · exact found _

theorem Plays.tryAcquire_finds (h : w.Plays items) {object : String} (request : P.Request)
    (o : Object) (named : w.objects.find? object = some o) :
    w.Finds (fun i c => w.Stages i c (.tryAcquire object request)) ∨
      w.Idles (w.tryAcquire o request) := by
  unfold World.tryAcquire
  split
  · exact .inr (idles_of_syncs rfl rfl)
  · rename_i fit
    refine (h.finds_or_nobody o.sync fun c => ⟨_, .tryAcquire named fit⟩).imp_right fun nobody => ?_
    obtain ⟨quiet, same⟩ := w.visit_idle (.done : Stage) (.inl nobody)
    exact idles_of_syncs quiet same

theorem startAcquisition_idles (w : World P) (o : Object) (name : String)
    (a : Acquiring P) (timeout : Timeout) (token : Option Nat) :
    w.complaint? o P.desk.entry a.request = none ∧ w.syncs[o.sync]? ≠ none ∨
      w.Idles (w.startAcquisition o name a timeout token) := by
  unfold World.startAcquisition
  dsimp only
  split
  · exact .inr (idles_of_syncs rfl rfl)
  · rename_i fit
    by_cases hi : w.syncs[o.sync]? = none
    · obtain ⟨quiet, same⟩ := w.visit_idle (.done : Stage) (.inl hi)
      exact .inr (idles_of_syncs quiet same)
    · exact .inl ⟨fit, hi⟩

theorem Plays.acquire_finds (h : w.Plays items) {object : String} (name : String)
    (a : Acquiring P) (o : Object) (named : w.objects.find? object = some o) :
    w.Finds (fun i c => w.Stages i c (.acquire object name a)) ∨
      w.Idles (w.acquire o name a) := by
  have begins (token : Option Nat) (timeout : Timeout) (timed : a.timeout = .ok timeout)
      (carried : a.token.map w.tokenNames.find? = token.map some) :
      w.Finds (fun i c => w.Stages i c (.acquire object name a)) ∨
        w.Idles (World.startAcquisition
          { w with tokens := token.elim w.tokens w.tokens.retain } o name a timeout token) := by
    let w' : World P := { w with tokens := token.elim w.tokens w.tokens.retain }
    rcases w'.startAcquisition_idles o name a timeout token with ⟨fit, there⟩ | idles
    · obtain ⟨s, hi⟩ := Option.ne_none_iff_exists'.mp there
      obtain ⟨c, reach, hosts, -⟩ := h.hosts hi
      have fit := (complaint?_congr o P.desk.entry a.request (rfl : w'.syncs = w.syncs)).symm.trans fit
      exact .inl ⟨o.sync, c, _, reach, hosts, .acquire named fit timed carried⟩
    · exact .inr idles
  unfold World.acquire
  dsimp only
  rcases ht : a.token with _ | t
  · dsimp only
    split
    · exact .inr (idles_of_syncs rfl rfl)
    · exact begins none _ ‹_› (by rw [ht]; rfl)
  · refine finds_lookup fun u found => ?_
    split
    · exact .inr (idles_of_syncs rfl rfl)
    · exact begins (some u) _ ‹_› (by rw [ht]; exact congrArg some found)

theorem Plays.poll_finds (h : w.Plays (w.items ++ rest)) (slot : String) (waker : Waker) :
    w.Finds (fun i c xs => ∃ item, w.slots.find? slot = some item ∧ item.Polls i c waker xs) ∨
      w.Idles (w.poll slot waker) := by
  refine finds_lookup fun item held => ?_
  split
  · exact .inr (idles_of_syncs rfl rfl)
  · rename_i v hv
    have taken : Plays { w with slots := w.slots.erase slot } (w.items ++ rest) :=
      h.mono rfl fun _ => .refl _
    rcases taken.pollItem_finds (List.mem_append_left _ (mem_items held)) hv with
      ⟨i, c, xs, reach, hosts, polls⟩ | ⟨quiet, same⟩
    · exact .inl ⟨i, c, xs, reach, ⟨hosts.sync, hosts.timers, hosts.tokens⟩, item, held, polls⟩
    · exact .inr (idles_of_syncs quiet same)

theorem Plays.drop_finds (h : w.Plays (w.items ++ rest)) (slot : String) :
    w.Finds (fun i c => w.Stages i c (.drop slot)) ∨ w.Idles (w.drop slot) := by
  refine finds_lookup fun item held => ?_
  have taken : Plays { w with slots := w.slots.erase slot } (w.items ++ rest) :=
    h.mono rfl fun _ => .refl _
  rcases taken.discard_finds (List.mem_append_left _ (mem_items held)) with
    ⟨i, c, xs, reach, hosts, drops⟩ | ⟨quiet, same⟩
  · exact .inl ⟨i, c, xs, reach, ⟨hosts.sync, hosts.timers, hosts.tokens⟩, .drop held drops⟩
  · exact .inr (idles_of_syncs quiet same)

theorem Plays.start_finds (h : w.Plays (w.items ++ rest)) (s : Step P) :
    w.Finds (fun i c => w.Stages i c s) ∨
      (w.start s).wakes = w.signals s ∧ w.Preserves (w.start s).world := by
  cases s with
  | create name raw holding settings =>
    right
    show w.Idles (w.create name raw holding settings)
    unfold World.create
    split
    · exact idles_of_syncs rfl rfl
    · split
      · exact idles_of_syncs rfl rfl
      · exact ⟨rfl, .inr ⟨_, _, _, _, rfl⟩⟩
  | tryAcquire object request => exact finds_lookup fun o named => h.tryAcquire_finds request o named
  | acquire object name a => exact finds_lookup fun o named => h.acquire_finds name a o named
  | release object request =>
    refine finds_lookup fun o named => ?_
    unfold World.release
    split
    · exact .inr (idles_of_syncs rfl rfl)
    · rename_i fit
      refine (h.finds_or_nobody o.sync fun c => ⟨_, .release named fit⟩).imp_right fun nobody => ?_
      obtain ⟨quiet, same⟩ := w.visit_idle (.ok () : Except Refusal Unit) (.inl nobody)
      exact idles_of_syncs quiet same
  | dispose object name =>
    refine finds_lookup fun o named => ?_
    refine (h.finds_or_nobody o.sync fun c => ⟨_, .dispose named⟩).imp_right fun nobody => ?_
    obtain ⟨quiet, same⟩ := w.visit_idle () (.inl nobody)
    exact idles_of_syncs quiet same
  | poll slot waker onWake =>
    -- The steps for the waker are set first, which no synchronizer sees.
    have told : (w.setOnWake waker onWake).slots = w.slots ∧
        (w.setOnWake waker onWake).syncs = w.syncs ∧ (w.setOnWake waker onWake).timers = w.timers ∧
        (w.setOnWake waker onWake).tokens = w.tokens := by
      cases onWake <;> exact ⟨rfl, rfl, rfl, rfl⟩
    obtain ⟨slots, syncs, timers, tokens⟩ := told
    rcases (h.setOnWake waker onWake).poll_finds slot (.task waker) with
      ⟨i, c, xs, reach, hosts, item, held, polls⟩ | ⟨quiet, preserves⟩
    · refine .inl ⟨i, c, xs, reach, ⟨?_, ?_, ?_⟩, .poll (slots ▸ held) polls⟩
      · exact syncs ▸ hosts.sync
      · exact timers ▸ hosts.timers
      · exact tokens ▸ hosts.tokens
    · refine .inr ⟨quiet, ?_⟩
      rwa [Preserves, syncs] at preserves
  | drop slot => exact h.drop_finds slot
  | cancel token =>
    right
    rw [World.start, signals]
    rcases found : w.tokenNames.find? token with _ | t
    · rw [World.lookup, found]
      exact ⟨rfl, .inl rfl⟩
    · rw [lookup_eq found, Option.elim_some, World.cancel]
      split <;> exact ⟨rfl, .inl rfl⟩
  | process => exact .inr ⟨rfl, .inl rfl⟩
  | child token name =>
    refine .inr (idles_lookup fun t => ?_)
    unfold World.child
    dsimp only
    split
    · exact idles_of_syncs rfl (nameToken_fields ..).1
    · exact idles_of_syncs rfl (nameToken_fields ..).1
  | createToken name => exact .inr (idles_of_syncs rfl (nameToken_fields ..).1)
  | cloneToken token name =>
    exact .inr (idles_lookup fun t => idles_of_syncs rfl (nameToken_fields ..).1)
  | dropToken token =>
    exact .inr (idles_lookup fun t => idles_of_syncs rfl (forgetToken_fields ..).1)
  | register token name waker onWake =>
    refine .inr (idles_lookup fun t => ?_)
    unfold World.register
    split
    · exact idles_of_syncs rfl (setOnWake_fields ..).1
    · exact idles_of_syncs rfl (setOnWake_fields ..).1
  | createTimer name moment waker onWake =>
    exact .inr (idles_of_syncs rfl (setOnWake_fields w waker onWake).1)
  | advance | advanceTo | setClock => exact .inr (idles_of_syncs rfl (setClock_fields ..).1)
  | sameTimer a b =>
    exact .inr (idles_lookup fun _ => idles_lookup fun _ => idles_of_syncs rfl rfl)
  | clone | dropObject | lock | holding | describe | isWaiting | guarded | isRegistrationCancelled
  | describeSlot | describeToken | cancelTimer =>
    exact .inr (idles_lookup fun _ => idles_of_syncs rfl rfl)
  | now | describeClock | nextDeadline | timers | clearTimers | describeTimers | wait
  | waitWaker => exact .inr (idles_of_syncs rfl rfl)

end World

namespace Machine

variable {m : Machine P}

theorem Plays.perform_finds (h : m.Plays) {f : Frame P} {agenda : List (Frame P)}
    (hm : m.agenda = f :: agenda) (other : f.begins? = none) :
    m.world.Finds m.Stages ∨ m.gathersFor f = m.signalsFor f ∧
      m.world.Preserves ({ m with agenda }.perform f).world := by
  have plays : m.world.Plays (m.world.items ++ m.agenda.filterMap Frame.item?) := h
  have still (quiet : m.gathersFor f = m.signalsFor f)
      (same : ({ m with agenda }.perform f).world.syncs = m.world.syncs) :
      m.world.Finds m.Stages ∨ m.gathersFor f = m.signalsFor f ∧
        m.world.Preserves ({ m with agenda }.perform f).world :=
    .inr ⟨quiet, .inl same⟩
  cases f with
  | wake aside ws =>
    rcases ws with _ | ⟨name | _ | ⟨i, j⟩, ws⟩
    · exact still rfl rfl
    · refine still rfl ?_
      rw [Machine.perform, Machine.wake]
      dsimp only
      split <;> rfl
    · exact still rfl rfl
    · refine (plays.finds_or_nobody i fun c => ⟨_, .trigger hm⟩).imp_right fun nobody => ?_
      obtain ⟨quiet, same⟩ := m.world.visit_idle () (.inl nobody)
      exact ⟨quiet, .inl same⟩
  | children t => exact still rfl rfl
  | cancel ts =>
    rcases ts with _ | ⟨t, ts⟩
    · exact still rfl rfl
    · refine still rfl ?_
      rw [Machine.perform, Machine.cancelChild]
      split <;> rfl
  | run steps =>
    rcases steps with _ | ⟨s, ss⟩
    · exact still rfl rfl
    · cases other
  | put slot item =>
    rcases held : m.world.slots.find? slot with _ | old
    · refine still ?_ ?_
      · rw [gathersFor, held]
        rfl
      · rw [Machine.perform, Machine.put]
        dsimp only
        rw [held]
    · have filled : World.Plays { m.world with slots := m.world.slots.insert slot item }
          (m.world.items ++ m.agenda.filterMap Frame.item?) := plays.mono rfl fun _ => .refl _
      rcases filled.discard_finds (List.mem_append_left _ (World.mem_items held)) with
        ⟨i, c, xs, reach, hosts, drops⟩ | ⟨quiet, same⟩
      · exact .inl ⟨i, c, xs, reach, ⟨hosts.sync, hosts.timers, hosts.tokens⟩, .put hm held drops⟩
      · refine still ?_ ?_
        · rw [gathersFor, held]
          exact quiet
        · rw [Machine.perform, Machine.put]
          dsimp only
          rw [held]
          exact same
  | letGo t => exact still rfl rfl
  | finish top answer =>
    refine still rfl ?_
    rw [Machine.perform, world_deliver]
  | await top slot =>
    rcases plays.poll_finds slot .sleeper with
      ⟨i, c, xs, reach, hosts, item, held, polls⟩ | ⟨quiet, preserves⟩
    · exact .inl ⟨i, c, xs, reach, hosts, .await hm held polls⟩
    · refine .inr ⟨?_, ?_⟩
      · rw [gathersFor, signalsFor, quiet]
        rfl
      · rwa [World.Preserves, Machine.perform, syncs_await]
  | awaitWaker top waker =>
    refine still rfl ?_
    rw [Machine.perform]
    split
    · rw [world_deliver]
    · rw [syncs_elapse]

/-- The next step of a machine either makes deeds or gathers at most what comes from the timers or a
token. -/
theorem Plays.step_finds (h : m.Plays) :
    m.world.Finds m.Stages ∨ m.gathers = m.signals ∧ m.world.Preserves m.step.world := by
  rcases hs : m.next? with _ | s
  · rw [next?] at hs
    rcases hm : m.agenda with _ | ⟨f, agenda⟩ <;> rw [hm] at hs
    · right
      rw [gathers, signals, Machine.step, hm, List.head?_eq_none_iff.mp hs]
      exact ⟨rfl, .inl rfl⟩
    · rw [gathers, signals, Machine.step, hm]
      exact h.perform_finds hm hs
  · obtain ⟨gathers, signals, world⟩ := begins_of_next hs
    have plays : m.world.Plays (m.world.items ++ m.agenda.filterMap Frame.item?) := h
    rw [gathers, signals, world]
    refine (plays.start_finds s).imp_left ?_
    rintro ⟨i, c, xs, reach, hosts, stages⟩
    exact ⟨i, c, xs, reach, hosts, .step hs stages⟩

end Machine

end Turnstile
