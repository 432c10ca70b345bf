import Turnstile.Proofs.Agenda
import Turnstile.Proofs.Paces

/-!
# Machines in lockstep

Two machines that run the same script, but for the settings of the pools, do the same in each of their
steps. A trigger is woken before its waiter can leave: between the moment when it is put on the agenda
and the moment when it is woken, the machine only wakes.
-/

namespace Turnstile

variable {P : Policy}

/-! ## What is shown -/

/-- Without what the pool tells. -/
def ObjectView.blurred (o : ObjectView P) : ObjectView P := { o with stats := ⟨0, 0, 0⟩ }

def Snapshot.blurred (s : Snapshot P) : Snapshot P :=
  { s with objects := s.objects.map fun o => (o.1, o.2.blurred) }

/-- Without the slots that the events name, and without what the pools tell. -/
def Report.blurred (r : Report P) : Report P :=
  { r with events := r.events.map Event.blurred, snapshot := r.snapshot.blurred }

variable {g g' : Nat → Nat → Nat}

theorem World.Twin.snapshot_eq {w v : World P} (h : w.Twin g v) :
    v.snapshot.blurred = w.snapshot.blurred := by
  have shown (name : String) (o : Object) := h.map_sync o.sync
    (k := fun s => (name, ObjectView.blurred ⟨s.holding, s.waitingCount, s.isDisposed, s.stats⟩))
    fun s t twin => by
      simp only [ObjectView.blurred, twin.holding, twin.waitingCount_eq, Sync.isDisposed, twin.phase]
  have told (u : World P) : u.snapshot.blurred.objects = u.objects.entries.filterMap fun e =>
      u.syncs[e.2.sync]?.map fun s =>
        (e.1, ObjectView.blurred ⟨s.holding, s.waitingCount, s.isDisposed, s.stats⟩) := by
    unfold Snapshot.blurred World.snapshot World.sync?
    rw [List.map_filterMap]
    simp only [Option.map_map]
    rfl
  have objects : v.snapshot.blurred.objects = w.snapshot.blurred.objects := by
    rw [told, told, h.objects]
    exact List.filterMap_congr fun e _ => shown e.1 e.2
  have tokens : v.snapshot.tokens = w.snapshot.tokens := by
    simp [World.snapshot, h.tokenNames, h.tokens]
  have timers : v.snapshot.timers = w.snapshot.timers := by
    simp [World.snapshot, h.timers]
  exact Snapshot.mk.injEq .. ▸ ⟨objects, tokens, timers⟩

/-! ## Frames -/

namespace Frame

/-- Nothing but wakes comes of it. -/
def passes : Frame P → Bool
  | .wake .. | .children _ | .cancel _ | .run [] => true
  | _ => false

/-- The same is to be done on both sides. No step is to be run. -/
inductive Twin (g : Nat → Nat → Nat) : Frame P → Frame P → Prop
  | wake (aside : Bool) (ws : List Waker) :
    Twin g (.wake aside ws) (.wake aside (ws.map (Waker.rename g)))
  | put (slot : String) {item item' : Item P} (same : item.Twin g item') :
    Twin g (.put slot item) (.put slot item')
  | same (f : Frame P) (silent : f.wakers = []) (idle : f.item? = none) (ends : f.begins? = none) :
    Twin g f f

/-- Whom the frame wakes has rented a slot. -/
def Named (w : World P) (f : Frame P) : Prop :=
  ∀ i j, (i, j) ∈ targets f.wakers → ∃ u, w.waiter? i j = some u

theorem Twin.keeps {w v : World P} {f f' : Frame P} (h : f.Twin g f') (world : w.Twin g v)
    (keeps : w.Spares g g') (stands : ∀ item ∈ f.item?, item.Stands w) (named : f.Named w) :
    f.Twin g' f' := by
  cases h with
  | wake aside ws =>
    have same : ws.map (Waker.rename g) = ws.map (Waker.rename g') := by
      refine List.map_congr_left fun waker hw => ?_
      cases waker with
      | trigger i j =>
        obtain ⟨u, hu⟩ := named i j (List.mem_filterMap.mpr ⟨_, hw, rfl⟩)
        exact congrArg (Waker.trigger i) (keeps i j u hu).symm
      | _ => rfl
    rw [same]
    exact .wake aside ws
  | put slot same => exact .put slot (world.keeps_item keeps same (stands _ rfl))
  | same f silent idle ends => exact .same f silent idle ends

theorem Twin.all {w v : World P} {fs fs' : List (Frame P)}
    (h : List.Forall₂ (Frame.Twin g) fs fs') (world : w.Twin g v) (keeps : w.Spares g g')
    (stands : ∀ item ∈ fs.filterMap Frame.item?, item.Stands w) (named : ∀ f ∈ fs, f.Named w) :
    List.Forall₂ (Frame.Twin g') fs fs' := by
  induction h with
  | nil => exact .nil
  | cons same _ ih =>
    refine .cons (same.keeps world keeps (fun item hi => ?_) (named _ List.mem_cons_self))
      (ih (fun item hi => ?_) fun f hf => named f (List.mem_cons_of_mem _ hf))
    · exact stands item (List.mem_filterMap.mpr ⟨_, List.mem_cons_self, hi⟩)
    · obtain ⟨f, hf, item⟩ := List.mem_filterMap.mp hi
      exact stands _ (List.mem_filterMap.mpr ⟨f, List.mem_cons_of_mem _ hf, item⟩)

end Frame

/-- What is left of a step when those whom it wakes have had their turn. -/
def Turn.after (t : Turn P) (top : Bool) : List (Frame P) :=
  t.firing.toList.map .children ++ t.put.toList.map (fun p => .put p.1 p.2)
    ++ t.held.toList.map .letGo ++ [.finish top t.answer]

theorem Turn.wakers_after (t : Turn P) {top : Bool} {f : Frame P} (hf : f ∈ t.after top) :
    f.wakers = [] := by
  simp only [Turn.after, List.mem_append, List.mem_map, List.mem_singleton] at hf
  rcases hf with ((⟨n, -, rfl⟩ | ⟨p, -, rfl⟩) | ⟨n, -, rfl⟩) | rfl <;> rfl

theorem Turn.Twin.after {t t' : Turn P} (h : t.Twin g t') (top : Bool) :
    List.Forall₂ (Frame.Twin g) (t.after top) (t'.after top) := by
  unfold Turn.after
  rw [h.firing, h.held, h.answer]
  refine List.rel_append (List.rel_append (List.rel_append ?_ ?_) ?_)
    (.cons (.same _ rfl rfl rfl) .nil)
  · refine List.forall₂_same.mpr fun f hf => ?_
    obtain ⟨n, -, rfl⟩ := List.mem_map.mp hf
    exact .same _ rfl rfl rfl
  · obtain ⟨hp, hq⟩ | ⟨⟨slot, item⟩, ⟨slot', item'⟩, hp, hq, rfl, same⟩ := rel_cases h.put
    · rw [hp, hq]
      exact .nil
    · rw [hp, hq]
      exact .cons (.put _ same) .nil
  · refine List.forall₂_same.mpr fun f hf => ?_
    obtain ⟨n, -, rfl⟩ := List.mem_map.mp hf
    exact .same _ rfl rfl rfl

theorem World.Plays.rented_trigger {w : World P} {items : List (Item P)} (h : w.Plays items)
    (i j : Nat) {k n : Nat} {u : Waiter P.Request} (hu : w.waiter? k n = some u) :
    ∃ u, (w.touch i fun s => s.trigger j).world.waiter? k n = some u := by
  rcases hi : w.syncs[i]? with _ | s
  · rw [touch_eq_of_none hi]
    exact ⟨u, hu⟩
  · rw [touch_eq hi]
    show ∃ u, (w.outside i ((w.inside s).trigger j)).waiter? k n = some u
    unfold World.waiter? at hu ⊢
    rw [outside_sync hi]
    split
    · subst k
      rw [hi, Option.bind_some] at hu
      obtain ⟨d, L, rests⟩ := h.rests hi
      obtain ⟨-, -, frame⟩ := Section.trigger_rests rests j
      have keys := frame.keys n (by simp)
      rw [show (w.inside s).sync.line.bare? n = some u.bare from Line.bare?_of_waiter? hu] at keys
      obtain ⟨v, hv, -⟩ := Option.map_eq_some_iff.mp keys
      obtain ⟨u', hu', -⟩ := Option.map_eq_some_iff.mp hv
      exact ⟨u', hu'⟩
    · exact ⟨u, hu⟩

/-! ## Machines -/

namespace Machine

variable {m m' : Machine P}

structure Twin (g : Nat → Nat → Nat) (m m' : Machine P) : Prop where
  world : m.world.Twin g m'.world
  agenda : List.Forall₂ (Frame.Twin g) m.agenda m'.agenda
  script : List.Forall₂ Step.Alike m.script m'.script
  quiet : ∀ s ∈ m.script, s.quiet = true
  woken : m'.woken = m.woken
  wakes : m'.wakes = m.wakes
  nested : m'.nested = m.nested
  events : m'.events.map Event.blurred = m.events.map Event.blurred
  reports : m'.reports.map Report.blurred = m.reports.map Report.blurred
  named : ∀ f ∈ m.agenda, f.Named m.world
  /-- Only frames that pass stand before a trigger. -/
  ordered : m.agenda.Pairwise fun f f' => f.passes = true ∨ targets f'.wakers = []

theorem await_of_pending {top : Bool} {slot name : String} {item : Item P}
    (put : (m.world.poll slot .sleeper).put = some (name, item))
    (pending : (m.world.poll slot .sleeper).answer = .pending) :
    m.await top slot =
      { m with
        world :=
          { (m.world.poll slot .sleeper).world with
            slots := (m.world.poll slot .sleeper).world.slots.insert name item } }.elapse top
        (.await top slot) := by
  unfold Machine.await
  dsimp only
  rw [put, pending]

theorem await_of_settled {top : Bool} {slot : String}
    (settled : ∀ p, (m.world.poll slot .sleeper).put = some p →
      (m.world.poll slot .sleeper).answer ≠ .pending) :
    m.await top slot = m.take top (m.world.poll slot .sleeper) := by
  unfold Machine.await
  dsimp only
  split
  · rename_i put pending
    exact absurd pending (settled _ put)
  · rfl

/-- No waiter is to be woken. -/
def Clear (m : Machine P) : Prop := ∀ f ∈ m.agenda, targets f.wakers = []

/-- What is about to go into a slot stands. -/
def Stands (m : Machine P) : Prop := ∀ item ∈ m.agenda.filterMap Frame.item?, item.Stands m.world

theorem Plays.stands (h : m.Plays) : m.Stands := fun _ hi =>
  World.Plays.stands h (List.mem_append_right _ hi)

namespace Twin

theorem change (h : m.Twin g m') (stands : m.Stands) (keeps : m.world.Spares g g') {w v : World P}
    (world : w.Twin g' v)
    (rented : m.Clear ∨ ∀ i j u, m.world.waiter? i j = some u → ∃ u, w.waiter? i j = some u) :
    { m with world := w }.Twin g' { m' with world := v } := by
  refine { h with
    world, agenda := Frame.Twin.all h.agenda h.world keeps stands h.named
    named := fun f hf i j hp => ?_ }
  rcases rented with clear | rented
  · rw [clear f hf] at hp
    cases hp
  · obtain ⟨u, hu⟩ := h.named f hf i j hp
    exact rented i j u hu

theorem retoken (h : m.Twin g m') (stands : m.Stands) (tokens : Tokens) {tokens' : Tokens}
    (same : tokens' = tokens.redirect (Waker.rename g)) :
    { m with world := { m.world with tokens } }.Twin g
      { m' with world := { m'.world with tokens := tokens' } } := by
  have world : World.Twin g { m.world with tokens } { m'.world with tokens := tokens' } :=
    { h.world with tokens := same }
  exact h.change stands (fun _ _ _ _ => rfl) world (.inr fun _ _ u hu => ⟨u, hu⟩)

theorem report (h : m.Twin g m') {events events' : List (Event P.Request)}
    (same : events'.map Event.blurred = events.map Event.blurred) :
    (m.report events).Twin g (m'.report events') := by
  refine { h with events := ?_ }
  unfold Machine.report
  rw [List.map_append, List.map_append, h.events, same]

theorem push (h : m.Twin g m') {fs fs' : List (Frame P)} (frames : List.Forall₂ (Frame.Twin g) fs fs')
    (named : ∀ f ∈ fs, f.Named m.world)
    (ordered : fs.Pairwise fun f f' => f.passes = true ∨ targets f'.wakers = [])
    (free : m.Clear ∨ ∀ f ∈ fs, f.passes = true) : (m.push fs).Twin g (m'.push fs') := by
  refine { h with
    agenda := List.rel_append frames h.agenda
    named := fun f hf => (List.mem_append.mp hf).elim (named f) (h.named f)
    ordered := List.pairwise_append.mpr ⟨ordered, h.ordered, fun f hf f' hf' => ?_⟩ }
  exact free.elim (fun clear => .inr (clear f' hf')) fun passes => .inl (passes f hf)

theorem add (h : m.Twin g m') {f : Frame P} (silent : f.wakers = []) (idle : f.item? = none)
    (ends : f.begins? = none) (free : m.Clear ∨ f.passes = true) :
    (m.push [f]).Twin g (m'.push [f]) := by
  refine h.push (.cons (.same f silent idle ends) .nil) (fun f' hf => ?_) (List.pairwise_singleton _ _)
    (free.imp_right fun passes f' hf => ?_)
  · rw [List.mem_singleton.mp hf]
    intro i j hp
    rw [silent] at hp
    cases hp
  · rw [List.mem_singleton.mp hf]
    exact passes

theorem follow (h : m.Twin g m') (stands : m.Stands) (keeps : m.world.Spares g g') {α : Type}
    {x y : Visit P α} (visit : x.Twin g' y)
    (rented : m.Clear ∨ ∀ i j u, m.world.waiter? i j = some u → ∃ u, x.world.waiter? i j = some u)
    (aside : Bool) : (m.follow x aside).Twin g' (m'.follow y aside) := by
  have told := (h.change stands keeps visit.world rented).report visit.events
  unfold Machine.follow
  rw [visit.wakes]
  refine told.push (.cons (.wake aside x.wakes) .nil) (fun f hf => ?_) (List.pairwise_singleton _ _)
    (.inr fun f hf => ?_)
  · rw [List.mem_singleton.mp hf]
    exact visit.named
  · rw [List.mem_singleton.mp hf]
    rfl

theorem take (h : m.Twin g m') (stands : m.Stands) (keeps : m.world.Spares g g') {t t' : Turn P}
    (turn : t.Twin g' t') (clear : m.Clear) (top : Bool) :
    (m.take top t).Twin g' (m'.take top t') := by
  have told := (h.change stands keeps turn.world (.inl clear)).report turn.events
  have wakes : Frame.Twin g' (.wake false t.wakes : Frame P) (.wake false t'.wakes) :=
    turn.wakes ▸ .wake false t.wakes
  have quiet {f : Frame P} (hf : f ∈ t.after top) : targets f.wakers = [] :=
    congrArg targets (t.wakers_after hf)
  refine told.push (.cons wakes (turn.after top)) (fun f hf => ?_)
    (List.pairwise_cons.mpr ⟨fun _ _ => .inl rfl, ?_⟩) (.inl clear)
  · rcases List.mem_cons.mp hf with rfl | hf
    · exact turn.named
    · intro i j hp
      rw [quiet hf] at hp
      cases hp
  · exact List.pairwise_of_forall_mem_list fun f _ f' hf' => .inr (quiet hf')

theorem deliver (h : m.Twin g m') (top : Bool) (answer : Answer P) :
    (m.deliver top answer).Twin g (m'.deliver top answer) := by
  unfold Machine.deliver
  split
  · refine { h with wakes := rfl, nested := rfl, events := rfl, reports := ?_ }
    simp only [List.map_append, h.reports, List.map_cons, List.map_nil, Report.blurred, h.wakes,
      h.nested, h.events, h.world.snapshot_eq]
  · exact { h with nested := congrArg (· ++ [answer]) h.nested }

theorem elapse (h : m.Twin g m') (stands : m.Stands) (minded : m.world.Minded) (clear : m.Clear)
    (top : Bool) {again : Frame P} (silent : again.wakers = []) (idle : again.item? = none)
    (ends : again.begins? = none) : (m.elapse top again).Twin g (m'.elapse top again) := by
  have pushed := h.add silent idle ends (.inl clear)
  unfold Machine.elapse
  obtain ⟨hx, hy⟩ | ⟨x, y, hx, hy, visit⟩ := rel_cases (h.world.elapse? minded)
  · rw [hx, hy]
    exact h.deliver top .pending
  · rw [hx, hy]
    refine pushed.follow (fun item hi => stands item ?_) (fun _ _ _ _ => rfl) visit
      (.inr fun i j u hu => ⟨u, ?_⟩) true
    · rw [← List.filterMap_cons_none (l := m.agenda) idle]
      exact hi
    · obtain ⟨t, -, rfl⟩ := Option.map_eq_some_iff.mp hx
      exact hu

theorem wake (h : m.Twin g m') {items items' : List (Item P)}
    (both : m.world.Abreast g m'.world items items') (stands : m.Stands) (aside : Bool)
    {waker : Waker}
    (named : ∀ i j, waker.target? = some (i, j) → ∃ u, m.world.waiter? i j = some u) :
    ∃ g', (m.wake aside waker).Twin g' (m'.wake aside (waker.rename g)) := by
  cases waker with
  | task name =>
    refine ⟨g, ?_⟩
    have told : Twin g
        { m with
          woken := name :: m.woken, wakes := if aside then m.wakes else m.wakes ++ [name] }
        { m' with
          woken := name :: m'.woken, wakes := if aside then m'.wakes else m'.wakes ++ [name] } :=
      { h with woken := congrArg (name :: ·) h.woken, wakes := by simp only [h.wakes] }
    unfold Machine.wake
    simp only [Waker.rename]
    rw [h.world.onWake]
    rcases hs : m.world.onWake.find? name with _ | steps
    · exact told
    · obtain rfl := h.world.calm name steps hs
      have erased : World.Twin g { m.world with onWake := m.world.onWake.erase name }
          { m'.world with onWake := m.world.onWake.erase name } := by
        refine { h.world with onWake := rfl, calm := fun other given hg => ?_ }
        have found := (m.world.onWake.find?_erase name other).symm.trans hg
        split at found
        · cases found
        · exact h.world.calm other given found
      exact (told.change stands (fun _ _ _ _ => rfl) erased (.inr fun _ _ u hu => ⟨u, hu⟩)).add rfl
        rfl rfl (.inr rfl)
  | sleeper => exact ⟨g, h⟩
  | trigger i j =>
    obtain ⟨u, hu⟩ := named i j rfl
    have woken : m.world.Follows g fun g' =>
        (m.world.touch i fun s => s.trigger j).Twin g'
          (m'.world.touch i fun s => s.trigger (g i j)) := by
      refine (both.visit i (R := fun _ _ _ => True) trivial fun s t hs ht twin => ?_).imp
        fun _ _ twin => twin.1
      have hw : (m.world.inside s).waiter? j = some u := by
        rw [World.waiter?, hs, Option.bind_some] at hu
        exact hu
      exact ⟨g, twin.trigger hw, trivial, fun _ _ => .inl rfl⟩
    obtain ⟨g', keeps, visit⟩ := woken
    exact ⟨g', h.follow stands keeps visit
      (.inr fun k n u hu => both.plays.rented_trigger i j hu) aside⟩

theorem cancelChild (h : m.Twin g m') (stands : m.Stands) (minded : m.world.Minded) (t : Nat) :
    (m.cancelChild t).Twin g (m'.cancelChild t) := by
  have fired := m.world.tokens.fire_redirect (σ := Waker.rename g) t
  rw [← h.world.tokens] at fired
  unfold Machine.cancelChild
  rw [fired, show m'.world.tokens.isAlive t = m.world.tokens.isAlive t by simp [h.world.tokens],
    show m'.world.tokens.isCancelled t = m.world.tokens.isCancelled t by simp [h.world.tokens]]
  split
  · have count : [Event.tokenFired ((m.world.tokens.fire t).2.map (Waker.rename g)).length].map
        Event.blurred =
        [(.tokenFired (m.world.tokens.fire t).2.length : Event P.Request)].map Event.blurred := by
      rw [List.length_map]
    have told := (h.retoken stands (m.world.tokens.fire t).1 rfl).report count
    refine told.push (.cons (.wake false _) (.cons (.same (.children t) rfl rfl rfl) .nil))
      (fun f hf => ?_) (by simp [Frame.passes]) (.inr (by simp [Frame.passes]))
    rcases List.mem_cons.mp hf with rfl | hf
    · exact fun i j hp => minded.fired hp
    · obtain rfl := List.mem_singleton.mp hf
      exact fun i j hp => by cases hp
  · exact h

theorem put (h : m.Twin g m') {items items' : List (Item P)}
    (both : m.world.Abreast g m'.world items items') (stands : m.Stands) (clear : m.Clear)
    (slot : String) {item item' : Item P} (same : item.Twin g item') (hi : item ∈ items)
    (hi' : item' ∈ items') : ∃ g', (m.put slot item).Twin g' (m'.put slot item') := by
  have filled := both.insert slot same hi hi'
  unfold Machine.put
  dsimp only
  obtain ⟨hx, hy⟩ | ⟨old, old', hx, hy, twin⟩ := rel_cases (h.world.slots.find? slot)
  · rw [hx, hy]
    exact ⟨g, h.change stands (fun _ _ _ _ => rfl) filled.toTwin (.inl clear)⟩
  · rw [hx, hy]
    obtain ⟨g', keeps, visit⟩ := filled.discard twin (both.kept (World.mem_items hx))
      (both.kept' (World.mem_items hy))
    exact ⟨g', h.follow stands keeps visit (.inl clear) false⟩

theorem await (h : m.Twin g m') {items items' : List (Item P)}
    (both : m.world.Abreast g m'.world items items') (plays : m.Plays) (clear : m.Clear)
    (top : Bool) (slot : String) : ∃ g', (m.await top slot).Twin g' (m'.await top slot) := by
  have stands := plays.stands
  obtain ⟨g', keeps, turn⟩ := both.poll slot .sleeper rfl
  have taken := h.take stands keeps turn clear top
  obtain ⟨hp, hp'⟩ | ⟨⟨name, item⟩, ⟨name', item'⟩, hp, hp', rfl, same⟩ := rel_cases turn.put
  · rw [await_of_settled (by simp [hp]), await_of_settled (by simp [hp'])]
    exact ⟨g', taken⟩
  · by_cases pending : (m.world.poll slot .sleeper).answer = .pending
    · rw [await_of_pending hp pending, await_of_pending hp' (turn.answer.trans pending)]
      have filled := h.change stands keeps (turn.world.fill name' same) (.inl clear)
      have minded := both.minded.poll both.plays slot .sleeper
      refine ⟨g', filled.elapse (fun item hi => ?_) (minded.same rfl rfl rfl) clear top rfl rfl
        rfl⟩
      have polled := World.Plays.poll plays slot .sleeper
      exact (polled.mono rfl fun _ => .refl _).stands
        (List.mem_append_right _ (List.mem_append_right _ hi))
    · rw [await_of_settled fun _ _ => pending,
        await_of_settled fun _ _ answer => pending (turn.answer.symm.trans answer)]
      exact ⟨g', taken⟩

theorem begin (h : m.Twin g m') {items items' : List (Item P)}
    (both : m.world.Abreast g m'.world items items') (stands : m.Stands) (clear : m.Clear)
    (top : Bool) {s s' : Step P} (alike : s.Alike s') (quiet : s.quiet = true) :
    ∃ g', (m.begin top s).Twin g' (m'.begin top s') := by
  obtain ⟨g', keeps, turn⟩ := both.start alike quiet
  have taken := h.take stands keeps turn clear top
  cases alike with
  | same s =>
    cases s with
    | wait slot => exact ⟨g, h.add rfl rfl rfl (.inl clear)⟩
    | waitWaker waker => exact ⟨g, h.add rfl rfl rfl (.inl clear)⟩
    | _ => exact ⟨g', taken⟩
  | create name raw held timer valid => exact ⟨g', taken⟩

theorem perform (h : m.Twin g m') {f f' : Frame P} (same : f.Twin g f')
    (plays : m.world.Plays (f.item?.toList ++ m.items))
    (plays' : m'.world.Plays (f'.item?.toList ++ m'.items)) (minded : m.world.Minded)
    (named : f.Named m.world) (free : f.passes = true ∨ m.Clear) :
    ∃ g', (m.perform f).Twin g' (m'.perform f') := by
  have both : m.world.Abreast g m'.world (f.item?.toList ++ m.items) (f'.item?.toList ++ m'.items) :=
    ⟨h.world, minded, plays, plays', fun _ hi => List.mem_append_right _ (List.mem_append_left _ hi),
      fun _ hi => List.mem_append_right _ (List.mem_append_left _ hi)⟩
  have rest : m.Plays :=
    plays.mono rfl fun i => World.shares_subperm_of_subperm (List.sublist_append_right _ _).subperm i
  cases same with
  | wake aside ws =>
    rcases ws with _ | ⟨waker, ws⟩
    · exact ⟨g, h⟩
    · have pushed := h.push (.cons (.wake aside ws) .nil) (fun f hf => ?_)
        (List.pairwise_singleton _ _) (.inr fun f hf => ?_)
      · refine pushed.wake both rest.stands aside fun i j target => named i j ?_
        exact List.mem_filterMap.mpr ⟨waker, List.mem_cons_self, target⟩
      · rw [List.mem_singleton.mp hf]
        intro i j hp
        obtain ⟨waker, hw, target⟩ := List.mem_filterMap.mp hp
        exact named i j (List.mem_filterMap.mpr ⟨waker, List.mem_cons_of_mem _ hw, target⟩)
      · rw [List.mem_singleton.mp hf]
        rfl
  | put slot same =>
    exact h.put both rest.stands (free.resolve_left Bool.false_ne_true) slot same
      (by simp [Frame.item?]) (by simp [Frame.item?])
  | same f silent idle ends =>
    cases f with
    | wake aside ws =>
      obtain rfl : ws = [] := silent
      exact ⟨g, h⟩
    | children t =>
      have taken := m.world.tokens.takeChildren_redirect (σ := Waker.rename g) t
      rw [← h.world.tokens] at taken
      unfold Machine.perform
      dsimp only
      rw [taken]
      exact ⟨g, (h.retoken rest.stands _ rfl).add rfl rfl rfl (.inr rfl)⟩
    | cancel tokens =>
      rcases tokens with _ | ⟨t, tokens⟩
      · exact ⟨g, h⟩
      · have pushed := h.add (f := .cancel tokens) rfl rfl rfl (.inr rfl)
        exact ⟨g, pushed.cancelChild rest.stands minded t⟩
    | run steps =>
      rcases steps with _ | ⟨s, steps⟩
      · exact ⟨g, h⟩
      · cases ends
    | put slot item => cases idle
    | letGo t =>
      exact ⟨g, h.retoken rest.stands _ (by rw [h.world.tokens, Tokens.release_redirect])⟩
    | finish top answer => exact ⟨g, h.deliver top answer⟩
    | await top slot => exact h.await both rest (free.resolve_left Bool.false_ne_true) top slot
    | awaitWaker top waker =>
      have clear := free.resolve_left Bool.false_ne_true
      unfold Machine.perform
      dsimp only
      rw [h.woken]
      split
      · exact ⟨g, h.deliver top .fired⟩
      · exact ⟨g, h.elapse rest.stands minded clear top rfl rfl rfl⟩

theorem step (h : m.Twin g m') (plays : m.Plays) (plays' : m'.Plays) (minded : m.world.Minded) :
    ∃ g', m.step.Twin g' m'.step := by
  have agenda := h.agenda
  have script := h.script
  unfold Machine.step
  rcases hm : m.agenda with _ | ⟨f, fs⟩ <;> rcases hm' : m'.agenda with _ | ⟨f', fs'⟩ <;>
    rw [hm, hm'] at agenda
  · rcases hs : m.script with _ | ⟨s, ss⟩ <;> rcases hs' : m'.script with _ | ⟨s', ss'⟩ <;>
      rw [hs, hs'] at script
    · exact ⟨g, h⟩
    · cases script
    · cases script
    · obtain ⟨alike, script⟩ := List.forall₂_cons.mp script
      have quiet := h.quiet
      rw [hs] at quiet
      have both : m.world.Abreast g m'.world m.items m'.items :=
        ⟨h.world, minded, plays, plays', List.subset_append_left _ _, List.subset_append_left _ _⟩
      have left : Twin g { m with agenda := [], script := ss }
          { m' with agenda := [], script := ss' } :=
        { h with
          agenda := .nil, script, quiet := fun t ht => quiet t (List.mem_cons_of_mem _ ht)
          named := fun _ hf => by cases hf
          ordered := .nil }
      exact left.begin both (fun _ hi => by cases hi) (fun _ hf => by cases hf) true alike
        (quiet s List.mem_cons_self)
  · cases agenda
  · cases agenda
  · obtain ⟨same, agenda⟩ := List.forall₂_cons.mp agenda
    have named := h.named
    have ordered := h.ordered
    rw [hm] at named ordered
    obtain ⟨first, ordered⟩ := List.pairwise_cons.mp ordered
    have left : Twin g { m with agenda := fs } { m' with agenda := fs' } :=
      { h with agenda, named := fun f hf => named f (List.mem_cons_of_mem _ hf), ordered }
    refine left.perform same (plays.pop hm) (plays'.pop hm') minded (named f List.mem_cons_self) ?_
    by_cases passes : f.passes = true
    · exact .inl passes
    · exact .inr fun f' hf' => (first f' hf').resolve_left passes

end Twin

end Machine

end Turnstile
