import Turnstile.Machine
import Turnstile.Proofs.Turns
import Mathlib.Data.List.Flatten

/-!
# Scripts play scenes

Whatever a script does, with all that its wakers do in the middle of it, each synchronizer is that of
a scene. So what holds of every scene holds between any two critical sections of a script.
-/

namespace Turnstile

variable {P : Policy}

/-! ## Worlds -/

theorem Names.find?_erase_subperm {α : Type} (m : Names α) (name : String) :
    ((m.find? name).toList ++ (m.erase name).entries.map Prod.snd).Subperm
      (m.entries.map Prod.snd) := by
  obtain ⟨es⟩ := m
  simp only [find?, erase]
  induction es with
  | nil => exact List.nil_subperm
  | cons e es ih =>
    by_cases he : e.1 = name
    · simp only [he, List.find?_cons_of_pos, decide_true, Option.map_some, Option.toList_some,
        List.map_cons, ne_eq, not_true_eq_false, decide_false, Bool.false_eq_true,
        not_false_eq_true, List.filter_cons_of_neg, List.singleton_append]
      exact (List.subperm_cons _).mpr (List.filter_sublist.map Prod.snd).subperm
    · rw [List.find?_cons_of_neg (by simpa using he), List.filter_cons_of_pos (by simpa using he),
        List.map_cons, List.map_cons]
      exact List.perm_middle.subperm.trans ((List.subperm_cons _).mpr ih)

theorem Names.find?_insert_subperm {α : Type} (m : Names α) (name : String) (a : α) :
    ((m.find? name).toList ++ (m.insert name a).entries.map Prod.snd).Subperm
      (a :: m.entries.map Prod.snd) := by
  rw [insert, List.map_append, ← List.append_assoc]
  exact List.perm_append_comm.subperm.trans
    ((List.subperm_cons a).mpr (m.find?_erase_subperm name))

/-- A locking future after a poll, with its answer. -/
def Item.locked (sync : Nat) (request : P.Request) (p : Polled) : Item P × Answer P :=
  match p.2 with
  | none => (.locking sync request (some p.1), .pending)
  | some (.ok _) => (.guard sync request, .guard)
  | some (.error r) => (.locking sync request (some .done), .refused r)

namespace World

/-- What is in the slots. -/
def items (w : World P) : List (Item P) := w.slots.entries.map Prod.snd

/-- Each synchronizer is that of a scene, and whatever `items` may still ask of it is a share of some
future there, of a different one each. -/
structure Plays (w : World P) (items : List (Item P)) : Prop where
  scene : ∀ i s, w.syncs[i]? = some s → ∃ c : Scene P, c.Reachable ∧ c.sync = s ∧
    (items.flatMap (Item.shares i)).Subperm (c.futures.map Future.share)
  nothing : ∀ i, w.syncs[i]? = none → items.flatMap (Item.shares i) = []

variable {w w' : World P} {rest items items' : List (Item P)}

theorem mem_items {slot : String} {item : Item P} (found : w.slots.find? slot = some item) :
    item ∈ w.items :=
  (w.slots.find?_erase_subperm slot).subset (by simp [found])

theorem Plays.mono (h : w.Plays items) (syncs : w'.syncs = w.syncs)
    (sub : ∀ i, (items'.flatMap (Item.shares i)).Subperm (items.flatMap (Item.shares i))) :
    w'.Plays items' := by
  refine ⟨fun i s hi => ?_, fun i hi => ?_⟩
  · obtain ⟨c, reach, sync, shares⟩ := h.scene i s (syncs ▸ hi)
    exact ⟨c, reach, sync, (sub i).trans shares⟩
  · exact List.subperm_nil.mp (h.nothing i (syncs ▸ hi) ▸ sub i)

theorem shares_subperm_of_subperm (h : items'.Subperm items) (i : Nat) :
    (items'.flatMap (Item.shares i)).Subperm (items.flatMap (Item.shares i)) := by
  obtain ⟨l, perm, sub⟩ := h
  exact (perm.symm.flatMap_right _).subperm.trans (sub.flatMap _).subperm

theorem Plays.visit {α : Type} {i : Nat} (old : List (Item P)) (h : w.Plays (old ++ rest))
    (otherwise : α) (f : Section P → Section P × α) (new : α → List (Item P))
    (own : ∀ a j, j ≠ i → (new a).flatMap (Item.shares j) = [])
    (outside : ((new otherwise).flatMap (Item.shares i)).Subperm (old.flatMap (Item.shares i)))
    (turns : ∀ c : Scene P, c.Reachable → c.Turns (old.flatMap (Item.shares i))
      ((new (f c.inside).2).flatMap (Item.shares i)) (f c.inside).1.sync) :
    (w.visit i otherwise f).world.Plays (new (w.visit i otherwise f).value ++ rest) := by
  have fewer : ∀ a j, ((new a).flatMap (Item.shares j)).Subperm (old.flatMap (Item.shares j)) →
      ((new a ++ rest).flatMap (Item.shares j)).Subperm ((old ++ rest).flatMap (Item.shares j)) := by
    intro a j sub
    rw [List.flatMap_append, List.flatMap_append]
    exact sub.append (.refl _)
  have apart : ∀ a j, j ≠ i →
      ((new a ++ rest).flatMap (Item.shares j)).Subperm ((old ++ rest).flatMap (Item.shares j)) :=
    fun a j hj => fewer a j (own a j hj ▸ List.nil_subperm)
  unfold World.visit
  rcases hi : w.syncs[i]? with _ | sync
  · refine h.mono rfl fun j => ?_
    by_cases hj : j = i
    · exact fewer otherwise j (hj ▸ outside)
    · exact apart otherwise j hj
  · obtain ⟨c, reach, rfl, sub⟩ := h.scene i sync hi
    let c' : Scene P := c.after (.elsewhere w.timers w.tokens)
    obtain ⟨xs, same, sub⟩ := turns c' (reach.run [.elsewhere w.timers w.tokens])
      (rest.flatMap (Item.shares i)) (by rw [← List.flatMap_append]; exact sub)
    refine ⟨fun j s hj => ?_, fun j hj => ?_⟩
    · by_cases hij : i = j
      · subst hij
        obtain ⟨hlt, -⟩ := Array.getElem?_eq_some_iff.mp hi
        rw [Array.getElem?_setIfInBounds_self_of_lt hlt, Option.some.injEq] at hj
        exact ⟨c'.run xs, (reach.run [.elsewhere w.timers w.tokens]).run xs, same.trans hj,
          by rw [List.flatMap_append]; exact sub⟩
      · rw [Array.getElem?_setIfInBounds_ne hij] at hj
        obtain ⟨c, reach, sync, sub⟩ := h.scene j s hj
        exact ⟨c, reach, sync, (apart _ j (Ne.symm hij)).trans sub⟩
    · have hij : i ≠ j := by
        rintro rfl
        rw [Array.getElem?_eq_none_iff, Array.size_setIfInBounds, ← Array.getElem?_eq_none_iff] at hj
        cases hj.symm.trans hi
      rw [Array.getElem?_setIfInBounds_ne hij] at hj
      exact List.subperm_nil.mp (h.nothing j hj ▸ apart _ j (Ne.symm hij))

theorem Plays.visit_alone {α : Type} {i : Nat} (h : w.Plays rest) (otherwise : α)
    (f : Section P → Section P × α)
    (turns : ∀ c : Scene P, c.Reachable → c.Turns [] [] (f c.inside).1.sync) :
    (w.visit i otherwise f).world.Plays rest :=
  Plays.visit [] h otherwise f (fun _ => []) (fun _ _ _ => rfl) List.nil_subperm turns

@[simp] theorem visit_slots {α : Type} (w : World P) (i : Nat) (otherwise : α)
    (f : Section P → Section P × α) : (w.visit i otherwise f).world.slots = w.slots := by
  unfold World.visit
  split <;> rfl

theorem own_acquisition {i j : Nat} (hj : j ≠ i) (request : P.Request) (lenient : Bool)
    (stage : Stage) :
    [Item.acquisition i request lenient stage].flatMap (Item.shares j) = [] := by
  simp [Item.shares, Ne.symm hj]

theorem Plays.discard {item : Item P} (h : w.Plays (item :: rest)) :
    (w.discard item).world.Plays rest ∧ (w.discard item).world.slots = w.slots := by
  have left : w.Plays rest :=
    h.mono rfl fun i => shares_subperm_of_subperm List.Subperm.cons_self i
  have dropped (sync : Nat) (request : P.Request) (stage : Stage)
      (shares : ∀ j, item.shares j = if sync = j then stage.shares request else []) :
      (w.touch sync fun s => s.dropStage request stage).world.Plays rest := by
    refine Plays.visit [item] h () _ (fun _ => []) (fun _ _ _ => rfl) List.nil_subperm
      fun c _ => ?_
    rw [List.flatMap_singleton, shares, if_pos rfl]
    exact Scene.turns_drop request stage
  cases item with
  | acquisition sync request lenient stage =>
    exact ⟨dropped sync request stage fun _ => rfl, visit_slots _ _ _ _⟩
  | locking sync request stage =>
    cases stage with
    | none => exact ⟨left, rfl⟩
    | some stage => exact ⟨dropped sync request stage fun _ => rfl, visit_slots _ _ _ _⟩
  | guard sync request =>
    exact ⟨left.visit_alone _ _ fun c _ => Scene.turns_alone (.dropGuard request) rfl,
      visit_slots _ _ _ _⟩
  | disposal sync => exact ⟨left, rfl⟩
  | registration r => exact ⟨left.mono rfl fun _ => .refl _, rfl⟩

theorem locked_subperm (sync : Nat) (request : P.Request) (p : Polled) :
    ([(Item.locked sync request p).1].flatMap (Item.shares sync)).Subperm (p.1.shares request) := by
  rcases p with ⟨stage, _ | _ | _⟩ <;>
    simp [Item.locked, Item.shares, show Stage.done.shares request = [] from rfl, List.Subperm.refl]

theorem own_locked {sync j : Nat} (hj : j ≠ sync) (request : P.Request) (p : Polled) :
    [(Item.locked sync request p).1].flatMap (Item.shares j) = [] := by
  rcases p with ⟨stage, _ | _ | _⟩ <;> simp [Item.locked, Item.shares, Ne.symm hj]

theorem Plays.pollItem {item : Item P} (h : w.Plays (item :: rest)) {waker : Waker}
    {v : Visit P (Item P × Answer P)} (hv : w.pollItem? waker item = some v) :
    v.world.Plays (v.value.1 :: rest) ∧ v.world.slots = w.slots := by
  cases item with
  | acquisition sync request lenient stage =>
    have polled := Plays.visit [.acquisition sync request lenient stage] h
      ((stage, none) : Polled) (fun s => s.pollStage stage waker)
      (fun p => [.acquisition sync request lenient p.1])
      (fun p j hj => own_acquisition hj request lenient p.1) (.refl _) fun c _ => by
        simpa [Item.shares] using Scene.turns_poll request stage waker
    rcases stage with r | id | _
    · obtain rfl := Option.some.inj hv
      exact ⟨polled, visit_slots _ _ _ _⟩
    · obtain rfl := Option.some.inj hv
      exact ⟨polled, visit_slots _ _ _ _⟩
    · obtain rfl := Option.some.inj hv
      exact ⟨h, rfl⟩
  | locking sync request stage =>
    rcases stage with _ | stage
    · obtain rfl := Option.some.inj hv
      refine ⟨?_, visit_slots _ _ _ _⟩
      exact Plays.visit [.locking sync request none] h ((.done, none) : Polled) _
        (fun p => [(Item.locked sync request p).1]) (fun p j hj => own_locked hj request p)
        (locked_subperm sync request (.done, none)) fun c reach =>
          (Scene.turns_lock reach request waker).mono (locked_subperm sync request _)
    · have polled := Plays.visit [.locking sync request (some stage)] h
        ((.done, none) : Polled) (fun s => s.pollStage stage waker)
        (fun p => [(Item.locked sync request p).1]) (fun p j hj => own_locked hj request p)
        ((locked_subperm sync request (.done, none)).trans List.nil_subperm) fun c _ => by
          rw [List.flatMap_singleton, Item.shares, if_pos rfl]
          exact (Scene.turns_poll request stage waker).mono (locked_subperm sync request _)
      rcases stage with r | id | _
      · obtain rfl := Option.some.inj hv
        exact ⟨polled, visit_slots _ _ _ _⟩
      · obtain rfl := Option.some.inj hv
        exact ⟨polled, visit_slots _ _ _ _⟩
      · obtain rfl := Option.some.inj hv
        exact ⟨h, rfl⟩
  | disposal sync =>
    obtain rfl := Option.some.inj hv
    exact ⟨h.visit_alone _ _ fun c _ => Scene.turns_alone (.pollDispose waker) rfl,
      visit_slots _ _ _ _⟩
  | guard sync request => cases hv
  | registration r => cases hv

end World

/-! ## Steps -/

/-- The world after the first part of a step, with what goes into a slot later and other items. -/
def Turn.Plays (t : Turn P) (rest : List (Item P)) : Prop :=
  t.world.Plays (t.put.toList.map Prod.snd ++ (t.world.items ++ rest))

namespace World

variable {w : World P} {rest : List (Item P)}

theorem Plays.idle (h : w.Plays (w.items ++ rest)) {t : Turn P} (syncs : t.world.syncs = w.syncs)
    (slots : t.world.slots = w.slots) (asks : ∀ p ∈ t.put, ∀ i, p.2.shares i = []) :
    t.Plays rest := by
  refine h.mono syncs fun i => ?_
  have nothing : (t.put.toList.map Prod.snd).flatMap (Item.shares i) = [] := by
    rcases hp : t.put with _ | p
    · rfl
    · simpa using asks p hp i
  rw [List.flatMap_append, nothing, List.nil_append, items, slots]
  exact .refl _

theorem Plays.still (h : w.Plays (w.items ++ rest)) {t : Turn P} (syncs : t.world.syncs = w.syncs)
    (slots : t.world.slots = w.slots) (put : t.put = none) : t.Plays rest :=
  h.idle syncs slots (by simp [put])

theorem Plays.lookup {α : Type} {names : Names α} {name : String} {f : α → Turn P}
    (h : w.Plays (w.items ++ rest)) (found : ∀ a, names.find? name = some a → (f a).Plays rest) :
    (w.lookup names name f).Plays rest := by
  unfold World.lookup
  rcases ha : names.find? name with _ | a
  · exact h.still rfl rfl rfl
  · exact found a ha

theorem Plays.turn {t : Turn P}
    (h : t.world.Plays (t.put.toList.map Prod.snd ++ (w.items ++ rest)))
    (slots : t.world.slots = w.slots) : t.Plays rest := by
  unfold Turn.Plays World.items
  rwa [slots]

theorem Plays.create (h : w.Plays (w.items ++ rest)) (name : String) (raw : Bool)
    (holding : P.State) (settings : Settings) : (w.create name raw holding settings).Plays rest := by
  unfold World.create
  split
  · exact h.still rfl rfl rfl
  split
  · exact h.still rfl rfl rfl
  refine Plays.turn (w := w) ⟨fun i s hi => ?_, fun i hi => ?_⟩ rfl
  · have hi := (Array.getElem?_push ..).symm.trans hi
    split at hi
    · rename_i hn
      obtain rfl := Option.some.inj hi
      have nothing := h.nothing i (by simp [hn])
      exact ⟨_, ⟨_, _, _, _, w.timers, w.tokens, [], rfl⟩, rfl, nothing ▸ List.nil_subperm⟩
    · exact h.scene i s hi
  · have hi := (Array.getElem?_push ..).symm.trans hi
    split at hi
    · cases hi
    · exact h.nothing i hi

theorem Plays.tryAcquire (h : w.Plays (w.items ++ rest)) (o : Object) (request : P.Request) :
    (w.tryAcquire o request).Plays rest := by
  unfold World.tryAcquire
  split
  · exact h.still rfl rfl rfl
  · exact Plays.turn (h.visit_alone _ _ fun c _ => Scene.turns_alone (.tryAcquire request) rfl)
      (visit_slots _ _ _ _)

theorem Plays.startAcquisition (h : w.Plays (w.items ++ rest)) (o : Object) (name : String)
    (a : Acquiring P) (timeout : Timeout) (token : Option Nat) :
    (w.startAcquisition o name a timeout token).Plays rest := by
  unfold World.startAcquisition
  dsimp only
  split
  · refine h.idle rfl rfl ?_
    rintro p ⟨⟩ i
    simp [Item.shares, Stage.shares]
  · refine Plays.turn (w := w) ?_ (visit_slots _ _ _ _)
    exact Plays.visit [] h .done (fun s => s.acquire a.request timeout token a.steal)
      (fun stage => [.acquisition o.sync a.request a.lenient stage])
      (fun stage j hj => own_acquisition hj a.request a.lenient stage)
      (by simp [Item.shares, Stage.shares]) fun c _ => by
        simpa [Item.shares] using Scene.turns_acquire a.request timeout token a.steal

theorem Plays.acquire (h : w.Plays (w.items ++ rest)) (o : Object) (name : String)
    (a : Acquiring P) : (w.acquire o name a).Plays rest := by
  have begun (tokens : Tokens) (token : Option Nat) (timeout : Timeout) :
      ({ w with tokens }.startAcquisition o name a timeout token).Plays rest :=
    Plays.startAcquisition (w := { w with tokens }) (h.mono rfl fun _ => .refl _) o name a timeout
      token
  unfold World.acquire
  dsimp only
  rcases a.token with _ | token
  · dsimp only
    split
    · exact h.still rfl rfl rfl
    · exact begun _ none _
  · refine h.lookup fun t _ => ?_
    split
    · exact h.still rfl rfl rfl
    · exact begun _ (some t) _

theorem Plays.release (h : w.Plays (w.items ++ rest)) (o : Object) (request : Option P.Request) :
    (w.release o request).Plays rest := by
  unfold World.release
  split
  · exact h.still rfl rfl rfl
  · exact Plays.turn (h.visit_alone _ _ fun c _ => Scene.turns_alone (.release request) rfl)
      (visit_slots _ _ _ _)

theorem Plays.dispose (h : w.Plays (w.items ++ rest)) (o : Object) (name : String) :
    (w.dispose o name).Plays rest := by
  have disposed : (w.touch o.sync Section.dispose).world.Plays (w.items ++ rest) :=
    h.visit_alone _ _ fun c _ => Scene.turns_alone .dispose rfl
  exact Plays.turn (w := w) (disposed.mono rfl fun i => .refl _) (visit_slots _ _ _ _)

theorem Plays.taken (h : w.Plays (w.items ++ rest)) {slot : String} {item : Item P}
    (found : w.slots.find? slot = some item) :
    { w with slots := w.slots.erase slot }.Plays
      (item :: ({ w with slots := w.slots.erase slot }.items ++ rest)) := by
  refine h.mono rfl fun i => shares_subperm_of_subperm ?_ i
  have apart := w.slots.find?_erase_subperm slot
  rw [found] at apart
  exact apart.append (.refl rest)

theorem Plays.poll (h : w.Plays (w.items ++ rest)) (slot : String) (waker : Waker) :
    (w.poll slot waker).Plays rest := by
  refine h.lookup fun item found => ?_
  split
  · exact h.still rfl rfl rfl
  · rename_i v hv
    obtain ⟨polled, slots⟩ := (h.taken found).pollItem hv
    exact polled.turn slots

theorem Plays.drop (h : w.Plays (w.items ++ rest)) (slot : String) : (w.drop slot).Plays rest := by
  refine h.lookup fun item found => ?_
  obtain ⟨dropped, slots⟩ := (h.taken found).discard
  exact dropped.turn slots

theorem forgetToken_fields (w : World P) (name : String) :
    (w.forgetToken name).syncs = w.syncs ∧ (w.forgetToken name).slots = w.slots := by
  unfold forgetToken
  split <;> exact ⟨rfl, rfl⟩

theorem nameToken_fields (w : World P) (tokens : Tokens) (t : Nat) (name : String) :
    (w.nameToken tokens t name).syncs = w.syncs ∧ (w.nameToken tokens t name).slots = w.slots :=
  forgetToken_fields { w with tokens } name

theorem setClock_fields (w : World P) (t : Time) :
    (w.setClock t).syncs = w.syncs ∧ (w.setClock t).slots = w.slots := by
  unfold setClock
  split <;> exact ⟨rfl, rfl⟩

theorem setOnWake_fields (w : World P) (waker : String) (steps : Option (List (Step P))) :
    (w.setOnWake waker steps).syncs = w.syncs ∧ (w.setOnWake waker steps).slots = w.slots := by
  cases steps <;> exact ⟨rfl, rfl⟩

theorem Plays.setOnWake (h : w.Plays (w.items ++ rest)) (waker : String)
    (steps : Option (List (Step P))) :
    (w.setOnWake waker steps).Plays ((w.setOnWake waker steps).items ++ rest) := by
  cases steps <;> exact h.mono rfl fun _ => .refl _

theorem Plays.start (h : w.Plays (w.items ++ rest)) (step : Step P) : (w.start step).Plays rest := by
  cases step with
  | create name raw holding settings => exact h.create name raw holding settings
  | tryAcquire object request => exact h.lookup fun o _ => h.tryAcquire o request
  | acquire object name a => exact h.lookup fun o _ => h.acquire o name a
  | release object request => exact h.lookup fun o _ => h.release o request
  | dispose object name => exact h.lookup fun o _ => h.dispose o name
  | lock object name request =>
    refine h.lookup fun o _ => h.idle rfl rfl ?_
    rintro p ⟨⟩ i
    rfl
  | poll slot waker onWake => exact (h.setOnWake waker onWake).poll slot (.task waker)
  | drop slot => exact h.drop slot
  | cancel token =>
    refine h.lookup fun t _ => ?_
    unfold World.cancel
    split <;> exact h.still rfl rfl rfl
  | child token name =>
    refine h.lookup fun t _ => ?_
    unfold World.child
    dsimp only
    split
    · obtain ⟨syncs, slots⟩ := nameToken_fields w (w.tokens.create.1.fire w.tokens.create.2).1
        w.tokens.create.2 name
      exact h.still syncs slots rfl
    · obtain ⟨syncs, slots⟩ := nameToken_fields w (w.tokens.create.1.link t w.tokens.create.2)
        w.tokens.create.2 name
      exact h.still syncs slots rfl
  | createToken name =>
    obtain ⟨syncs, slots⟩ := nameToken_fields w w.tokens.create.1 w.tokens.create.2 name
    exact h.still syncs slots rfl
  | cloneToken token name =>
    refine h.lookup fun t _ => ?_
    obtain ⟨syncs, slots⟩ := nameToken_fields w (w.tokens.retain t) t name
    exact h.still syncs slots rfl
  | dropToken token =>
    refine h.lookup fun t _ => ?_
    obtain ⟨syncs, slots⟩ := forgetToken_fields w token
    exact h.still syncs slots rfl
  | register token name waker onWake =>
    refine h.lookup fun t _ => ?_
    obtain ⟨syncs, slots⟩ := setOnWake_fields w waker onWake
    unfold World.register
    split
    · exact h.still syncs slots rfl
    · refine h.idle syncs slots ?_
      rintro p ⟨⟩ i
      rfl
  | createTimer name moment waker onWake =>
    obtain ⟨syncs, slots⟩ := setOnWake_fields w waker onWake
    exact h.still syncs slots rfl
  | advance | advanceTo | setClock =>
    obtain ⟨syncs, slots⟩ := setClock_fields w _
    exact h.still syncs slots rfl
  | sameTimer a b => exact h.lookup fun _ _ => h.lookup fun _ _ => h.still rfl rfl rfl
  | clone | dropObject | holding | describe | isWaiting | guarded | isRegistrationCancelled
  | describeSlot | describeToken | cancelTimer => exact h.lookup fun _ _ => h.still rfl rfl rfl
  | now | describeClock | process | nextDeadline | timers | clearTimers | describeTimers | wait
  | waitWaker => exact h.still rfl rfl rfl

end World

/-! ## Machines -/

/-- What is about to go into a slot. -/
def Frame.item? : Frame P → Option (Item P)
  | .put _ item => some item
  | _ => none

namespace Machine

/-- What is in a slot or about to go into one. -/
def items (m : Machine P) : List (Item P) := m.world.items ++ m.agenda.filterMap Frame.item?

def Plays (m : Machine P) : Prop := m.world.Plays m.items

variable {m : Machine P}

theorem Plays.still (h : m.Plays) {m' : Machine P} (syncs : m'.world.syncs = m.world.syncs)
    (slots : m'.world.slots = m.world.slots)
    (agenda : m'.agenda.filterMap Frame.item? = m.agenda.filterMap Frame.item?) : m'.Plays := by
  refine h.mono syncs fun i => ?_
  rw [Machine.items, Machine.items, World.items, World.items, slots, agenda]

theorem Plays.follow {α : Type} {v : Visit P α} {aside : Bool}
    (h : v.world.Plays (v.world.items ++ m.agenda.filterMap Frame.item?)) :
    (m.follow v aside).Plays :=
  h

theorem Plays.take {t : Turn P} {top : Bool} (h : t.Plays (m.agenda.filterMap Frame.item?)) :
    (m.take top t).Plays := by
  refine h.mono rfl fun i => World.shares_subperm_of_subperm ?_ i
  have planned : (m.take top t).agenda.filterMap Frame.item? =
      t.put.toList.map Prod.snd ++ m.agenda.filterMap Frame.item? := by
    rcases t with ⟨_, _, _, _, _ | _, _ | _, _ | _⟩ <;> rfl
  rw [Machine.items, planned, ← List.append_assoc, ← List.append_assoc]
  exact (List.perm_append_comm.append_right _).subperm

theorem Plays.begin (h : m.Plays) (top : Bool) (step : Step P) : (m.begin top step).Plays := by
  cases step with
  | wait slot => exact h.still rfl rfl rfl
  | waitWaker waker => exact h.still rfl rfl rfl
  | _ => exact Plays.take (World.Plays.start h _)

theorem Plays.deliver (h : m.Plays) (top : Bool) (answer : Answer P) :
    (m.deliver top answer).Plays := by
  unfold Machine.deliver
  split <;> exact h.still rfl rfl rfl

theorem Plays.elapse (h : m.Plays) (top : Bool) {again : Frame P} (rest : again.item? = none) :
    (m.elapse top again).Plays := by
  unfold Machine.elapse
  split
  · exact h.deliver top .pending
  · rename_i v hv
    obtain ⟨t, -, rfl⟩ := Option.map_eq_some_iff.mp hv
    refine h.still rfl rfl ?_
    exact List.filterMap_cons_none rest

theorem Plays.wake (h : m.Plays) (aside : Bool) (waker : Waker) : (m.wake aside waker).Plays := by
  cases waker with
  | task name =>
    unfold Machine.wake
    dsimp only
    split <;> exact h.still rfl rfl rfl
  | sleeper => exact h
  | trigger sync slot =>
    have woken : (m.world.touch sync fun s => s.trigger slot).world.Plays m.items :=
      h.visit_alone _ _ fun c _ => Scene.turns_alone (.trigger slot) rfl
    have slots : (m.world.touch sync fun s => s.trigger slot).world.slots = m.world.slots :=
      World.visit_slots _ _ _ _
    refine Plays.follow ?_
    rw [World.items, slots]
    exact woken

theorem Plays.cancelChild (h : m.Plays) (t : Nat) : (m.cancelChild t).Plays := by
  unfold Machine.cancelChild
  split <;> exact h.still rfl rfl rfl

theorem Plays.put {slot : String} {item : Item P} (h : m.world.Plays (item :: m.items)) :
    (m.put slot item).Plays := by
  have swapped := (m.world.slots.find?_insert_subperm slot item).append
    (.refl (m.agenda.filterMap Frame.item?))
  unfold Machine.put
  dsimp only
  rcases hs : m.world.slots.find? slot with _ | old
  · rw [hs] at swapped
    exact h.mono rfl fun i => World.shares_subperm_of_subperm swapped i
  · rw [hs] at swapped
    let w : World P := { m.world with slots := m.world.slots.insert slot item }
    have filled : w.Plays (old :: (w.items ++ m.agenda.filterMap Frame.item?)) :=
      h.mono rfl fun i => World.shares_subperm_of_subperm swapped i
    obtain ⟨dropped, slots⟩ := filled.discard
    refine Plays.follow ?_
    rwa [World.items, slots]

theorem Plays.await (h : m.Plays) (top : Bool) (slot : String) : (m.await top slot).Plays := by
  have polled := World.Plays.poll h slot .sleeper
  unfold Machine.await
  dsimp only
  split
  · rename_i name item hput _
    refine Plays.elapse (m := { m with world := _ }) ?_ top rfl
    rw [Turn.Plays, hput] at polled
    refine polled.mono rfl fun i => World.shares_subperm_of_subperm ?_ i
    have swapped := (m.world.poll slot .sleeper).world.slots.find?_insert_subperm name item
    exact (((List.sublist_append_right _ _).subperm).trans swapped).append (.refl _)
  · exact Plays.take polled

theorem Plays.perform {f : Frame P} (h : m.world.Plays (f.item?.toList ++ m.items)) :
    (m.perform f).Plays := by
  have rest : m.Plays :=
    h.mono rfl fun i => World.shares_subperm_of_subperm (List.sublist_append_right _ _).subperm i
  cases f with
  | wake aside wakers =>
    cases wakers with
    | nil => exact rest
    | cons w ws => exact Plays.wake (m := m.push [.wake aside ws]) (rest.still rfl rfl rfl) aside w
  | children t => exact rest.still rfl rfl rfl
  | cancel tokens =>
    cases tokens with
    | nil => exact rest
    | cons t ts => exact Plays.cancelChild (m := m.push [.cancel ts]) (rest.still rfl rfl rfl) t
  | run steps =>
    cases steps with
    | nil => exact rest
    | cons s ss => exact Plays.begin (m := m.push [.run ss]) (rest.still rfl rfl rfl) false s
  | put slot item => exact Plays.put h
  | letGo t => exact rest.still rfl rfl rfl
  | finish top answer => exact rest.deliver top answer
  | await top slot => exact rest.await top slot
  | awaitWaker top waker =>
    show (if waker ∈ m.woken then _ else _ : Machine P).Plays
    split
    · exact rest.deliver top .fired
    · exact rest.elapse top rfl

theorem Plays.pop (h : m.Plays) {f : Frame P} {agenda : List (Frame P)}
    (hm : m.agenda = f :: agenda) :
    m.world.Plays (f.item?.toList ++ { m with agenda }.items) := by
  refine h.mono rfl fun i => World.shares_subperm_of_subperm ?_ i
  have split : m.agenda.filterMap Frame.item? = f.item?.toList ++ agenda.filterMap Frame.item? := by
    rw [hm, List.filterMap_cons]
    cases f.item? <;> rfl
  rw [Machine.items, Machine.items, split]
  exact (List.perm_append_comm_assoc _ _ _).subperm

theorem Plays.step (h : m.Plays) : m.step.Plays := by
  unfold Machine.step
  split
  · rename_i f agenda hm
    exact Plays.perform (m := { m with agenda }) (h.pop hm)
  · rename_i hm
    split
    · rename_i s script _
      exact Plays.begin (m := { m with script }) (h.still rfl rfl rfl) true s
    · exact h

theorem Plays.runAtMost (h : m.Plays) (fuel : Nat) : (Machine.runAtMost fuel m).Plays := by
  induction fuel generalizing m with
  | zero => exact h
  | succ fuel ih =>
    unfold Machine.runAtMost
    split
    · exact h
    · exact ih h.step

section

variable {w : World P} (syncs : w.syncs = #[]) (slots : w.slots.entries = [])
  (script : List (Step P)) (fuel : Nat) {i : Nat} {s : Sync P}
  (hs : (runAtMost fuel (ofScript w script)).world.syncs[i]? = some s)

include syncs slots hs

/-- Whatever a script has done so far, each synchronizer is that of a scene. -/
theorem scene_of_script :
    ∃ id holding warm retainLimit timers tokens xs,
      s = ((Scene.start id holding warm retainLimit timers tokens).run xs).sync := by
  have new : (ofScript w script).Plays := by
    refine ⟨fun i s hi => ?_, fun i _ => ?_⟩
    · simp [ofScript, syncs] at hi
    · simp [ofScript, Machine.items, World.items, slots]
  obtain ⟨c, ⟨id, holding, warm, retainLimit, timers, tokens, xs, rfl⟩, rfl, -⟩ :=
    (new.runAtMost fuel).scene i s hs
  exact ⟨id, holding, warm, retainLimit, timers, tokens, xs, rfl⟩

/-- In the middle of any script each line is in the order of arrival, and whoever is first in it is
refused by the policy. -/
theorem line_of_script :
    (s.petitions.map (·.ticket)).Pairwise (· < ·) ∧
      ∀ e es, s.petitions = e :: es → P.allows s.holding e.request = false := by
  obtain ⟨id, holding, warm, retainLimit, timers, tokens, xs, rfl⟩ :=
    scene_of_script syncs slots script fuel hs
  obtain ⟨d, L, shows⟩ := Scene.run_shows (P := P) id holding warm retainLimit timers tokens xs
  refine ⟨shows.lists.1, fun e es first => ?_⟩
  rw [← shows.holding]
  exact shows.rests.rests.blocked e es (shows.petitions ▸ first)

end

end Machine

end Turnstile
