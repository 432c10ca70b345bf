import Turnstile.Proofs.Minding

/-!
# Worlds in lockstep

Two worlds are twins if their synchronizers are, and if whatever is in a slot on one side is in that
slot on the other. What one step does to both leaves them twins. `g` tells which slot of a pool stands
for which; it changes only where nobody has rented a slot.
-/

namespace Turnstile

variable {P : Policy}

theorem rel_cases {α β : Type} {R : α → β → Prop} {a : Option α} {b : Option β}
    (h : Option.Rel R a b) :
    (a = none ∧ b = none) ∨ ∃ x y, a = some x ∧ b = some y ∧ R x y := by
  cases h with
  | none => exact .inl ⟨rfl, rfl⟩
  | some related => exact .inr ⟨_, _, rfl, rfl, related⟩

/-! ## Names -/

namespace Names

variable {α : Type} {R S : α → α → Prop} {m m' : Names α}

/-- The same names, in the same order, stand for things that `R` relates. -/
def Alike (R : α → α → Prop) (m m' : Names α) : Prop :=
  List.Forall₂ (fun p q => q.1 = p.1 ∧ R p.2 q.2) m.entries m'.entries

theorem Alike.find? (h : Alike R m m') (name : String) :
    Option.Rel R (m.find? name) (m'.find? name) := by
  obtain ⟨es⟩ := m
  obtain ⟨es'⟩ := m'
  unfold Alike at h
  unfold Names.find?
  dsimp only at h ⊢
  induction h with
  | nil => exact .none
  | cons same _ ih =>
    simp only [List.find?_cons, same.1]
    split
    · exact .some same.2
    · exact ih

theorem Alike.erase (h : Alike R m m') (name : String) : Alike R (m.erase name) (m'.erase name) := by
  obtain ⟨es⟩ := m
  obtain ⟨es'⟩ := m'
  unfold Alike at h ⊢
  unfold Names.erase
  dsimp only at h ⊢
  induction h with
  | nil => exact .nil
  | cons same _ ih =>
    simp only [List.filter_cons, same.1]
    split
    · exact .cons same ih
    · exact ih

theorem Alike.insert (h : Alike R m m') (name : String) {a b : α} (related : R a b) :
    Alike R (m.insert name a) (m'.insert name b) :=
  List.rel_append (h.erase name) (.cons ⟨rfl, related⟩ .nil)

theorem Alike.mono (h : Alike R m m') (related : ∀ a ∈ m.entries.map Prod.snd, ∀ b, R a b → S a b) :
    Alike S m m' := by
  obtain ⟨es⟩ := m
  obtain ⟨es'⟩ := m'
  unfold Alike at h ⊢
  dsimp only at h related ⊢
  induction h with
  | nil => exact .nil
  | cons same _ ih =>
    exact .cons ⟨same.1, related _ (by simp) _ same.2⟩
      (ih fun a ha => related a (List.mem_cons_of_mem _ ha))

end Names

/-! ## Twins -/

/-- The same item on both sides. -/
inductive Item.Twin (g : Nat → Nat → Nat) : Item P → Item P → Prop
  | acquisition {stage stage' : Stage} (sync : Nat) (request : P.Request) (lenient : Bool)
      (same : stage.Twin (g sync) stage') :
    Twin g (.acquisition sync request lenient stage) (.acquisition sync request lenient stage')
  | unopened (sync : Nat) (request : P.Request) :
    Twin g (.locking sync request none) (.locking sync request none)
  | locking {stage stage' : Stage} (sync : Nat) (request : P.Request)
      (same : stage.Twin (g sync) stage') :
    Twin g (.locking sync request (some stage)) (.locking sync request (some stage'))
  | guard (sync : Nat) (request : P.Request) : Twin g (.guard sync request) (.guard sync request)
  | disposal (sync : Nat) : Twin g (.disposal sync) (.disposal sync)
  | registration (r : Registration) : Twin g (.registration r) (.registration r)

namespace World

/-- The slots stand for each other, and everything else is the same on both sides. No waker runs a
step. -/
structure Twin (g : Nat → Nat → Nat) (w v : World P) : Prop where
  timers : v.timers = w.timers.redirect (Waker.rename g)
  tokens : v.tokens = w.tokens.redirect (Waker.rename g)
  size : v.syncs.size = w.syncs.size
  syncs : ∀ i : Nat, Option.Rel (fun s t => s.id = i ∧ Sync.Twin (g i) s t) w.syncs[i]? v.syncs[i]?
  ownClock : v.ownClock = w.ownClock
  running : v.running = w.running
  objects : v.objects = w.objects
  tokenNames : v.tokenNames = w.tokenNames
  timerNames : v.timerNames = w.timerNames
  onWake : v.onWake = w.onWake
  calm : ∀ name steps, w.onWake.find? name = some steps → steps = []
  slots : Names.Alike (Item.Twin g) w.slots v.slots

/-- From `g` to `g'` nothing changes for those who have rented a slot. -/
def Spares (w : World P) (g g' : Nat → Nat → Nat) : Prop :=
  ∀ i j u, w.waiter? i j = some u → g' i j = g i j

/-- `R` holds for slots that stand for each other as before, but for new rentals. -/
def Follows (w : World P) (g : Nat → Nat → Nat) (R : (Nat → Nat → Nat) → Prop) : Prop :=
  ∃ g', w.Spares g g' ∧ R g'

end World

/-- Whoever waits at synchronizer `i` has a rental there that has not ended. -/
def Stage.StandsAt (w : World P) (i : Nat) (stage : Stage) : Prop :=
  ∀ id, stage = .waiting id → ∃ s, w.syncs[i]? = some s ∧ s.line.pool.IsCurrent id

def Item.Stands (w : World P) : Item P → Prop
  | .acquisition sync _ _ stage | .locking sync _ (some stage) => stage.StandsAt w sync
  | _ => True

theorem Stage.StandsAt.stands {w : World P} {i : Nat} {stage : Stage} (h : stage.StandsAt w i)
    {s : Sync P} (hs : w.syncs[i]? = some s) : stage.Stands s.line.pool := by
  intro id waits
  obtain ⟨s', hs', current⟩ := h id waits
  rwa [Option.some.inj (hs.symm.trans hs')]

structure Visit.Twin {α : Type} (g : Nat → Nat → Nat) (x y : Visit P α) : Prop where
  world : x.world.Twin g y.world
  wakes : y.wakes = x.wakes.map (Waker.rename g)
  named : ∀ i j, (i, j) ∈ targets x.wakes → ∃ u, x.world.waiter? i j = some u
  events : y.events.map Event.blurred = x.events.map Event.blurred

structure Turn.Twin (g : Nat → Nat → Nat) (x y : Turn P) : Prop where
  world : x.world.Twin g y.world
  answer : y.answer = x.answer
  wakes : y.wakes = x.wakes.map (Waker.rename g)
  named : ∀ i j, (i, j) ∈ targets x.wakes → ∃ u, x.world.waiter? i j = some u
  events : y.events.map Event.blurred = x.events.map Event.blurred
  firing : y.firing = x.firing
  put : Option.Rel (fun p q => q.1 = p.1 ∧ Item.Twin g p.2 q.2) x.put y.put
  held : y.held = x.held

namespace World

variable {g g' : Nat → Nat → Nat} {w v : World P} {items items' : List (Item P)}

theorem Follows.stay {R : (Nat → Nat → Nat) → Prop} (h : R g) : w.Follows g R :=
  ⟨g, fun _ _ _ _ => rfl, h⟩

theorem Follows.imp {R S : (Nat → Nat → Nat) → Prop} (h : w.Follows g R)
    (imp : ∀ g', w.Spares g g' → R g' → S g') : w.Follows g S := by
  obtain ⟨g', keeps, hr⟩ := h
  exact ⟨g', keeps, imp g' keeps hr⟩

theorem Plays.stands (h : w.Plays items) {item : Item P} (hi : item ∈ items) : item.Stands w := by
  have current (sync : Nat) (request : P.Request) (id : WaiterId)
      (share : (request, Stage.waiting id) ∈ item.shares sync) :
      ∃ s, w.syncs[sync]? = some s ∧ s.line.pool.IsCurrent id := by
    have asked : (request, Stage.waiting id) ∈ items.flatMap (Item.shares sync) :=
      List.mem_flatMap.mpr ⟨item, hi, share⟩
    rcases hs : w.syncs[sync]? with _ | s
    · rw [h.nothing sync hs] at asked
      cases asked
    · obtain ⟨c, reach, rfl, sub⟩ := h.scene sync s hs
      obtain ⟨f, hf, same⟩ := List.mem_map.mp (sub.subset asked)
      obtain ⟨k, hk⟩ := List.mem_iff_getElem?.mp hf
      obtain ⟨d, L, shows⟩ := reach.shows
      exact ⟨c.sync, rfl, (shows.placed k f id hk (congrArg Prod.snd same)).1⟩
  cases item with
  | acquisition sync request lenient stage =>
    rintro id rfl
    exact current sync request id (by simp [Item.shares, Stage.shares])
  | locking sync request stage =>
    rcases stage with _ | stage
    · trivial
    · rintro id rfl
      exact current sync request id (by simp [Item.shares, Stage.shares])
  | _ => trivial

namespace Twin

theorem sync (h : w.Twin g v) {i : Nat} {s : Sync P} (hs : w.syncs[i]? = some s) :
    ∃ t, v.syncs[i]? = some t ∧ s.id = i ∧ s.Twin (g i) t := by
  obtain ⟨none, -⟩ | ⟨s', t, hs', ht, same⟩ := rel_cases (h.syncs i)
  · cases hs.symm.trans none
  · rw [Option.some.inj (hs.symm.trans hs')]
    exact ⟨t, ht, same⟩

theorem sync_eq_none (h : w.Twin g v) {i : Nat} (hs : w.syncs[i]? = none) : v.syncs[i]? = none := by
  obtain ⟨-, none⟩ | ⟨s', t, hs', -⟩ := rel_cases (h.syncs i)
  · exact none
  · cases hs.symm.trans hs'

theorem inside (h : w.Twin g v) {i : Nat} {s t : Sync P} (hs : w.syncs[i]? = some s)
    (ht : v.syncs[i]? = some t) : (w.inside s).Twin g i (v.inside t) := by
  obtain ⟨t', ht', id, twin⟩ := h.sync hs
  obtain rfl : t = t' := Option.some.inj (ht.symm.trans ht')
  exact ⟨id, twin, h.timers, h.tokens, rfl, rfl, rfl⟩

theorem keeps_item (h : w.Twin g v) (keeps : w.Spares g g') {item item' : Item P}
    (same : item.Twin g item') (stands : item.Stands w) : item.Twin g' item' := by
  have stage {sync : Nat} {stage stage' : Stage} (same : stage.Twin (g sync) stage')
      (stands : stage.StandsAt w sync) : stage.Twin (g' sync) stage' := by
    cases same with
    | ready result => exact .ready result
    | @waiting id id' slot =>
      obtain ⟨s, hs, current⟩ := stands id rfl
      obtain ⟨_, _, _, twin⟩ := h.sync hs
      obtain ⟨u, hu⟩ := current.rented?_ne_none twin.line.sound.1
      have rented : w.waiter? sync id.slot = some u := by
        rw [waiter?, hs, Option.bind_some]
        exact hu
      exact .waiting (by rw [keeps sync id.slot u rented, slot])
    | done => exact .done
  cases same with
  | acquisition sync request lenient same =>
    exact .acquisition sync request lenient (stage same stands)
  | unopened sync request => exact .unopened sync request
  | locking sync request same => exact .locking sync request (stage same stands)
  | guard sync request => exact .guard sync request
  | disposal sync => exact .disposal sync
  | registration r => exact .registration r

end Twin

/-- Two worlds side by side, with the items that are in their slots or are to be put there. -/
structure Abreast (g : Nat → Nat → Nat) (w v : World P) (items items' : List (Item P)) : Prop extends
    Twin g w v where
  minded : w.Minded
  plays : w.Plays items
  plays' : v.Plays items'
  kept : w.items ⊆ items
  kept' : v.items ⊆ items'

namespace Abreast

theorem change {w' v' : World P} (h : w.Abreast g v items items') (twin : w'.Twin g v')
    (syncs : w'.syncs = w.syncs) (syncs' : v'.syncs = v.syncs)
    (pending : w'.timers.pending = w.timers.pending) (faces : w'.tokens.face? = w.tokens.face?)
    (kept : w'.items ⊆ w.items) (kept' : v'.items ⊆ v.items) : w'.Abreast g v' items items' :=
  ⟨twin, h.minded.same syncs pending faces, h.plays.mono syncs fun _ => .refl _,
    h.plays'.mono syncs' fun _ => .refl _, List.Subset.trans kept h.kept,
    List.Subset.trans kept' h.kept'⟩

theorem visit {α : Type} (h : w.Abreast g v items items') (i : Nat) {o o' : α}
    {F F' : Section P → Section P × α} {R : (Nat → Nat → Nat) → α → α → Prop} (absent : R g o o')
    (works : ∀ s t, w.syncs[i]? = some s → v.syncs[i]? = some t →
      (w.inside s).Twin g i (v.inside t) →
      ∃ g', (F (w.inside s)).1.Twin g' i (F' (v.inside t)).1 ∧
        R g' (F (w.inside s)).2 (F' (v.inside t)).2 ∧
        ∀ k j, g' k j = g k j ∨ k = i ∧ s.line.waiter? j = none) :
    w.Follows g fun g' => (w.visit i o F).Twin g' (v.visit i o' F') ∧
      R g' (w.visit i o F).value (v.visit i o' F').value := by
  rcases hs : w.syncs[i]? with _ | s
  · have ht := h.toTwin.sync_eq_none hs
    unfold World.visit
    rw [hs, ht]
    exact .stay ⟨⟨h.toTwin, rfl, fun _ _ hp => (by cases hp), rfl⟩, absent⟩
  · obtain ⟨t, ht, -⟩ := h.toTwin.sync hs
    obtain ⟨g', twin, value, new⟩ := works s t hs ht (h.toTwin.inside hs ht)
    have keeps : w.Spares g g' := by
      intro k j u hu
      rcases new k j with same | ⟨rfl, free⟩
      · exact same
      · rw [waiter?, hs, Option.bind_some, free] at hu
        cases hu
    have apart {k : Nat} (hk : k ≠ i) : g' k = g k := by
      funext j
      exact (new k j).resolve_right fun here => hk here.1
    refine ⟨g', keeps, ?_⟩
    unfold World.visit
    rw [hs, ht]
    refine ⟨⟨?_, ?_, ?_, twin.events⟩, value⟩
    · refine { h.toTwin with
        timers := twin.timers, tokens := twin.tokens, size := ?_, syncs := fun k => ?_, slots := ?_ }
      · simp [h.size]
      · show Option.Rel _ (w.outside i (F (w.inside s)).1).syncs[k]?
          (v.outside i (F' (v.inside t)).1).syncs[k]?
        rw [outside_sync hs, outside_sync ht]
        split
        · rename_i here
          subst here
          exact .some ⟨twin.id, twin.sync⟩
        · rename_i other
          rw [apart other]
          exact h.syncs k
      · refine h.slots.mono fun item hi item' same => ?_
        exact h.toTwin.keeps_item keeps same (h.plays.stands (h.kept hi))
    · exact twin.wakes.trans (map_rename_of_targets twin.plain g').symm
    · intro k j hp
      have hp : (k, j) ∈ targets (F (w.inside s)).1.wakes := hp
      rw [twin.plain] at hp
      cases hp

end Abreast

end World

end Turnstile
