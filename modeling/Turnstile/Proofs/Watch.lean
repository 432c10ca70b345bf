import Turnstile.Proofs.Agenda
import Turnstile.Proofs.Serving
import Turnstile.Proofs.Visits

/-!
# What one step of a machine can do

All that one step of a machine does to the timers, the tokens and the synchronizers, taken apart into
single changes. What holds of every machine that a script reaches is shown for each of these changes
once.
-/

namespace Turnstile

variable {P : Policy} {careful : Prop}

/-! ## Changes -/

namespace World

/-- The timers that the callers know. -/
def keys (w : World P) : List TimerKey := w.timerNames.entries.map Prod.snd

/-- The acquisition that a step makes. -/
def asks? (w : World P) : Step P → Option (Nat × Asking)
  | .tryAcquire object _ => (w.objects.find? object).map fun o => (o.sync, ⟨.zero, none⟩)
  | .acquire object _ a =>
    match w.objects.find? object, a.timeout with
    | some o, .ok timeout =>
      match a.token with
      | none => some (o.sync, ⟨timeout, none⟩)
      | some token => (w.tokenNames.find? token).map fun t => (o.sync, ⟨timeout, some t⟩)
    | _, _ => none
  | .poll slot _ _ => (w.slots.find? slot).bind Item.asks?
  | _ => none

end World

/-- The step drops all timers, whoever has set them. -/
def Step.clears : Step P → Bool
  | .clearTimers => true
  | _ => false

def Item.registration? : Item P → Option Registration
  | .registration r => some r
  | _ => none

/-- The subscriptions among these. -/
def registrations (items : List (Item P)) : List Registration := items.filterMap Item.registration?

/-- A world with what its callers keep, and with the waiters that it owes a wake. -/
structure Watch (P : Policy) where
  world : World P
  /-- The subscriptions of the callers. -/
  kept : List Registration
  /-- The slots whose timers have been taken. -/
  late : List (Nat × Nat)
  /-- The slots whose tokens have fired. -/
  early : List (Nat × Nat)

namespace Watch

/-- Nothing changes that the timers, the tokens or the synchronizers have to do with. -/
structure Still (x y : Watch P) : Prop where
  syncs : y.world.syncs = x.world.syncs
  timers : y.world.timers = x.world.timers
  faces : y.world.tokens.face? = x.world.tokens.face?
  keys : y.world.keys ⊆ x.world.keys
  kept : y.kept.Subperm x.kept
  late : x.late ⊆ y.late
  early : x.early ⊆ y.early

/-- What becomes of `x` by changes such as a step may bring about that makes the acquisition `ask`.
Callers who are careful have a handle on the timers and turn no clock back while a wake is owed. -/
inductive Goes (careful : Prop) (x : Watch P) (ask : Option (Nat × Asking)) : Watch P → Prop
  | refl : Goes careful x ask x
  | still {y z : Watch P} (h : Goes careful x ask y) (q : y.Still z) : Goes careful x ask z
  /-- A section of some synchronizer. -/
  | visit {y : Watch P} {w : World P} (h : Goes careful x ask y) (q : y.world.Steps ask w) :
    Goes careful x ask { y with world := w }
  /-- A new synchronizer. -/
  | found {y : Watch P} {s : Sync P} (h : Goes careful x ask y) (id : s.id = y.world.syncs.size)
      (idle : ∀ j, s.line.arms? j = none) :
    Goes careful x ask { y with world := { y.world with syncs := y.world.syncs.push s } }
  /-- The waiter in slot `j` of synchronizer `i` has been woken. -/
  | woken {y : Watch P} {w : World P} {i j : Nat} {late early : List (Nat × Nat)}
      (h : Goes careful x ask y) (q : y.world.Steps none w)
      (calm : ∀ a, w.arms? i j = some a → (∀ d, a.deadline = some d → ¬d ≤ w.timers.now) ∧
        ∀ r, a.registration = some r → w.tokens.isCancelled r.token = false)
      (lates : ∀ p ∈ y.late, p = (i, j) ∨ p ∈ late)
      (earlies : ∀ p ∈ y.early, p = (i, j) ∨ p ∈ early) :
    Goes careful x ask { world := w, kept := y.kept, late, early }
  /-- The clock moves. -/
  | clock {y : Watch P} (now : Time) (h : Goes careful x ask y)
      (forward : careful → y.late ≠ [] → y.world.timers.now ≤ now)
      (forever : ∀ q ∈ ask, q.2.timeout = .forever) :
    Goes careful x ask { y with world := { y.world with timers := { y.world.timers with now } } }
  /-- All timers are dropped, whoever has set them. -/
  | clear {y : Watch P} (careless : ¬careful) (h : Goes careful x ask y) :
    Goes careful x ask { y with world := { y.world with timers := y.world.timers.clear } }
  /-- The timers are processed. -/
  | due {y : Watch P} (h : Goes careful x ask y) :
    Goes careful x ask
      { y with
        world := { y.world with timers := y.world.timers.takeDue.1 }
        late := targets (y.world.timers.takeDue.2.map Prod.snd) ++ y.late }
  /-- A caller sets a timer. -/
  | timer {y : Watch P} {names : Names TimerKey} (d : Time) (waker : String) (h : Goes careful x ask y)
      (keys : names.entries.map Prod.snd ⊆ ⟨d, y.world.timers.nextNumber⟩ :: y.world.keys) :
    Goes careful x ask
      { y with
        world :=
          { y.world with
            timers := (y.world.timers.register d (.task waker)).1, timerNames := names } }
  /-- A caller cancels a timer. -/
  | untimer {y : Watch P} {k : TimerKey} (h : Goes careful x ask y) (hk : k ∈ y.world.keys) :
    Goes careful x ask { y with world := { y.world with timers := y.world.timers.cancel k } }
  /-- A token fires. -/
  | fire {y : Watch P} (t : Nat) (h : Goes careful x ask y) :
    Goes careful x ask
      { y with
        world := { y.world with tokens := (y.world.tokens.fire t).1 }
        early := targets (y.world.tokens.fire t).2 ++ y.early }
  /-- A new token. -/
  | mint {y : Watch P} (h : Goes careful x ask y) :
    Goes careful x ask { y with world := { y.world with tokens := y.world.tokens.create.1 } }
  /-- A caller subscribes. -/
  | subscribe {y : Watch P} {t : Nat} {waker : String} {tokens : Tokens} {r : Registration}
      (h : Goes careful x ask y) (hr : y.world.tokens.register? t (.task waker) = some (tokens, r)) :
    Goes careful x ask { y with world := { y.world with tokens }, kept := r :: y.kept }
  /-- A caller ends a subscription. -/
  | unsubscribe {y : Watch P} {r : Registration} {kept : List Registration} (h : Goes careful x ask y)
      (gone : (r :: kept).Subperm y.kept) :
    Goes careful x ask { y with world := { y.world with tokens := y.world.tokens.unregister r }, kept }

theorem Goes.trans {x y z : Watch P} {ask : Option (Nat × Asking)} (h : x.Goes careful ask y)
    (h' : y.Goes careful ask z) : x.Goes careful ask z := by
  induction h' with
  | refl => exact h
  | still _ q ih => exact ih.still q
  | visit _ q ih => exact ih.visit q
  | found _ id idle ih => exact ih.found id idle
  | woken _ q calm lates earlies ih => exact ih.woken q calm lates earlies
  | clock now _ forward forever ih => exact ih.clock now forward forever
  | clear careless _ ih => exact ih.clear careless
  | due _ ih => exact ih.due
  | timer d waker _ keys ih => exact ih.timer d waker keys
  | untimer _ hk ih => exact ih.untimer hk
  | fire t _ ih => exact ih.fire t
  | mint _ ih => exact ih.mint
  | subscribe _ hr ih => exact ih.subscribe hr
  | unsubscribe _ gone ih => exact ih.unsubscribe gone

end Watch

/-! ## Waking a waiter -/

theorem Section.Rests.trigger_calm {s : Section P} {d : Docket P} {L : List Nat} (h : s.Rests d L)
    {i : Nat} {a : Arms} (ha : (s.trigger i).sync.line.arms? i = some a) :
    (∀ d, a.deadline = some d → ¬d ≤ (s.trigger i).timers.now) ∧
      ∀ r, a.registration = some r → (s.trigger i).tokens.isCancelled r.token = false := by
  have armed := (trigger_lapses s i).arms? ha
  obtain ⟨w, hw, pending, rfl⟩ := h.pending_of_arms armed
  have unfolded : s.trigger i = (s.triggered? w).elim s fun o =>
      let t := ((s.tell (.resolved i w.ticket o)).resolve i o).update i fun w =>
        { w with lingers := w.linked }
      if w.linked then t.grantRun else t := by
    unfold trigger
    rw [hw]
    refine (if_pos (by simp [Waiter.isPending, pending])).trans ?_
    rcases s.triggered? w with _ | o <;> rfl
  rw [unfolded] at ha ⊢
  rcases ht : s.triggered? w with _ | o
  · unfold triggered? at ht
    split at ht
    · cases ht
    · split at ht
      · cases ht
      · rename_i token deadline
        dsimp only [Option.elim_none]
        constructor
        · intro d hd due
          rw [hd] at deadline
          simp [due] at deadline
        · intro r hr
          rw [hr] at token
          simpa using token
  · -- It has got its outcome, so it has nothing out.
    rw [ht] at ha
    dsimp only [Option.elim_some] at ha
    have told : (s.tell (.resolved i w.ticket o)).waiter? i = some w := hw
    obtain ⟨turns, -, -, -⟩ := resolve_turns told o
    have quiet : ((s.tell (.resolved i w.ticket o)).resolve i o).sync.line.arms? i = none := by
      rw [Line.arms?_eq_bare, turns.line.bare?, if_pos rfl]
      rcases (s.tell (.resolved i w.ticket o)).sync.line.bare? i with _ | v <;> rfl
    have lapses : ((s.tell (.resolved i w.ticket o)).resolve i o).Lapses
        (if w.linked then
          (((s.tell (.resolved i w.ticket o)).resolve i o).update i fun w =>
            { w with lingers := w.linked }).grantRun
        else ((s.tell (.resolved i w.ticket o)).resolve i o).update i fun w =>
            { w with lingers := w.linked }) := by
      have updated := (update_silent ((s.tell (.resolved i w.ticket o)).resolve i o) i
        (f := fun w => { w with lingers := w.linked }) fun _ => rfl).lapses
      split
      · exact updated.trans (grantRun_lapses _)
      · exact updated
    have before := lapses.arms? ha
    rw [quiet] at before
    cases before

namespace World

variable {w w' : World P} {items rest : List (Item P)} {ask : Option (Nat × Asking)}

theorem Plays.trigger_calm (h : w.Plays items) {i j : Nat} {a : Arms}
    (ha : (w.touch i fun s => s.trigger j).world.arms? i j = some a) :
    (∀ d, a.deadline = some d → ¬d ≤ (w.touch i fun s => s.trigger j).world.timers.now) ∧
      ∀ r, a.registration = some r →
        (w.touch i fun s => s.trigger j).world.tokens.isCancelled r.token = false := by
  unfold World.touch World.visit at ha ⊢
  rcases hi : w.syncs[i]? with _ | s
  · rw [hi] at ha
    have nobody : (w.syncs[i]?.bind fun s => s.line.arms? j) = some a := ha
    rw [hi] at nobody
    cases nobody
  · rw [hi] at ha
    obtain ⟨d, L, rests⟩ := h.rests hi
    have here : (w.outside i ((w.inside s).trigger j)).arms? i j = some a := ha
    rw [outside_arms? hi, if_pos rfl] at here
    exact rests.trigger_calm here

/-! ## Worlds -/

theorem Steps.fields (h : w.Steps ask w') : w'.slots = w.slots ∧ w'.timerNames = w.timerNames := by
  obtain ⟨i, _ | _⟩ := h <;> exact ⟨rfl, rfl⟩

def watch (w : World P) (items : List (Item P)) (late early : List (Nat × Nat)) : Watch P :=
  ⟨w, registrations items, late, early⟩

end World

/-- The step processes the timers. -/
def Turn.counts (t : Turn P) : Bool :=
  match t.answer with
  | .count _ => true
  | _ => false

/-- The world after the first part of a step. Those that the step itself wakes are owed it. -/
def Turn.watch (t : Turn P) (rest : List (Item P)) (late early : List (Nat × Nat)) : Watch P :=
  t.world.watch (t.put.toList.map Prod.snd ++ (t.world.items ++ rest))
    ((if t.counts then targets t.wakes else []) ++ late)
    ((if t.firing.isSome then targets t.wakes else []) ++ early)

theorem registrations_subperm {items items' : List (Item P)} (h : items'.Subperm items) :
    (registrations items').Subperm (registrations items) := by
  obtain ⟨l, perm, sub⟩ := h
  exact (perm.symm.filterMap _).subperm.trans (sub.filterMap _).subperm

theorem registrations_append (items items' : List (Item P)) :
    registrations (items ++ items') = registrations items ++ registrations items' :=
  List.filterMap_append

theorem World.goes_fewer {w : World P} {items items' : List (Item P)} (h : items'.Subperm items)
    (late early : List (Nat × Nat)) (ask : Option (Nat × Asking)) :
    (w.watch items late early).Goes careful ask (w.watch items' late early) :=
  Watch.Goes.refl.still ⟨rfl, rfl, rfl, List.Subset.refl _, registrations_subperm h,
    List.Subset.refl _, List.Subset.refl _⟩

theorem Turn.registrations_put {t : Turn P} (put : ∀ p ∈ t.put, p.2.registration? = none) :
    registrations (t.put.toList.map Prod.snd) = [] := by
  rcases hp : t.put with _ | p
  · rfl
  · simp [registrations, put p hp]

namespace World

variable {w w' : World P} {items rest : List (Item P)} {ask : Option (Nat × Asking)}
  {late early : List (Nat × Nat)}

theorem keys_of_names (h : w'.timerNames = w.timerNames) : w'.keys ⊆ w.keys := by
  unfold keys
  rw [h]
  exact List.Subset.refl _

theorem registrations_of_slots (h : w'.slots = w.slots) (rest : List (Item P)) :
    (registrations (w'.items ++ rest)).Subperm (registrations (w.items ++ rest)) := by
  unfold items
  rw [h]

theorem goes_turn {x y : Watch P} {t : Turn P} (h : x.Goes careful ask y)
    (syncs : t.world.syncs = y.world.syncs) (timers : t.world.timers = y.world.timers)
    (faces : t.world.tokens.face? = y.world.tokens.face?) (keys : t.world.keys ⊆ y.world.keys)
    (kept : (registrations (t.put.toList.map Prod.snd ++ (t.world.items ++ rest))).Subperm y.kept)
    (lates : y.late ⊆ (if t.counts then targets t.wakes else []) ++ late)
    (earlies : y.early ⊆ (if t.firing.isSome then targets t.wakes else []) ++ early) :
    x.Goes careful ask (t.watch rest late early) :=
  h.still ⟨syncs, timers, faces, keys, kept, lates, earlies⟩

theorem goes_still {t : Turn P} (syncs : t.world.syncs = w.syncs) (timers : t.world.timers = w.timers)
    (faces : t.world.tokens.face? = w.tokens.face?) (keys : t.world.timerNames = w.timerNames)
    (slots : t.world.slots = w.slots) (put : ∀ p ∈ t.put, p.2.registration? = none) :
    (w.watch (w.items ++ rest) late early).Goes careful ask (t.watch rest late early) := by
  refine goes_turn .refl syncs timers faces (keys_of_names keys) ?_ (List.subset_append_right _ _)
    (List.subset_append_right _ _)
  rw [registrations_append, t.registrations_put put]
  exact registrations_of_slots slots rest

theorem goes_reply (answer : Answer P) :
    (w.watch (w.items ++ rest) late early).Goes careful ask ((w.reply answer).watch rest late early) :=
  goes_still rfl rfl rfl rfl rfl (by simp [reply])

theorem goes_lookup {α : Type} {names : Names α} {name : String} {f : α → Turn P}
    (found : ∀ a, names.find? name = some a →
      (w.watch (w.items ++ rest) late early).Goes careful ask ((f a).watch rest late early)) :
    (w.watch (w.items ++ rest) late early).Goes careful ask
      ((w.lookup names name f).watch rest late early) := by
  unfold lookup
  rcases ha : names.find? name with _ | a
  · exact goes_reply .missing
  · exact found a ha

theorem goes_steps {t : Turn P} (steps : w.Steps ask t.world)
    (put : ∀ p ∈ t.put, p.2.registration? = none) :
    (w.watch (w.items ++ rest) late early).Goes careful ask (t.watch rest late early) := by
  obtain ⟨slots, names⟩ := steps.fields
  refine goes_turn (Watch.Goes.refl.visit steps) rfl rfl rfl (List.Subset.refl _) ?_
    (List.subset_append_right _ _) (List.subset_append_right _ _)
  rw [registrations_append, t.registrations_put put]
  exact registrations_of_slots slots rest

theorem items_erase_subperm {slot : String} {item : Item P}
    (found : w.slots.find? slot = some item) (rest : List (Item P)) :
    (item :: (({ w with slots := w.slots.erase slot } : World P).items ++ rest)).Subperm
      (w.items ++ rest) := by
  have apart := w.slots.find?_erase_subperm slot
  rw [found] at apart
  exact apart.append (.refl rest)

theorem goes_erase {slot : String} {item : Item P} (found : w.slots.find? slot = some item) :
    (w.watch (w.items ++ rest) late early).Goes careful ask
      (({ w with slots := w.slots.erase slot } : World P).watch
        (item :: (({ w with slots := w.slots.erase slot } : World P).items ++ rest)) late early) :=
  Watch.Goes.refl.still ⟨rfl, rfl, rfl, List.Subset.refl _,
    registrations_subperm (items_erase_subperm found rest), List.Subset.refl _, List.Subset.refl _⟩

theorem pollItem?_registration {waker : Waker} {item : Item P} {v : Visit P (Item P × Answer P)}
    (hv : w.pollItem? waker item = some v) : v.value.1.registration? = none := by
  unfold pollItem? at hv
  split at hv
  · rw [← Option.some.inj hv]
    rfl
  · rw [← Option.some.inj hv]
    rfl
  · rw [← Option.some.inj hv]
    rfl
  · rw [← Option.some.inj hv]
    dsimp only
    split <;> rfl
  · rw [← Option.some.inj hv]
    rfl
  · cases hv
  · cases hv

theorem Plays.goes_poll (h : w.Plays items) (rest : List (Item P)) (late early : List (Nat × Nat))
    (slot : String) (waker : Waker) :
    (w.watch (w.items ++ rest) late early).Goes careful ((w.slots.find? slot).bind Item.asks?)
      ((w.poll slot waker).watch rest late early) := by
  refine goes_lookup fun item found => ?_
  rw [found, Option.bind_some]
  split
  · exact goes_reply .notFuture
  · rename_i v hv
    have erased : ({ w with slots := w.slots.erase slot } : World P).Plays items :=
      h.mono rfl fun _ => .refl _
    have polled := erased.pollItem_steps hv
    obtain ⟨slots, names⟩ := polled.fields
    refine goes_turn ((goes_erase found).visit polled) rfl rfl rfl (List.Subset.refl _) ?_
      (List.subset_append_right _ _) (List.subset_append_right _ _)
    have nothing : registrations [v.value.1] = [] := by
      simp [registrations, pollItem?_registration hv]
    show (registrations ([v.value.1] ++ (v.world.items ++ rest))).Subperm (registrations (item :: _))
    rw [registrations_append, nothing]
    exact (registrations_of_slots slots rest).trans (registrations_subperm List.Subperm.cons_self)

theorem Plays.goes_discard (h : w.Plays items) (item : Item P) (rest : List (Item P))
    (late early : List (Nat × Nat)) (ask : Option (Nat × Asking)) :
    (w.watch (item :: rest) late early).Goes careful ask
      ((w.discard item).world.watch rest late early) ∧
      (w.discard item).world.slots = w.slots := by
  rcases h.discard_steps item ask with ⟨r, rfl⟩ | steps
  · exact ⟨.unsubscribe .refl (.refl _), rfl⟩
  · exact ⟨(goes_fewer List.Subperm.cons_self late early ask).visit steps, steps.fields.1⟩

theorem Plays.goes_drop (h : w.Plays items) (slot : String) :
    (w.watch (w.items ++ rest) late early).Goes careful ask ((w.drop slot).watch rest late early) := by
  refine goes_lookup fun item found => ?_
  have erased : ({ w with slots := w.slots.erase slot } : World P).Plays items :=
    h.mono rfl fun _ => .refl _
  obtain ⟨dropped, slots⟩ := erased.goes_discard item
    (({ w with slots := w.slots.erase slot } : World P).items ++ rest) late early ask
  exact goes_turn ((goes_erase found).trans dropped) rfl rfl rfl (List.Subset.refl _)
    (registrations_of_slots slots rest) (List.subset_append_right _ _)
    (List.subset_append_right _ _)

theorem face?_retain (ts : Tokens) (t : Nat) : (ts.retain t).face? = ts.face? :=
  Tokens.face?_update_same fun _ => ⟨rfl, rfl⟩

theorem face?_release (ts : Tokens) (t : Nat) : (ts.release t).face? = ts.face? :=
  Tokens.face?_update_same fun _ => ⟨rfl, rfl⟩

theorem face?_link (ts : Tokens) (p c : Nat) : (ts.link p c).face? = ts.face? :=
  Tokens.face?_update_same fun _ => ⟨rfl, rfl⟩

theorem face?_takeChildren (ts : Tokens) (t : Nat) : (ts.takeChildren t).1.face? = ts.face? :=
  Tokens.face?_update_same fun _ => ⟨rfl, rfl⟩

theorem nameToken_still (w : World P) (tokens : Tokens) (t : Nat) (name : String) :
    (w.nameToken tokens t name).syncs = w.syncs ∧ (w.nameToken tokens t name).timers = w.timers ∧
      (w.nameToken tokens t name).tokens.face? = tokens.face? ∧
      (w.nameToken tokens t name).timerNames = w.timerNames ∧
      (w.nameToken tokens t name).slots = w.slots := by
  unfold nameToken forgetToken
  dsimp only
  split
  · exact ⟨rfl, rfl, rfl, rfl, rfl⟩
  · exact ⟨rfl, rfl, face?_release _ _, rfl, rfl⟩

theorem forgetToken_still (w : World P) (name : String) :
    (w.forgetToken name).syncs = w.syncs ∧ (w.forgetToken name).timers = w.timers ∧
      (w.forgetToken name).tokens.face? = w.tokens.face? ∧
      (w.forgetToken name).timerNames = w.timerNames ∧ (w.forgetToken name).slots = w.slots := by
  unfold forgetToken
  split
  · exact ⟨rfl, rfl, rfl, rfl, rfl⟩
  · exact ⟨rfl, rfl, face?_release _ _, rfl, rfl⟩

theorem setOnWake_still (w : World P) (waker : String) (steps : Option (List (Step P))) :
    (w.setOnWake waker steps).timers = w.timers ∧ (w.setOnWake waker steps).tokens = w.tokens ∧
      (w.setOnWake waker steps).timerNames = w.timerNames := by
  cases steps <;> exact ⟨rfl, rfl, rfl⟩

theorem goes_setOnWake (waker : String) (steps : Option (List (Step P))) :
    (w.watch (w.items ++ rest) late early).Goes careful ask ((w.setOnWake waker steps).watch
      ((w.setOnWake waker steps).items ++ rest) late early) := by
  obtain ⟨timers, tokens, names⟩ := w.setOnWake_still waker steps
  obtain ⟨syncs, slots⟩ := setOnWake_fields w waker steps
  exact Watch.Goes.refl.still ⟨syncs, timers, congrArg Tokens.face? tokens, keys_of_names names,
    registrations_of_slots slots rest, List.Subset.refl _, List.Subset.refl _⟩

theorem Plays.goes_acquire (h : w.Plays items) (o : Object) (name : String) (a : Acquiring P)
    {object : String} (ho : w.objects.find? object = some o) :
    (w.watch (w.items ++ rest) late early).Goes careful (w.asks? (.acquire object name a))
      ((w.acquire o name a).watch rest late early) := by
  have begun (token : Option Nat) (timeout : Timeout) (tokens : Tokens)
      (faces : tokens.face? = w.tokens.face?) :
      (w.watch (w.items ++ rest) late early).Goes careful (some (o.sync, ⟨timeout, token⟩))
        (({ World.startAcquisition { w with tokens } o name a timeout token with held := token } :
          Turn P).watch rest late early) := by
    have retained : (w.watch (w.items ++ rest) late early).Still
        (({ w with tokens } : World P).watch (w.items ++ rest) late early) :=
      ⟨rfl, rfl, faces, List.Subset.refl _, .refl _, List.Subset.refl _, List.Subset.refl _⟩
    refine (Watch.Goes.refl.still retained).trans ?_
    unfold World.startAcquisition
    dsimp only
    split
    · exact goes_still rfl rfl rfl rfl rfl (by rintro p ⟨⟩; rfl)
    · refine goes_steps ?_ (by rintro p ⟨⟩; rfl)
      exact Plays.visit_asks (w := { w with tokens }) (h.mono rfl fun _ => .refl _) _ _ _
        fun _ _ _ rests => rests.acquire_works a.request timeout token a.steal
  unfold World.acquire
  simp only [World.asks?, ho]
  rcases a.timeout with r | timeout
  · dsimp only
    split
    · exact goes_reply _
    · exact goes_lookup fun t _ => goes_reply _
  · dsimp only
    rcases a.token with _ | token
    · exact begun none timeout w.tokens rfl
    · refine goes_lookup fun t ht => ?_
      dsimp only
      rw [ht]
      exact begun (some t) timeout (w.tokens.retain t) (face?_retain w.tokens t)

theorem goes_child (parent : Nat) (name : String) :
    (w.watch (w.items ++ rest) late early).Goes careful ask
      ((w.child parent name).watch rest late early) := by
  have minted : (w.watch (w.items ++ rest) late early).Goes careful ask _ := Watch.Goes.refl.mint
  unfold World.child
  dsimp only
  split
  · obtain ⟨syncs, timers, faces, names, slots⟩ := w.nameToken_still
      (w.tokens.create.1.fire w.tokens.create.2).1 w.tokens.create.2 name
    refine goes_turn (minted.fire w.tokens.create.2) syncs timers faces (keys_of_names names)
      (registrations_of_slots slots rest) (List.subset_append_right _ _) ?_
    -- Nobody has subscribed to the new token.
    have nobody : (w.tokens.create.1.fire w.tokens.create.2).2 = [] := by
      rw [Tokens.fire_wakers, Tokens.face?_create]
      exact congrArg (fun f : Option (Bool × Listeners) => f.elim [] fun f => f.2.takeWakers.2)
        (if_pos rfl)
    show targets (w.tokens.create.1.fire w.tokens.create.2).2 ++ early ⊆ _
    rw [nobody]
    exact List.Subset.refl _
  · obtain ⟨syncs, timers, faces, names, slots⟩ := w.nameToken_still
      (w.tokens.create.1.link parent w.tokens.create.2) w.tokens.create.2 name
    exact goes_turn minted syncs timers (faces.trans (face?_link _ _ _)) (keys_of_names names)
      (registrations_of_slots slots rest) (List.subset_append_right _ _)
      (List.subset_append_right _ _)

theorem goes_cancel (t : Nat) :
    (w.watch (w.items ++ rest) late early).Goes careful ask ((w.cancel t).watch rest late early) := by
  unfold World.cancel
  split
  · exact goes_reply _
  · exact goes_turn (Watch.Goes.refl.fire t) rfl rfl rfl (List.Subset.refl _) (.refl _)
      (List.subset_append_right _ _) (List.Subset.refl _)

theorem goes_register (t : Nat) (name waker : String) :
    (w.watch (w.items ++ rest) late early).Goes careful ask
      ((w.register t name waker).watch rest late early) := by
  unfold World.register
  split
  · exact goes_reply _
  · rename_i tokens r hr
    exact goes_turn (Watch.Goes.refl.subscribe hr) rfl rfl rfl (List.Subset.refl _) (.refl _)
      (List.subset_append_right _ _) (List.subset_append_right _ _)

theorem goes_process :
    (w.watch (w.items ++ rest) late early).Goes careful ask (w.process.watch rest late early) :=
  goes_turn Watch.Goes.refl.due rfl rfl rfl (List.Subset.refl _) (.refl _) (List.Subset.refl _)
    (List.subset_append_right _ _)

theorem goes_createTimer (name : String) (moment : Moment) (waker : String) :
    (w.watch (w.items ++ rest) late early).Goes careful ask
      ((w.createTimer name moment waker).watch rest late early) := by
  have set (d : Time) : (w.timerNames.insert name ⟨d, w.timers.nextNumber⟩).entries.map Prod.snd ⊆
      ⟨d, w.timers.nextNumber⟩ :: w.keys :=
    fun k hk => (w.timerNames.find?_insert_subperm name _).subset (List.mem_append_right _ hk)
  cases moment <;>
    exact goes_turn (Watch.Goes.refl.timer _ waker (set _)) rfl rfl rfl (List.Subset.refl _)
      (.refl _) (List.subset_append_right _ _) (List.subset_append_right _ _)

theorem goes_cancelTimer {timer : String} {k : TimerKey} (hk : w.timerNames.find? timer = some k)
    (answer : Answer P) :
    (w.watch (w.items ++ rest) late early).Goes careful ask
      ((reply { w with timers := w.timers.cancel k } answer).watch rest late early) := by
  have known : k ∈ w.keys := by
    have found := (w.timerNames.find?_erase_subperm timer).subset
    rw [hk] at found
    exact found List.mem_cons_self
  exact goes_turn (Watch.Goes.refl.untimer known) rfl rfl rfl (List.Subset.refl _) (.refl _)
    (List.subset_append_right _ _) (List.subset_append_right _ _)

theorem goes_moveClock (t : Time)
    (forward : careful → late ≠ [] → w.timers.now ≤ (w.setClock t).timers.now) :
    (w.watch (w.items ++ rest) late early).Goes careful none
      ((w.moveClock t).watch rest late early) := by
  unfold moveClock setClock at *
  split
  · exact goes_still rfl rfl rfl rfl rfl (by simp [reply])
  · rename_i own
    rw [own] at forward
    exact goes_turn (Watch.Goes.refl.clock t forward (by simp)) rfl rfl rfl (List.Subset.refl _)
      (.refl _) (List.subset_append_right _ _) (List.subset_append_right _ _)

theorem create_idle (id : Nat) (holding : P.State) (warm : Nat) (retainLimit : Option Nat)
    (j : Nat) : (Sync.create id holding warm retainLimit).line.arms? j = none := by
  show (Pool.rented? (Pool.stock { blank := P.blank, retainLimit } warm) j).bind _ = none
  rw [Pool.fresh_rented?]
  rfl

theorem goes_create (name : String) (raw : Bool) (holding : P.State) (settings : Settings) :
    (w.watch (w.items ++ rest) late early).Goes careful ask
      ((w.create name raw holding settings).watch rest late early) := by
  unfold World.create
  split
  · exact goes_reply _
  · split
    · exact goes_reply _
    · exact goes_turn (Watch.Goes.refl.found (s := Sync.create w.syncs.size holding _
        settings.poolRetainLimit) rfl (create_idle _ _ _ _)) rfl rfl rfl (List.Subset.refl _)
        (.refl _) (List.subset_append_right _ _) (List.subset_append_right _ _)

theorem Plays.goes_start (h : w.Plays items) (step : Step P)
    (handled : careful → step.clears = false)
    (forward : careful → late ≠ [] → w.timers.now ≤ (w.start step).world.timers.now) :
    (w.watch (w.items ++ rest) late early).Goes careful (w.asks? step)
      ((w.start step).watch rest late early) := by
  cases step with
  | create name raw holding settings => exact goes_create name raw holding settings
  | tryAcquire object request =>
    refine goes_lookup fun o ho => ?_
    simp only [World.asks?, ho, Option.map_some]
    unfold World.tryAcquire
    split
    · exact goes_reply _
    · exact goes_steps (h.visit_asks _ _ _ fun _ _ _ rests =>
        rests.acquire_works request .zero none none) (by simp [ofVisit])
  | acquire object name a => exact goes_lookup fun o ho => h.goes_acquire o name a ho
  | lock object name request =>
    refine goes_lookup fun o _ => goes_still rfl rfl rfl rfl rfl ?_
    rintro p ⟨⟩
    rfl
  | release object request =>
    refine goes_lookup fun o _ => ?_
    unfold World.release
    split
    · exact goes_reply _
    · exact goes_steps (h.visit_lapses _ _ _ fun _ _ _ rests => rests.releaseBy_lapses _)
        (by simp [ofVisit])
  | dispose object name =>
    refine goes_lookup fun o _ => goes_steps
      (h.visit_lapses _ _ _ fun _ _ _ rests => rests.dispose_lapses) ?_
    rintro p ⟨⟩
    rfl
  | poll slot waker onWake =>
    have plays : (w.setOnWake waker onWake).Plays items :=
      h.mono (setOnWake_fields w waker onWake).1 fun _ => .refl _
    have polled : Watch.Goes careful _ _ _ := plays.goes_poll rest late early slot (.task waker)
    rw [(setOnWake_fields w waker onWake).2] at polled
    exact (goes_setOnWake waker onWake).trans polled
  | drop slot => exact h.goes_drop slot
  | createToken name =>
    obtain ⟨syncs, timers, faces, names, slots⟩ := w.nameToken_still w.tokens.create.1
      w.tokens.create.2 name
    exact goes_turn Watch.Goes.refl.mint syncs timers faces (keys_of_names names)
      (registrations_of_slots slots rest) (List.subset_append_right _ _)
      (List.subset_append_right _ _)
  | child token name => exact goes_lookup fun t _ => goes_child t name
  | cloneToken token name =>
    refine goes_lookup fun t _ => ?_
    obtain ⟨syncs, timers, faces, names, slots⟩ := w.nameToken_still (w.tokens.retain t) t name
    exact goes_still syncs timers (faces.trans (face?_retain _ _)) names slots (by simp [reply])
  | dropToken token =>
    refine goes_lookup fun t _ => ?_
    obtain ⟨syncs, timers, faces, names, slots⟩ := w.forgetToken_still token
    exact goes_still syncs timers faces names slots (by simp [reply])
  | cancel token => exact goes_lookup fun t _ => goes_cancel t
  | register token name waker onWake =>
    refine goes_lookup fun t _ => ?_
    exact (goes_setOnWake waker onWake).trans (goes_register t name waker)
  | advance nanos => exact goes_moveClock _ forward
  | advanceTo t => exact goes_moveClock _ forward
  | setClock t => exact goes_moveClock _ forward
  | process => exact goes_process
  | createTimer name moment waker onWake =>
    exact (goes_setOnWake waker onWake).trans (goes_createTimer name moment waker)
  | cancelTimer timer => exact goes_lookup fun k hk => goes_cancelTimer hk _
  | sameTimer a b => exact goes_lookup fun _ _ => goes_lookup fun _ _ => goes_reply _
  | clone | dropObject =>
    exact goes_lookup fun _ _ => goes_still rfl rfl rfl rfl rfl (by simp [reply])
  | holding | describe | isWaiting | guarded | isRegistrationCancelled | describeSlot
  | describeToken => exact goes_lookup fun _ _ => goes_reply _
  | clearTimers =>
    exact goes_turn (Watch.Goes.refl.clear fun c => nomatch handled c) rfl rfl rfl
      (List.Subset.refl _) (.refl _) (List.subset_append_right _ _) (List.subset_append_right _ _)
  | now | describeClock | nextDeadline | timers | describeTimers | wait | waitWaker =>
    exact goes_reply _

end World

/-! ## Machines -/

namespace Frame

/-- Timers have been taken whose wakers stand before this on the agenda. -/
def processing : Frame P → Bool
  | .wake true _ | .finish _ (.count _) => true
  | _ => false

/-- A token has fired whose wakers stand before this on the agenda. -/
def cancelling : Frame P → Bool
  | .children _ | .cancel _ => true
  | _ => false

/-- The acquisition that a frame makes next. -/
def asks? (w : World P) : Frame P → Option (Nat × Asking)
  | .run (s :: _) => w.asks? s
  | .await _ slot => (w.slots.find? slot).bind Item.asks?
  | _ => none

end Frame

/-- The slots that are to be woken before something `p` is done. -/
def attended (p : Frame P → Bool) : List (Frame P) → List (Nat × Nat)
  | [] => []
  | f :: rest => (if (f :: rest).any p then targets f.wakers else []) ++ attended p rest

section

variable {p : Frame P → Bool} {f : Frame P} {agenda : List (Frame P)}

theorem attended_push (frames : List (Frame P)) :
    attended p agenda ⊆ attended p (frames ++ agenda) := by
  induction frames with
  | nil => exact List.Subset.refl _
  | cons f frames ih => exact List.Subset.trans ih (List.subset_append_right _ _)

theorem attended_idle (idle : f.wakers = []) : attended p (f :: agenda) = attended p agenda := by
  rw [attended, idle]
  split <;> rfl

theorem targets_attended {aside : Bool} {ws : List Waker} {frames : List (Frame P)} (hf : f ∈ frames)
    (meets : p f = true) : targets ws ⊆ attended p (.wake aside ws :: (frames ++ agenda)) := by
  have any : (Frame.wake aside ws :: (frames ++ agenda)).any p = true :=
    List.any_eq_true.mpr ⟨f, List.mem_cons_of_mem _ (List.mem_append_left _ hf), meets⟩
  rw [attended, if_pos any]
  exact List.subset_append_left _ _

theorem any_of_attended (h : attended p agenda ≠ []) : agenda.any p = true := by
  induction agenda with
  | nil => exact absurd rfl h
  | cons f agenda ih =>
    by_contra none
    have rest : agenda.any p = false := by
      rw [List.any_cons, Bool.or_eq_true, not_or] at none
      exact Bool.eq_false_iff.mpr none.2
    rw [attended, if_neg none, List.nil_append] at h
    rw [ih h] at rest
    cases rest

theorem attended_wake {aside : Bool} {w : Waker} {ws : List Waker}
    (same : p (.wake aside (w :: ws)) = p (.wake aside ws)) {x : Nat × Nat}
    (hx : x ∈ attended p (.wake aside (w :: ws) :: agenda)) :
    some x = w.target? ∨ x ∈ attended p (.wake aside ws :: agenda) := by
  unfold attended at hx ⊢
  rw [List.any_cons, same] at hx
  rw [List.any_cons]
  rcases List.mem_append.mp hx with here | rest
  · split at here
    · rename_i attends
      rw [if_pos attends]
      rcases hw : w.target? with _ | y
      · refine .inr (List.mem_append_left _ ?_)
        simpa [targets, Frame.wakers, hw] using here
      · have here : x = y ∨ x ∈ targets ws := by
          simpa [targets, Frame.wakers, hw] using here
        exact here.imp (congrArg some) (List.mem_append_left _)
    · cases here
  · exact .inr (List.mem_append_right _ rest)

end

namespace Machine

def watch (m : Machine P) : Watch P :=
  m.world.watch m.items (attended Frame.processing m.agenda) (attended Frame.cancelling m.agenda)

/-- The acquisition that the next step makes. -/
def asks? (m : Machine P) : Option (Nat × Asking) :=
  match m.agenda with
  | f :: _ => f.asks? m.world
  | [] => m.script.head?.bind m.world.asks?

/-- The next step is that of callers who have a handle on the timers. While timers are processed it
does not turn the clock back. -/
structure Handles (m : Machine P) : Prop where
  handled : (m.next?.any Step.clears) = false
  forward : m.agenda.any Frame.processing = true → m.world.timers.now ≤ m.step.world.timers.now

variable {m m' : Machine P} {x : Watch P} {ask : Option (Nat × Asking)}

theorem goes_push {y : Watch P} (h : x.Goes careful ask y) (world : m.world = y.world)
    (kept : (registrations m.items).Subperm y.kept)
    (late : y.late ⊆ attended Frame.processing m.agenda)
    (early : y.early ⊆ attended Frame.cancelling m.agenda) : x.Goes careful ask m.watch :=
  h.still ⟨congrArg World.syncs world, congrArg World.timers world,
    congrArg (fun w => w.tokens.face?) world, by
      show m.world.keys ⊆ y.world.keys
      rw [world]
      exact List.Subset.refl _, kept, late, early⟩

theorem goes_take {t : Turn P} {top : Bool} {late early : List (Nat × Nat)}
    (h : x.Goes careful ask (t.watch (m.agenda.filterMap Frame.item?) late early))
    (lates : late = attended Frame.processing m.agenda)
    (earlies : early = attended Frame.cancelling m.agenda) :
    x.Goes careful ask (m.take top t).watch := by
  subst lates earlies
  have planned : (m.take top t).agenda.filterMap Frame.item? =
      t.put.toList.map Prod.snd ++ m.agenda.filterMap Frame.item? := by
    rcases t with ⟨_, _, _, _, _ | _, _ | _, _ | _⟩ <;> rfl
  refine goes_push h rfl ?_ ?_ ?_
  · refine registrations_subperm ?_
    rw [Machine.items, planned, ← List.append_assoc, ← List.append_assoc]
    exact (List.perm_append_comm.append_right _).subperm
  · refine List.append_subset.mpr ⟨?_, attended_push (.wake false t.wakes :: _)⟩
    split
    · rename_i counts
      unfold Turn.counts at counts
      split at counts
      · rename_i n hn
        exact targets_attended (f := .finish top t.answer) (by simp) (by rw [hn]; rfl)
      · cases counts
    · exact List.nil_subset _
  · refine List.append_subset.mpr ⟨?_, attended_push (.wake false t.wakes :: _)⟩
    split
    · rename_i fires
      obtain ⟨k, hk⟩ := Option.isSome_iff_exists.mp fires
      exact targets_attended (f := .children k) (by simp [hk]) rfl
    · exact List.nil_subset _

theorem goes_deliver (top : Bool) (answer : Answer P) (h : x.Goes careful ask m.watch) :
    x.Goes careful ask (m.deliver top answer).watch := by
  unfold Machine.deliver
  split <;> exact h

theorem le_advanceTo (t u : Time) : t ≤ t.advanceTo u := by
  unfold Time.advanceTo
  split
  · assumption
  · exact Time.le_def.mpr (Nat.le_refl _)

theorem goes_elapse (h : x.Goes careful ask m.watch) (top : Bool) {again : Frame P}
    (idle : again.item? = none) (forever : ∀ q ∈ ask, q.2.timeout = .forever) :
    x.Goes careful ask (m.elapse top again).watch := by
  unfold Machine.elapse
  split
  · exact goes_deliver top .pending h
  · rename_i v hv
    obtain ⟨t, -, rfl⟩ := Option.map_eq_some_iff.mp hv
    have ran := (h.clock (m.world.timers.now.advanceTo t) (fun _ _ => le_advanceTo _ _) forever).due
    refine goes_push ran rfl ?_ ?_ ?_
    · refine registrations_subperm ?_
      show (World.items _ ++ List.filterMap Frame.item? (again :: m.agenda)).Subperm _
      rw [List.filterMap_cons_none idle]
      exact .refl _
    · exact List.append_subset.mpr ⟨List.subset_append_left _ _,
        attended_push [.wake true _, again]⟩
    · exact attended_push [.wake true _, again]

theorem goes_begin (plays : m.Plays) (top : Bool) (s : Step P)
    (handled : careful → s.clears = false)
    (forward : careful → attended Frame.processing m.agenda ≠ [] →
      m.world.timers.now ≤ (m.begin top s).world.timers.now) :
    m.watch.Goes careful (m.world.asks? s) (m.begin top s).watch := by
  cases s with
  | wait slot => exact goes_push .refl rfl (.refl _) (attended_push [_]) (attended_push [_])
  | waitWaker waker => exact goes_push .refl rfl (.refl _) (attended_push [_]) (attended_push [_])
  | _ => exact goes_take (World.Plays.goes_start plays _ handled forward) rfl rfl

theorem goes_wake (plays : m.Plays) (aside : Bool) (waker : Waker) (ws : List Waker) :
    (m.world.watch m.items (attended Frame.processing (.wake aside (waker :: ws) :: m.agenda))
      (attended Frame.cancelling (.wake aside (waker :: ws) :: m.agenda))).Goes careful none
      ((m.push [.wake aside ws]).wake aside waker).watch := by
  have late (q : Nat × Nat)
      (hq : q ∈ attended Frame.processing (.wake aside (waker :: ws) :: m.agenda)) :
      some q = waker.target? ∨ q ∈ attended Frame.processing (.wake aside ws :: m.agenda) :=
    attended_wake (by cases aside <;> rfl) hq
  have early (q : Nat × Nat)
      (hq : q ∈ attended Frame.cancelling (.wake aside (waker :: ws) :: m.agenda)) :
      some q = waker.target? ∨ q ∈ attended Frame.cancelling (.wake aside ws :: m.agenda) :=
    attended_wake rfl hq
  cases waker with
  | task name =>
    have late : attended Frame.processing (.wake aside (.task name :: ws) :: m.agenda) ⊆
        attended Frame.processing (.wake aside ws :: m.agenda) :=
      fun q hq => (late q hq).resolve_left (by simp [Waker.target?])
    have early : attended Frame.cancelling (.wake aside (.task name :: ws) :: m.agenda) ⊆
        attended Frame.cancelling (.wake aside ws :: m.agenda) :=
      fun q hq => (early q hq).resolve_left (by simp [Waker.target?])
    unfold Machine.wake
    dsimp only
    split
    · exact Watch.Goes.refl.still ⟨rfl, rfl, rfl, List.Subset.refl _, .refl _, late, early⟩
    · exact Watch.Goes.refl.still ⟨rfl, rfl, rfl, List.Subset.refl _, .refl _,
        List.Subset.trans late (attended_push [.run _]),
        List.Subset.trans early (attended_push [.run _])⟩
  | sleeper =>
    exact Watch.Goes.refl.still ⟨rfl, rfl, rfl, List.Subset.refl _, .refl _,
      fun q hq => (late q hq).resolve_left (by simp [Waker.target?]),
      fun q hq => (early q hq).resolve_left (by simp [Waker.target?])⟩
  | trigger i j =>
    have steps : m.world.Steps none (m.world.touch i fun s => s.trigger j).world :=
      plays.visit_lapses _ _ _ fun s _ _ _ => s.trigger_lapses j
    refine goes_push (Watch.Goes.refl.woken steps (fun a ha => plays.trigger_calm ha)
      (fun q hq => (late q hq).imp Option.some.inj fun h => attended_push [.wake aside _] h)
      fun q hq => (early q hq).imp Option.some.inj fun h => attended_push [.wake aside _] h) rfl ?_
      (List.Subset.refl _) (List.Subset.refl _)
    obtain ⟨slots, -⟩ := steps.fields
    exact World.registrations_of_slots slots _

theorem goes_put (slot : String) {item : Item P} (plays : m.world.Plays (item :: m.items)) :
    (m.world.watch (item :: m.items) (attended Frame.processing m.agenda)
      (attended Frame.cancelling m.agenda)).Goes careful none (m.put slot item).watch := by
  have filled : ({ m.world with slots := m.world.slots.insert slot item } : World P).Plays
      (item :: m.items) := plays.mono rfl fun _ => .refl _
  have swapped := (m.world.slots.find?_insert_subperm slot item).append
    (List.Subperm.refl (m.agenda.filterMap Frame.item?))
  unfold Machine.put
  dsimp only
  rcases found : m.world.slots.find? slot with _ | old
  · rw [found] at swapped
    exact Watch.Goes.refl.still ⟨rfl, rfl, rfl, List.Subset.refl _, registrations_subperm swapped,
      List.Subset.refl _, List.Subset.refl _⟩
  · rw [found] at swapped
    obtain ⟨dropped, slots⟩ := filled.goes_discard old
      (({ m.world with slots := m.world.slots.insert slot item } : World P).items ++
        m.agenda.filterMap Frame.item?)
      (attended Frame.processing m.agenda) (attended Frame.cancelling m.agenda) none
    have inserted : (m.world.watch (item :: m.items) (attended Frame.processing m.agenda)
        (attended Frame.cancelling m.agenda)).Still
        (({ m.world with slots := m.world.slots.insert slot item } : World P).watch
          (old :: (({ m.world with slots := m.world.slots.insert slot item } : World P).items ++
            m.agenda.filterMap Frame.item?)) (attended Frame.processing m.agenda)
          (attended Frame.cancelling m.agenda)) :=
      ⟨rfl, rfl, rfl, List.Subset.refl _, registrations_subperm swapped, List.Subset.refl _,
        List.Subset.refl _⟩
    exact goes_push ((Watch.Goes.refl.still inserted).trans dropped) rfl
      (World.registrations_of_slots slots _) (attended_push [.wake false _])
      (attended_push [.wake false _])

theorem asks?_forever {item : Option (Item P)} {q : Nat × Asking} (hq : q ∈ item.bind Item.asks?) :
    q.2.timeout = .forever := by
  obtain ⟨item, -, hq⟩ := Option.bind_eq_some_iff.mp hq
  unfold Item.asks? at hq
  split at hq
  · rw [← Option.some.inj hq]
  · cases hq

theorem goes_await (plays : m.Plays) (top : Bool) (slot : String) :
    m.watch.Goes careful ((m.world.slots.find? slot).bind Item.asks?) (m.await top slot).watch := by
  have polled : m.watch.Goes careful ((m.world.slots.find? slot).bind Item.asks?)
      ((m.world.poll slot .sleeper).watch (m.agenda.filterMap Frame.item?)
        (attended Frame.processing m.agenda) (attended Frame.cancelling m.agenda)) :=
    World.Plays.goes_poll plays _ _ _ slot .sleeper
  unfold Machine.await
  dsimp only
  split
  · rename_i name item hput pending
    refine goes_elapse ?_ top rfl fun q => asks?_forever
    have put : (m.world.poll slot .sleeper).put.toList.map Prod.snd = [item] := by
      rw [hput]
      rfl
    have swapped := ((m.world.poll slot .sleeper).world.slots.find?_insert_subperm name item).append
      (List.Subperm.refl (m.agenda.filterMap Frame.item?))
    have quiet : (m.world.poll slot .sleeper).wakes = [] := World.poll_wakes pending
    refine polled.still ⟨rfl, rfl, rfl, List.Subset.refl _, ?_, ?_, ?_⟩
    · show (registrations (List.map Prod.snd _ ++ _)).Subperm
        (registrations ((m.world.poll slot .sleeper).put.toList.map Prod.snd ++ _))
      rw [put]
      exact registrations_subperm ((List.sublist_append_right _ _).subperm.trans
        (by rw [← List.append_assoc]; exact swapped))
    · show (if _ then targets (m.world.poll slot .sleeper).wakes else []) ++ _ ⊆ _
      rw [quiet]
      split <;> exact List.Subset.refl _
    · show (if _ then targets (m.world.poll slot .sleeper).wakes else []) ++ _ ⊆ _
      rw [quiet]
      split <;> exact List.Subset.refl _
  · exact goes_take polled rfl rfl

theorem goes_perform (f : Frame P) (plays : m.world.Plays (f.item?.toList ++ m.items))
    (handled : careful → (f.begins?.any Step.clears) = false)
    (forward : careful → attended Frame.processing m.agenda ≠ [] →
      m.world.timers.now ≤ (m.perform f).world.timers.now) :
    (m.world.watch (f.item?.toList ++ m.items) (attended Frame.processing (f :: m.agenda))
      (attended Frame.cancelling (f :: m.agenda))).Goes careful (f.asks? m.world)
      (m.perform f).watch := by
  have rest : m.Plays := plays.mono rfl fun i =>
    World.shares_subperm_of_subperm (List.sublist_append_right _ _).subperm i
  have idle {ask : Option (Nat × Asking)} {m' : Machine P} (silent : f.wakers = [])
      (still : m.watch.Goes careful ask m'.watch) :
      (m.world.watch (f.item?.toList ++ m.items) (attended Frame.processing (f :: m.agenda))
        (attended Frame.cancelling (f :: m.agenda))).Goes careful ask m'.watch := by
    rw [attended_idle silent, attended_idle silent]
    exact (World.goes_fewer (List.sublist_append_right _ _).subperm _ _ ask).trans still
  cases f with
  | wake aside wakers =>
    cases wakers with
    | nil => exact idle rfl .refl
    | cons w ws => exact goes_wake rest aside w ws
  | children t =>
    refine idle rfl (Watch.Goes.refl.still ⟨rfl, rfl, World.face?_takeChildren _ _,
      List.Subset.refl _, .refl _, attended_push [.cancel _], attended_push [.cancel _]⟩)
  | cancel tokens =>
    cases tokens with
    | nil => exact idle rfl .refl
    | cons t ts =>
      refine idle rfl ?_
      show m.watch.Goes careful none ((m.push [.cancel ts]).cancelChild t).watch
      unfold Machine.cancelChild
      split
      · refine goes_push (Watch.Goes.refl.fire t) rfl (.refl _)
          (attended_push [.wake false _, .children t, .cancel ts]) ?_
        refine List.append_subset.mpr ⟨?_, attended_push [.wake false _, .children t, .cancel ts]⟩
        have next : (Frame.children t : Frame P) ∈ [.children t] := List.mem_cons_self
        exact targets_attended next rfl
      · exact goes_push .refl rfl (.refl _) (attended_push [_]) (attended_push [_])
  | run steps =>
    cases steps with
    | nil => exact idle rfl .refl
    | cons s ss =>
      refine idle rfl ?_
      have pushed : m.watch.Goes careful (m.world.asks? s) (m.push [.run ss]).watch :=
        goes_push .refl rfl (.refl _) (attended_push [_]) (attended_push [_])
      refine pushed.trans (goes_begin (m := m.push [.run ss]) (rest.still rfl rfl rfl) false s
        handled fun c h => forward c ?_)
      have same : attended Frame.processing (.run ss :: m.agenda) =
          attended Frame.processing m.agenda := attended_idle rfl
      rwa [← same]
  | put slot item =>
    have put : Watch.Goes careful _ _ _ := goes_put slot plays
    rwa [← attended_idle (p := Frame.processing) (f := .put slot item) rfl,
      ← attended_idle (p := Frame.cancelling) (f := .put slot item) rfl] at put
  | letGo t =>
    exact idle rfl (Watch.Goes.refl.still ⟨rfl, rfl, World.face?_release _ _, List.Subset.refl _,
      .refl _, List.Subset.refl _, List.Subset.refl _⟩)
  | finish top answer => exact idle rfl (goes_deliver top answer .refl)
  | await top slot => exact idle rfl (goes_await rest top slot)
  | awaitWaker top waker =>
    refine idle rfl ?_
    show m.watch.Goes careful none (if waker ∈ m.woken then _ else _ : Machine P).watch
    split
    · exact goes_deliver top .fired .refl
    · exact goes_elapse .refl top rfl (by simp)

/-- What one step of a machine does, change by change. -/
theorem goes_step (plays : m.Plays) (h : careful → m.Handles) :
    m.watch.Goes careful m.asks? m.step.watch := by
  obtain ⟨world, agenda, script, woken, wakes, nested, events, reports⟩ := m
  rcases agenda with _ | ⟨f, agenda⟩
  · rcases script with _ | ⟨s, script⟩
    · exact .refl
    · exact goes_begin (m := ⟨world, [], script, woken, wakes, nested, events, reports⟩) plays true s
        (fun c => (h c).handled) fun _ none => absurd rfl none
  · have item : (f :: agenda).filterMap Frame.item? =
        f.item?.toList ++ agenda.filterMap Frame.item? := by
      cases f <;> rfl
    have popped : (f.item?.toList ++ (world.items ++ agenda.filterMap Frame.item?)).Perm
        (world.items ++ (f :: agenda).filterMap Frame.item?) := by
      rw [item]
      exact List.perm_append_comm_assoc _ _ _
    have performed := goes_perform
      (m := ⟨world, agenda, script, woken, wakes, nested, events, reports⟩) f
      (plays.mono rfl fun i => World.shares_subperm_of_subperm popped.subperm i)
      (fun c => (h c).handled) fun c late =>
        (h c).forward (by rw [List.any_cons, any_of_attended late, Bool.or_true])
    exact (World.goes_fewer popped.subperm _ _ _).trans performed

end Machine

end Turnstile
