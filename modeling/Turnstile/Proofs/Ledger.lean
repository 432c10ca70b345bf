import Turnstile.Proofs.Armed
import Turnstile.Proofs.Estate
import Turnstile.Proofs.Forest

/-!
# What a script does to the subscriptions

All that one step of a machine does to the tokens, to what the waiters have out with them and to the
subscriptions of the callers, taken apart into single changes. No subscription is lost on the way.
-/

namespace Turnstile

variable {P : Policy}

/-! ## Changes -/

/-- The synchronizers and the tokens, with the subscriptions that the callers keep. -/
structure Ledger (P : Policy) where
  syncs : Array (Sync P)
  tokens : Tokens
  kept : List Registration

namespace Ledger

/-- What becomes of `x` by changes such as a step may bring about that makes the child `birth`. -/
inductive Goes (x : Ledger P) (birth : Option (Nat × Nat)) : Ledger P → Prop
  | refl : Goes x birth x
  /-- A child is made of a token that is not cancelled. -/
  | born {p : Nat} (bears : birth = some (p, x.tokens.all.size)) :
    Goes x birth { x with tokens := x.tokens.create.1.link p x.tokens.all.size }
  /-- Handles come and go, and the callers keep the same. -/
  | still {y z : Ledger P} (h : Goes x birth y) (syncs : z.syncs = y.syncs)
      (size : z.tokens.all.size = y.tokens.all.size) (faces : z.tokens.face? = y.tokens.face?)
      (children : z.tokens.childrenOf = y.tokens.childrenOf) (kept : z.kept.Perm y.kept) :
    Goes x birth z
  /-- A section of some synchronizer. -/
  | visit {w w' : World P} {kept : List Registration} {ask : Option (Nat × Asking)}
      (h : Goes x birth ⟨w.syncs, w.tokens, kept⟩) (q : w.Steps ask w') :
    Goes x birth ⟨w'.syncs, w'.tokens, kept⟩
  /-- A new synchronizer. -/
  | found {y : Ledger P} {s : Sync P} (h : Goes x birth y) (idle : ∀ j, s.line.arms? j = none) :
    Goes x birth { y with syncs := y.syncs.push s }
  | mint {y : Ledger P} (h : Goes x birth y) : Goes x birth { y with tokens := y.tokens.create.1 }
  | fire {y : Ledger P} (t : Nat) (h : Goes x birth y) :
    Goes x birth { y with tokens := (y.tokens.fire t).1 }
  | part {y : Ledger P} (t : Nat) (h : Goes x birth y) :
    Goes x birth { y with tokens := (y.tokens.takeChildren t).1 }
  /-- A caller subscribes. -/
  | subscribe {y : Ledger P} {t : Nat} {waker : String} {tokens : Tokens} {r : Registration}
      (h : Goes x birth y) (hr : y.tokens.register? t (.task waker) = some (tokens, r)) :
    Goes x birth { y with tokens, kept := r :: y.kept }
  /-- A caller ends a subscription. -/
  | unsubscribe {y : Ledger P} {r : Registration} {kept : List Registration} (h : Goes x birth y)
      (gone : y.kept.Perm (r :: kept)) :
    Goes x birth { y with tokens := y.tokens.unregister r, kept }

variable {x x' y z : Ledger P} {birth : Option (Nat × Nat)}

theorem Goes.trans (h : x.Goes birth y) (h' : y.Goes none z) : x.Goes birth z := by
  induction h' with
  | refl => exact h
  | born bears => cases bears
  | still _ syncs size faces children kept ih => exact ih.still syncs size faces children kept
  | visit _ q ih => exact ih.visit q
  | found _ idle ih => exact ih.found idle
  | mint _ ih => exact ih.mint
  | fire t _ ih => exact ih.fire t
  | part t _ ih => exact ih.part t
  | subscribe _ hr ih => exact ih.subscribe hr
  | unsubscribe _ gone ih => exact ih.unsubscribe gone

theorem Goes.reorder (h : x'.Goes birth y) (syncs : x'.syncs = x.syncs)
    (tokens : x'.tokens = x.tokens) (kept : x'.kept.Perm x.kept) : x.Goes birth y := by
  obtain ⟨ss, ts, l⟩ := x'
  obtain rfl : ss = x.syncs := syncs
  obtain rfl : ts = x.tokens := tokens
  induction h with
  | refl => exact .still .refl rfl rfl rfl rfl kept
  | born bears => exact .still (.born bears) rfl rfl rfl rfl kept
  | still _ syncs size faces children kept' ih => exact ih.still syncs size faces children kept'
  | visit _ q ih => exact ih.visit q
  | found _ idle ih => exact ih.found idle
  | mint _ ih => exact ih.mint
  | fire t _ ih => exact ih.fire t
  | part t _ ih => exact ih.part t
  | subscribe _ hr ih => exact ih.subscribe hr
  | unsubscribe _ gone ih => exact ih.unsubscribe gone

end Ledger

theorem registrations_perm {items items' : List (Item P)} (h : items'.Perm items) :
    (registrations items').Perm (registrations items) := h.filterMap _

/-! ## Steps -/

/-- The world after the first part of a step, with what goes into a slot later and other items. -/
def Turn.ledger (t : Turn P) (rest : List (Item P)) : Ledger P :=
  ⟨t.world.syncs, t.world.tokens, registrations (t.put.toList.map Prod.snd ++ (t.world.items ++ rest))⟩

namespace World

variable {w w' : World P} {items rest : List (Item P)} {birth : Option (Nat × Nat)}

def ledger (w : World P) (rest : List (Item P)) : Ledger P :=
  ⟨w.syncs, w.tokens, registrations (w.items ++ rest)⟩

theorem ledger_turn {x y : Ledger P} {t : Turn P} (h : x.Goes birth y)
    (syncs : t.world.syncs = y.syncs) (size : t.world.tokens.all.size = y.tokens.all.size)
    (faces : t.world.tokens.face? = y.tokens.face?)
    (children : t.world.tokens.childrenOf = y.tokens.childrenOf)
    (kept : (registrations (t.put.toList.map Prod.snd ++ (t.world.items ++ rest))).Perm y.kept) :
    x.Goes birth (t.ledger rest) :=
  h.still syncs size faces children kept

theorem kept_same {t : Turn P} (slots : t.world.slots = w.slots)
    (put : ∀ p ∈ t.put, p.2.registration? = none) :
    (registrations (t.put.toList.map Prod.snd ++ (t.world.items ++ rest))).Perm
      (registrations (w.items ++ rest)) := by
  rw [registrations_append, t.registrations_put put, World.items, World.items, slots]
  exact .refl _

theorem ledger_still {t : Turn P} (syncs : t.world.syncs = w.syncs)
    (tokens : t.world.tokens = w.tokens) (slots : t.world.slots = w.slots) (put : ∀ p ∈ t.put, p.2.registration? = none) :
    (w.ledger rest).Goes birth (t.ledger rest) :=
  ledger_turn .refl syncs (by rw [tokens]; rfl) (by rw [tokens]; rfl) (by rw [tokens]; rfl)
    (kept_same slots put)

theorem ledger_reply (answer : Answer P) :
    (w.ledger rest).Goes birth ((w.reply answer).ledger rest) := .refl

theorem ledger_lookup {α : Type} {names : Names α} {name : String} {f : α → Turn P}
    (found : ∀ a, names.find? name = some a → (w.ledger rest).Goes birth ((f a).ledger rest)) :
    (w.ledger rest).Goes birth ((w.lookup names name f).ledger rest) := by
  unfold World.lookup
  rcases ha : names.find? name with _ | a
  · exact ledger_reply .missing
  · exact found a ha

theorem ledger_steps {t : Turn P} (ask : Option (Nat × Asking)) (steps : w.Steps ask t.world)
    (put : ∀ p ∈ t.put, p.2.registration? = none) :
    (w.ledger rest).Goes birth (t.ledger rest) :=
  ledger_turn (.visit .refl steps) rfl rfl rfl rfl (kept_same steps.fields.1 put)

theorem kept_erase (distinct : w.slots.Distinct) {slot : String} {item : Item P}
    (found : w.slots.find? slot = some item) (rest : List (Item P)) :
    (registrations
        (item :: (({ w with slots := w.slots.erase slot } : World P).items ++ rest))).Perm
      (registrations (w.items ++ rest)) := by
  have apart := Names.find?_erase_perm distinct slot
  rw [found] at apart
  exact registrations_perm (apart.append_right rest)

theorem pollItem?_future {waker : Waker} {item : Item P} {v : Visit P (Item P × Answer P)}
    (hv : w.pollItem? waker item = some v) : item.registration? = none := by
  cases item with
  | registration r => cases hv
  | _ => rfl

theorem Plays.ledger_poll (h : w.Plays items) (distinct : w.slots.Distinct) (slot : String)
    (waker : Waker) : (w.ledger rest).Goes birth ((w.poll slot waker).ledger rest) := by
  rcases w.poll_cases slot waker with ⟨answer, same⟩ | ⟨item, v, found, hv, same⟩ <;> rw [same]
  · exact ledger_reply answer
  · have erased : ({ w with slots := w.slots.erase slot } : World P).Plays items :=
      h.mono rfl fun _ => .refl _
    have polled := erased.pollItem_steps hv
    have visited : (w.ledger rest).Goes birth
        ⟨v.world.syncs, v.world.tokens, registrations (w.items ++ rest)⟩ :=
      .visit (w := { w with slots := w.slots.erase slot }) .refl polled
    refine ledger_turn visited rfl rfl rfl rfl ?_
    refine .trans ?_ (kept_erase distinct found rest)
    have none (i : Item P) (hi : i.registration? = none) (is : List (Item P)) :
        registrations (i :: is) = registrations is := List.filterMap_cons_none hi
    show (registrations (v.value.1 :: (v.world.items ++ rest))).Perm _
    rw [none _ (pollItem?_registration hv), none _ (pollItem?_future hv), World.items,
      polled.fields.1]
    exact .refl _

theorem Plays.ledger_discard (h : w.Plays items) (item : Item P) (rest : List (Item P)) :
    (⟨w.syncs, w.tokens, registrations (item :: rest)⟩ : Ledger P).Goes birth
      ⟨(w.discard item).world.syncs, (w.discard item).world.tokens, registrations rest⟩ := by
  rcases h.discard_steps item none with ⟨r, rfl⟩ | steps
  · exact .unsubscribe .refl (.refl _)
  · rcases item with _ | _ | _ | _ | r
    case registration => exact .unsubscribe .refl (.refl _)
    all_goals exact .visit .refl steps

theorem Plays.ledger_drop (h : w.Plays items) (distinct : w.slots.Distinct) (slot : String) :
    (w.ledger rest).Goes birth ((w.drop slot).ledger rest) := by
  refine ledger_lookup fun item found => ?_
  have erased : ({ w with slots := w.slots.erase slot } : World P).Plays items :=
    h.mono rfl fun _ => .refl _
  have taken : (w.ledger rest).Goes birth
      ⟨w.syncs, w.tokens, registrations
        (item :: (({ w with slots := w.slots.erase slot } : World P).items ++ rest))⟩ :=
    .still .refl rfl rfl rfl rfl (kept_erase distinct found rest)
  have dropped : Ledger.Goes _ none _ := erased.ledger_discard item
    (({ w with slots := w.slots.erase slot } : World P).items ++ rest)
  refine ledger_turn (taken.trans dropped) rfl rfl rfl rfl ?_
  show (registrations ((World.discard _ item).world.items ++ rest)).Perm _
  rw [World.items, discard_slots]
  exact .refl _

theorem childrenOf_update_same {ts : Tokens} {i : Nat} {f : Token → Token}
    (hf : ∀ t, (f t).children = t.children) : (ts.update i f).childrenOf = ts.childrenOf := by
  funext j
  unfold Tokens.childrenOf
  rw [Tokens.get?_update]
  split
  · rcases ts.get? j with _ | t
    · rfl
    · simp [hf]
  · rfl

theorem childrenOf_retain (ts : Tokens) (t : Nat) : (ts.retain t).childrenOf = ts.childrenOf :=
  childrenOf_update_same fun _ => rfl

theorem childrenOf_release (ts : Tokens) (t : Nat) : (ts.release t).childrenOf = ts.childrenOf :=
  childrenOf_update_same fun _ => rfl

theorem forgetToken_ledger (w : World P) (name : String) :
    (w.forgetToken name).syncs = w.syncs ∧
      (w.forgetToken name).tokens.all.size = w.tokens.all.size ∧
      (w.forgetToken name).tokens.face? = w.tokens.face? ∧
      (w.forgetToken name).tokens.childrenOf = w.tokens.childrenOf ∧
      (w.forgetToken name).slots = w.slots := by
  unfold forgetToken
  split
  · exact ⟨rfl, rfl, rfl, rfl, rfl⟩
  · exact ⟨rfl, Tokens.size_update _ _ _, face?_release _ _, childrenOf_release _ _, rfl⟩

theorem ledger_name {x : Ledger P} {tokens : Tokens}
    (h : x.Goes birth ⟨w.syncs, tokens, registrations (w.items ++ rest)⟩) (t : Nat) (name : String)
    (events : List (Event P.Request)) :
    x.Goes birth
      (({ reply (w.nameToken tokens t name) .nothing with events } : Turn P).ledger rest) := by
  obtain ⟨syncs, size, faces, children, slots⟩ := forgetToken_ledger { w with tokens } name
  exact ledger_turn h syncs size faces children
    (kept_same (t := reply (w.nameToken tokens t name) .nothing) slots (by simp [reply]))

theorem Plays.ledger_acquire (h : w.Plays items) (o : Object) (name : String) (a : Acquiring P) :
    (w.ledger rest).Goes birth ((w.acquire o name a).ledger rest) := by
  have begun (token : Option Nat) (timeout : Timeout) (tokens : Tokens)
      (size : tokens.all.size = w.tokens.all.size) (faces : tokens.face? = w.tokens.face?)
      (children : tokens.childrenOf = w.tokens.childrenOf) :
      (w.ledger rest).Goes birth
        (({ World.startAcquisition { w with tokens } o name a timeout token with held := token } :
          Turn P).ledger rest) := by
    have retained : (w.ledger rest).Goes birth (({ w with tokens } : World P).ledger rest) :=
      .still .refl rfl size faces children (.refl _)
    refine retained.trans ?_
    unfold World.startAcquisition
    dsimp only
    split
    · exact ledger_still rfl rfl rfl (by rintro p ⟨⟩; rfl)
    · refine ledger_steps _ (Plays.visit_asks (w := { w with tokens }) (h.mono rfl fun _ => .refl _)
        _ _ _ fun _ _ _ rests => rests.acquire_works a.request timeout token a.steal) ?_
      rintro p ⟨⟩
      rfl
  unfold World.acquire
  dsimp only
  rcases a.token with _ | token
  · dsimp only
    split
    · exact ledger_reply _
    · exact begun none _ w.tokens rfl rfl rfl
  · refine ledger_lookup fun t _ => ?_
    split
    · exact ledger_reply _
    · exact begun (some t) _ (w.tokens.retain t) (Tokens.size_update _ _ _) (face?_retain _ _)
        (childrenOf_retain _ _)

theorem ledger_child {token : String} {t : Nat} (ht : w.tokenNames.find? token = some t)
    (name : String) :
    (w.ledger rest).Goes (w.bears? (.child token name)) ((w.child t name).ledger rest) := by
  unfold World.child
  dsimp only
  split
  · exact ledger_name (.fire _ (.mint .refl)) _ name [.tokenFired 0]
  · refine ledger_name (.born ?_) _ name []
    rw [bears?, ht]
    rfl

theorem ledger_setOnWake (waker : String) (steps : Option (List (Step P))) :
    (w.ledger rest).Goes birth ((w.setOnWake waker steps).ledger rest) := by
  cases steps <;> exact .refl

theorem Plays.ledger_start (h : w.Plays items) (distinct : w.slots.Distinct) (step : Step P) :
    (w.ledger rest).Goes (w.bears? step) ((w.start step).ledger rest) := by
  cases step with
  | create name raw holding settings =>
    show Ledger.Goes _ _ ((w.create name raw holding settings).ledger rest)
    unfold World.create
    split
    · exact .refl
    · split
      · exact .refl
      · exact .found .refl (create_idle _ _ _ _)
  | tryAcquire object request =>
    refine ledger_lookup fun o _ => ?_
    unfold World.tryAcquire
    split
    · exact .refl
    · exact ledger_steps _ (h.visit_asks _ _ _ fun _ _ _ rests =>
        rests.acquire_works request .zero none none) (by simp [ofVisit])
  | acquire object name a => exact ledger_lookup fun o _ => h.ledger_acquire o name a
  | lock object name request =>
    refine ledger_lookup fun o _ => ledger_still rfl rfl rfl ?_
    rintro p ⟨⟩
    rfl
  | release object request =>
    refine ledger_lookup fun o _ => ?_
    unfold World.release
    split
    · exact .refl
    · exact ledger_steps none (h.visit_lapses _ _ _ fun _ _ _ rests => rests.releaseBy_lapses _)
        (by simp [ofVisit])
  | dispose object name =>
    refine ledger_lookup fun o _ => ledger_steps none
      (h.visit_lapses _ _ _ fun _ _ _ rests => rests.dispose_lapses) ?_
    rintro p ⟨⟩
    rfl
  | poll slot waker onWake =>
    obtain ⟨syncs, slots⟩ := setOnWake_fields w waker onWake
    have plays : (w.setOnWake waker onWake).Plays items := h.mono syncs fun _ => .refl _
    exact (ledger_setOnWake waker onWake).trans
      (plays.ledger_poll (slots ▸ distinct) slot (.task waker))
  | drop slot => exact h.ledger_drop distinct slot
  | createToken name => exact ledger_name (.mint .refl) _ name []
  | child token name => exact ledger_lookup fun t ht => ledger_child ht name
  | cloneToken token name =>
    refine ledger_lookup fun t _ => ledger_name ?_ t name []
    exact .still .refl rfl (Tokens.size_update _ _ _) (face?_retain _ _) (childrenOf_retain _ _)
      (.refl _)
  | dropToken token =>
    refine ledger_lookup fun t _ => ?_
    obtain ⟨syncs, size, faces, children, slots⟩ := forgetToken_ledger w token
    exact ledger_turn .refl syncs size faces children (kept_same slots (by simp [reply]))
  | cancel token =>
    refine ledger_lookup fun t _ => ?_
    unfold World.cancel
    split
    · exact .refl
    · exact .fire t .refl
  | register token name waker onWake =>
    refine ledger_lookup fun t _ => (ledger_setOnWake waker onWake).trans ?_
    unfold World.register
    split
    · exact .refl
    · rename_i tokens r hr
      exact .subscribe .refl hr
  | createTimer name moment waker onWake => exact ledger_setOnWake waker onWake
  | advance | advanceTo | setClock =>
    obtain ⟨syncs, slots⟩ := setClock_fields w _
    exact ledger_still syncs (setClock_tokens w _).1 slots fun p hp => by cases hp
  | sameTimer a b => exact ledger_lookup fun _ _ => ledger_lookup fun _ _ => .refl
  | clone | dropObject | holding | describe | isWaiting | guarded | isRegistrationCancelled
  | describeSlot | describeToken | cancelTimer => exact ledger_lookup fun _ _ => .refl
  | now | describeClock | process | nextDeadline | timers | clearTimers | describeTimers | wait
  | waitWaker => exact .refl

end World

/-! ## Machines -/

namespace Machine

variable {m : Machine P} {birth : Option (Nat × Nat)}

def ledger (m : Machine P) : Ledger P := ⟨m.world.syncs, m.world.tokens, registrations m.items⟩

theorem ledger_take {x : Ledger P} {t : Turn P} {top : Bool}
    (h : x.Goes birth (t.ledger (m.agenda.filterMap Frame.item?))) :
    x.Goes birth (m.take top t).ledger := by
  refine h.still rfl rfl rfl rfl (registrations_perm ?_)
  have planned : (m.take top t).agenda.filterMap Frame.item? =
      t.put.toList.map Prod.snd ++ m.agenda.filterMap Frame.item? := by
    rcases t with ⟨_, _, _, _, _ | _, _ | _, _ | _⟩ <;> rfl
  show (t.world.items ++ (m.take top t).agenda.filterMap Frame.item?).Perm
    (t.put.toList.map Prod.snd ++ (t.world.items ++ m.agenda.filterMap Frame.item?))
  rw [planned, ← List.append_assoc, ← List.append_assoc]
  exact List.perm_append_comm.append_right _

theorem ledger_begin (plays : m.Plays) (distinct : m.world.slots.Distinct) (top : Bool)
    (s : Step P) : m.ledger.Goes (m.world.bears? s) (m.begin top s).ledger := by
  cases s with
  | wait slot => exact .refl
  | waitWaker waker => exact .refl
  | _ => exact ledger_take (World.Plays.ledger_start plays distinct _)

theorem ledger_deliver (top : Bool) (answer : Answer P) :
    m.ledger.Goes birth (m.deliver top answer).ledger := by
  unfold Machine.deliver
  split <;> exact .refl

theorem ledger_elapse (top : Bool) {again : Frame P} (idle : again.item? = none) :
    m.ledger.Goes birth (m.elapse top again).ledger := by
  unfold Machine.elapse
  split
  · exact ledger_deliver top .pending
  · rename_i v hv
    obtain ⟨t, -, rfl⟩ := Option.map_eq_some_iff.mp hv
    refine .still .refl rfl rfl rfl rfl (registrations_perm ?_)
    show (m.world.items ++ List.filterMap Frame.item? (again :: m.agenda)).Perm m.items
    rw [List.filterMap_cons_none idle]
    exact .refl _

theorem ledger_wake (plays : m.Plays) (aside : Bool) (waker : Waker) :
    m.ledger.Goes birth (m.wake aside waker).ledger := by
  cases waker with
  | task name =>
    unfold Machine.wake
    dsimp only
    split <;> exact .refl
  | sleeper => exact .refl
  | trigger i j =>
    have steps : m.world.Steps none (m.world.touch i fun s => s.trigger j).world :=
      plays.visit_lapses _ _ _ fun s _ _ _ => s.trigger_lapses j
    refine (Ledger.Goes.refl.visit steps).still rfl rfl rfl rfl (registrations_perm ?_)
    show ((m.world.touch i fun s => s.trigger j).world.items ++
      m.agenda.filterMap Frame.item?).Perm (m.world.items ++ m.agenda.filterMap Frame.item?)
    rw [World.items, World.items, steps.fields.1]

theorem ledger_put (distinct : m.world.slots.Distinct) (slot : String) {item : Item P}
    (plays : m.world.Plays (item :: m.items)) :
    (⟨m.world.syncs, m.world.tokens, registrations (item :: m.items)⟩ : Ledger P).Goes birth
      (m.put slot item).ledger := by
  have swapped := registrations_perm ((Names.find?_insert_perm distinct slot item).append_right
    (m.agenda.filterMap Frame.item?))
  unfold Machine.put
  dsimp only
  rcases found : m.world.slots.find? slot with _ | old
  · rw [found] at swapped
    exact .still .refl rfl rfl rfl rfl swapped
  · rw [found] at swapped
    let w : World P := { m.world with slots := m.world.slots.insert slot item }
    have filled : w.Plays (item :: m.items) := plays.mono rfl fun _ => .refl _
    have kept : (⟨m.world.syncs, m.world.tokens, registrations (item :: m.items)⟩ : Ledger P).Goes birth
        ⟨w.syncs, w.tokens, registrations (old :: (w.items ++ m.agenda.filterMap Frame.item?))⟩ :=
      .still .refl rfl rfl rfl rfl swapped
    have dropped : Ledger.Goes _ none _ := filled.ledger_discard old
      (w.items ++ m.agenda.filterMap Frame.item?)
    refine (kept.trans dropped).still rfl rfl rfl rfl (registrations_perm ?_)
    have slots : (w.discard old).world.slots = w.slots := World.discard_slots w old
    show ((w.discard old).world.items ++ m.agenda.filterMap Frame.item?).Perm
      (w.items ++ m.agenda.filterMap Frame.item?)
    rw [World.items, World.items, slots]

theorem ledger_await (plays : m.Plays) (distinct : m.world.slots.Distinct) (top : Bool)
    (slot : String) : m.ledger.Goes birth (m.await top slot).ledger := by
  have polled : m.ledger.Goes birth
      ((m.world.poll slot .sleeper).ledger (m.agenda.filterMap Frame.item?)) :=
    World.Plays.ledger_poll plays distinct slot .sleeper
  have others := World.poll_distinct distinct slot .sleeper
  unfold Machine.await
  dsimp only
  split
  · rename_i name item hput _
    have swapped := (Names.find?_insert_perm others name item).append_right
      (m.agenda.filterMap Frame.item?)
    rw [World.poll_vacant hput] at swapped
    rw [Turn.ledger, hput] at polled
    have kept : m.ledger.Goes birth
        ({ m with
          world :=
            { (m.world.poll slot .sleeper).world with
              slots := (m.world.poll slot .sleeper).world.slots.insert name item } } :
          Machine P).ledger := polled.still rfl rfl rfl rfl (registrations_perm swapped)
    exact kept.trans (ledger_elapse top rfl)
  · exact ledger_take polled

theorem ledger_perform (f : Frame P) (plays : m.world.Plays (f.item?.toList ++ m.items))
    (distinct : m.world.slots.Distinct) :
    (⟨m.world.syncs, m.world.tokens, registrations (f.item?.toList ++ m.items)⟩ : Ledger P).Goes
      (f.begins?.bind m.world.bears?) (m.perform f).ledger := by
  have rest : m.Plays := plays.mono rfl fun i =>
    World.shares_subperm_of_subperm (List.sublist_append_right _ _).subperm i
  cases f with
  | wake aside wakers =>
    cases wakers with
    | nil => exact .refl
    | cons w ws =>
      exact ledger_wake (m := m.push [.wake aside ws]) (rest.still rfl rfl rfl) aside w
  | children t => exact .part t .refl
  | cancel tokens =>
    cases tokens with
    | nil => exact .refl
    | cons t ts =>
      show m.ledger.Goes none ((m.push [.cancel ts]).cancelChild t).ledger
      unfold Machine.cancelChild
      split
      · exact .fire t .refl
      · exact .refl
  | run steps =>
    cases steps with
    | nil => exact .refl
    | cons s ss =>
      exact ledger_begin (m := m.push [.run ss]) (rest.still rfl rfl rfl) distinct false s
  | put slot item => exact ledger_put distinct slot plays
  | letGo t =>
    exact .still .refl rfl (Tokens.size_update _ _ _) (World.face?_release _ _)
      (World.childrenOf_release _ _) (.refl _)
  | finish top answer => exact ledger_deliver top answer
  | await top slot => exact ledger_await rest distinct top slot
  | awaitWaker top waker =>
    show m.ledger.Goes none (if waker ∈ m.woken then _ else _ : Machine P).ledger
    split
    · exact ledger_deliver top .fired
    · exact ledger_elapse top rfl

/-- What one step of a machine does to the tokens, change by change. -/
theorem ledger_step (plays : m.Plays) (distinct : m.world.slots.Distinct) :
    m.ledger.Goes m.bears? m.step.ledger := by
  obtain ⟨world, agenda, script, woken, wakes, nested, events, reports⟩ := m
  rcases agenda with _ | ⟨f, agenda⟩
  · rcases script with _ | ⟨s, script⟩
    · exact .refl
    · exact ledger_begin (m := ⟨world, [], script, woken, wakes, nested, events, reports⟩) plays
        distinct true s
  · have item : (f :: agenda).filterMap Frame.item? =
        f.item?.toList ++ agenda.filterMap Frame.item? := by
      cases f <;> rfl
    have popped : (f.item?.toList ++ (world.items ++ agenda.filterMap Frame.item?)).Perm
        (world.items ++ (f :: agenda).filterMap Frame.item?) := by
      rw [item]
      exact List.perm_append_comm_assoc _ _ _
    have performed := ledger_perform
      (m := ⟨world, agenda, script, woken, wakes, nested, events, reports⟩) f
      (plays.mono rfl fun i => World.shares_subperm_of_subperm popped.subperm i) distinct
    exact performed.reorder rfl rfl (registrations_perm popped)

end Machine

end Turnstile
