import Turnstile.Proofs.Visits

/-!
# What a script does to the synchronizers

All that one step of a machine does to the synchronizers and to what their callers keep, taken apart
into critical sections. Nothing that a caller keeps is lost on the way, and what holds of every
synchronizer that a script reaches is shown for each kind of section once.
-/

namespace Turnstile

variable {P : Policy}

/-! ## Names -/

namespace Names

variable {α : Type} {m : Names α}

/-- Each name stands for one thing only. -/
def Distinct (m : Names α) : Prop := (m.entries.map Prod.fst).Nodup

theorem Distinct.erase (h : m.Distinct) (name : String) : (m.erase name).Distinct :=
  List.Nodup.sublist (List.filter_sublist.map Prod.fst) h

theorem Distinct.insert (h : m.Distinct) (name : String) (a : α) : (m.insert name a).Distinct := by
  unfold Distinct Names.insert
  rw [List.map_append]
  refine List.nodup_append.mpr ⟨h.erase name, List.nodup_singleton name, ?_⟩
  rintro other hother _ hname rfl
  obtain ⟨e, he, rfl⟩ := List.mem_map.mp hother
  have apart := (List.mem_filter.mp he).2
  rw [List.map_singleton, List.mem_singleton] at hname
  simp [hname] at apart

theorem find?_erase_perm (h : m.Distinct) (name : String) :
    ((m.find? name).toList ++ (m.erase name).entries.map Prod.snd).Perm
      (m.entries.map Prod.snd) := by
  obtain ⟨es⟩ := m
  unfold Distinct at h
  simp only [find?, Names.erase] at h ⊢
  induction es with
  | nil => exact .refl _
  | cons e es ih =>
    obtain ⟨new, rest⟩ := List.nodup_cons.mp h
    by_cases he : e.1 = name
    · have others : (es.filter fun x => decide (x.1 ≠ name)) = es := by
        refine List.filter_eq_self.mpr fun x hx => ?_
        have apart : x.1 ≠ name := fun same => new (he ▸ same ▸ List.mem_map_of_mem hx)
        simpa using apart
      rw [List.find?_cons_of_pos (by simpa using he), List.filter_cons_of_neg (by simpa using he),
        others]
      exact .refl _
    · rw [List.find?_cons_of_neg (by simpa using he), List.filter_cons_of_pos (by simpa using he),
        List.map_cons, List.map_cons]
      exact List.perm_middle.trans ((ih rest).cons _)

theorem find?_insert_perm (h : m.Distinct) (name : String) (a : α) :
    ((m.find? name).toList ++ (m.insert name a).entries.map Prod.snd).Perm
      (a :: m.entries.map Prod.snd) := by
  rw [insert, List.map_append, ← List.append_assoc]
  exact List.perm_append_comm.trans ((find?_erase_perm h name).cons a)

end Names

namespace World

variable {w : World P}

theorem discard_slots (w : World P) (item : Item P) : (w.discard item).world.slots = w.slots := by
  rcases item with ⟨sync, request, lenient, stage⟩ | ⟨sync, request, _ | stage⟩ | ⟨sync, request⟩ |
    sync | r
  · exact visit_slots _ _ _ _
  · rfl
  · exact visit_slots _ _ _ _
  · exact visit_slots _ _ _ _
  · rfl
  · rfl

theorem pollItem?_slots {item : Item P} {waker : Waker} {v : Visit P (Item P × Answer P)}
    (hv : w.pollItem? waker item = some v) : v.world.slots = w.slots := by
  rcases item with ⟨sync, request, lenient, _ | _ | _⟩ |
    ⟨sync, request, _ | _ | _ | _⟩ | ⟨sync, request⟩ | sync | r
  case guard => cases hv
  case registration => cases hv
  case acquisition.done => rw [← Option.some.inj hv]
  case locking.some.done => rw [← Option.some.inj hv]
  all_goals
    rw [← Option.some.inj hv]
    exact visit_slots _ _ _ _

theorem poll_cases (w : World P) (slot : String) (waker : Waker) :
    (∃ answer, w.poll slot waker = w.reply answer) ∨
      ∃ item v, w.slots.find? slot = some item ∧
        ({ w with slots := w.slots.erase slot } : World P).pollItem? waker item = some v ∧
        w.poll slot waker = { ofVisit v v.value.2 with put := some (slot, v.value.1) } := by
  unfold World.poll World.lookup
  rcases w.slots.find? slot with _ | item
  · exact .inl ⟨_, rfl⟩
  · dsimp only
    rcases hv : ({ w with slots := w.slots.erase slot } : World P).pollItem? waker item with _ | v
    · exact .inl ⟨_, rfl⟩
    · exact .inr ⟨item, v, rfl, hv, rfl⟩

theorem poll_distinct (h : w.slots.Distinct) (slot : String) (waker : Waker) :
    (w.poll slot waker).world.slots.Distinct := by
  rcases w.poll_cases slot waker with ⟨answer, same⟩ | ⟨item, v, -, hv, same⟩ <;> rw [same]
  · exact h
  · show v.world.slots.Distinct
    rw [pollItem?_slots hv]
    exact h.erase slot

theorem poll_vacant {slot name : String} {waker : Waker} {item : Item P}
    (put : (w.poll slot waker).put = some (name, item)) :
    (w.poll slot waker).world.slots.find? name = none := by
  rcases w.poll_cases slot waker with ⟨answer, same⟩ | ⟨item', v, -, hv, same⟩ <;>
    rw [same] at put ⊢
  · cases put
  · obtain ⟨rfl, -⟩ := Prod.mk.inj (Option.some.inj put)
    show v.world.slots.find? slot = none
    rw [pollItem?_slots hv, Names.find?_erase, if_pos rfl]

theorem start_distinct (h : w.slots.Distinct) (s : Step P) : (w.start s).world.slots.Distinct := by
  have same {t : Turn P} (slots : t.world.slots = w.slots) : t.world.slots.Distinct := slots ▸ h
  have found {α : Type} {names : Names α} {name : String} {f : α → Turn P}
      (each : ∀ a, (f a).world.slots.Distinct) : (w.lookup names name f).world.slots.Distinct := by
    unfold World.lookup
    split
    · exact h
    · exact each _
  cases s with
  | create name raw holding settings =>
    refine same ?_
    show (w.create name raw holding settings).world.slots = w.slots
    unfold World.create
    split
    · rfl
    · split <;> rfl
  | tryAcquire object request =>
    refine found fun o => same ?_
    unfold World.tryAcquire
    split
    · rfl
    · exact visit_slots _ _ _ _
  | acquire object name a =>
    have begun (o : Object) (tokens : Tokens) (token : Option Nat) (timeout : Timeout) :
        ({ w with tokens }.startAcquisition o name a timeout token).world.slots = w.slots := by
      unfold startAcquisition
      dsimp only
      split
      · rfl
      · exact visit_slots _ _ _ _
    refine found fun o => ?_
    unfold World.acquire
    dsimp only
    rcases a.token with _ | token
    · dsimp only
      split
      · exact h
      · exact same (begun _ _ _ _)
    · refine found fun t => ?_
      split
      · exact h
      · exact same (begun _ _ _ _)
  | release object request =>
    refine found fun o => same ?_
    unfold World.release
    split
    · rfl
    · exact visit_slots _ _ _ _
  | dispose object name => exact found fun o => same (visit_slots _ _ _ _)
  | poll slot waker onWake =>
    refine poll_distinct ?_ slot (.task waker)
    rw [(setOnWake_fields w waker onWake).2]
    exact h
  | drop slot =>
    refine found fun item => ?_
    rw [show Turn.world _ = (World.discard _ item).world from rfl, discard_slots]
    exact h.erase slot
  | createToken name => exact same (nameToken_fields _ _ _ _).2
  | child token name =>
    refine found fun t => same ?_
    unfold World.child
    dsimp only
    split <;> exact (nameToken_fields _ _ _ _).2
  | cloneToken token name => exact found fun t => same (nameToken_fields _ _ _ _).2
  | dropToken token => exact found fun t => same (forgetToken_fields _ _).2
  | cancel token =>
    refine found fun t => same ?_
    unfold World.cancel
    split <;> rfl
  | register token name waker onWake =>
    refine found fun t => same ?_
    unfold World.register
    split <;> exact (setOnWake_fields _ _ _).2
  | advance | advanceTo | setClock => exact same (setClock_fields _ _).2
  | createTimer name moment waker onWake => exact same (setOnWake_fields _ _ _).2
  | sameTimer a b => exact found fun _ => found fun _ => h
  | lock | clone | dropObject | holding | describe | isWaiting | guarded | isRegistrationCancelled
  | describeSlot | describeToken | cancelTimer => exact found fun _ => h
  | now | describeClock | process | nextDeadline | timers | clearTimers | describeTimers | wait
  | waitWaker => exact h

end World

/-! ## Whose an item is -/

/-- The synchronizer that an item belongs to. -/
def Item.sync? : Item P → Option Nat
  | .acquisition sync .. | .locking sync .. | .guard sync _ | .disposal sync => some sync
  | .registration _ => none

namespace World

variable {w : World P} {item : Item P} {j : Nat}

theorem visit_syncs {α : Type} (w : World P) (i : Nat) (otherwise : α)
    (f : Section P → Section P × α) (j : Nat) :
    (w.visit i otherwise f).world.syncs[j]? =
      if j = i then w.syncs[i]?.map fun s => (f (w.inside s)).1.sync else w.syncs[j]? := by
  unfold World.visit
  rcases hi : w.syncs[i]? with _ | s
  · dsimp only
    split
    · rename_i hj
      rw [hj, hi]
      rfl
    · rfl
  · exact outside_sync hi (f (w.inside s)).1 j

theorem visit_value {α : Type} (w : World P) (i : Nat) (otherwise : α)
    (f : Section P → Section P × α) :
    (w.visit i otherwise f).value = w.syncs[i]?.elim otherwise fun s => (f (w.inside s)).2 := by
  unfold World.visit
  rcases w.syncs[i]? with _ | s <;> rfl

theorem visit_apart {α : Type} {i : Nat} (otherwise : α) (f : Section P → Section P × α)
    (apart : j ≠ i) : (w.visit i otherwise f).world.syncs[j]? = w.syncs[j]? := by
  rw [visit_syncs, if_neg apart]

theorem discard_apart (apart : item.sync? ≠ some j) :
    (w.discard item).world.syncs[j]? = w.syncs[j]? := by
  have other (i : Nat) (own : item.sync? = some i) : j ≠ i := fun same => apart (same ▸ own)
  rcases item with ⟨sync, request, lenient, stage⟩ | ⟨sync, request, _ | stage⟩ | ⟨sync, request⟩ |
    sync | r
  · exact visit_apart _ _ (other sync rfl)
  · rfl
  · exact visit_apart _ _ (other sync rfl)
  · exact visit_apart _ _ (other sync rfl)
  · rfl
  · rfl

theorem pollItem?_apart {waker : Waker} {v : Visit P (Item P × Answer P)}
    (hv : w.pollItem? waker item = some v) :
    v.value.1.sync? = item.sync? ∧
      (item.sync? ≠ some j → v.world.syncs[j]? = w.syncs[j]?) := by
  have other (i : Nat) (own : item.sync? = some i) (apart : item.sync? ≠ some j) : j ≠ i :=
    fun same => apart (same ▸ own)
  have locked (sync : Nat) (request : P.Request) (p : Polled) :
      (Item.locked sync request p).1.sync? = some sync := by
    rcases p with ⟨stage, _ | _ | _⟩ <;> rfl
  rcases item with ⟨sync, request, lenient, _ | _ | _⟩ |
    ⟨sync, request, _ | _ | _ | _⟩ | ⟨sync, request⟩ | sync | r
  case guard => cases hv
  case registration => cases hv
  case acquisition.done =>
    rw [← Option.some.inj hv]
    exact ⟨rfl, fun _ => rfl⟩
  case locking.some.done =>
    rw [← Option.some.inj hv]
    exact ⟨rfl, fun _ => rfl⟩
  case acquisition.ready | acquisition.waiting | disposal =>
    rw [← Option.some.inj hv]
    exact ⟨rfl, fun apart => visit_apart _ _ (other sync rfl apart)⟩
  all_goals
    rw [← Option.some.inj hv]
    exact ⟨locked sync request _, fun apart => visit_apart _ _ (other sync rfl apart)⟩

end World

/-! ## Demands -/

/-- What a step asks of a synchronizer by one of its names. -/
inductive Demand (P : Policy) where
  | found (holding : P.State)
  | tryAcquire (request : P.Request)
  | acquire (a : Acquiring P)
  | lock (request : P.Request)
  | release (request : Option P.Request)
  | dispose

/-- What a step asks, and of which synchronizer. Polls and drops ask for nothing new. -/
def World.demand? (w : World P) : Step P → Option (Nat × Demand P)
  | .create _ _ holding _ => some (w.syncs.size, .found holding)
  | .tryAcquire object request => (w.objects.find? object).map fun o => (o.sync, .tryAcquire request)
  | .acquire object _ a => (w.objects.find? object).map fun o => (o.sync, .acquire a)
  | .lock object _ request => (w.objects.find? object).map fun o => (o.sync, .lock request)
  | .release object request => (w.objects.find? object).map fun o => (o.sync, .release request)
  | .dispose object _ => (w.objects.find? object).map fun o => (o.sync, .dispose)
  | _ => none

/-! ## Changes -/

/-- A world with what its callers keep. -/
structure Estate (P : Policy) where
  world : World P
  items : List (Item P)

namespace Estate

/-- What becomes of `x` by sections such as a step may run that asks for `ask`. -/
inductive Goes (x : Estate P) (ask : Option (Nat × Demand P)) : Estate P → Prop
  | refl : Goes x ask x
  /-- The synchronizers do not change, and the callers keep the same. -/
  | still {y z : Estate P} (h : Goes x ask y) (syncs : z.world.syncs = y.world.syncs)
      (items : z.items.Perm y.items) : Goes x ask z
  | founded {y : Estate P} {holding : P.State} (warm : Nat) (retainLimit : Option Nat)
      (h : Goes x ask y) (asks : ask = some (y.world.syncs.size, .found holding)) :
    Goes x ask
      { y with
        world :=
          { y.world with
            syncs := y.world.syncs.push
              (Sync.create y.world.syncs.size holding warm retainLimit) } }
  | tried {y : Estate P} {i : Nat} {request : P.Request} (h : Goes x ask y)
      (asks : ask = some (i, .tryAcquire request)) :
    Goes x ask
      { y with world := (y.world.touch i fun s => (s.acquire request .zero none none).1).world }
  | acquired {y : Estate P} {i : Nat} {a : Acquiring P} {v : Visit P Stage} (timeout : Timeout)
      (token : Option Nat) (h : Goes x ask y) (asks : ask = some (i, .acquire a))
      (hv : v = y.world.visit i .done fun s => s.acquire a.request timeout token a.steal) :
    Goes x ask ⟨v.world, .acquisition i a.request a.lenient v.value :: y.items⟩
  /-- The front refuses an acquisition. -/
  | refused {y : Estate P} {i : Nat} {a : Acquiring P} (r : Refusal) (h : Goes x ask y)
      (asks : ask = some (i, .acquire a)) :
    Goes x ask ⟨y.world, .acquisition i a.request a.lenient (.ready (.error r)) :: y.items⟩
  | opened {y : Estate P} {i : Nat} {request : P.Request} (h : Goes x ask y)
      (asks : ask = some (i, .lock request)) :
    Goes x ask ⟨y.world, .locking i request none :: y.items⟩
  | released {y : Estate P} {i : Nat} {request : Option P.Request} (h : Goes x ask y)
      (asks : ask = some (i, .release request)) :
    Goes x ask { y with world := (y.world.touch i fun s => (s.release request).1).world }
  | disposed {y : Estate P} {i : Nat} (h : Goes x ask y) (asks : ask = some (i, .dispose)) :
    Goes x ask ⟨(y.world.touch i Section.dispose).world, .disposal i :: y.items⟩
  | registered {y : Estate P} (r : Registration) (h : Goes x ask y) :
    Goes x ask ⟨y.world, .registration r :: y.items⟩
  | triggered {y : Estate P} (i j : Nat) (h : Goes x ask y) :
    Goes x ask { y with world := (y.world.touch i fun s => s.trigger j).world }
  /-- A future is polled, by a task or by one who sleeps. -/
  | polled {y : Estate P} {item : Item P} {rest : List (Item P)} {waker : Waker}
      {v : Visit P (Item P × Answer P)} (h : Goes x ask y) (items : y.items = item :: rest)
      (caller : ∀ i j, waker ≠ .trigger i j) (hv : y.world.pollItem? waker item = some v) :
    Goes x ask ⟨v.world, v.value.1 :: rest⟩
  | dropped {y : Estate P} {item : Item P} {rest : List (Item P)} (h : Goes x ask y)
      (items : y.items = item :: rest) : Goes x ask ⟨(y.world.discard item).world, rest⟩

theorem Goes.trans {x y z : Estate P} {ask : Option (Nat × Demand P)} (h : x.Goes ask y)
    (h' : y.Goes ask z) : x.Goes ask z := by
  induction h' with
  | refl => exact h
  | still _ syncs items ih => exact ih.still syncs items
  | founded warm retainLimit _ asks ih => exact ih.founded warm retainLimit asks
  | tried _ asks ih => exact ih.tried asks
  | acquired timeout token _ asks hv ih => exact ih.acquired timeout token asks hv
  | refused r _ asks ih => exact ih.refused r asks
  | opened _ asks ih => exact ih.opened asks
  | released _ asks ih => exact ih.released asks
  | disposed _ asks ih => exact ih.disposed asks
  | registered r _ ih => exact ih.registered r
  | triggered i j _ ih => exact ih.triggered i j
  | polled _ items caller hv ih => exact ih.polled items caller hv
  | dropped _ items ih => exact ih.dropped items

end Estate

/-! ## Steps -/

/-- The world after the first part of a step, with what goes into a slot later and other items. -/
def Turn.estate (t : Turn P) (rest : List (Item P)) : Estate P :=
  ⟨t.world, t.put.toList.map Prod.snd ++ (t.world.items ++ rest)⟩

namespace World

variable {w : World P} {rest : List (Item P)} {ask : Option (Nat × Demand P)}

def estate (w : World P) (rest : List (Item P)) : Estate P := ⟨w, w.items ++ rest⟩

theorem visit_world {α : Type} (w : World P) (i : Nat) (otherwise : α)
    (f : Section P → Section P × α) :
    (w.visit i otherwise f).world = (w.touch i fun s => (f s).1).world := by
  unfold World.touch World.visit
  split <;> rfl

theorem deals_still {t : Turn P} (syncs : t.world.syncs = w.syncs) (slots : t.world.slots = w.slots)
    (put : t.put = none) : (w.estate rest).Goes ask (t.estate rest) := by
  refine .still .refl syncs ?_
  rw [Turn.estate, put, estate, items, items, slots]
  exact .refl _

theorem deals_lookup {α : Type} {names : Names α} {name : String} {f : α → Turn P}
    (found : ∀ a, names.find? name = some a → (w.estate rest).Goes ask ((f a).estate rest)) :
    (w.estate rest).Goes ask ((w.lookup names name f).estate rest) := by
  unfold World.lookup
  rcases ha : names.find? name with _ | a
  · exact deals_still rfl rfl rfl
  · exact found a ha

theorem deals_turn {x y : Estate P} {t : Turn P} (h : x.Goes ask y)
    (syncs : t.world.syncs = y.world.syncs) (slots : t.world.slots = w.slots)
    (items : (t.put.toList.map Prod.snd ++ (w.items ++ rest)).Perm y.items) :
    x.Goes ask (t.estate rest) := by
  refine h.still syncs ?_
  rw [Turn.estate, World.items, slots]
  exact items

theorem deals_create (name : String) (raw : Bool) (holding : P.State) (settings : Settings) :
    (w.estate rest).Goes (some (w.syncs.size, .found holding))
      ((w.create name raw holding settings).estate rest) := by
  unfold World.create
  split
  · exact deals_still rfl rfl rfl
  · split
    · exact deals_still rfl rfl rfl
    · exact (Estate.Goes.refl.founded (settings.concurrencyLevel.getD 0) settings.poolRetainLimit
        rfl).still rfl (.refl _)

theorem deals_tryAcquire (o : Object) (request : P.Request) :
    (w.estate rest).Goes (some (o.sync, .tryAcquire request))
      ((w.tryAcquire o request).estate rest) := by
  unfold World.tryAcquire
  split
  · exact deals_still rfl rfl rfl
  · refine deals_turn (w := w) (Estate.Goes.refl.tried rfl) ?_ (visit_slots _ _ _ _) (.refl _)
    exact congrArg World.syncs (visit_world _ _ _ _)

theorem deals_startAcquisition (o : Object) (name : String) (a : Acquiring P) (timeout : Timeout)
    (token : Option Nat) :
    (w.estate rest).Goes (some (o.sync, .acquire a))
      ((w.startAcquisition o name a timeout token).estate rest) := by
  unfold World.startAcquisition
  dsimp only
  split
  · exact deals_turn (w := w) (Estate.Goes.refl.refused _ rfl) rfl rfl (.refl _)
  · exact deals_turn (w := w) (Estate.Goes.refl.acquired timeout token rfl rfl) rfl
      (visit_slots _ _ _ _) (.refl _)

theorem deals_acquire (o : Object) (name : String) (a : Acquiring P) :
    (w.estate rest).Goes (some (o.sync, .acquire a)) ((w.acquire o name a).estate rest) := by
  have begun (tokens : Tokens) (token : Option Nat) (timeout : Timeout) :
      (w.estate rest).Goes (some (o.sync, .acquire a))
        (({ w with tokens }.startAcquisition o name a timeout token).estate rest) := by
    have kept : (w.estate rest).Goes (some (o.sync, .acquire a))
        (({ w with tokens } : World P).estate rest) := .still .refl rfl (.refl _)
    exact kept.trans (deals_startAcquisition o name a timeout token)
  unfold World.acquire
  dsimp only
  rcases a.token with _ | token
  · dsimp only
    split
    · exact deals_still rfl rfl rfl
    · exact (begun w.tokens none _).still rfl (.refl _)
  · refine deals_lookup fun t _ => ?_
    split
    · exact deals_still rfl rfl rfl
    · exact (begun (w.tokens.retain t) (some t) _).still rfl (.refl _)

theorem deals_release (o : Object) (request : Option P.Request) :
    (w.estate rest).Goes (some (o.sync, .release request))
      ((w.release o request).estate rest) := by
  unfold World.release
  split
  · exact deals_still rfl rfl rfl
  · refine deals_turn (w := w) (Estate.Goes.refl.released rfl) ?_ (visit_slots _ _ _ _) (.refl _)
    exact congrArg World.syncs (visit_world _ _ _ _)

theorem deals_dispose (o : Object) (name : String) :
    (w.estate rest).Goes (some (o.sync, .dispose)) ((w.dispose o name).estate rest) :=
  deals_turn (w := w) (Estate.Goes.refl.disposed rfl) rfl (visit_slots _ _ _ _) (.refl _)

theorem deals_taken (distinct : w.slots.Distinct) {slot : String} {item : Item P}
    (found : w.slots.find? slot = some item) :
    (w.estate rest).Goes ask
      ⟨{ w with slots := w.slots.erase slot },
        item :: (({ w with slots := w.slots.erase slot } : World P).items ++ rest)⟩ := by
  refine .still .refl rfl ?_
  have apart := Names.find?_erase_perm distinct slot
  rw [found] at apart
  exact apart.append_right rest

theorem deals_poll (distinct : w.slots.Distinct) (slot : String) {waker : Waker}
    (caller : ∀ i j, waker ≠ .trigger i j) :
    (w.estate rest).Goes ask ((w.poll slot waker).estate rest) := by
  rcases w.poll_cases slot waker with ⟨answer, same⟩ | ⟨item, v, found, hv, same⟩ <;> rw [same]
  · exact deals_still rfl rfl rfl
  · exact deals_turn (w := { w with slots := w.slots.erase slot })
      ((deals_taken distinct found).polled rfl caller hv) rfl (pollItem?_slots hv) (.refl _)

theorem deals_drop (distinct : w.slots.Distinct) (slot : String) :
    (w.estate rest).Goes ask ((w.drop slot).estate rest) := by
  refine deals_lookup fun item found => ?_
  exact deals_turn (w := { w with slots := w.slots.erase slot })
    ((deals_taken distinct found).dropped rfl) rfl (discard_slots _ _) (.refl _)

theorem deals_start (distinct : w.slots.Distinct) (s : Step P) :
    (w.estate rest).Goes (w.demand? s) ((w.start s).estate rest) := by
  cases s with
  | create name raw holding settings => exact deals_create name raw holding settings
  | tryAcquire object request =>
    refine deals_lookup fun o found => ?_
    rw [demand?, found]
    exact deals_tryAcquire o request
  | acquire object name a =>
    refine deals_lookup fun o found => ?_
    rw [demand?, found]
    exact deals_acquire o name a
  | lock object name request =>
    refine deals_lookup fun o found => ?_
    rw [demand?, found]
    exact deals_turn (w := w) (Estate.Goes.refl.opened rfl) rfl rfl (.refl _)
  | release object request =>
    refine deals_lookup fun o found => ?_
    rw [demand?, found]
    exact deals_release o request
  | dispose object name =>
    refine deals_lookup fun o found => ?_
    rw [demand?, found]
    exact deals_dispose o name
  | poll slot waker onWake =>
    obtain ⟨syncs, slots⟩ := setOnWake_fields w waker onWake
    have kept : (w.estate rest).Goes none ((w.setOnWake waker onWake).estate rest) := by
      refine .still .refl syncs ?_
      rw [estate, estate, items, items, slots]
    exact kept.trans (deals_poll (slots ▸ distinct) slot (by simp))
  | drop slot => exact deals_drop distinct slot
  | cancel token =>
    refine deals_lookup fun t _ => ?_
    unfold World.cancel
    split <;> exact deals_still rfl rfl rfl
  | child token name =>
    refine deals_lookup fun t _ => ?_
    unfold World.child
    dsimp only
    split
    · obtain ⟨syncs, slots⟩ := nameToken_fields w (w.tokens.create.1.fire w.tokens.create.2).1
        w.tokens.create.2 name
      exact deals_still syncs slots rfl
    · obtain ⟨syncs, slots⟩ := nameToken_fields w (w.tokens.create.1.link t w.tokens.create.2)
        w.tokens.create.2 name
      exact deals_still syncs slots rfl
  | createToken name =>
    obtain ⟨syncs, slots⟩ := nameToken_fields w w.tokens.create.1 w.tokens.create.2 name
    exact deals_still syncs slots rfl
  | cloneToken token name =>
    refine deals_lookup fun t _ => ?_
    obtain ⟨syncs, slots⟩ := nameToken_fields w (w.tokens.retain t) t name
    exact deals_still syncs slots rfl
  | dropToken token =>
    refine deals_lookup fun t _ => ?_
    obtain ⟨syncs, slots⟩ := forgetToken_fields w token
    exact deals_still syncs slots rfl
  | register token name waker onWake =>
    refine deals_lookup fun t _ => ?_
    obtain ⟨syncs, slots⟩ := setOnWake_fields w waker onWake
    unfold World.register
    split
    · exact deals_still syncs slots rfl
    · exact deals_turn (w := w) (Estate.Goes.refl.registered _) syncs slots (.refl _)
  | createTimer name moment waker onWake =>
    obtain ⟨syncs, slots⟩ := setOnWake_fields w waker onWake
    exact deals_still syncs slots rfl
  | advance | advanceTo | setClock =>
    obtain ⟨syncs, slots⟩ := setClock_fields w _
    exact deals_still syncs slots rfl
  | sameTimer a b => exact deals_lookup fun _ _ => deals_lookup fun _ _ => deals_still rfl rfl rfl
  | clone | dropObject | holding | describe | isWaiting | guarded | isRegistrationCancelled
  | describeSlot | describeToken | cancelTimer =>
    exact deals_lookup fun _ _ => deals_still rfl rfl rfl
  | now | describeClock | process | nextDeadline | timers | clearTimers | describeTimers | wait
  | waitWaker => exact deals_still rfl rfl rfl

end World

/-! ## Machines -/

namespace Machine

variable {m : Machine P} {ask : Option (Nat × Demand P)}

def estate (m : Machine P) : Estate P := ⟨m.world, m.items⟩

/-- What the step that begins next asks, and of which synchronizer. -/
def demand? (m : Machine P) : Option (Nat × Demand P) := m.next?.bind m.world.demand?

theorem deals_take {x : Estate P} {t : Turn P} {top : Bool}
    (h : x.Goes ask (t.estate (m.agenda.filterMap Frame.item?))) :
    x.Goes ask (m.take top t).estate := by
  refine h.still rfl ?_
  have planned : (m.take top t).agenda.filterMap Frame.item? =
      t.put.toList.map Prod.snd ++ m.agenda.filterMap Frame.item? := by
    rcases t with ⟨_, _, _, _, _ | _, _ | _, _ | _⟩ <;> rfl
  show (t.world.items ++ (m.take top t).agenda.filterMap Frame.item?).Perm
    (t.put.toList.map Prod.snd ++ (t.world.items ++ m.agenda.filterMap Frame.item?))
  rw [planned, ← List.append_assoc, ← List.append_assoc]
  exact List.perm_append_comm.append_right _

theorem deals_begin (distinct : m.world.slots.Distinct) (top : Bool) (s : Step P) :
    m.estate.Goes (m.world.demand? s) (m.begin top s).estate := by
  cases s with
  | wait slot => exact .still .refl rfl (.refl _)
  | waitWaker waker => exact .still .refl rfl (.refl _)
  | _ => exact deals_take (World.deals_start distinct _)

theorem deals_deliver (top : Bool) (answer : Answer P) :
    m.estate.Goes ask (m.deliver top answer).estate := by
  unfold Machine.deliver
  split <;> exact .still .refl rfl (.refl _)

theorem deals_elapse (top : Bool) {again : Frame P} (idle : again.item? = none) :
    m.estate.Goes ask (m.elapse top again).estate := by
  unfold Machine.elapse
  split
  · exact deals_deliver top .pending
  · rename_i v hv
    obtain ⟨t, -, rfl⟩ := Option.map_eq_some_iff.mp hv
    refine .still .refl rfl ?_
    show (m.world.items ++ List.filterMap Frame.item? (again :: m.agenda)).Perm m.items
    rw [List.filterMap_cons_none idle]
    exact .refl _

theorem deals_wake (aside : Bool) (waker : Waker) :
    m.estate.Goes ask (m.wake aside waker).estate := by
  cases waker with
  | task name =>
    unfold Machine.wake
    dsimp only
    split <;> exact .still .refl rfl (.refl _)
  | sleeper => exact .refl
  | trigger i j =>
    refine (Estate.Goes.refl.triggered i j).still rfl ?_
    have slots : (m.world.touch i fun s => s.trigger j).world.slots = m.world.slots :=
      World.visit_slots _ _ _ _
    show ((m.world.touch i fun s => s.trigger j).world.items ++
      m.agenda.filterMap Frame.item?).Perm (m.world.items ++ m.agenda.filterMap Frame.item?)
    rw [World.items, World.items, slots]

theorem deals_put (distinct : m.world.slots.Distinct) (slot : String) (item : Item P) :
    (⟨m.world, item :: m.items⟩ : Estate P).Goes ask (m.put slot item).estate := by
  have swapped := (Names.find?_insert_perm distinct slot item).append_right
    (m.agenda.filterMap Frame.item?)
  unfold Machine.put
  dsimp only
  rcases found : m.world.slots.find? slot with _ | old
  · rw [found] at swapped
    exact .still .refl rfl swapped
  · rw [found] at swapped
    let w : World P := { m.world with slots := m.world.slots.insert slot item }
    have filled : (⟨m.world, item :: m.items⟩ : Estate P).Goes ask
        ⟨w, old :: (w.items ++ m.agenda.filterMap Frame.item?)⟩ := .still .refl rfl swapped
    refine (filled.dropped rfl).still rfl ?_
    have slots : (w.discard old).world.slots = w.slots := World.discard_slots w old
    show ((w.discard old).world.items ++ m.agenda.filterMap Frame.item?).Perm
      (w.items ++ m.agenda.filterMap Frame.item?)
    rw [World.items, World.items, slots]

theorem deals_await (distinct : m.world.slots.Distinct) (top : Bool) (slot : String) :
    m.estate.Goes ask (m.await top slot).estate := by
  have polled : m.estate.Goes ask
      ((m.world.poll slot .sleeper).estate (m.agenda.filterMap Frame.item?)) :=
    World.deals_poll distinct slot (by simp)
  have others := World.poll_distinct distinct slot .sleeper
  unfold Machine.await
  dsimp only
  split
  · rename_i name item hput _
    have swapped := (Names.find?_insert_perm others name item).append_right
      (m.agenda.filterMap Frame.item?)
    rw [World.poll_vacant hput] at swapped
    rw [Turn.estate, hput] at polled
    have kept : m.estate.Goes ask
        ({ m with
          world :=
            { (m.world.poll slot .sleeper).world with
              slots := (m.world.poll slot .sleeper).world.slots.insert name item } } :
          Machine P).estate := polled.still rfl swapped
    exact kept.trans (deals_elapse top rfl)
  · exact deals_take polled

theorem deals_perform (distinct : m.world.slots.Distinct) (f : Frame P) :
    (⟨m.world, f.item?.toList ++ m.items⟩ : Estate P).Goes (f.begins?.bind m.world.demand?)
      (m.perform f).estate := by
  cases f with
  | wake aside wakers =>
    cases wakers with
    | nil => exact .refl
    | cons w ws => exact deals_wake (m := m.push [.wake aside ws]) aside w
  | children t => exact .still .refl rfl (.refl _)
  | cancel tokens =>
    cases tokens with
    | nil => exact .refl
    | cons t ts =>
      show m.estate.Goes none ((m.push [.cancel ts]).cancelChild t).estate
      unfold Machine.cancelChild
      split <;> exact .still .refl rfl (.refl _)
  | run steps =>
    cases steps with
    | nil => exact .refl
    | cons s ss =>
      exact deals_begin (m := m.push [.run ss]) distinct false s
  | put slot item => exact deals_put distinct slot item
  | letGo t => exact .still .refl rfl (.refl _)
  | finish top answer => exact deals_deliver top answer
  | await top slot => exact deals_await distinct top slot
  | awaitWaker top waker =>
    show m.estate.Goes none (if waker ∈ m.woken then _ else _ : Machine P).estate
    split
    · exact deals_deliver top .fired
    · exact deals_elapse top rfl

/-- What one step of a machine does, section by section. -/
theorem deals_step (distinct : m.world.slots.Distinct) : m.estate.Goes m.demand? m.step.estate := by
  obtain ⟨world, agenda, script, woken, wakes, nested, events, reports⟩ := m
  rcases agenda with _ | ⟨f, agenda⟩
  · rcases script with _ | ⟨s, script⟩
    · exact .refl
    · exact deals_begin (m := ⟨world, [], script, woken, wakes, nested, events, reports⟩) distinct
        true s
  · have item : (f :: agenda).filterMap Frame.item? =
        f.item?.toList ++ agenda.filterMap Frame.item? := by
      cases f <;> rfl
    have popped : (⟨world, world.items ++ (f :: agenda).filterMap Frame.item?⟩ : Estate P).Goes
        (f.begins?.bind world.demand?)
        ⟨world, f.item?.toList ++ (world.items ++ agenda.filterMap Frame.item?)⟩ := by
      refine .still .refl rfl ?_
      rw [item]
      exact List.perm_append_comm_assoc _ _ _
    exact popped.trans (deals_perform
      (m := ⟨world, agenda, script, woken, wakes, nested, events, reports⟩) distinct f)

/-! ## Runs -/

theorem distinct_begin (distinct : m.world.slots.Distinct) (top : Bool) (s : Step P) :
    (m.begin top s).world.slots.Distinct := by
  cases s with
  | wait slot => exact distinct
  | waitWaker waker => exact distinct
  | _ => exact World.start_distinct distinct _

theorem deliver_world (top : Bool) (answer : Answer P) :
    (m.deliver top answer).world = m.world := by
  unfold Machine.deliver
  split <;> rfl

theorem elapse_slots (top : Bool) (again : Frame P) :
    (m.elapse top again).world.slots = m.world.slots := by
  unfold Machine.elapse
  split
  · rw [deliver_world]
  · rename_i v hv
    obtain ⟨t, -, rfl⟩ := Option.map_eq_some_iff.mp hv
    rfl

theorem distinct_perform (distinct : m.world.slots.Distinct) (f : Frame P) :
    (m.perform f).world.slots.Distinct := by
  cases f with
  | wake aside wakers =>
    rcases wakers with _ | ⟨name | _ | ⟨i, j⟩, ws⟩
    · exact distinct
    · show (Machine.wake _ aside (.task name)).world.slots.Distinct
      unfold Machine.wake
      dsimp only
      split <;> exact distinct
    · exact distinct
    · show (m.world.touch i fun s => s.trigger j).world.slots.Distinct
      rw [show (m.world.touch i fun s => s.trigger j).world.slots = m.world.slots from
        World.visit_slots _ _ _ _]
      exact distinct
  | children t => exact distinct
  | cancel tokens =>
    rcases tokens with _ | ⟨t, ts⟩
    · exact distinct
    · show ((m.push [.cancel ts]).cancelChild t).world.slots.Distinct
      unfold Machine.cancelChild
      split <;> exact distinct
  | run steps =>
    rcases steps with _ | ⟨s, ss⟩
    · exact distinct
    · exact distinct_begin (m := m.push [.run ss]) distinct false s
  | put slot item =>
    have filled : (m.world.slots.insert slot item).Distinct := distinct.insert slot item
    show (m.put slot item).world.slots.Distinct
    unfold Machine.put
    dsimp only
    split
    · exact filled
    · rename_i old _
      show (World.discard _ old).world.slots.Distinct
      rw [World.discard_slots]
      exact filled
  | letGo t => exact distinct
  | finish top answer =>
    show (m.deliver top answer).world.slots.Distinct
    rw [deliver_world]
    exact distinct
  | await top slot =>
    have polled := World.poll_distinct distinct slot .sleeper
    show (m.await top slot).world.slots.Distinct
    unfold Machine.await
    dsimp only
    split
    · rw [elapse_slots]
      exact polled.insert _ _
    · exact polled
  | awaitWaker top waker =>
    show (if waker ∈ m.woken then _ else _ : Machine P).world.slots.Distinct
    split
    · rw [deliver_world]
      exact distinct
    · rw [elapse_slots]
      exact distinct

theorem distinct_step (distinct : m.world.slots.Distinct) : m.step.world.slots.Distinct := by
  unfold Machine.step
  split
  · rename_i f agenda _
    exact distinct_perform (m := { m with agenda }) distinct f
  · split
    · rename_i s script _
      exact distinct_begin (m := { m with script }) distinct true s
    · exact distinct

theorem Fresh.distinct (h : m.Fresh) (n : Nat) : (step^[n] m).world.slots.Distinct := by
  obtain ⟨now, ownClock, running, script, rfl⟩ := h
  induction n with
  | zero => exact List.nodup_nil
  | succ n ih =>
    rw [Function.iterate_succ_apply']
    exact distinct_step ih

theorem Fresh.keeps {I : Estate P → Prop} (h : m.Fresh) (n : Nat)
    (start : ∀ w : World P, w.syncs = #[] → I ⟨w, []⟩)
    (goes : ∀ k < n, ∀ y, (step^[k] m).estate.Goes (step^[k] m).demand? y → I (step^[k] m).estate →
      I y) : I (step^[n] m).estate := by
  induction n with
  | zero =>
    obtain ⟨now, ownClock, running, script, rfl⟩ := h
    exact start _ rfl
  | succ n ih =>
    have before := ih fun k hk => goes k (Nat.lt_succ_of_lt hk)
    rw [Function.iterate_succ_apply']
    exact goes n (Nat.lt_succ_self n) _ (deals_step (h.distinct n)) before

end Machine

end Turnstile
