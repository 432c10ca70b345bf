import Turnstile.Proofs.Armed
import Turnstile.Proofs.Lockstep

/-!
# No wake for those who have gone

Whatever the callers do, the timers and the tokens wake a waiter only in a slot that somebody has
rented: a rental does not end before its timer has been cancelled and its subscription has ended.
-/

namespace Turnstile

variable {P : Policy}

namespace World

/-- The waiter in slot `j` of synchronizer `i`, if the slot is rented. -/
def waiter? (w : World P) (i j : Nat) : Option (Waiter P.Request) :=
  w.syncs[i]?.bind fun s => s.line.waiter? j

/-- Each timer that would wake a waiter is that waiter's own. -/
def Owned (w : World P) : Prop :=
  ∀ k i j, (k, .trigger i j) ∈ w.timers.pending → ∃ a, w.arms? i j = some a ∧ a.timer = some k

/-- The timers and the tokens wake nobody who has not rented a slot. -/
structure Minded (w : World P) : Prop where
  owned : w.Owned
  serves : ∃ kept late early, Watch.Serves False ⟨w, kept, late, early⟩

variable {w w' : World P} {i j : Nat} {s : Sync P}

theorem waiter?_of_arms? {a : Arms} (h : w.arms? i j = some a) : ∃ u, w.waiter? i j = some u := by
  obtain ⟨s, hs, armed⟩ := Option.bind_eq_some_iff.mp h
  obtain ⟨u, hu, -⟩ := Option.bind_eq_some_iff.mp armed
  exact ⟨u, Option.bind_eq_some_iff.mpr ⟨s, hs, hu⟩⟩

/-! ## Changes -/

theorem Owned.of_pending (h : w.Owned) (arms : w'.arms? = w.arms?)
    (pending : ∀ k i j, (k, .trigger i j) ∈ w'.timers.pending →
      (k, .trigger i j) ∈ w.timers.pending) : w'.Owned := by
  intro k i j hk
  rw [arms]
  exact h k i j (pending k i j hk)

theorem Owned.lapse (h : w.Owned) {a : Arms} (armed : w.arms? i j = some a)
    (lapsed : Lapsed w.arms? w'.arms? i j)
    (timers : w'.timers = a.timer.elim w.timers w.timers.cancel) : w'.Owned := by
  intro k i' j' hk
  have kept : (k, .trigger i' j') ∈ w.timers.pending ∧ a.timer ≠ some k := by
    rw [timers] at hk
    rcases ha : a.timer with _ | k' <;> rw [ha] at hk
    · exact ⟨hk, by simp⟩
    · obtain ⟨hk, other⟩ := Timers.mem_cancel.mp hk
      exact ⟨hk, fun same => other (Option.some.inj same).symm⟩
  obtain ⟨b, hb, timer⟩ := h k i' j' kept.1
  refine ⟨b, lapsed.kept hb ?_, timer⟩
  rintro ⟨rfl, rfl⟩
  rw [armed] at hb
  exact kept.2 (Option.some.inj hb ▸ timer)

theorem Owned.enrol (h : w.Owned) {a : Arms} (enrolled : Enrolled w.arms? w'.arms? i j a)
    {timeout : Timeout}
    (armed : Section.arm w.timers timeout (.trigger i j) = (w'.timers, a.deadline, a.timer)) :
    w'.Owned := by
  intro k i' j' hk
  have new : (k, .trigger i' j') ∈ w.timers.pending ∨ i' = i ∧ j' = j ∧ a.timer = some k := by
    cases timeout with
    | forever =>
      rw [show w'.timers = w.timers from (congrArg Prod.fst armed).symm] at hk
      exact .inl hk
    | after d =>
      rw [show w'.timers = _ from (congrArg Prod.fst armed).symm] at hk
      rcases Timers.mem_register.mp hk with same | hk
      · obtain ⟨key, waker⟩ := Prod.mk.inj same
        obtain ⟨rfl, rfl⟩ := Waker.trigger.inj waker
        have timer := congrArg (fun p => p.2.2) armed
        exact .inr ⟨rfl, rfl, timer.symm.trans (congrArg some key.symm)⟩
      · exact .inl hk
  rcases new with hk | ⟨rfl, rfl, timer⟩
  · obtain ⟨b, hb, timer⟩ := h k i' j' hk
    exact ⟨b, enrolled.kept hb, timer⟩
  · exact ⟨a, enrolled.new, timer⟩

theorem Owned.visit (h : w.Owned) {ask : Option (Nat × Asking)} (q : w.Steps ask w')
    (known : ∀ (i : Nat) (s : Sync P), w.syncs[i]? = some s → s.id = i) : w'.Owned := by
  obtain ⟨i, works⟩ := q
  have both : (∀ (i : Nat) (s : Sync P), w'.syncs[i]? = some s → s.id = i) ∧ w'.Owned := by
    refine works.keeps
      (I := fun w => (∀ (i : Nat) (s : Sync P), w.syncs[i]? = some s → s.id = i) ∧ w.Owned)
      ⟨known, h⟩ (fun s hi t u q ih => ?_) (fun s hi t u j a q ih => ?_)
      fun s hi q _ t u j a enrols ih => ?_
    · refine ⟨outside_known hi q.id ih.1, ih.2.of_pending (outside_silent hi q) fun k i j hk => ?_⟩
      rw [show (w.outside _ u).timers = t.timers from q.timers] at hk
      exact hk
    · obtain ⟨armed, lapsed⟩ := outside_lapse hi q
      exact ⟨outside_known hi q.id ih.1, ih.2.lapse armed lapsed q.timers⟩
    · have id : t.sync.id = i := ih.1 i t.sync (by rw [outside_sync hi, if_pos rfl])
      have timers := enrols.timers
      rw [id] at timers
      exact ⟨outside_known hi enrols.id ih.1, ih.2.enrol (outside_enrols hi enrols) timers⟩
  exact both.2

end World

theorem Watch.Goes.owned {x y : Watch P} {ask : Option (Nat × Asking)} (h : x.Goes False ask y)
    (hx : x.Serves False) (owned : x.world.Owned) : y.world.Owned := by
  induction h with
  | refl => exact owned
  | @still y z h q ih =>
    refine ih.of_pending ?_ fun k i j hk => by rwa [q.timers] at hk
    funext i j
    unfold World.arms?
    rw [q.syncs]
  | visit h q ih => exact ih.visit q (h.serves hx).known
  | found h _ idle ih => exact ih.of_pending (World.arms?_push idle) fun _ _ _ hk => hk
  | woken h q _ _ _ ih => exact ih.visit q (h.serves hx).known
  | clock | fire | mint | subscribe | unsubscribe =>
    rename_i ih
    exact ih
  | clear _ _ ih => exact ih.of_pending rfl fun _ _ _ hk => by cases hk
  | due _ ih => exact ih.of_pending rfl fun _ _ _ hk => (List.dropWhile_sublist _).subset hk
  | timer d waker _ _ ih =>
    refine ih.of_pending rfl fun k i j hk => ?_
    rcases Timers.mem_register.mp hk with same | hk
    · cases same
    · exact hk
  | untimer _ _ ih => exact ih.of_pending rfl fun _ _ _ hk => (Timers.mem_cancel.mp hk).1

/-! ## Runs -/

namespace Machine

theorem Fresh.minded {m₀ : Machine P} (h : m₀.Fresh) (n : Nat) : (step^[n] m₀).world.Minded := by
  have serves (n : Nat) : (step^[n] m₀).watch.Serves False := h.serves_if fun c : False => c.elim
  refine ⟨?_, _, _, _, serves n⟩
  induction n with
  | zero =>
    obtain ⟨now, ownClock, running, script, rfl⟩ := h
    intro k i j hk
    cases hk
  | succ n ih =>
    rw [Function.iterate_succ_apply']
    exact (goes_step (h.plays n) fun c : False => c.elim).owned (serves n) ih

end Machine

/-! ## Whom they may wake -/

theorem trigger_of_mem_targets {ws : List Waker} {i j : Nat} (h : (i, j) ∈ targets ws) :
    .trigger i j ∈ ws := by
  obtain ⟨w, hw, target⟩ := List.mem_filterMap.mp h
  cases w with
  | trigger i' j' =>
    obtain ⟨rfl, rfl⟩ := Prod.mk.inj (Option.some.inj target)
    exact hw
  | task => cases target
  | sleeper => cases target

namespace World.Minded

variable {w w' : World P} {i j : Nat} {s : Sync P}

theorem same (h : w.Minded) (syncs : w'.syncs = w.syncs)
    (pending : w'.timers.pending = w.timers.pending) (faces : w'.tokens.face? = w.tokens.face?) :
    w'.Minded := by
  obtain ⟨kept, late, early, serves⟩ := h.serves
  have arms : w'.arms? = w.arms? := by
    funext i j
    unfold arms?
    rw [syncs]
  refine ⟨h.owned.of_pending arms fun k i j hk => by rwa [pending] at hk, kept, late, early,
    fun i s hi => serves.known i s (syncs ▸ hi), fun c => c.elim, ?_⟩
  show w'.tokens.Serves w'.arms? kept early
  rw [arms]
  exact serves.tokens.same faces

theorem steps (h : w.Minded) {ask : Option (Nat × Asking)} (q : w.Steps ask w') : w'.Minded := by
  obtain ⟨kept, late, early, serves⟩ := h.serves
  exact ⟨h.owned.visit q serves.known, kept, late, early, serves.visit q⟩

theorem poll (h : w.Minded) {items : List (Item P)} (plays : w.Plays items) (slot : String)
    (waker : Waker) : (w.poll slot waker).world.Minded := by
  unfold World.poll lookup
  split
  · exact h
  · dsimp only
    split
    · exact h
    · rename_i v hv
      have erased : ({ w with slots := w.slots.erase slot } : World P).Minded := h.same rfl rfl rfl
      have emptied : ({ w with slots := w.slots.erase slot } : World P).Plays items :=
        plays.mono rfl fun _ => .refl _
      exact erased.steps (emptied.pollItem_steps hv)

theorem of_lapses (h : w.Minded) (hi : w.syncs[i]? = some s) {u : Section P}
    (lapses : (w.inside s).Lapses u) : u.Minded := by
  obtain ⟨owned, kept, late, early, after⟩ :=
    h.steps (⟨i, .visited hi (lapses.works _)⟩ : w.Steps none (w.outside i u))
  have here : (w.outside i u).syncs[i]? = some u.sync := by rw [outside_sync hi, if_pos rfl]
  have id : u.sync.id = i := after.known i u.sync here
  have rented {j : Nat} {a : Arms} (ha : (w.outside i u).arms? i j = some a) :
      u.waiter? j ≠ none := by
    obtain ⟨v, hv⟩ := waiter?_of_arms? ha
    rw [waiter?, here, Option.bind_some] at hv
    exact fun free => by cases free.symm.trans hv
  constructor
  · intro k j hk
    rw [id] at hk
    obtain ⟨a, ha, -⟩ := owned k i j hk
    exact rented ha
  · intro t n l j hl hw
    rw [id] at hw
    obtain ⟨a, ha, -⟩ := after.tokens.owned t n l i j hl hw
    exact rented ha

theorem due (h : w.Minded) (hp : (i, j) ∈ targets (w.timers.takeDue.2.map Prod.snd)) :
    ∃ u, w.waiter? i j = some u := by
  obtain ⟨⟨k, waker⟩, he, same⟩ := List.mem_map.mp (trigger_of_mem_targets hp)
  obtain rfl : waker = .trigger i j := same
  obtain ⟨a, ha, -⟩ := h.owned k i j ((List.takeWhile_sublist _).subset he)
  exact waiter?_of_arms? ha

theorem fired (h : w.Minded) {t : Nat} (hp : (i, j) ∈ targets (w.tokens.fire t).2) :
    ∃ u, w.waiter? i j = some u := by
  obtain ⟨kept, late, early, serves⟩ := h.serves
  have hw := trigger_of_mem_targets hp
  rw [Tokens.fire_wakers] at hw
  rcases hf : w.tokens.face? t with _ | ⟨c, l⟩ <;> rw [hf] at hw
  · cases hw
  · obtain ⟨s, hs, waker⟩ := List.mem_filterMap.mp hw
    obtain ⟨n, hn⟩ := List.mem_iff_getElem?.mp hs
    rw [Array.getElem?_toList] at hn
    have listed : w.tokens.listener? t n = some s := by
      unfold Tokens.listener?
      rw [hf]
      exact hn
    obtain ⟨a, ha, -⟩ := serves.tokens.owned t n s i j listed waker
    exact waiter?_of_arms? ha

end World.Minded

end Turnstile
