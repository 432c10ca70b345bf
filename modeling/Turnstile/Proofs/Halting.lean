import Mathlib.Algebra.Order.BigOperators.Group.List
import Mathlib.Algebra.Order.Group.Nat
import Turnstile.Proofs.Registries
import Turnstile.Proofs.Keeping

/-!
# Scripts come to an end

Each step of a machine uses something up: a frame of the agenda, a step of the script or of a waker, a
waker that somebody has left, a timer, or the link from a token to a child. What it leaves in return
costs less, so every run is done before it is cut off.
-/

namespace Turnstile

variable {P : Policy}

/-! ## What the timers and the tokens hold -/

/-- What it costs to wake those who have timers. -/
def Timers.cost (t : Timers) : Nat := 6 * t.pending.length

/-- What it costs to wake the listeners of the token and to cancel its children. -/
def Token.cost (t : Token) : Nat := 2 * t.listeners.count + 4 * t.children.length

def Tokens.cost (ts : Tokens) : Nat := (ts.all.toList.map Token.cost).sum

theorem Time.le_advanceTo_right (t u : Time) : u ≤ t.advanceTo u := by
  unfold advanceTo
  split
  · exact le_def.mpr (Nat.le_refl _)
  · rename_i later
    rw [le_def] at later ⊢
    omega

namespace Timers

variable {t : Timers}

theorem cost_register (t : Timers) (deadline : Time) (w : Waker) :
    (t.register deadline w).1.cost = t.cost + 6 := by
  simp only [register, cost, (insert_perm ..).length_eq, List.length_cons]
  omega

theorem cost_cancel (t : Timers) (k : TimerKey) : (t.cancel k).cost ≤ t.cost :=
  Nat.mul_le_mul_left 6 (List.length_filter_le _ _)

theorem cost_takeDue (t : Timers) : t.takeDue.1.cost + 6 * t.takeDue.2.length = t.cost := by
  have split := congrArg List.length t.takeDue_append
  rw [List.length_append] at split
  simp only [cost]
  omega

end Timers

namespace Listeners

variable {l : Listeners}

theorem count_eq (l : Listeners) :
    l.count = (l.slots.toList.map fun s => s.waker.toList.length).sum := by
  rw [count, ← Array.countP_toList]
  induction l.slots.toList with
  | nil => rfl
  | cons s ss ih =>
    rw [List.countP_cons, List.map_cons, List.sum_cons, ih, Nat.add_comm]
    rcases s.waker with _ | w <;> rfl

theorem count_modify (l : Listeners) (f : Listener → Listener) (free : List Nat) {i : Nat}
    {s : Listener} (h : l.slots[i]? = some s) :
    count ⟨l.slots.modify i f, free⟩ + s.waker.toList.length =
      l.count + (f s).waker.toList.length := by
  rw [count_eq, count_eq, Array.toList_modify]
  exact sum_modify (fun s : Listener => s.waker.toList.length) f (by rwa [Array.getElem?_toList])

theorem count_insert (l : Listeners) (w : Waker) : (l.insert w).1.count ≤ l.count + 1 := by
  unfold insert
  split
  · rename_i i free _
    rcases hs : l.slots[i]? with _ | s
    · have out : l.slots.size ≤ i := Array.getElem?_eq_none_iff.mp hs
      rw [count_eq, count_eq, Array.toList_modify, List.modify_eq_self (by simpa using out)]
      exact Nat.le_succ _
    · have changed := l.count_modify (fun s => { s with waker := some w, occupied := true }) free
        hs
      simp only [Option.toList_some, List.length_singleton] at changed
      dsimp only
      omega
  · rw [count_eq, count_eq, Array.toList_push, List.map_append, List.sum_append]
    exact Nat.le_refl _

theorem count_erase (l : Listeners) (i : Nat) (g : UInt32) : (l.erase i g).count ≤ l.count := by
  unfold erase
  split
  · rename_i s hs
    split
    · have changed := l.count_modify (fun _ => ⟨g + 1, none, false⟩) (i :: l.free) hs
      exact Nat.le_trans (Nat.le_add_right _ _) (Nat.le_of_eq changed)
    · exact Nat.le_refl _
  · exact Nat.le_refl _

theorem count_takeWakers (l : Listeners) :
    l.takeWakers.1.count = 0 ∧ l.takeWakers.2.length = l.count := by
  constructor
  · refine Array.countP_eq_zero.mpr fun s hs => ?_
    obtain ⟨s', -, rfl⟩ := Array.mem_map.mp hs
    simp
  · rw [count_eq]
    show (l.slots.toList.filterMap (·.waker)).length = _
    induction l.slots.toList with
    | nil => rfl
    | cons s ss ih =>
      rw [List.map_cons, List.sum_cons, ← ih]
      rcases hw : s.waker with _ | w <;> simp [hw]
      omega

end Listeners

namespace Tokens

variable {ts : Tokens} {i : Nat}

theorem cost_update {t : Token} (h : ts.get? i = some t) (f : Token → Token) :
    (ts.update i f).cost + t.cost = ts.cost + (f t).cost := by
  rw [cost, cost, update, Array.toList_modify]
  exact sum_modify Token.cost f (by rwa [Array.getElem?_toList])

theorem cost_update_of_none (h : ts.get? i = none) (f : Token → Token) :
    (ts.update i f).cost = ts.cost := by
  have out : ts.all.size ≤ i := Array.getElem?_eq_none_iff.mp h
  rw [cost, cost, update, Array.toList_modify, List.modify_eq_self (by simpa using out)]

theorem cost_update_le (i : Nat) {f : Token → Token} (less : ∀ t, (f t).cost ≤ t.cost) :
    (ts.update i f).cost ≤ ts.cost := by
  rcases h : ts.get? i with _ | t
  · exact Nat.le_of_eq (cost_update_of_none h f)
  · have changed := cost_update h f
    have lesser := less t
    omega

theorem cost_create (ts : Tokens) : ts.create.1.cost = ts.cost := by
  rw [cost, cost, create, Array.toList_push, List.map_append, List.sum_append]
  rfl

theorem cost_retain (ts : Tokens) (i : Nat) : (ts.retain i).cost ≤ ts.cost :=
  cost_update_le i fun _ => Nat.le_refl _

theorem cost_release (ts : Tokens) (i : Nat) : (ts.release i).cost ≤ ts.cost :=
  cost_update_le i fun _ => Nat.le_refl _

theorem cost_unregister (ts : Tokens) (r : Registration) : (ts.unregister r).cost ≤ ts.cost :=
  cost_update_le r.token fun t =>
    Nat.add_le_add_right (Nat.mul_le_mul_left 2 (t.listeners.count_erase r.slot r.generation)) _

theorem cost_register? {w : Waker} {ts' : Tokens} {r : Registration}
    (h : ts.register? i w = some (ts', r)) : ts'.cost ≤ ts.cost + 2 := by
  unfold register? at h
  split at h
  · cases h
  · rename_i t ht
    split at h
    · cases h
    · have same : ts' = ts.update i fun t' => { t' with listeners := (t.listeners.insert w).1 } :=
        (Prod.mk.inj (Option.some.inj h)).1.symm
      have changed := cost_update ht fun t' => { t' with listeners := (t.listeners.insert w).1 }
      have one := t.listeners.count_insert w
      simp only [Token.cost] at changed
      rw [same]
      omega

theorem cost_fire (ts : Tokens) (i : Nat) :
    (ts.fire i).1.cost + 2 * (ts.fire i).2.length ≤ ts.cost := by
  unfold fire
  split
  · exact Nat.le_refl _
  · rename_i t ht
    obtain ⟨none_left, all⟩ := t.listeners.count_takeWakers
    have changed := cost_update ht fun t' =>
      { t' with cancelled := true, listeners := t.listeners.takeWakers.1 }
    simp only [Token.cost, none_left] at changed
    dsimp only
    omega

theorem cost_takeChildren (ts : Tokens) (i : Nat) :
    (ts.takeChildren i).1.cost + 4 * (ts.takeChildren i).2.length ≤ ts.cost := by
  unfold takeChildren
  rcases ht : ts.get? i with _ | t
  · exact Nat.le_of_eq (cost_update_of_none ht _)
  · have changed := cost_update ht fun t' => { t' with children := [] }
    simp only [Token.cost, List.length_nil] at changed
    simp only [Option.map_some, Option.getD_some]
    omega

theorem cost_link (ts : Tokens) (parent child : Nat) :
    (ts.link parent child).cost ≤ ts.cost + 4 := by
  unfold link
  rcases ht : ts.get? parent with _ | t
  · exact Nat.le_add_right_of_le (Nat.le_of_eq (cost_update_of_none ht _))
  · have changed := cost_update ht fun t' =>
      { t' with children := t'.children.filter ts.isAlive ++ [child] }
    have fewer := List.length_filter_le ts.isAlive t.children
    simp only [Token.cost, List.length_append, List.length_singleton] at changed
    omega

end Tokens

/-! ## What a section adds -/

/-- What it costs later that somebody joins a line. -/
def Asking.cost (q : Asking) : Nat :=
  (match q.timeout with | .forever => 0 | .after _ => 6) + if q.token.isSome then 2 else 0

theorem Asking.cost_le (q : Asking) : q.cost ≤ 8 := by
  unfold Asking.cost
  split <;> split <;> decide

namespace Section

variable {s t u : Section P}

/-- What its timers and its tokens cost. -/
def hired (s : Section P) : Nat := s.timers.cost + s.tokens.cost

theorem Lapses.hired (h : s.Lapses t) : t.hired ≤ s.hired := by
  refine h.keeps (I := fun t => t.hired ≤ s.hired) (Nat.le_refl _) (fun t u q le => ?_)
    fun t u i a q le => ?_
  · rwa [Section.hired, q.timers, q.tokens]
  · have timers : u.timers.cost ≤ t.timers.cost := by
      rw [q.timers]
      rcases a.timer with _ | k
      · exact Nat.le_refl _
      · exact t.timers.cost_cancel k
    have tokens : u.tokens.cost ≤ t.tokens.cost := by
      rw [q.tokens]
      rcases a.registration with _ | r
      · exact Nat.le_refl _
      · exact Tokens.cost_unregister ..
    exact Nat.le_trans (Nat.add_le_add timers tokens) le

theorem Enrols.hired {q : Asking} {i : Nat} {a : Arms} (h : s.Enrols t q i a) :
    t.hired ≤ s.hired + q.cost := by
  have timers : t.timers.cost ≤
      s.timers.cost + match q.timeout with | .forever => 0 | .after _ => 6 := by
    have armed := congrArg (·.1.cost) h.timers
    rcases hq : q.timeout with _ | d <;> rw [hq] at armed
    · exact Nat.le_of_eq armed.symm
    · exact Nat.le_of_eq (armed.symm.trans (s.timers.cost_register _ _))
  have tokens : t.tokens.cost ≤ s.tokens.cost + if q.token.isSome then 2 else 0 := by
    have subscribed := h.tokens
    rcases hq : q.token with _ | n <;> rw [hq] at subscribed
    · exact Nat.le_of_eq (congrArg (·.1.cost) (Option.some.inj subscribed)).symm
    · obtain ⟨⟨ts, r⟩, registered, same⟩ := Option.map_eq_some_iff.mp subscribed
      obtain ⟨rfl, -⟩ := Prod.mk.inj same
      exact Tokens.cost_register? registered
  rw [Section.hired, Section.hired, Asking.cost]
  omega

theorem Works.hired {ask : Option Asking} (h : s.Works t ask) :
    t.hired ≤ s.hired + ask.elim 0 Asking.cost := by
  rcases h with lapses | ⟨q, hq, u, v, i, a, before, enrols, after⟩
  · exact Nat.le_add_right_of_le lapses.hired
  · obtain rfl : ask = some q := hq
    have lapsed := before.hired
    have enrolled := enrols.hired
    have settled := after.hired
    rw [Option.elim_some]
    omega

end Section

/-! ## What a step of a script adds -/

/-- What it costs to run the steps one after the other. The most that a step does is to plan frames for 7,
to arm somebody for 8 and to leave a waker. -/
def Step.cost (steps : List (Step P)) : Nat := 20 * Step.sizes steps + 1

namespace World

variable {w w' : World P} {items rest : List (Item P)}

/-- What the timers and the tokens cost. -/
def hired (w : World P) : Nat := w.timers.cost + w.tokens.cost

/-- What it costs to run the steps that wakers were given. -/
def tasks (w : World P) : Nat := ((w.onWake.entries.map Prod.snd).map Step.cost).sum

theorem Works.hired {i : Nat} {ask : Option Asking} (h : w.Works i ask w') :
    w'.hired ≤ w.hired + ask.elim 0 Asking.cost := by
  cases h with
  | nobody => exact Nat.le_add_right _ _
  | visited hi h => exact h.hired

theorem Steps.hired {ask : Option (Nat × Asking)} (h : w.Steps ask w') :
    w'.hired ≤ w.hired + ask.elim 0 (·.2.cost) := by
  obtain ⟨i, works⟩ := h
  refine Nat.le_trans works.hired (Nat.add_le_add_left ?_ _)
  rcases ask with _ | ⟨j, q⟩
  · exact Nat.le_refl _
  · rw [Option.filter_some]
    split
    · exact Nat.le_refl _
    · exact Nat.zero_le _

/-- What a world costs, apart from the wakers that its synchronizers keep. -/
def debt (w : World P) : Nat := w.hired + w.tasks

/-- A change after which the world costs at most so much more. -/
def Adds (w w' : World P) (n : Nat) : Prop := w'.debt ≤ w.debt + n

theorem Adds.mono {n n' : Nat} (h : w.Adds w' n) (hn : n ≤ n') : w.Adds w' n' :=
  Nat.le_trans h (Nat.add_le_add_left hn _)

theorem Adds.trans {u : World P} {n k : Nat} (h : w.Adds w' n) (next : w'.Adds u k) :
    w.Adds u (n + k) :=
  (Nat.le_trans next (Nat.add_le_add_right h k)).trans_eq (Nat.add_assoc ..)

theorem tasks_of_onWake (same : w'.onWake = w.onWake) : w'.tasks = w.tasks := by
  rw [tasks, tasks, same]

theorem adds_of_hired {n : Nat} (more : w'.hired ≤ w.hired + n) (same : w'.onWake = w.onWake) :
    w.Adds w' n := by
  rw [Adds, debt, debt, tasks_of_onWake same]
  omega

theorem visit_onWake {α : Type} (w : World P) (i : Nat) (otherwise : α)
    (f : Section P → Section P × α) : (w.visit i otherwise f).world.onWake = w.onWake := by
  unfold World.visit
  split <;> rfl

theorem Plays.visit_adds {α : Type} (h : w.Plays items) (i : Nat) (otherwise : α)
    (f : Section P → Section P × α) {ask : Option Asking}
    (works : ∀ s d L, Section.Rests s d L → s.Works (f s).1 ask) :
    w.Adds (w.visit i otherwise f).world (ask.elim 0 Asking.cost) :=
  adds_of_hired (h.visit_works i otherwise f works).hired (w.visit_onWake ..)

theorem Plays.lapses_adds {α : Type} (h : w.Plays items) (i : Nat) (otherwise : α)
    (f : Section P → Section P × α) (lapses : ∀ s d L, Section.Rests s d L → s.Lapses (f s).1) :
    w.Adds (w.visit i otherwise f).world 0 :=
  h.visit_adds i otherwise f fun s d L rests => (lapses s d L rests).works none

theorem Plays.discard_adds (h : w.Plays items) (item : Item P) :
    w.Adds (w.discard item).world 0 := by
  rcases item with ⟨sync, request, lenient, stage⟩ | ⟨sync, request, _ | stage⟩ | ⟨sync, request⟩ |
    sync | r
  · exact h.lapses_adds sync () _ fun _ _ _ rests => rests.dropStage_lapses request stage
  · exact Nat.le_refl _
  · exact h.lapses_adds sync () _ fun _ _ _ rests => rests.dropStage_lapses request stage
  · exact h.lapses_adds sync () _ fun _ _ _ rests => rests.dropGuard_lapses request
  · exact Nat.le_refl _
  · exact adds_of_hired (Nat.add_le_add_left (Tokens.cost_unregister ..) _) rfl

theorem pollItem?_onWake {item : Item P} {waker : Waker} {v : Visit P (Item P × Answer P)}
    (hv : w.pollItem? waker item = some v) : v.world.onWake = w.onWake := by
  unfold pollItem? at hv
  split at hv
  · cases Option.some.inj hv
    rfl
  · cases Option.some.inj hv
    exact w.visit_onWake ..
  · cases Option.some.inj hv
    rfl
  · cases Option.some.inj hv
    exact w.visit_onWake ..
  · cases Option.some.inj hv
    exact w.visit_onWake ..
  · cases hv
  · cases hv

/-- A poll hires nobody: a locking future that acquires has neither a deadline nor a token. -/
theorem Plays.pollItem_adds (h : w.Plays items) {item : Item P} {waker : Waker}
    {v : Visit P (Item P × Answer P)} (hv : w.pollItem? waker item = some v) :
    w.Adds v.world 0 := by
  refine adds_of_hired (Nat.le_trans (h.pollItem_steps hv).hired (Nat.le_of_eq ?_))
    (pollItem?_onWake hv)
  rcases item with _ | ⟨sync, request, _ | stage⟩ | _ | _ | _ <;> rfl

theorem adds_lookup {α : Type} {names : Names α} {name : String} {f : α → Turn P} {n : Nat}
    (found : ∀ x, w.Adds (f x).world n) : w.Adds (w.lookup names name f).world n := by
  unfold World.lookup
  split
  · exact Nat.le_add_right _ _
  · exact found _

theorem Plays.poll_adds (h : w.Plays items) (slot : String) (waker : Waker) :
    w.Adds (w.poll slot waker).world 0 := by
  refine adds_lookup fun item => ?_
  split
  · exact Nat.le_refl _
  · rename_i v hv
    have erased : ({ w with slots := w.slots.erase slot } : World P).Plays items :=
      h.mono rfl fun _ => .refl _
    exact erased.pollItem_adds hv

theorem tasks_erase (w : World P) (name : String) :
    tasks { w with onWake := w.onWake.erase name } + (w.onWake.find? name).elim 0 Step.cost ≤
      w.tasks := by
  obtain ⟨es, perm, sub⟩ := w.onWake.find?_erase_subperm name
  have all := (perm.map Step.cost).sum_nat
  have fewer := (sub.map Step.cost).sum_le_sum fun _ _ => Nat.zero_le _
  have taken : ((w.onWake.find? name).toList.map Step.cost).sum =
      (w.onWake.find? name).elim 0 Step.cost := by
    rcases w.onWake.find? name with _ | steps
    · rfl
    · exact Nat.add_zero _
  rw [List.map_append, List.sum_append, taken] at all
  show (((w.onWake.erase name).entries.map Prod.snd).map Step.cost).sum + _ ≤ _
  rw [Nat.add_comm, ← all]
  exact fewer

theorem tasks_insert (w : World P) (name : String) (steps : List (Step P)) :
    tasks { w with onWake := w.onWake.insert name steps } ≤ w.tasks + Step.cost steps := by
  have fewer := w.tasks_erase name
  show (((w.onWake.erase name).entries ++ [(name, steps)]).map Prod.snd |>.map Step.cost).sum ≤ _
  rw [List.map_append, List.map_append, List.sum_append]
  exact Nat.add_le_add_right (Nat.le_trans (Nat.le_add_right _ _) fewer) _

theorem setOnWake_adds (w : World P) (waker : String) (steps : Option (List (Step P))) :
    w.Adds (w.setOnWake waker steps) (steps.elim 0 Step.cost) := by
  rcases steps with _ | steps
  · exact Nat.le_refl _
  · exact Nat.le_trans (Nat.add_le_add_left (w.tasks_insert waker steps) _)
      (Nat.le_of_eq (Nat.add_assoc ..).symm)

theorem fire_debt (w : World P) (t : Nat) :
    debt { w with tokens := (w.tokens.fire t).1 } + 2 * (w.tokens.fire t).2.length ≤ w.debt := by
  have fired := w.tokens.cost_fire t
  show w.timers.cost + (w.tokens.fire t).1.cost + w.tasks + 2 * (w.tokens.fire t).2.length ≤
    w.timers.cost + w.tokens.cost + w.tasks
  omega

/-- Whoever goes by the clock pays for the wakes of those whose time has come. -/
theorem takeDue_debt (w : World P) :
    debt { w with timers := w.timers.takeDue.1 } + 6 * w.timers.takeDue.2.length = w.debt := by
  have taken := w.timers.cost_takeDue
  show w.timers.takeDue.1.cost + w.tokens.cost + w.tasks + 6 * w.timers.takeDue.2.length =
    w.timers.cost + w.tokens.cost + w.tasks
  omega

theorem takeChildren_debt (w : World P) (t : Nat) :
    debt { w with tokens := (w.tokens.takeChildren t).1 } + 4 * (w.tokens.takeChildren t).2.length ≤
      w.debt := by
  have taken := w.tokens.cost_takeChildren t
  show w.timers.cost + (w.tokens.takeChildren t).1.cost + w.tasks +
    4 * (w.tokens.takeChildren t).2.length ≤ w.timers.cost + w.tokens.cost + w.tasks
  omega

theorem elapse?_debt {v : Visit P Unit} (hv : w.elapse? = some v) :
    v.world.debt + 6 * v.wakes.length = w.debt ∧ 0 < v.wakes.length := by
  obtain ⟨t, ht, rfl⟩ := Option.map_eq_some_iff.mp hv
  let late : World P := { w with timers := { w.timers with now := w.timers.now.advanceTo t } }
  have paid : _ = w.debt := late.takeDue_debt
  rw [← List.length_map (f := Prod.snd)] at paid
  refine ⟨paid, ?_⟩
  obtain ⟨e, he, rfl⟩ := Option.map_eq_some_iff.mp ht
  obtain ⟨es, hes⟩ := List.head?_eq_some_iff.mp he
  show 0 < ((w.timers.pending.takeWhile (Timers.isDue (w.timers.now.advanceTo e.1.deadline))).map
    Prod.snd).length
  have due : Timers.isDue (w.timers.now.advanceTo e.1.deadline) e = true :=
    decide_eq_true (Time.le_advanceTo_right _ _)
  -- The clock has come to the deadline of the first one at least.
  rw [hes, List.takeWhile_cons_of_pos due]
  exact Nat.succ_pos _

theorem forgetToken_adds (w : World P) (name : String) : w.Adds (w.forgetToken name) 0 := by
  unfold forgetToken
  split
  · exact Nat.le_refl _
  · exact adds_of_hired (Nat.add_le_add_left (Tokens.cost_release ..) _) rfl

theorem nameToken_adds {tokens : Tokens} {n : Nat} (more : tokens.cost ≤ w.tokens.cost + n)
    (t : Nat) (name : String) : w.Adds (w.nameToken tokens t name) n := by
  have forgot : World.debt (forgetToken { w with tokens } name) ≤ _ :=
    forgetToken_adds { w with tokens } name
  refine Nat.le_trans forgot ?_
  show w.timers.cost + tokens.cost + w.tasks ≤ w.timers.cost + w.tokens.cost + w.tasks + n
  omega

theorem setClock_adds (w : World P) (t : Time) : w.Adds (w.setClock t) 0 := by
  unfold setClock
  split <;> exact Nat.le_refl _

theorem Plays.startAcquisition_adds (h : w.Plays items) (o : Object) (name : String)
    (a : Acquiring P) (timeout : Timeout) (token : Option Nat) :
    w.Adds (w.startAcquisition o name a timeout token).world 8 := by
  unfold World.startAcquisition
  dsimp only
  split
  · exact Nat.le_add_right _ _
  · have asked : w.Adds _ (Asking.cost ⟨timeout, token⟩) :=
      h.visit_adds o.sync .done _ fun _ _ _ rests =>
        rests.acquire_works a.request timeout token a.steal
    exact asked.mono (Asking.cost_le _)

theorem Plays.acquire_adds (h : w.Plays items) (o : Object) (name : String) (a : Acquiring P) :
    w.Adds (w.acquire o name a).world 8 := by
  have begins (token : Option Nat) (timeout : Timeout) :
      w.Adds (World.startAcquisition
        { w with tokens := token.elim w.tokens w.tokens.retain } o name a timeout token).world 8 := by
    have kept : ({ w with tokens := token.elim w.tokens w.tokens.retain } : World P).debt ≤ w.debt := by
      rcases token with _ | t
      · exact Nat.le_refl _
      · exact adds_of_hired (n := 0) (Nat.add_le_add_left (Tokens.cost_retain ..) _) rfl
    have plays : Plays { w with tokens := token.elim w.tokens w.tokens.retain } items :=
      h.mono rfl fun _ => .refl _
    exact Nat.le_trans (plays.startAcquisition_adds o name a timeout token)
      (Nat.add_le_add_right kept 8)
  unfold World.acquire
  dsimp only
  rcases a.token with _ | t
  · dsimp only
    split
    · exact Nat.le_add_right _ _
    · exact begins none _
  · refine adds_lookup fun u => ?_
    split
    · exact Nat.le_add_right _ _
    · exact begins (some u) _

theorem child_adds (w : World P) (parent : Nat) (name : String) :
    w.Adds (w.child parent name).world 8 := by
  have created := w.tokens.cost_create
  unfold World.child
  dsimp only
  split
  · have fired := w.tokens.create.1.cost_fire w.tokens.create.2
    exact nameToken_adds (by omega) _ name
  · have linked := w.tokens.create.1.cost_link parent w.tokens.create.2
    exact nameToken_adds (by omega) _ name

theorem register_adds (w : World P) (t : Nat) (name waker : String) :
    w.Adds (w.register t name waker).world 8 := by
  unfold World.register
  split
  · exact Nat.le_add_right _ _
  · rename_i tokens r registered
    refine adds_of_hired ?_ rfl
    have more := Tokens.cost_register? registered
    show w.timers.cost + tokens.cost ≤ w.timers.cost + w.tokens.cost + 8
    omega

theorem createTimer_adds (w : World P) (name : String) (moment : Moment) (waker : String) :
    w.Adds (w.createTimer name moment waker).world 8 := by
  unfold World.createTimer
  cases moment <;>
  · refine adds_of_hired ?_ rfl
    show (w.timers.register _ _).1.cost + w.tokens.cost ≤ w.timers.cost + w.tokens.cost + 8
    rw [Timers.cost_register]
    omega

/-- What a step pays for covers what it adds to the world, and the rest of the step. -/
theorem Plays.start_debt (h : w.Plays (w.items ++ rest)) (s : Step P) :
    (w.start s).world.debt + 2 * (w.signals s).length + 11 ≤ w.debt + 20 * s.size := by
  have plain {t : Turn P} (adds : w.Adds t.world 8) :
      t.world.debt + 2 * ([] : List Waker).length + 11 ≤ w.debt + 20 * 1 := by
    rw [Adds] at adds
    rw [List.length_nil]
    omega
  have still {t : Turn P} (adds : w.Adds t.world 0) :
      t.world.debt + 2 * ([] : List Waker).length + 11 ≤ w.debt + 20 * 1 :=
    plain (adds.mono (Nat.zero_le 8))
  have told {s : Step P} {t : Turn P} (onWake : Option (List (Step P)))
      (size : s.size = onWake.elim 1 (Step.sizes · + 1))
      (adds : w.Adds t.world (onWake.elim 0 Step.cost + 8)) :
      t.world.debt + 2 * ([] : List Waker).length + 11 ≤ w.debt + 20 * s.size := by
    rw [Adds] at adds
    rw [size, List.length_nil]
    rcases onWake with _ | steps
    · rw [Option.elim_none] at adds ⊢
      omega
    · rw [Option.elim_some, Step.cost] at adds
      rw [Option.elim_some]
      omega
  have signalled {t : Turn P} {wakers : List Waker}
      (fewer : t.world.debt + 2 * wakers.length ≤ w.debt) :
      t.world.debt + 2 * wakers.length + 11 ≤ w.debt + 20 * 1 := by
    omega
  cases s with
  | create name raw holding settings =>
    refine still ?_
    show w.Adds (w.create name raw holding settings).world 0
    unfold World.create
    split
    · exact Nat.le_refl _
    · split <;> exact Nat.le_refl _
  | tryAcquire object request =>
    refine plain (adds_lookup fun o => ?_)
    unfold World.tryAcquire
    split
    · exact Nat.le_add_right _ _
    · have asked : w.Adds _ (Asking.cost ⟨.zero, none⟩) :=
        h.visit_adds o.sync .done _ fun _ _ _ rests =>
          rests.acquire_works request .zero none none
      exact asked.mono (Asking.cost_le _)
  | acquire object name a => exact plain (adds_lookup fun o => h.acquire_adds o name a)
  | release object request =>
    refine still (adds_lookup fun o => ?_)
    unfold World.release
    split
    · exact Nat.le_refl _
    · exact h.lapses_adds _ _ _ fun _ _ _ rests => rests.releaseBy_lapses _
  | dispose object name =>
    exact still (adds_lookup fun o => h.lapses_adds _ _ _ fun _ _ _ rests => rests.dispose_lapses)
  | poll slot waker onWake =>
    refine told onWake (by cases onWake <;> rfl) ((w.setOnWake_adds waker onWake).trans ?_)
    exact ((h.setOnWake waker onWake).poll_adds slot _).mono (Nat.zero_le 8)
  | drop slot =>
    refine still (adds_lookup fun item => ?_)
    have taken : Plays { w with slots := w.slots.erase slot } (w.items ++ rest) :=
      h.mono rfl fun _ => .refl _
    exact taken.discard_adds item
  | createToken name => exact still (nameToken_adds (Nat.le_of_eq w.tokens.cost_create) _ name)
  | child token name => exact plain (adds_lookup fun t => w.child_adds t name)
  | cloneToken token name =>
    exact still (adds_lookup fun t => nameToken_adds (w.tokens.cost_retain t) t name)
  | dropToken token => exact still (adds_lookup fun t => w.forgetToken_adds token)
  | cancel token =>
    refine signalled ?_
    rw [World.start, signals]
    rcases found : w.tokenNames.find? token with _ | t
    · rw [World.lookup, found]
      exact Nat.le_refl _
    · rw [lookup_eq found, Option.elim_some, World.cancel]
      split
      · exact Nat.le_refl _
      · exact w.fire_debt t
  | register token name waker onWake =>
    refine told onWake (by cases onWake <;> rfl) (adds_lookup fun t => ?_)
    exact (w.setOnWake_adds waker onWake).trans (register_adds _ t name waker)
  | createTimer name moment waker onWake =>
    exact told onWake (by cases onWake <;> rfl)
      ((w.setOnWake_adds waker onWake).trans (createTimer_adds _ name moment waker))
  | process =>
    refine signalled ?_
    have taken := w.takeDue_debt
    show World.debt { w with timers := w.timers.takeDue.1 } +
      2 * (w.timers.takeDue.2.map Prod.snd).length ≤ w.debt
    rw [List.length_map]
    omega
  | advance | advanceTo | setClock => exact still (w.setClock_adds _)
  | cancelTimer timer =>
    refine still (adds_lookup fun k => adds_of_hired ?_ rfl)
    exact Nat.add_le_add_right (w.timers.cost_cancel k) _
  | clearTimers =>
    refine still (adds_of_hired ?_ rfl)
    exact Nat.add_le_add_right (Nat.zero_le _) _
  | sameTimer a b => exact still (adds_lookup fun _ => adds_lookup fun _ => Nat.le_refl _)
  | clone | dropObject | lock | holding | describe | isWaiting | guarded | isRegistrationCancelled
  | describeSlot | describeToken => exact still (adds_lookup fun _ => Nat.le_refl _)
  | now | describeClock | nextDeadline | timers | describeTimers | wait | waitWaker =>
    exact still (Nat.le_refl _)

end World

/-! ## What a step of a machine costs -/

/-- What it costs to do what the frame says. -/
def Frame.cost : Frame P → Nat
  | .wake _ ws => 2 * ws.length + 1
  | .children _ | .put .. => 2
  | .cancel ts => 4 * ts.length + 1
  | .run steps => Step.cost steps
  | .letGo _ | .finish .. => 1
  | .await .. | .awaitWaker .. => 10

namespace Machine

/-- What the rest of a run costs, apart from the wakers that synchronizers keep. -/
def debt (m : Machine P) : Nat :=
  (m.agenda.map Frame.cost).sum + 20 * Step.sizes m.script + m.world.debt

/-- No more steps than this are left. -/
def cost (m : Machine P) : Nat := m.debt + 2 * m.world.wakerCount

variable {m : Machine P} {items rest : List (Item P)}

theorem debt_push (frames : List (Frame P)) :
    (m.push frames).debt = (frames.map Frame.cost).sum + m.debt := by
  show ((frames ++ m.agenda).map Frame.cost).sum + 20 * Step.sizes m.script + m.world.debt = _
  rw [List.map_append, List.sum_append, debt]
  omega

theorem debt_moved (m : Machine P) (w : World P) :
    ({ m with world := w } : Machine P).debt + m.world.debt = m.debt + w.debt := by
  simp only [debt]
  omega

theorem debt_follow {α : Type} (m : Machine P) (v : Visit P α) (aside : Bool) :
    (m.follow v aside).debt + m.world.debt =
      m.debt + v.world.debt + 2 * v.wakes.length + 1 := by
  have moved := m.debt_moved v.world
  show (push ({ m with world := v.world }) [.wake aside v.wakes]).debt + _ = _
  rw [debt_push, List.map_singleton, List.sum_singleton, Frame.cost]
  omega

theorem debt_take (m : Machine P) (top : Bool) (t : Turn P) :
    (m.take top t).debt + m.world.debt ≤ m.debt + t.world.debt + 2 * t.wakes.length + 7 := by
  have moved := m.debt_moved t.world
  let after : List (Frame P) :=
    t.firing.toList.map .children ++ t.put.toList.map (fun p => .put p.1 p.2)
      ++ t.held.toList.map .letGo ++ [.finish top t.answer]
  have few : (after.map Frame.cost).sum ≤ 6 := by
    simp only [after]
    rcases t.firing with _ | t' <;> rcases t.put with _ | p <;> rcases t.held with _ | h <;>
      exact of_decide_eq_true rfl
  show (push ({ m with world := t.world }) (.wake false t.wakes :: after)).debt + _ ≤ _
  rw [debt_push, List.map_cons, List.sum_cons, Frame.cost]
  omega

theorem debt_deliver (top : Bool) (answer : Answer P) : (m.deliver top answer).debt = m.debt := by
  cases top <;> rfl

theorem debt_begin (h : m.world.Plays (m.world.items ++ rest)) (top : Bool) (s : Step P) :
    (m.begin top s).debt + 2 * (m.world.signals s).length + 4 ≤
      m.debt + 20 * s.size + 2 * (m.world.start s).wakes.length := by
  have blocks (f : Frame P) (cost : f.cost = 10) :
      (m.push [f]).debt + 2 * ([] : List Waker).length + 4 ≤
        m.debt + 20 * 1 + 2 * ([] : List Waker).length := by
    rw [debt_push, List.map_singleton, List.sum_singleton, cost]
    omega
  have started := h.start_debt s
  have taken := m.debt_take top (m.world.start s)
  cases s with
  | wait slot => exact blocks (.await top slot) rfl
  | waitWaker waker => exact blocks (.awaitWaker top waker) rfl
  | _ =>
    show (m.take top _).debt + _ + 4 ≤ _
    omega

theorem debt_wake (h : m.world.Plays items) (aside : Bool) (w : Waker) (ws : List Waker) :
    (m.wake aside w).debt ≤ m.debt + 2 * (m.gathersFor (.wake aside (w :: ws))).length + 1 := by
  rcases w with name | _ | ⟨i, j⟩
  · have erased := m.world.tasks_erase name
    unfold wake
    dsimp only
    split
    · exact Nat.le_add_right_of_le (Nat.le_add_right _ _)
    · rename_i steps found
      rw [found, Option.elim_some] at erased
      refine Nat.le_add_right_of_le (Nat.le_add_right_of_le ?_)
      rw [debt_push, List.map_singleton, List.sum_singleton, Frame.cost]
      simp only [debt, World.debt]
      show Step.cost steps + (_ + _ + (m.world.hired + _)) ≤ _
      omega
  · exact Nat.le_add_right_of_le (Nat.le_add_right _ _)
  · have adds : (m.world.touch i fun s => s.trigger j).world.debt ≤ m.world.debt + 0 :=
      h.lapses_adds i () _ fun s _ _ _ => s.trigger_lapses j
    have followed := m.debt_follow (m.world.touch i fun s => s.trigger j) aside
    show (m.follow (m.world.touch i fun s => s.trigger j) aside).debt ≤
      m.debt + 2 * (m.world.touch i fun s => s.trigger j).wakes.length + 1
    omega

theorem debt_cancelChild (m : Machine P) (t : Nat) : (m.cancelChild t).debt ≤ m.debt + 3 := by
  unfold cancelChild
  dsimp only
  split
  · let w : World P := { m.world with tokens := (m.world.tokens.fire t).1 }
    have fired : w.debt + 2 * (m.world.tokens.fire t).2.length ≤ m.world.debt := m.world.fire_debt t
    have moved := m.debt_moved w
    rw [debt_push]
    show 2 * (m.world.tokens.fire t).2.length + 1 + (2 + 0) + debt { m with world := w } ≤ _
    omega
  · exact Nat.le_add_right _ _

theorem debt_put (h : m.world.Plays (m.world.items ++ rest)) (slot : String) (item : Item P) :
    (m.put slot item).debt ≤ m.debt + 2 * (m.gathersFor (.put slot item)).length + 1 := by
  unfold Machine.put gathersFor
  dsimp only
  rcases m.world.slots.find? slot with _ | old
  · exact Nat.le_add_right_of_le (Nat.le_add_right _ _)
  · let w : World P := { m.world with slots := m.world.slots.insert slot item }
    have filled : w.Plays (m.world.items ++ rest) := h.mono rfl fun _ => .refl _
    have adds : (w.discard old).world.debt ≤ m.world.debt + 0 := filled.discard_adds old
    have followed := m.debt_follow (w.discard old) false
    show (m.follow (w.discard old) false).debt ≤ m.debt + 2 * (w.discard old).wakes.length + 1
    omega

theorem debt_elapse (m : Machine P) (top : Bool) (again : Frame P) (enough : 3 ≤ again.cost) :
    (m.elapse top again).debt + 3 ≤ m.debt + again.cost := by
  unfold elapse
  split
  · rw [debt_deliver]
    omega
  · rename_i v hv
    obtain ⟨paid, some⟩ := World.elapse?_debt hv
    have followed := (m.push [again]).debt_follow v true
    rw [debt_push, List.map_singleton, List.sum_singleton] at followed
    have same : (m.push [again]).world = m.world := rfl
    rw [same] at followed
    omega

theorem debt_await (h : m.world.Plays (m.world.items ++ rest)) (top : Bool) (slot : String) :
    (m.await top slot).debt + 2 * (m.signalsFor (.await top slot)).length + 3 ≤
      m.debt + 10 + 2 * (m.gathersFor (.await top slot)).length := by
  have polled : (m.world.poll slot .sleeper).world.debt ≤ m.world.debt + 0 :=
    h.poll_adds slot .sleeper
  simp only [await, signalsFor, gathersFor, List.length_append]
  generalize m.world.poll slot .sleeper = t at polled ⊢
  split
  · rename_i name item put pending
    let w : World P := { t.world with slots := t.world.slots.insert name item }
    have moved := m.debt_moved w
    have same : w.debt = t.world.debt := rfl
    -- It is to be polled again, and the timers that have fired pay for that.
    have elapsed := debt_elapse { m with world := w } top (.await top slot)
      (show 3 ≤ 10 by decide)
    rw [put, pending]
    show (elapse { m with world := w } top (.await top slot)).debt + _ + 3 ≤ _
    rw [Frame.cost] at elapsed
    dsimp only
    omega
  · have taken := m.debt_take top t
    rename_i settled
    split
    · rename_i p put pending
      exact (settled p.1 p.2 put pending).elim
    · rw [List.length_nil]
      omega

/-- Whatever is next on the agenda, doing it pays for all that it plans. -/
theorem debt_perform (h : m.world.Plays (m.world.items ++ rest)) (f : Frame P) :
    (m.perform f).debt + 2 * (m.signalsFor f).length + 2 * f.leaves <
      m.debt + f.cost + 2 * (m.gathersFor f).length := by
  cases f with
  | wake aside ws =>
    rcases ws with _ | ⟨w, ws⟩
    · exact Nat.lt_succ_self _
    · have woken := debt_wake (m := m.push [.wake aside ws]) h aside w ws
      have same : (m.push [.wake aside ws]).gathersFor (.wake aside (w :: ws)) =
        m.gathersFor (.wake aside (w :: ws)) := by
        rcases w with _ | _ | _ <;> rfl
      rw [debt_push, List.map_singleton, List.sum_singleton, same] at woken
      simp only [Frame.cost, List.length_cons] at woken ⊢
      show ((m.push [.wake aside ws]).wake aside w).debt + 2 * 0 + 2 * 0 < _
      omega
  | children t =>
    let w : World P := { m.world with tokens := (m.world.tokens.takeChildren t).1 }
    have paid : w.debt + 4 * (m.world.tokens.takeChildren t).2.length ≤ m.world.debt :=
      m.world.takeChildren_debt t
    have moved := m.debt_moved w
    show (push { m with world := w } [.cancel (m.world.tokens.takeChildren t).2]).debt + 2 * 0 + 2 * 0
      < m.debt + 2 + 2 * 0
    rw [debt_push, List.map_singleton, List.sum_singleton, Frame.cost]
    omega
  | cancel ts =>
    rcases ts with _ | ⟨t, ts⟩
    · exact Nat.lt_succ_self _
    · have cancelled := debt_cancelChild (m.push [.cancel ts]) t
      rw [debt_push, List.map_singleton, List.sum_singleton] at cancelled
      simp only [Frame.cost, List.length_cons] at cancelled ⊢
      show ((m.push [.cancel ts]).cancelChild t).debt + 2 * (m.gathersFor (.cancel (t :: ts))).length +
        2 * 0 < _
      omega
  | run steps =>
    rcases steps with _ | ⟨s, ss⟩
    · exact Nat.lt_succ_self _
    · have begun := debt_begin (m := m.push [.run ss]) h false s
      rw [debt_push, List.map_singleton, List.sum_singleton] at begun
      have started : (m.push [.run ss]).world = m.world := rfl
      rw [Frame.cost, Step.cost, started] at begun
      show ((m.push [.run ss]).begin false s).debt + 2 * (m.world.signals s).length + 2 * 1 <
        m.debt + (20 * (s.size + Step.sizes ss) + 1) + 2 * (m.world.start s).wakes.length
      omega
  | put slot item =>
    have filled := debt_put h slot item
    show (m.put slot item).debt + 2 * 0 + 2 * 0 < m.debt + 2 + _
    omega
  | letGo t =>
    let w : World P := { m.world with tokens := m.world.tokens.release t }
    have paid : w.debt ≤ m.world.debt + 0 :=
      World.adds_of_hired (Nat.add_le_add_left (Tokens.cost_release ..) _) rfl
    have moved := m.debt_moved w
    show debt { m with world := w } + 2 * 0 + 2 * 0 < m.debt + 1 + 2 * 0
    omega
  | finish top answer =>
    show (m.deliver top answer).debt + 2 * 0 + 2 * 0 < m.debt + 1 + 2 * 0
    rw [debt_deliver]
    omega
  | await top slot =>
    have awaited := debt_await h top slot
    show (m.await top slot).debt + _ + 2 * 1 < m.debt + 10 + _
    omega
  | awaitWaker top waker =>
    have elapsed := m.debt_elapse top (.awaitWaker top waker) (show 3 ≤ 10 by decide)
    rw [perform, gathersFor, signalsFor]
    split
    · rw [debt_deliver]
      exact Nat.lt_add_of_pos_right (Nat.succ_pos 9)
    · rw [Frame.cost] at elapsed ⊢
      show _ + 2 * 0 < _
      omega

/-- Each step of a machine makes the rest of the run cheaper. -/
theorem Plays.cost_step (h : m.Plays) (unfinished : m.isDone = false) : m.step.cost < m.cost := by
  have kept := h.step_wakerCount
  have paid : m.step.debt + 2 * m.signals.length + 2 * m.leaves < m.debt + 2 * m.gathers.length := by
    have plays : m.world.Plays (m.world.items ++ m.agenda.filterMap Frame.item?) := h
    obtain ⟨world, agenda, script, woken, wakes, nested, events, reports⟩ := m
    let left (agenda : List (Frame P)) (script : List (Step P)) : Machine P :=
      ⟨world, agenda, script, woken, wakes, nested, events, reports⟩
    rcases agenda with _ | ⟨f, agenda⟩
    · rcases script with _ | ⟨s, script⟩
      · cases unfinished
      · have begun : ((left [] script).begin true s).debt + 2 * (world.signals s).length + 4 ≤
            0 + 20 * Step.sizes script + world.debt + 20 * s.size + 2 * (world.start s).wakes.length :=
          debt_begin (m := left [] script) plays true s
        show ((left [] script).begin true s).debt + 2 * (world.signals s).length + 2 * 1 <
          0 + 20 * (s.size + Step.sizes script) + world.debt + 2 * (world.start s).wakes.length
        omega
    · have performed := debt_perform (m := left agenda script) plays f
      have whole : debt ⟨world, f :: agenda, script, woken, wakes, nested, events, reports⟩ =
          (left agenda script).debt + f.cost := by
        simp only [debt, left, List.map_cons, List.sum_cons]
        omega
      rw [whole]
      exact performed
  rw [cost, cost]
  omega

theorem Fresh.cost_iterate (h : m.Fresh) (n : Nat) :
    (step^[n] m).isDone = true ∨ (step^[n] m).cost + n ≤ m.cost := by
  induction n with
  | zero => exact .inr (Nat.le_refl _)
  | succ n ih =>
    rw [Function.iterate_succ_apply']
    by_cases done : (step^[n] m).isDone = true
    · rw [step_of_isDone done]
      exact .inl done
    · have cheaper := (h.plays n).cost_step (Bool.eq_false_iff.mpr done)
      have bounded := ih.resolve_left done
      exact .inr (by omega)

/-- A run is done before it is cut off. -/
theorem Fresh.done_in_time (h : m.Fresh) : (step^[allowance m.script] m).isDone = true := by
  have enough : m.cost < allowance m.script := by
    obtain ⟨now, ownClock, running, script, rfl⟩ := h
    show 0 + 20 * Step.sizes script + 0 + 2 * 0 < 64 * (Step.sizes script + 1)
    omega
  refine (h.cost_iterate (allowance m.script)).resolve_right fun bounded => ?_
  omega

theorem due_of_isDone (done : m.isDone = true) : m.due = [] := by
  obtain ⟨agenda, -⟩ := (Bool.and_eq_true _ _).mp done
  rw [due, List.isEmpty_iff.mp agenda, List.flatMap_nil]

/-- Of all that was gathered since the beginning, each waker has been woken or is still to be woken. -/
theorem Fresh.gathered_perm (h : m.Fresh) (n : Nat) :
    (m.gathered n).Perm (m.roused n ++ (step^[n] m).due) := by
  have nothing : m.due = [] := by
    obtain ⟨now, ownClock, running, script, rfl⟩ := h
    rfl
  have all := m.gathered_or_due n
  rwa [nothing, List.nil_append] at all

/-- A script is run to its end. -/
theorem run_isDone (now : Time) (ownClock : Option Time) (running : Bool) (script : List (Step P)) :
    (run (.blank now ownClock running) script).isDone = true := by
  rw [run, runAtMost_eq]
  exact Fresh.done_in_time ⟨now, ownClock, running, script, rfl⟩

end Machine

end Turnstile
