import Mathlib.Algebra.GroupWithZero.Nat
import Mathlib.Data.Finset.Card
import Mathlib.Data.Finset.Range
import Mathlib.Data.Nat.Find
import Mathlib.Data.Prod.Lex
import Mathlib.Order.WellFounded
import Turnstile.Proofs.Forest
import Turnstile.Proofs.Thinning

/-!
# What is left of a cancellation

A cancellation goes on by itself as long as the wakers that it runs begin no step. It comes to an end:
each of its steps cancels one more token, or else opens the children of one, or else wakes one more
waiter, or else does something that only makes the agenda shorter.
-/

namespace Turnstile

variable {P : Policy}

/-! ## One step -/

namespace Frame

/-- A wake, or what a waker does when it is woken. -/
def rouses : Frame P → Bool
  | .wake .. | .run _ => true
  | _ => false

/-- What is left to be done of a cancellation. -/
def cancels : Frame P → Bool
  | .wake .. | .run _ | .children _ | .cancel _ | .finish .. => true
  | _ => false

theorem cancels_of_rouses {f : Frame P} (h : f.rouses = true) : f.cancels = true := by
  cases f with
  | wake | run => rfl
  | _ => cases h

end Frame

namespace Machine

variable {m m' : Machine P} {f : Frame P} {rest : List (Frame P)} {w₀ : World P} {t : Nat}

theorem targets_step (m : Machine P) : ∃ later,
    targets m.due = targets m.waking?.toList ++ later ∧
      targets m.step.due = targets m.gathers ++ later := by
  obtain ⟨due, before, after⟩ := m.due_step
  refine ⟨targets due, ?_, ?_⟩
  · rw [before, targets, List.filterMap_append]
    rfl
  · rw [after, targets, List.filterMap_append]
    rfl

theorem step_of_rouses (agenda : m.agenda = f :: rest) (rouses : f.rouses = true)
    (idle : m.next? = none) :
    (∃ F, m.step.agenda = F ++ rest ∧ ∀ g ∈ F, g.rouses = true) ∧
      (m.gathers = [] ∧ m.step.world.syncs = m.world.syncs ∨
        ∃ i j, m.waking? = some (.trigger i j) ∧
          m.gathers = (m.world.touch i fun s => s.trigger j).wakes ∧
          m.step.world = (m.world.touch i fun s => s.trigger j).world) := by
  obtain ⟨world, agenda', script, woken, wakes, nested, events, reports⟩ := m
  obtain rfl : agenda' = f :: rest := agenda
  cases f with
  | wake aside wakers =>
    rcases wakers with _ | ⟨w, ws⟩
    · exact ⟨⟨[], rfl, by simp⟩, .inl ⟨rfl, rfl⟩⟩
    cases w with
    | task name =>
      rcases found : world.onWake.find? name with _ | steps
      · refine ⟨⟨[.wake aside ws], ?_, by simp [Frame.rouses]⟩, .inl ⟨rfl, ?_⟩⟩ <;>
          simp [step, perform, wake, push, found]
      · refine ⟨⟨[.run steps, .wake aside ws], ?_, by simp [Frame.rouses]⟩, .inl ⟨rfl, ?_⟩⟩ <;>
          simp [step, perform, wake, push, found]
    | sleeper => exact ⟨⟨[.wake aside ws], rfl, by simp [Frame.rouses]⟩, .inl ⟨rfl, rfl⟩⟩
    | trigger i j =>
      exact ⟨⟨[.wake aside _, .wake aside ws], rfl, by simp [Frame.rouses]⟩,
        .inr ⟨i, j, rfl, rfl, rfl⟩⟩
  | run steps =>
    rcases steps with _ | ⟨s, ss⟩
    · exact ⟨⟨[], rfl, by simp⟩, .inl ⟨rfl, rfl⟩⟩
    · cases idle
  | _ => cases rouses

theorem step_of_cancels (agenda : ∀ g ∈ m.agenda, g.cancels = true) (tame : m.world.Tame)
    (idle : m.next? = none) :
    (∀ g ∈ m.step.agenda, g.cancels = true) ∧ m.world.Keeps m.step.world := by
  rcases planned : m.agenda with _ | ⟨f, rest⟩
  · have none : m.script = [] := by
      unfold next? at idle
      rw [planned] at idle
      exact List.head?_eq_none_iff.mp idle
    have still : m.step = m := by
      unfold step
      rw [planned, none]
    rw [still]
    exact ⟨agenda, .of_syncs rfl⟩
  have others : ∀ g ∈ rest, g.cancels = true := fun g hg =>
    agenda g (planned ▸ List.mem_cons_of_mem _ hg)
  by_cases rouses : f.rouses = true
  · obtain ⟨⟨F, plan, all⟩, world⟩ := step_of_rouses planned rouses idle
    constructor
    · intro g hg
      rw [plan] at hg
      exact (List.mem_append.mp hg).elim (fun hg => Frame.cancels_of_rouses (all g hg)) (others g)
    · rcases world with ⟨-, syncs⟩ | ⟨i, j, -, -, world⟩
      · exact .of_syncs syncs
      · rw [world]
        exact tame.keeps_trigger i j
  · -- What is left are the frames that go down the tree.
    have cancels := agenda f (planned ▸ List.mem_cons_self)
    obtain ⟨world, agenda', script, woken, wakes, nested, events, reports⟩ := m
    obtain rfl : agenda' = f :: rest := planned
    cases f with
    | wake | run => exact absurd rfl rouses
    | children c =>
      refine ⟨fun g hg => ?_, .of_syncs rfl⟩
      rcases List.mem_cons.mp hg with rfl | hg
      · rfl
      · exact others g hg
    | cancel tokens =>
      rcases tokens with _ | ⟨c, cs⟩
      · exact ⟨others, .of_syncs rfl⟩
      · unfold step perform cancelChild
        dsimp only
        split
        · refine ⟨fun g hg => ?_, .of_syncs rfl⟩
          rcases List.mem_append.mp hg with hg | hg
          · simp only [List.mem_cons, List.not_mem_nil, or_false] at hg
            rcases hg with rfl | rfl <;> rfl
          · rcases List.mem_cons.mp hg with rfl | hg
            · rfl
            · exact others g hg
        · refine ⟨fun g hg => ?_, .of_syncs rfl⟩
          rcases List.mem_cons.mp hg with rfl | hg
          · rfl
          · exact others g hg
    | finish top answer =>
      cases top
      · exact ⟨others, .of_syncs rfl⟩
      · exact ⟨others, .of_syncs rfl⟩
    | _ => cases cancels

end Machine

/-! ## Its end -/

/-- How many tokens have not been cancelled. -/
def Tokens.uncancelled (ts : Tokens) : Nat :=
  ((Finset.range ts.all.size).filter fun i => ts.isCancelled i = false).card

namespace Tokens

variable {ts ts' : Tokens} {i : Nat}

theorem uncancelled_congr (size : ts'.all.size = ts.all.size)
    (cancelled : ∀ j, ts'.isCancelled j = ts.isCancelled j) :
    ts'.uncancelled = ts.uncancelled := by
  unfold uncancelled
  simp only [size, cancelled]

theorem uncancelled_takeChildren (ts : Tokens) (i : Nat) :
    (ts.takeChildren i).1.uncancelled = ts.uncancelled :=
  uncancelled_congr (size_update ts i _) (isCancelled_takeChildren ts i)

theorem uncancelled_fire (alive : ts.isAlive i = true) (free : ts.isCancelled i = false) :
    (ts.fire i).1.uncancelled < ts.uncancelled := by
  refine Finset.card_lt_card (Finset.ssubset_iff_of_subset (fun j hj => ?_) |>.mpr ⟨i, ?_, ?_⟩)
  · obtain ⟨hj, spared⟩ := Finset.mem_filter.mp hj
    rw [isCancelled_fire alive, Bool.or_eq_false_iff] at spared
    rw [size_fire] at hj
    exact Finset.mem_filter.mpr ⟨hj, spared.1⟩
  · exact Finset.mem_filter.mpr ⟨Finset.mem_range.mpr (lt_size_of_isAlive alive), free⟩
  · rw [Finset.mem_filter, isCancelled_fire alive]
    simp

end Tokens

namespace Frame

/-- Whether the children of a token are still to be found. -/
def opens : Frame P → Bool
  | .children _ => true
  | _ => false

/-- How many waiters it wakes. -/
def aims (f : Frame P) : Nat := f.wakers.countP fun w => w.target?.isSome

/-- More than what is left of it when its first part has been done. -/
def length : Frame P → Nat
  | .wake _ ws => 2 * ws.length + 1
  | .cancel ts => ts.length + 1
  | _ => 1

/-- What counts of an agenda. What comes first counts for more than all that comes after. -/
def weight (fs : List (Frame P)) : Nat ×ₗ Nat ×ₗ Nat :=
  toLex (fs.countP opens, toLex ((fs.map aims).sum, (fs.map length).sum))

theorem weight_lt {fs gs : List (Frame P)} : weight fs < weight gs ↔
    fs.countP opens < gs.countP opens ∨ fs.countP opens = gs.countP opens ∧
      ((fs.map aims).sum < (gs.map aims).sum ∨ (fs.map aims).sum = (gs.map aims).sum ∧
        (fs.map length).sum < (gs.map length).sum) := by
  simp only [weight, Prod.Lex.toLex_lt_toLex]

theorem weight_lt_of_length {fs gs : List (Frame P)} (opens : fs.countP opens = gs.countP opens)
    (aims : (fs.map aims).sum = (gs.map aims).sum)
    (shorter : (fs.map length).sum < (gs.map length).sum) : weight fs < weight gs :=
  weight_lt.mpr (.inr ⟨opens, .inr ⟨aims, shorter⟩⟩)

theorem weight_append_lt {fs : List (Frame P)} {f : Frame P} (h : weight fs < weight [f])
    (rest : List (Frame P)) : weight (fs ++ rest) < weight (f :: rest) := by
  rw [weight_lt] at h ⊢
  simp only [List.countP_append, List.map_append, List.sum_append, List.countP_cons, List.countP_nil,
    List.map_cons, List.map_nil, List.sum_cons, List.sum_nil] at h ⊢
  omega

theorem aims_wake {aside : Bool} {ws : List Waker} (h : targets ws = []) :
    aims (.wake aside ws : Frame P) = 0 := by
  refine List.countP_eq_zero.mpr fun w hw => ?_
  rw [List.filterMap_eq_nil_iff.mp h w hw]
  simp

end Frame

namespace Machine

variable {m m' : Machine P} {f : Frame P} {rest : List (Frame P)}

/-- How much is left of a cancellation. A token that can still be cancelled counts for more than
anything that is planned already. -/
def remaining (m : Machine P) : Nat ×ₗ Nat ×ₗ Nat ×ₗ Nat :=
  toLex (m.world.tokens.uncancelled, Frame.weight m.agenda)

theorem remaining_lt_of_cancelled
    (fewer : m'.world.tokens.uncancelled < m.world.tokens.uncancelled) :
    m'.remaining < m.remaining :=
  Prod.Lex.toLex_lt_toLex.mpr (.inl fewer)

theorem remaining_lt_of_agenda (fs : List (Frame P)) (agenda : m.agenda = f :: rest)
    (after : m'.agenda = fs ++ rest)
    (same : m'.world.tokens.uncancelled = m.world.tokens.uncancelled)
    (lighter : Frame.weight fs < Frame.weight [f]) : m'.remaining < m.remaining := by
  refine Prod.Lex.toLex_lt_toLex.mpr (.inr ⟨same, ?_⟩)
  show Frame.weight m'.agenda < Frame.weight m.agenda
  rw [agenda, after]
  exact Frame.weight_append_lt lighter rest

theorem Plays.uncancelled_trigger (plays : m.Plays) (i j : Nat) :
    (m.world.touch i fun s => s.trigger j).world.tokens.uncancelled =
      m.world.tokens.uncancelled := by
  obtain ⟨k, works⟩ : m.world.Steps none (m.world.touch i fun s => s.trigger j).world :=
    World.Plays.visit_lapses plays _ _ _ fun s _ _ _ => s.trigger_lapses j
  have follows := (works.follows (by simp)).1
  exact Tokens.uncancelled_congr follows.size follows.cancelled

theorem remaining_step_of_wake {aside : Bool} {ws : List Waker}
    (agenda : m.agenda = .wake aside ws :: rest) (plays : m.Plays) (tame : m.world.Tame) :
    m.step.remaining < m.remaining := by
  obtain ⟨world, agenda', script, woken, wakes, nested, events, reports⟩ := m
  obtain rfl : agenda' = _ := agenda
  rcases ws with _ | ⟨w, ws⟩
  · exact remaining_lt_of_agenda [] rfl rfl rfl
      (Frame.weight_lt_of_length rfl rfl (by simp [Frame.length]))
  cases w with
  | task name =>
    rcases found : world.onWake.find? name with _ | steps
    · refine remaining_lt_of_agenda [.wake aside ws] rfl ?_ ?_
        (Frame.weight_lt_of_length rfl ?_ ?_) <;>
        simp [step, perform, wake, push, found, Frame.aims, Frame.length, Frame.wakers,
          Waker.target?]
    · refine remaining_lt_of_agenda [.run steps, .wake aside ws] rfl ?_ ?_
        (Frame.weight_lt_of_length rfl ?_ ?_) <;>
        simp [step, perform, wake, push, found, Frame.aims, Frame.length, Frame.wakers,
          Waker.target?]
      omega
  | sleeper =>
    refine remaining_lt_of_agenda [.wake aside ws] rfl rfl rfl
      (Frame.weight_lt_of_length rfl ?_ ?_) <;>
      simp [Frame.aims, Frame.length, Frame.wakers, Waker.target?]
  | trigger i j =>
    refine remaining_lt_of_agenda
      [.wake aside (world.touch i fun s => s.trigger j).wakes, .wake aside ws] rfl rfl
      (plays.uncancelled_trigger i j) (Frame.weight_lt.mpr (.inr ⟨rfl, .inl ?_⟩))
    rw [List.map_cons, List.sum_cons, Frame.aims_wake (tame.targets_trigger i j)]
    simp [Frame.aims, Frame.wakers, Waker.target?]

theorem remaining_step (agenda : m.agenda = f :: rest) (cancels : f.cancels = true)
    (plays : m.Plays) (tame : m.world.Tame) (idle : m.next? = none) :
    m.step.remaining < m.remaining := by
  obtain ⟨world, agenda', script, woken, wakes, nested, events, reports⟩ := m
  obtain rfl : agenda' = _ := agenda
  cases f with
  | wake aside ws => exact remaining_step_of_wake rfl plays tame
  | children t =>
    exact remaining_lt_of_agenda [.cancel _] rfl rfl
      (Tokens.uncancelled_takeChildren world.tokens t) (Frame.weight_lt.mpr (.inl Nat.zero_lt_one))
  | cancel ts =>
    rcases ts with _ | ⟨t, ts⟩
    · exact remaining_lt_of_agenda [] rfl rfl rfl
        (Frame.weight_lt_of_length rfl rfl Nat.zero_lt_one)
    · by_cases fires : world.tokens.isAlive t && !world.tokens.isCancelled t
      · obtain ⟨alive, free⟩ := Bool.and_eq_true_iff.mp fires
        have free : world.tokens.isCancelled t = false := by simpa using free
        have fired : (step ⟨world, .cancel (t :: ts) :: rest, script, woken, wakes, nested, events,
            reports⟩).world.tokens = (world.tokens.fire t).1 := by
          simp [step, perform, cancelChild, push, report, alive, free]
        refine remaining_lt_of_cancelled ?_
        rw [fired]
        exact Tokens.uncancelled_fire alive free
      · have spared : step ⟨world, .cancel (t :: ts) :: rest, script, woken, wakes, nested, events,
            reports⟩ = ⟨world, .cancel ts :: rest, script, woken, wakes, nested, events, reports⟩ :=
          if_neg fires
        rw [spared]
        exact remaining_lt_of_agenda [.cancel ts] rfl rfl rfl
          (Frame.weight_lt_of_length rfl rfl (by simp [Frame.length]))
  | run steps =>
    rcases steps with _ | ⟨s, ss⟩
    · exact remaining_lt_of_agenda [] rfl rfl rfl
        (Frame.weight_lt_of_length rfl rfl Nat.zero_lt_one)
    · cases idle
  | finish top answer =>
    cases top <;>
      exact remaining_lt_of_agenda [] rfl rfl rfl
        (Frame.weight_lt_of_length rfl rfl Nat.zero_lt_one)
  | _ => cases cancels

theorem Cancels.begins (h : m.Cancels t) :
    m.step.world = { m.world with tokens := (m.world.tokens.fire t).1 } ∧
      m.step.agenda =
        [.wake false (m.world.tokens.fire t).2, .children t, .finish true (.flag true)] := by
  obtain ⟨none, name, rest, script, named⟩ := cancelling?_eq_some h.call
  have cancels : m.world.cancel t =
      { world := { m.world with tokens := (m.world.tokens.fire t).1 }, answer := .flag true
        wakes := (m.world.tokens.fire t).2, firing := some t
        events := [.tokenFired (m.world.tokens.fire t).2.length] } :=
    if_neg (Bool.eq_false_iff.mp h.free)
  have begun : m.step = { m with script := rest }.take true (m.world.cancel t) := by
    unfold step
    rw [none, script]
    simp only [begin, World.start, World.lookup, named]
  rw [begun, cancels]
  simp [take, push, report, none]

/-- Nobody begins a step while what step `k` has begun is being done. -/
def Undisturbed (m₀ : Machine P) (k : Nat) : Prop :=
  ∀ j, k < j → (∀ i, k < i → i ≤ j → (step^[i] m₀).agenda ≠ []) → (step^[j] m₀).next? = none

/-- What step `k` has begun has been done after `n` steps in all, and not before. -/
structure Returns (m₀ : Machine P) (k n : Nat) : Prop where
  later : k < n
  done : (step^[n] m₀).agenda = []
  busy : ∀ j, k < j → j < n → (step^[j] m₀).agenda ≠ []

theorem Undisturbed.idle {m₀ : Machine P} {k n : Nat} (alone : m₀.Undisturbed k)
    (returns : m₀.Returns k n) (j : Nat) (after : k < j) (before : j < n) :
    (step^[j] m₀).next? = none :=
  alone j after fun i later le => returns.busy i later (Nat.lt_of_le_of_lt le before)

/-- Whatever holds when the call has begun, and is kept by each step of it, holds when it returns. -/
theorem Returns.induct {m₀ : Machine P} {k n : Nat} (returns : m₀.Returns k n)
    (alone : m₀.Undisturbed k) {I : Machine P → Prop} (begun : I (step^[k + 1] m₀))
    (keeps : ∀ l, k < l → (step^[l] m₀).agenda ≠ [] → (step^[l] m₀).next? = none →
      I (step^[l] m₀) → I (step^[l] m₀).step) : I (step^[n] m₀) := by
  suffices all : ∀ l, k + 1 ≤ l → l ≤ n → I (step^[l] m₀) from all n returns.later (Nat.le_refl n)
  intro l later
  induction l, later using Nat.le_induction with
  | base => exact fun _ => begun
  | succ l later ih =>
    intro le
    rw [Function.iterate_succ_apply']
    exact keeps l later (returns.busy l later le) (alone.idle returns l later le)
      (ih (Nat.le_of_lt le))

theorem Returns.unique {m₀ : Machine P} {k n n' : Nat} (h : m₀.Returns k n) (h' : m₀.Returns k n') :
    n = n' := by
  by_contra differ
  rcases Nat.lt_or_gt_of_ne differ with before | before
  · exact h'.busy n h.later before h.done
  · exact h.busy n' h'.later before h'.done

theorem returns_of_isEmpty {m₀ : Machine P} {k n : Nat} (later : k < n)
    (done : (step^[n] m₀).agenda.isEmpty = true)
    (busy : ∀ j < n, k < j → (step^[j] m₀).agenda.isEmpty = false) : m₀.Returns k n := by
  refine ⟨later, List.isEmpty_iff.mp done, fun j later before none => ?_⟩
  exact absurd (List.isEmpty_iff.mpr none) (by simp [busy j before later])

theorem Returns.undisturbed {m₀ : Machine P} {k n : Nat} (returns : m₀.Returns k n)
    (idle : ∀ j < n, k < j → (step^[j] m₀).next?.isNone = true) : m₀.Undisturbed k := by
  intro j later busy
  by_cases before : j < n
  · exact Option.isNone_iff_eq_none.mp (idle j before later)
  · exact absurd returns.done (busy n returns.later (Nat.not_lt.mp before))

theorem Fresh.returns_of_cancels {m₀ : Machine P} (fresh : m₀.Fresh) {k : Nat}
    (begun : ∀ f ∈ (step^[k + 1] m₀).agenda, f.cancels = true) (alone : m₀.Undisturbed k) :
    ∃ n, m₀.Returns k n := by
  have ends : ∃ n, k < n ∧ (step^[n] m₀).agenda = [] := by
    by_contra never
    have busy (j : Nat) (later : k < j) : (step^[j] m₀).agenda ≠ [] :=
      fun done => never ⟨j, later, done⟩
    have idle (j : Nat) : (step^[k + 1 + j] m₀).next? = none :=
      alone _ (by omega) fun i later _ => busy i later
    have cancels (j : Nat) : ∀ f ∈ (step^[k + 1 + j] m₀).agenda, f.cancels = true := by
      induction j with
      | zero => exact begun
      | succ j ih =>
        rw [← Nat.add_assoc, Function.iterate_succ_apply']
        exact (step_of_cancels ih (fresh.tame _) (idle j)).1
    obtain ⟨j, stuck⟩ := WellFounded.not_rel_apply_succ (r := (· < ·)) fun j =>
      (step^[k + 1 + j] m₀).remaining
    obtain ⟨f, rest, planned⟩ := List.exists_cons_of_ne_nil (busy (k + 1 + j) (by omega))
    refine stuck ?_
    rw [← Nat.add_assoc, Function.iterate_succ_apply']
    exact remaining_step planned (cancels j f (planned ▸ List.mem_cons_self)) (fresh.plays _)
      (fresh.tame _) (idle j)
  exact ⟨Nat.find ends, (Nat.find_spec ends).1, (Nat.find_spec ends).2,
    fun j later before done => Nat.find_min ends before ⟨later, done⟩⟩

/-- A cancellation by the script in which nobody begins a step returns. -/
theorem Fresh.returns {m₀ : Machine P} (fresh : m₀.Fresh) {k t : Nat}
    (call : (step^[k] m₀).Cancels t) (alone : m₀.Undisturbed k) : ∃ n, m₀.Returns k n := by
  refine fresh.returns_of_cancels ?_ alone
  rw [Function.iterate_succ_apply', call.begins.2]
  simp [Frame.cancels]

end Machine

end Turnstile
