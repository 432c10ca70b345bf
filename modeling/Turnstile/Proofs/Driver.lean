import Turnstile.Proofs.Registries

/-!
# Processing the timers

A call that processes the timers takes all that are due and wakes them one by one. Whoever is woken
may register, cancel and clear timers, move the clock and process the timers itself, all before the
next one is woken. A `Driver` is a set of timers with the calls that have not returned, and with a
log of what has happened to it.
-/

namespace Turnstile

/-- A registered timer: its key, and whom it wakes. -/
abbrev Timer := TimerKey × Waker

/-- A call that processes the timers and has not returned. -/
structure Round where
  number : Nat
  /-- It has taken these and has not woken them yet. -/
  left : List Timer
  /-- What it will answer. -/
  count : Nat

/-- What happens to timers. -/
inductive Note where
  | registered (e : Timer)
  | cancelled (k : TimerKey) (answer : Bool)
  | cleared (es : List Timer)
  | took (call : Nat) (es : List Timer)
  | woke (call : Nat) (e : Timer)
  | returned (call : Nat) (count : Nat)

/-- The first note is the oldest. -/
abbrev Log := List Note

/-- What anybody does with the timers, at any moment. -/
inductive Act where
  | register (deadline : Time) (waker : Waker)
  | cancel (k : TimerKey)
  | clear
  | clock (now : Time)
  | process
  /-- The innermost call wakes the next of those that it took, or returns if there is none. -/
  | proceed

structure Driver where
  timers : Timers := {}
  /-- The innermost first. -/
  rounds : List Round := []
  /-- How many calls there were. -/
  calls : Nat := 0
  log : Log := []

/-! ## What a log tells -/

namespace Log

def registered (l : Log) : List Timer :=
  l.flatMap fun
    | .registered e => [e]
    | _ => []

/-- Those that some call has taken, woken or not. -/
def taken (l : Log) : List Timer :=
  l.flatMap fun
    | .took _ es => es
    | _ => []

def fired (l : Log) : List Timer :=
  l.flatMap fun
    | .woke _ e => [e]
    | _ => []

/-- Those whose cancellation answered that they were pending. -/
def cancelled (l : Log) : List TimerKey :=
  l.flatMap fun
    | .cancelled k true => [k]
    | _ => []

/-- Those that were pending when everything was cleared. -/
def cleared (l : Log) : List TimerKey :=
  l.flatMap fun
    | .cleared es => es.map Prod.fst
    | _ => []

/-- Whom call `n` has woken, in order. -/
def wokenBy (l : Log) (n : Nat) : List Timer :=
  l.flatMap fun
    | .woke call e => if call = n then [e] else []
    | _ => []

/-- What call `n` has answered. -/
def answers (l : Log) (n : Nat) : List Nat :=
  l.flatMap fun
    | .returned call count => if call = n then [count] else []
    | _ => []

end Log

namespace Driver

def note (d : Driver) (n : Note) : Driver := { d with log := d.log ++ [n] }

def proceed (d : Driver) : Driver :=
  match d.rounds with
  | [] => d
  | ⟨number, [], count⟩ :: rest => { d with rounds := rest }.note (.returned number count)
  | ⟨number, e :: es, count⟩ :: rest =>
    { d with rounds := ⟨number, es, count⟩ :: rest }.note (.woke number e)

def act (d : Driver) : Act → Driver
  | .register deadline w =>
    let (timers, k) := d.timers.register deadline w
    { d with timers }.note (.registered (k, w))
  | .cancel k =>
    { d with timers := d.timers.cancel k }.note (.cancelled k (d.timers.isPending k))
  | .clear => { d with timers := d.timers.clear }.note (.cleared d.timers.pending)
  | .clock now => { d with timers := { d.timers with now } }
  | .process =>
    let (timers, taken) := d.timers.takeDue
    { d with
      timers
      rounds := ⟨d.calls, taken, taken.length⟩ :: d.rounds
      calls := d.calls + 1 }.note (.took d.calls taken)
  | .proceed => d.proceed

def run (d : Driver) (xs : List Act) : Driver := xs.foldl act d

/-- The keys of these timers. -/
def keys (es : List Timer) : List TimerKey := es.map Prod.fst

/-- Those that some call has taken and still has to wake. -/
def owed (d : Driver) : List Timer := d.rounds.flatMap (·.left)

/-! ## Everybody is somewhere -/

/-- What is true between two acts. -/
structure Sound (d : Driver) : Prop where
  /-- Nobody gets a number twice. -/
  numbers : d.log.registered.map (·.1.number) = List.range d.timers.nextNumber
  ordered : d.timers.pending.Pairwise fun a b => a.1.precedes b.1 = true
  /-- Whoever was registered is pending, or was taken, cancelled or cleared. -/
  parts : (keys d.timers.pending ++ keys d.log.taken ++ d.log.cancelled ++ d.log.cleared).Perm
    (keys d.log.registered)
  whose : d.timers.pending ++ d.log.taken ⊆ d.log.registered
  /-- Whoever was taken was woken or will be. -/
  fired : (d.log.fired ++ d.owed).Perm d.log.taken

/-- Call `n`, which took `es`, has woken some of them, from the front, and has the rest left. -/
def Ongoing (d : Driver) (n : Nat) (es : List Timer) : Prop :=
  ∃ r ∈ d.rounds, r.number = n ∧ r.count = es.length ∧ d.log.wokenBy n ++ r.left = es ∧
    d.log.answers n = []

/-- Call `n`, which took `es`, has woken all of them and returned. -/
structure Over (d : Driver) (n : Nat) (es : List Timer) : Prop where
  gone : ∀ r ∈ d.rounds, r.number ≠ n
  woken : d.log.wokenBy n = es
  answers : d.log.answers n = [es.length]

/-- The calls are numbered in the order in which they are made. -/
structure Numbered (d : Driver) : Prop where
  rounds : d.rounds.Pairwise fun r s => s.number < r.number
  known : ∀ r ∈ d.rounds, r.number < d.calls
  unknown : ∀ n, d.calls ≤ n → d.log.wokenBy n = [] ∧ d.log.answers n = []

end Driver

/-! ## The order of the timers -/

namespace TimerKey

theorem precedes_iff {a b : TimerKey} : a.precedes b = true ↔
    a.deadline.toNat < b.deadline.toNat ∨ a.deadline = b.deadline ∧ a.number < b.number := by
  simp only [precedes, Bool.or_eq_true, decide_eq_true_eq, Bool.and_eq_true, Time.lt_def]

theorem precedes_trans {a b c : TimerKey} (h : a.precedes b = true) (h' : b.precedes c = true) :
    a.precedes c = true := by
  rw [precedes_iff] at h h' ⊢
  rcases h with h | ⟨same, h⟩ <;> rcases h' with h' | ⟨same', h'⟩
  · exact .inl (Nat.lt_trans h h')
  · exact .inl (same' ▸ h)
  · exact .inl (same ▸ h')
  · exact .inr ⟨same.trans same', Nat.lt_trans h h'⟩

theorem precedes_of_not {a b : TimerKey} (later : b.number < a.number)
    (h : ¬a.precedes b = true) : b.precedes a = true := by
  rw [precedes_iff] at h ⊢
  rcases Nat.lt_trichotomy a.deadline.toNat b.deadline.toNat with lt | same | lt
  · exact absurd (.inl lt) h
  · exact .inr ⟨(Time.toNat_injective same).symm, later⟩
  · exact .inl lt

end TimerKey

namespace Timers

/-- Those whose deadline the clock has reached. -/
def due (t : Timers) : List Timer := t.pending.filter (isDue t.now)

variable {t : Timers}

theorem insert_ordered {l : List Timer} (h : l.Pairwise fun a b => a.1.precedes b.1 = true)
    {k : TimerKey} (new : ∀ e ∈ l, e.1.number < k.number) (w : Waker) :
    (insert k w l).Pairwise fun a b => a.1.precedes b.1 = true := by
  induction l with
  | nil => simp [insert]
  | cons e l ih =>
    have rest := List.pairwise_cons.mp h
    unfold insert
    split
    · rename_i first
      refine List.pairwise_cons.mpr ⟨fun x hx => ?_, h⟩
      rcases List.mem_cons.mp hx with rfl | hx
      · exact first
      · exact TimerKey.precedes_trans first (rest.1 x hx)
    · rename_i behind
      refine List.pairwise_cons.mpr ⟨fun x hx => ?_, ih rest.2 fun y hy => new y (by simp [hy])⟩
      rcases List.mem_cons.mp ((insert_perm k w l).subset hx) with rfl | hx
      · exact TimerKey.precedes_of_not (new e List.mem_cons_self) behind
      · exact rest.1 x hx

theorem takeDue_eq_due (h : t.pending.Pairwise fun a b => a.1.precedes b.1 = true) :
    t.takeDue.2 = t.due := by
  show t.pending.takeWhile (isDue t.now) = t.pending.filter (isDue t.now)
  generalize t.pending = l at h
  generalize t.now = now
  induction l with
  | nil => rfl
  | cons e l ih =>
    have rest := List.pairwise_cons.mp h
    by_cases due : isDue now e = true
    · rw [List.takeWhile_cons_of_pos due, List.filter_cons_of_pos due, ih rest.2]
    · rw [List.takeWhile_cons_of_neg due, List.filter_cons_of_neg due, eq_comm,
        List.filter_eq_nil_iff]
      intro x hx late
      have le := precedes_le (rest.1 x hx)
      simp only [isDue, decide_eq_true_eq, Time.le_def] at due late le
      omega

end Timers

namespace Driver

variable {d : Driver}

/-! ## Acts -/

theorem Sound.keys_nodup (h : d.Sound) : (keys d.log.registered).Nodup := by
  have numbers : ((keys d.log.registered).map (·.number)).Nodup := by
    rw [keys, List.map_map]
    exact h.numbers ▸ List.nodup_range
  exact numbers.of_map _

theorem Sound.nodup (h : d.Sound) :
    (keys d.timers.pending ++ keys d.log.taken ++ d.log.cancelled ++ d.log.cleared).Nodup :=
  h.parts.nodup_iff.mpr h.keys_nodup

theorem Sound.pending_nodup (h : d.Sound) : (keys d.timers.pending).Nodup :=
  h.nodup.of_append_left.of_append_left.of_append_left

theorem Sound.numbered (h : d.Sound) {e : Timer} (he : e ∈ d.log.registered) :
    e.1.number < d.timers.nextNumber := by
  have mem : e.1.number ∈ d.log.registered.map (·.1.number) := List.mem_map_of_mem he
  rwa [h.numbers, List.mem_range] at mem

theorem Sound.register (h : d.Sound) (deadline : Time) (w : Waker) :
    (d.act (.register deadline w)).Sound := by
  have entered := Timers.insert_perm ⟨deadline, d.timers.nextNumber⟩ w d.timers.pending
  have registered : (d.act (.register deadline w)).log.registered =
      d.log.registered ++ [(⟨deadline, d.timers.nextNumber⟩, w)] := by
    simp [act, note, Log.registered, Timers.register]
  have others : (d.act (.register deadline w)).log.taken = d.log.taken ∧
      (d.act (.register deadline w)).log.cancelled = d.log.cancelled ∧
      (d.act (.register deadline w)).log.cleared = d.log.cleared ∧
      (d.act (.register deadline w)).log.fired = d.log.fired := by
    simp [act, note, Log.taken, Log.cancelled, Log.cleared, Log.fired]
  obtain ⟨taken, cancelled, cleared, fired⟩ := others
  constructor
  · rw [registered, List.map_append, h.numbers]
    exact List.range_succ.symm
  · exact Timers.insert_ordered h.ordered
      (fun e he => h.numbered (h.whose (List.mem_append_left _ he))) w
  · rw [taken, cancelled, cleared, registered, List.perm_iff_count]
    intro k
    have before := h.parts.count_eq k
    have here := (entered.map Prod.fst).count_eq k
    simp only [keys, List.map_append, List.map_cons, List.map_nil, List.count_append,
      List.count_cons, List.count_nil] at before here ⊢
    show List.count k (List.map Prod.fst (Timers.insert _ w d.timers.pending)) + _ + _ + _ = _
    omega
  · rw [taken, registered]
    intro e he
    rcases List.mem_append.mp he with he | he
    · rcases List.mem_cons.mp (entered.subset he) with rfl | he
      · exact List.mem_append_right _ (List.mem_singleton_self _)
      · exact List.mem_append_left _ (h.whose (List.mem_append_left _ he))
    · exact List.mem_append_left _ (h.whose (List.mem_append_right _ he))
  · rw [taken, fired]
    exact h.fired

theorem isPending_iff {t : Timers} {k : TimerKey} : t.isPending k = true ↔ k ∈ keys t.pending := by
  simp [Timers.isPending, keys]

theorem cancel_perm {t : Timers} (nodup : (keys t.pending).Nodup) (k : TimerKey) :
    (keys t.pending).Perm ((if t.isPending k then [k] else []) ++ keys (t.cancel k).pending) := by
  have left : keys (t.cancel k).pending = (keys t.pending).erase k := by
    rw [nodup.erase_eq_filter, keys, keys, List.filter_map]
    exact congrArg _ (List.filter_congr fun e _ => by by_cases same : e.1 = k <;> simp [same])
  rw [left]
  by_cases pending : t.isPending k = true
  · rw [if_pos pending]
    exact List.perm_cons_erase (isPending_iff.mp pending)
  · rw [if_neg pending, List.erase_of_not_mem fun mem => pending (isPending_iff.mpr mem)]
    exact .refl _

theorem Sound.cancel (h : d.Sound) (k : TimerKey) : (d.act (.cancel k)).Sound := by
  have others : (d.act (.cancel k)).log.registered = d.log.registered ∧
      (d.act (.cancel k)).log.taken = d.log.taken ∧
      (d.act (.cancel k)).log.cleared = d.log.cleared ∧
      (d.act (.cancel k)).log.fired = d.log.fired := by
    simp [act, note, Log.registered, Log.taken, Log.cleared, Log.fired]
  obtain ⟨registered, taken, cleared, fired⟩ := others
  have cancelled : (d.act (.cancel k)).log.cancelled =
      d.log.cancelled ++ if d.timers.isPending k then [k] else [] := by
    rcases hp : d.timers.isPending k <;> simp [act, note, Log.cancelled, hp]
  constructor
  · rw [registered]
    exact h.numbers
  · exact h.ordered.sublist List.filter_sublist
  · rw [registered, taken, cleared, cancelled, List.perm_iff_count]
    intro a
    have before := h.parts.count_eq a
    have here := (cancel_perm h.pending_nodup k).count_eq a
    simp only [List.count_append] at before here ⊢
    show List.count a (keys (d.timers.cancel k).pending) + _ + _ + _ = _
    omega
  · rw [registered, taken]
    exact fun e he => h.whose ((List.filter_sublist.append_right _).subset he)
  · rw [taken, fired]
    exact h.fired

theorem Sound.clear (h : d.Sound) : (d.act .clear).Sound := by
  have others : (d.act .clear).log.registered = d.log.registered ∧
      (d.act .clear).log.taken = d.log.taken ∧
      (d.act .clear).log.cancelled = d.log.cancelled ∧
      (d.act .clear).log.cleared = d.log.cleared ++ keys d.timers.pending ∧
      (d.act .clear).log.fired = d.log.fired := by
    simp [act, note, Log.registered, Log.taken, Log.cancelled, Log.cleared, Log.fired, keys]
  obtain ⟨registered, taken, cancelled, cleared, fired⟩ := others
  constructor
  · rw [registered]
    exact h.numbers
  · exact List.Pairwise.nil
  · rw [registered, taken, cancelled, cleared, List.perm_iff_count]
    intro a
    have before := h.parts.count_eq a
    simp only [List.count_append] at before ⊢
    show List.count a [] + _ + _ + _ = _
    rw [List.count_nil]
    omega
  · rw [registered, taken]
    exact fun e he => h.whose (List.mem_append_right _ he)
  · rw [taken, fired]
    exact h.fired

theorem Sound.process (h : d.Sound) : (d.act .process).Sound := by
  have others : (d.act .process).log.registered = d.log.registered ∧
      (d.act .process).log.taken =
        d.log.taken ++ d.timers.takeDue.2 ∧
      (d.act .process).log.cancelled = d.log.cancelled ∧
      (d.act .process).log.cleared = d.log.cleared ∧
      (d.act .process).log.fired = d.log.fired := by
    simp [act, note, Log.registered, Log.taken, Log.cancelled, Log.cleared, Log.fired]
  obtain ⟨registered, taken, cancelled, cleared, fired⟩ := others
  have split := d.timers.takeDue_append
  constructor
  · rw [registered]
    exact h.numbers
  · exact h.ordered.sublist (List.dropWhile_sublist _)
  · rw [registered, taken, cancelled, cleared, List.perm_iff_count]
    intro a
    have before := h.parts.count_eq a
    rw [split] at before
    simp only [keys, List.map_append, List.count_append] at before ⊢
    show List.count a (d.timers.takeDue.1.pending.map Prod.fst) + _ + _ + _ = _
    omega
  · rw [registered, taken]
    intro e he
    apply h.whose
    rw [split]
    rcases List.mem_append.mp he with he | he
    · exact List.mem_append_left _ (List.mem_append_right _ he)
    · rcases List.mem_append.mp he with he | he
      · exact List.mem_append_right _ he
      · exact List.mem_append_left _ (List.mem_append_left _ he)
  · rw [taken, fired]
    show (d.log.fired ++ (d.timers.takeDue.2 ++ d.owed)).Perm _
    rw [List.perm_iff_count]
    intro e
    have before := h.fired.count_eq e
    simp only [List.count_append] at before ⊢
    omega

theorem Sound.proceed (h : d.Sound) : (d.act .proceed).Sound := by
  show d.proceed.Sound
  rcases hr : d.rounds with _ | ⟨⟨number, _ | ⟨e, es⟩, count⟩, rest⟩
  · rwa [Driver.proceed, hr]
  · have same : d.proceed = { d with rounds := rest }.note (.returned number count) := by
      rw [Driver.proceed, hr]
    have owed : d.owed = rest.flatMap (·.left) := by rw [Driver.owed, hr]; rfl
    rw [same]
    refine ⟨?_, h.ordered, ?_, ?_, ?_⟩
    · simpa [note, Log.registered] using h.numbers
    · simpa [note, Log.registered, Log.taken, Log.cancelled, Log.cleared] using h.parts
    · simpa [note, Log.registered, Log.taken] using h.whose
    · have fired := h.fired
      rw [owed] at fired
      simpa [note, Log.taken, Log.fired, Driver.owed] using fired
  · have same : d.proceed =
        { d with rounds := ⟨number, es, count⟩ :: rest }.note (.woke number e) := by
      rw [Driver.proceed, hr]
    have owed : d.owed = e :: es ++ rest.flatMap (·.left) := by rw [Driver.owed, hr]; rfl
    rw [same]
    refine ⟨?_, h.ordered, ?_, ?_, ?_⟩
    · simpa [note, Log.registered] using h.numbers
    · simpa [note, Log.registered, Log.taken, Log.cancelled, Log.cleared] using h.parts
    · simpa [note, Log.registered, Log.taken] using h.whose
    · have fired := h.fired
      rw [owed] at fired
      simpa [note, Log.taken, Log.fired, Driver.owed] using fired

theorem Sound.act (h : d.Sound) : (x : Act) → (d.act x).Sound
  | .register deadline w => h.register deadline w
  | .cancel k => h.cancel k
  | .clear => h.clear
  | .clock _ => ⟨h.numbers, h.ordered, h.parts, h.whose, h.fired⟩
  | .process => h.process
  | .proceed => h.proceed

theorem Sound.run (h : d.Sound) (xs : List Act) : (d.run xs).Sound := by
  induction xs generalizing d with
  | nil => exact h
  | cons x xs ih => exact ih (h.act x)

/-! ## Calls -/

/-- The call takes these now. -/
def begins (d : Driver) : Round :=
  ⟨d.calls, d.timers.takeDue.2, d.timers.takeDue.2.length⟩

/-- What an act does to the calls. -/
inductive Moves (d d' : Driver) : Prop
  | still (rounds : d'.rounds = d.rounds) (calls : d'.calls = d.calls)
      (woken : d'.log.wokenBy = d.log.wokenBy) (answers : d'.log.answers = d.log.answers)
  | begins (rounds : d'.rounds = d.begins :: d.rounds) (calls : d'.calls = d.calls + 1)
      (woken : d'.log.wokenBy = d.log.wokenBy) (answers : d'.log.answers = d.log.answers)
  | wakes (number : Nat) (e : Timer) (es : List Timer) (count : Nat) (rest : List Round)
      (rounds : d.rounds = ⟨number, e :: es, count⟩ :: rest)
      (rounds' : d'.rounds = ⟨number, es, count⟩ :: rest) (calls : d'.calls = d.calls)
      (woken : ∀ n, d'.log.wokenBy n = d.log.wokenBy n ++ if number = n then [e] else [])
      (answers : d'.log.answers = d.log.answers)
  | returns (number count : Nat) (rest : List Round)
      (rounds : d.rounds = ⟨number, [], count⟩ :: rest) (rounds' : d'.rounds = rest)
      (calls : d'.calls = d.calls) (woken : d'.log.wokenBy = d.log.wokenBy)
      (answers : ∀ n, d'.log.answers n = d.log.answers n ++ if number = n then [count] else [])

theorem proceed_moves (d : Driver) : d.Moves d.proceed := by
  rcases hr : d.rounds with _ | ⟨⟨number, _ | ⟨e, es⟩, count⟩, rest⟩ <;> rw [proceed, hr]
  · exact .still rfl rfl rfl rfl
  · refine .returns number count rest hr rfl rfl ?_ fun n => ?_
    · funext n
      simp [note, Log.wokenBy]
    · simp [note, Log.answers]
  · refine .wakes number e es count rest hr rfl rfl (fun n => ?_) ?_
    · simp [note, Log.wokenBy]
    · funext n
      simp [note, Log.answers]

theorem act_moves (d : Driver) (x : Act) : d.Moves (d.act x) := by
  cases x with
  | proceed => exact proceed_moves d
  | process =>
    refine .begins rfl rfl ?_ ?_ <;> funext n
    · simp [act, note, Log.wokenBy]
    · simp [act, note, Log.answers]
  | clock now => exact .still rfl rfl rfl rfl
  | _ =>
    refine .still rfl rfl ?_ ?_ <;> funext n
    · simp [act, note, Log.wokenBy]
    · simp [act, note, Log.answers]

variable {d' : Driver} {n : Nat} {es : List Timer}

theorem Numbered.moves (h : d.Numbered) (moves : d.Moves d') : d'.Numbered := by
  have rounds := h.rounds
  have known := h.known
  cases moves with
  | still same calls woken answers =>
    exact ⟨same ▸ rounds, by rwa [same, calls], by rw [calls, woken, answers]; exact h.unknown⟩
  | begins same calls woken answers =>
    refine ⟨?_, ?_, fun n hn => ?_⟩
    · rw [same]
      exact List.pairwise_cons.mpr ⟨known, rounds⟩
    · rw [same, calls]
      intro r hr
      rcases List.mem_cons.mp hr with rfl | hr
      · exact Nat.lt_succ_self _
      · exact Nat.lt_succ_of_lt (known r hr)
    · rw [woken, answers]
      exact h.unknown n (by omega)
  | wakes number e es count rest before after calls woken answers =>
    rw [before] at rounds known
    have here : number < d.calls := known _ List.mem_cons_self
    refine ⟨?_, ?_, fun n hn => ?_⟩
    · rw [after]
      exact List.pairwise_cons.mpr (List.pairwise_cons.mp rounds)
    · rw [after, calls]
      intro r hr
      rcases List.mem_cons.mp hr with rfl | hr
      · exact here
      · exact known r (List.mem_cons_of_mem _ hr)
    · rw [woken, answers, if_neg (by omega), List.append_nil]
      exact h.unknown n (by omega)
  | returns number count rest before after calls woken answers =>
    rw [before] at rounds known
    have here : number < d.calls := known _ List.mem_cons_self
    refine ⟨?_, ?_, fun n hn => ?_⟩
    · rw [after]
      exact (List.pairwise_cons.mp rounds).2
    · rw [after, calls]
      exact fun r hr => known r (List.mem_cons_of_mem _ hr)
    · rw [woken, answers, if_neg (by omega), List.append_nil]
      exact h.unknown n (by omega)

theorem Ongoing.moves (h : d.Numbered) (ongoing : d.Ongoing n es) (moves : d.Moves d') :
    d'.Ongoing n es ∨ d'.Over n es := by
  have rounds := h.rounds
  obtain ⟨r, hr, rfl, count, woken, unanswered⟩ := ongoing
  cases moves with
  | still same _ woken' answers =>
    exact .inl ⟨r, by rwa [same], rfl, count, by rwa [woken'], by rwa [answers]⟩
  | begins same _ woken' answers =>
    have there : r ∈ d'.rounds := same ▸ List.mem_cons_of_mem _ hr
    exact .inl ⟨r, there, rfl, count, by rwa [woken'], by rwa [answers]⟩
  | wakes number e left size rest before after _ woken' answers =>
    rw [before] at hr rounds
    rcases List.mem_cons.mp hr with rfl | hr
    · have there : ⟨number, left, size⟩ ∈ d'.rounds := after ▸ List.mem_cons_self
      refine .inl ⟨_, there, rfl, count, ?_, by rwa [answers]⟩
      rw [woken', if_pos rfl, List.append_assoc]
      exact woken
    · have earlier := (List.pairwise_cons.mp rounds).1 r hr
      have there : r ∈ d'.rounds := after ▸ List.mem_cons_of_mem _ hr
      refine .inl ⟨r, there, rfl, count, ?_, by rwa [answers]⟩
      rwa [woken', if_neg (Nat.ne_of_gt earlier), List.append_nil]
  | returns number size rest before after _ woken' answers =>
    rw [before] at hr rounds
    rcases List.mem_cons.mp hr with rfl | hr
    · refine .inr ⟨fun s hs => ?_, ?_, ?_⟩
      · rw [after] at hs
        exact Nat.ne_of_lt ((List.pairwise_cons.mp rounds).1 s hs)
      · rwa [woken', ← List.append_nil (d.log.wokenBy _)]
      · rw [answers, if_pos rfl, unanswered, ← count]
        rfl
    · have earlier := (List.pairwise_cons.mp rounds).1 r hr
      refine .inl ⟨r, by rwa [after], rfl, count, by rwa [woken'], ?_⟩
      rwa [answers, if_neg (Nat.ne_of_gt earlier), List.append_nil]

theorem Over.moves (ended : d.Over n es) (old : n < d.calls) (moves : d.Moves d') :
    d'.Over n es := by
  have gone := ended.gone
  have woken := ended.woken
  have answered := ended.answers
  cases moves with
  | still same _ woken' answers => exact ⟨by rwa [same], by rwa [woken'], by rwa [answers]⟩
  | begins same _ woken' answers =>
    refine ⟨fun s hs => ?_, by rwa [woken'], by rwa [answers]⟩
    rw [same] at hs
    rcases List.mem_cons.mp hs with rfl | hs
    · exact Nat.ne_of_gt old
    · exact gone s hs
  | wakes number e left size rest before after _ woken' answers =>
    rw [before] at gone
    have other : number ≠ n := gone _ List.mem_cons_self
    refine ⟨fun s hs => ?_, ?_, by rwa [answers]⟩
    · rw [after] at hs
      rcases List.mem_cons.mp hs with rfl | hs
      · exact other
      · exact gone s (List.mem_cons_of_mem _ hs)
    · rwa [woken', if_neg other, List.append_nil]
  | returns number size rest before after _ woken' answers =>
    rw [before] at gone
    have other : number ≠ n := gone _ List.mem_cons_self
    refine ⟨fun s hs => ?_, by rwa [woken'], ?_⟩
    · rw [after] at hs
      exact gone s (List.mem_cons_of_mem _ hs)
    · rwa [answers, if_neg other, List.append_nil]

theorem Moves.calls_le (moves : d.Moves d') : d.calls ≤ d'.calls := by
  cases moves <;> omega

theorem run_append (d : Driver) (xs ys : List Act) : d.run (xs ++ ys) = (d.run xs).run ys :=
  List.foldl_append

theorem Numbered.run (h : d.Numbered) (xs : List Act) : (d.run xs).Numbered := by
  induction xs generalizing d with
  | nil => exact h
  | cons x xs ih => exact ih (h.moves (d.act_moves x))

theorem Over.run (ended : d.Over n es) (old : n < d.calls) (xs : List Act) :
    (d.run xs).Over n es := by
  induction xs generalizing d with
  | nil => exact ended
  | cons x xs ih =>
    have moves := d.act_moves x
    exact ih (ended.moves old moves) (Nat.lt_of_lt_of_le old moves.calls_le)

theorem Ongoing.run (h : d.Numbered) (ongoing : d.Ongoing n es) (xs : List Act) :
    (d.run xs).Ongoing n es ∨ (d.run xs).Over n es := by
  induction xs generalizing d with
  | nil => exact .inl ongoing
  | cons x xs ih =>
    have moves := d.act_moves x
    rcases ongoing.moves h moves with ongoing' | ended
    · exact ih (h.moves moves) ongoing'
    · obtain ⟨r, hr, rfl, -⟩ := ongoing
      exact .inr (ended.run (Nat.lt_of_lt_of_le (h.known r hr) moves.calls_le) xs)

/-- What there is left to do for the calls that have not returned. -/
def work (d : Driver) : Nat := d.owed.length + d.rounds.length

theorem rounds_of_proceeds (d : Driver) : (d.run (List.replicate d.work .proceed)).rounds = [] := by
  generalize hw : d.work = m
  induction m generalizing d with
  | zero =>
    rcases hr : d.rounds with _ | ⟨r, rest⟩
    · exact hr
    · simp [work, hr] at hw
  | succ m ih =>
    refine ih (d.act .proceed) ?_
    rcases hr : d.rounds with _ | ⟨⟨number, _ | ⟨e, es⟩, count⟩, rest⟩
    · simp [work, owed, hr] at hw
    · have same : (d.act .proceed).rounds = rest := by simp [act, proceed, hr, note]
      simp only [work, owed, hr, same, List.flatMap_cons, List.length_append, List.length_cons,
        List.length_nil] at hw ⊢
      omega
    · have same : (d.act .proceed).rounds = ⟨number, es, count⟩ :: rest := by
        simp [act, proceed, hr, note]
      simp only [work, owed, hr, same, List.flatMap_cons, List.length_append, List.length_cons]
        at hw ⊢
      omega

/-! ## Whole runs -/

/-- What the timers and the log have to do with each other. -/
structure Accounts (d : Driver) : Prop where
  pending : ∀ e, e ∈ d.timers.pending ↔ e ∈ d.log.registered ∧ e.1 ∉ keys d.log.taken ∧
    e.1 ∉ d.log.cancelled ∧ e.1 ∉ d.log.cleared
  /-- Nobody fires or is cancelled twice, and nobody fires who was cancelled or cleared. -/
  once : (keys d.log.fired ++ d.log.cancelled ++ d.log.cleared).Nodup
  fired : d.log.fired ⊆ d.log.registered
  count : d.timers.count + d.log.taken.length + d.log.cancelled.length + d.log.cleared.length =
    d.log.registered.length
  /-- A cancellation answers whether the timer was pending. -/
  cancel : ∀ k, (d.act (.cancel k)).log =
    d.log ++ [.cancelled k (decide (k ∈ keys d.timers.pending))]
  next : ∀ t, d.timers.nextDeadline? = some t ↔
    (∃ e ∈ d.timers.pending, e.1.deadline = t) ∧ ∀ e ∈ d.timers.pending, t ≤ e.1.deadline
  none : d.timers.nextDeadline? = none ↔ d.timers.pending = []

/-- What `d'` tells of the call that processes the timers in `d`, if that was before. -/
structure Serves (d d' : Driver) : Prop where
  /-- Those that are due are woken by deadline, and for one deadline by registration. -/
  ordered : d.timers.due.Pairwise fun a b => a.1.precedes b.1 = true
  woken : d'.log.wokenBy d.calls <+: d.timers.due
  answer : d'.log.answers d.calls = [] ∨
    d'.log.wokenBy d.calls = d.timers.due ∧ d'.log.answers d.calls = [d.timers.due.length]
  /-- It returns if those who are woken from now on leave it at that. -/
  ends : ∃ n, (d'.run (List.replicate n .proceed)).log.answers d.calls = [d.timers.due.length]
  /-- It is too late to cancel one that was taken. -/
  late : ∀ e ∈ d.timers.due, d'.timers.isPending e.1 = false
  /-- Whoever was registered meanwhile is none of them. -/
  new : ∃ es, d'.log.registered = d.log.registered ++ es ∧ ∀ e ∈ es, e.1 ∉ keys d.timers.due

theorem Sound.unique (h : d.Sound) {e e' : Timer} (he : e ∈ d.log.registered)
    (he' : e' ∈ d.log.registered) (same : e.1 = e'.1) : e = e' :=
  List.inj_on_of_nodup_map h.keys_nodup he he' same

theorem Sound.mem_pending (h : d.Sound) (e : Timer) :
    e ∈ d.timers.pending ↔ e ∈ d.log.registered ∧ e.1 ∉ keys d.log.taken ∧
      e.1 ∉ d.log.cancelled ∧ e.1 ∉ d.log.cleared := by
  constructor
  · intro he
    have key : e.1 ∈ keys d.timers.pending := List.mem_map_of_mem he
    have nodup := h.nodup
    rw [List.append_assoc, List.append_assoc, List.nodup_append] at nodup
    have apart := nodup.2.2 e.1 key
    have registered := h.whose (List.mem_append_left _ he)
    refine ⟨registered, fun other => ?_, fun other => ?_, fun other => ?_⟩ <;>
      exact apart e.1 (by simp [other]) rfl
  · rintro ⟨he, taken, cancelled, cleared⟩
    have key := h.parts.mem_iff.mpr (List.mem_map_of_mem he)
    simp only [List.mem_append, taken, cancelled, cleared, or_false] at key
    obtain ⟨e', he', same⟩ := List.mem_map.mp key
    rwa [← h.unique (h.whose (List.mem_append_left _ he')) he same]

theorem Sound.nextDeadline_eq (h : d.Sound) (t : Time) : d.timers.nextDeadline? = some t ↔
    (∃ e ∈ d.timers.pending, e.1.deadline = t) ∧ ∀ e ∈ d.timers.pending, t ≤ e.1.deadline := by
  have ordered := h.ordered
  unfold Timers.nextDeadline?
  rcases hp : d.timers.pending with _ | ⟨e, es⟩
  · simp
  · have least : ∀ x ∈ e :: es, e.1.deadline ≤ x.1.deadline := by
      intro x hx
      rcases List.mem_cons.mp hx with rfl | hx
      · exact Time.le_def.mpr (Nat.le_refl _)
      · rw [hp] at ordered
        exact Timers.precedes_le ((List.pairwise_cons.mp ordered).1 x hx)
    constructor
    · rintro ⟨⟩
      exact ⟨⟨e, List.mem_cons_self, rfl⟩, least⟩
    · rintro ⟨⟨x, hx, rfl⟩, le⟩
      have ge := Time.le_def.mp (le e List.mem_cons_self)
      have same := Time.toNat_injective (Nat.le_antisymm (Time.le_def.mp (least x hx)) ge)
      rw [List.head?_cons, Option.map_some, same]

theorem Sound.accounts (h : d.Sound) : d.Accounts where
  pending := h.mem_pending
  once := by
    have woken : (keys d.log.fired ++ keys d.owed).Perm (keys d.log.taken) := by
      rw [keys, keys, ← List.map_append]
      exact h.fired.map Prod.fst
    have nodup := h.nodup
    rw [List.append_assoc, List.append_assoc, List.nodup_append] at nodup
    have all : (keys d.owed ++ (keys d.log.fired ++ d.log.cancelled ++ d.log.cleared)).Perm
        (keys d.log.taken ++ (d.log.cancelled ++ d.log.cleared)) := by
      rw [List.append_assoc, ← List.append_assoc]
      exact (List.perm_append_comm.trans woken).append_right _
    exact (all.nodup_iff.mpr nodup.2.1).of_append_right
  fired e he := h.whose (List.mem_append_right _ (h.fired.subset (List.mem_append_left _ he)))
  count := by
    have length := h.parts.length_eq
    simpa only [keys, List.length_append, List.length_map, Timers.count] using length
  cancel k := by
    have answer : d.timers.isPending k = decide (k ∈ keys d.timers.pending) := by
      rw [Bool.eq_iff_iff, isPending_iff, decide_eq_true_iff]
    rw [← answer]
    rfl
  next := h.nextDeadline_eq
  none := by
    rw [Timers.nextDeadline?, Option.map_eq_none_iff, List.head?_eq_none_iff]

/-! ### Calls -/

theorem Sound.begins_eq (h : d.Sound) :
    d.begins = ⟨d.calls, d.timers.due, d.timers.due.length⟩ := by
  rw [begins, Timers.takeDue_eq_due h.ordered]

theorem Sound.ongoing (h : d.Sound) (numbered : d.Numbered) :
    (d.act .process).Ongoing d.calls d.timers.due := by
  obtain ⟨unwoken, unanswered⟩ := numbered.unknown d.calls (Nat.le_refl _)
  have quiet : (d.act .process).log.wokenBy d.calls = d.log.wokenBy d.calls ∧
      (d.act .process).log.answers d.calls = d.log.answers d.calls := by
    simp [Driver.act, note, Log.wokenBy, Log.answers]
  rw [unwoken, unanswered] at quiet
  have first : d.begins ∈ (d.act .process).rounds := List.mem_cons_self
  rw [h.begins_eq] at first
  exact ⟨_, first, rfl, rfl, by rw [quiet.1]; rfl, quiet.2⟩

theorem log_act (d : Driver) (x : Act) : d.log <+: (d.act x).log := by
  cases x with
  | clock now => exact List.prefix_rfl
  | proceed =>
    show d.log <+: d.proceed.log
    unfold proceed
    split
    · exact List.prefix_rfl
    · exact List.prefix_append _ _
    · exact List.prefix_append _ _
  | _ => exact List.prefix_append _ _

theorem log_run (d : Driver) (xs : List Act) : d.log <+: (d.run xs).log := by
  induction xs generalizing d with
  | nil => exact List.prefix_rfl
  | cons x xs ih => exact (d.log_act x).trans (ih (d.act x))

theorem Sound.serves (h : d.Sound) (numbered : d.Numbered) (xs : List Act) :
    d.Serves ((d.act .process).run xs) := by
  have later := (h.act .process).run xs
  have follows := (h.ongoing numbered).run (numbered.moves (d.act_moves .process)) xs
  obtain ⟨notes, grown⟩ := ((d.log_act .process).trans ((d.act .process).log_run xs))
  have due_registered : d.timers.due ⊆ d.log.registered := fun e he =>
    h.whose (List.mem_append_left _ (List.filter_sublist.subset he))
  constructor
  · exact h.ordered.sublist List.filter_sublist
  · rcases follows with ⟨r, -, -, -, woken, -⟩ | ended
    · exact ⟨r.left, woken⟩
    · exact ⟨[], (List.append_nil _).trans ended.woken⟩
  · rcases follows with ⟨r, -, -, -, -, unanswered⟩ | ended
    · exact .inl unanswered
    · exact .inr ⟨ended.woken, ended.answers⟩
  · refine ⟨((d.act .process).run xs).work, ?_⟩
    have gone := ((d.act .process).run xs).rounds_of_proceeds
    rw [← run_append] at gone ⊢
    rcases (h.ongoing numbered).run (numbered.moves (d.act_moves .process)) _ with
      ⟨r, hr, -⟩ | ended
    · rw [gone] at hr
      cases hr
    · exact ended.answers
  · intro e he
    rw [Bool.eq_false_iff]
    intro pending
    obtain ⟨notes', grown'⟩ := (d.act .process).log_run xs
    have taken : e ∈ ((d.act .process).run xs).log.taken := by
      have took : (d.act .process).log = d.log ++ [.took d.calls d.timers.due] := by
        rw [← Timers.takeDue_eq_due h.ordered]
        rfl
      rw [← grown', took]
      simp [Log.taken, he]
    obtain ⟨e', he', same⟩ := List.mem_map.mp (isPending_iff.mp pending)
    exact ((later.mem_pending e').mp he').2.1 (same ▸ List.mem_map_of_mem taken)
  · have registered : ((d.act .process).run xs).log.registered =
        d.log.registered ++ Log.registered notes := by
      rw [← grown]
      simp [Log.registered]
    refine ⟨_, registered, fun e he known => ?_⟩
    obtain ⟨e', he', same⟩ := List.mem_map.mp known
    have nodup := later.keys_nodup
    rw [registered, keys, List.map_append, List.nodup_append] at nodup
    have old : e'.1 ∈ keys d.log.registered := List.mem_map_of_mem (due_registered he')
    exact nodup.2.2 e'.1 old e.1 (List.mem_map_of_mem he) same

theorem start_sound (now : Time) : ({ timers := { now } } : Driver).Sound := by
  constructor <;>
    simp [Log.registered, Log.taken, Log.cancelled, Log.cleared, Log.fired, keys, owed]

theorem start_numbered (now : Time) : ({ timers := { now } } : Driver).Numbered := by
  constructor <;> simp [Log.wokenBy, Log.answers]

end Driver

end Turnstile
