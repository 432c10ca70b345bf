import Mathlib.Data.List.Flatten
import Mathlib.Data.List.Infix
import Mathlib.Data.List.Perm.Subperm
import Turnstile.Proofs.Cancelling
import Turnstile.Proofs.Grove

/-!
# What a cancellation does

A cancellation goes through the tokens below the one that is cancelled, depth first and the
first-born first. It passes those by that are gone or cancelled already. If the wakers that it calls
do nothing else, this is all that it does.
-/

namespace Turnstile

variable {P : Policy}

/-! ## Walks -/

/-- `marks` goes through `ps`, and after each of these through what is `below` it. -/
inductive Walks (below : Nat → List Nat) : List Nat → List Nat → Prop
  | nil : Walks below [] []
  | cons {p : Nat} {ps first others : List Nat} (h : Walks below (below p) first)
      (h' : Walks below ps others) : Walks below (p :: ps) (p :: first ++ others)

/-- One comes to `c` from `p`. -/
def Reaches (below : Nat → List Nat) : Nat → Nat → Prop :=
  Relation.ReflTransGen fun a b => b ∈ below a

namespace Walks

variable {below below' : Nat → List Nat} {ps marks : List Nat} {p c : Nat}

theorem exists_of_bounded {size : Nat} (bounded : ∀ p c, c ∈ below p → p < c ∧ c < size)
    (ps : List Nat) (known : ∀ p ∈ ps, p < size) : ∃ marks, Walks below ps marks := by
  have within (n : Nat) : ∀ ps : List Nat, (∀ p ∈ ps, p < size ∧ size ≤ p + n) →
      ∃ marks, Walks below ps marks := by
    induction n with
    | zero =>
      intro ps late
      rcases ps with _ | ⟨p, ps⟩
      · exact ⟨[], .nil⟩
      · have := late p List.mem_cons_self
        omega
    | succ n ih =>
      intro ps late
      induction ps with
      | nil => exact ⟨[], .nil⟩
      | cons p ps ih' =>
        have first := late p List.mem_cons_self
        obtain ⟨below', hbelow⟩ := ih (below p) fun c hc => by
          have := bounded p c hc
          omega
        obtain ⟨others, hothers⟩ := ih' fun q hq => late q (List.mem_cons_of_mem _ hq)
        exact ⟨_, .cons hbelow hothers⟩
  exact within size ps fun p hp => ⟨known p hp, Nat.le_add_left _ _⟩

theorem mem_iff (h : Walks below ps marks) : c ∈ marks ↔ ∃ p ∈ ps, Reaches below p c := by
  induction h with
  | nil => simp
  | @cons p ps first others _ _ ih ih' =>
    rw [List.cons_append, List.mem_cons, List.mem_append, ih, ih', List.exists_mem_cons_iff]
    constructor
    · rintro (rfl | ⟨q, hq, reaches⟩ | later)
      · exact .inl .refl
      · exact .inl (.head hq reaches)
      · exact .inr later
    · rintro (reaches | later)
      · rcases reaches.cases_head with rfl | ⟨q, hq, reaches⟩
        · exact .inl rfl
        · exact .inr (.inl ⟨q, hq, reaches⟩)
      · exact .inr (.inr later)

theorem congr (h : Walks below ps marks) (same : ∀ p ∈ marks, below' p = below p) :
    Walks below' ps marks := by
  induction h with
  | nil => exact .nil
  | cons _ _ ih ih' =>
    have here := same _ List.mem_cons_self
    refine .cons ?_ (ih' fun q hq => same q (List.mem_append_right _ hq))
    rw [here]
    exact ih fun q hq => same q (List.mem_append_left _ (List.mem_cons_of_mem _ hq))

end Walks

/-- Each has at most one parent, which is older. -/
structure Wooded (below : Nat → List Nat) : Prop where
  older : ∀ p c, c ∈ below p → p < c
  parent : ∀ p q c, c ∈ below p → c ∈ below q → p = q
  nodup : ∀ p, (below p).Nodup

namespace Wooded

variable {below : Nat → List Nat} {ps marks : List Nat} {p q c : Nat}

theorem le (h : Wooded below) (reaches : Reaches below p c) : p ≤ c := by
  induction reaches with
  | refl => exact Nat.le_refl _
  | tail _ edge ih => exact Nat.le_trans ih (Nat.le_of_lt (h.older _ _ edge))

theorem total (h : Wooded below) (hp : Reaches below p c) (hq : Reaches below q c) :
    Reaches below p q ∨ Reaches below q p := by
  have unique : Relator.RightUnique (Function.swap fun a b => b ∈ below a) :=
    fun c p q hp hq => h.parent p q c hp hq
  rcases Relation.ReflTransGen.total_of_right_unique unique hp.swap hq.swap with back | back
  · exact .inr back.swap
  · exact .inl back.swap

theorem walks_nodup (h : Wooded below) (walk : Walks below ps marks) (nodup : ps.Nodup)
    (apart : ∀ p ∈ ps, ∀ q ∈ ps, Reaches below p q → p = q) : marks.Nodup := by
  induction walk with
  | nil => exact List.nodup_nil
  | @cons p ps first others hf ho ih ih' =>
    obtain ⟨new, rest⟩ := List.nodup_cons.mp nodup
    have beyond (c : Nat) (hc : c ∈ first) : p < c ∧ Reaches below p c := by
      obtain ⟨q, hq, reaches⟩ := hf.mem_iff.mp hc
      exact ⟨Nat.lt_of_lt_of_le (h.older p q hq) (h.le reaches), .head hq reaches⟩
    have siblings (c : Nat) (hc : c ∈ below p) (d : Nat) (hd : d ∈ below p)
        (reaches : Reaches below c d) : c = d := by
      rcases reaches.cases_tail with same | ⟨q, before, edge⟩
      · exact same.symm
      · obtain rfl := h.parent q p d edge hd
        exact absurd (h.le before) (Nat.not_le.mpr (h.older q c hc))
    refine List.nodup_append.mpr ⟨List.nodup_cons.mpr ⟨fun again => ?_, ih (h.nodup p) siblings⟩,
      ih' rest fun q hq r hr => apart q (List.mem_cons_of_mem _ hq) r (List.mem_cons_of_mem _ hr),
      ?_⟩
    · exact Nat.lt_irrefl p (beyond p again).1
    · rintro c hc _ hd rfl
      obtain ⟨q, hq, reaches⟩ := ho.mem_iff.mp hd
      have from_p : Reaches below p c := by
        rcases List.mem_cons.mp hc with rfl | hc
        · exact .refl
        · exact (beyond c hc).2
      have inside := List.mem_cons_of_mem p hq
      rcases h.total from_p reaches with forth | back
      · exact new (apart p List.mem_cons_self q inside forth ▸ hq)
      · exact new (apart q inside p List.mem_cons_self back ▸ hq)

end Wooded

/-! ## Marked tokens -/

/-- The token has been cancelled and all that it knew of has been told. -/
def Token.struck (t : Token) : Token :=
  { t with cancelled := true, listeners := t.listeners.takeWakers.1, children := [] }

namespace Tokens

/-- The wakers that are subscribed to a token, in the order of their slots. -/
def subscribers (ts : Tokens) (i : Nat) : List Waker :=
  ((ts.get? i).map (·.listeners.takeWakers.2)).getD []

/-- A cancellation of its parent cancels the token. -/
def catches (ts : Tokens) (i : Nat) : Bool := ts.isAlive i && !ts.isCancelled i

/-- All tokens, after those of `marks` have been struck. -/
def strike (ts : Tokens) (marks : List Nat) : Tokens :=
  ⟨ts.all.mapIdx fun i t => if i ∈ marks then t.struck else t⟩

variable {ts : Tokens} {marks marks' : List Nat} {i : Nat}

theorem ext_get? {ts ts' : Tokens} (h : ∀ i, ts.get? i = ts'.get? i) : ts = ts' := by
  obtain ⟨all⟩ := ts
  obtain ⟨all'⟩ := ts'
  exact congrArg Tokens.mk (Array.ext_getElem? h)

theorem get?_strike (ts : Tokens) (marks : List Nat) (i : Nat) :
    (ts.strike marks).get? i = (ts.get? i).map fun t => if i ∈ marks then t.struck else t := by
  simp [get?, strike]

theorem strike_nil (ts : Tokens) : ts.strike [] = ts :=
  ext_get? fun i => by simp [get?_strike]

theorem struck_struck (t : Token) : t.struck.struck = t.struck := by
  simp [Token.struck, Listeners.takeWakers]

theorem strike_strike (ts : Tokens) (marks marks' : List Nat) :
    (ts.strike marks).strike marks' = ts.strike (marks ++ marks') := by
  refine ext_get? fun i => ?_
  simp only [get?_strike, Option.map_map, List.mem_append]
  congr 1
  funext t
  by_cases hm : i ∈ marks <;> by_cases hm' : i ∈ marks' <;> simp [hm, hm', struck_struck]

theorem get?_strike_of_notMem (hi : i ∉ marks) : (ts.strike marks).get? i = ts.get? i := by
  rw [get?_strike]
  simp [hi]

theorem isAlive_strike (ts : Tokens) (marks : List Nat) (i : Nat) :
    (ts.strike marks).isAlive i = ts.isAlive i := by
  simp only [isAlive, get?_strike]
  rcases ts.get? i with _ | t
  · rfl
  · have occupied : t.listeners.takeWakers.1.anyOccupied = t.listeners.anyOccupied := by
      simp [Listeners.takeWakers, Listeners.anyOccupied]
    have same : t.struck.isAlive = t.isAlive := congrArg (decide (0 < t.handles) || ·) occupied
    by_cases hi : i ∈ marks <;> simp [hi, same]

theorem isCancelled_strike (ts : Tokens) (marks : List Nat) (i : Nat) :
    (ts.strike marks).isCancelled i =
      (ts.isCancelled i || decide (i ∈ marks) && (ts.get? i).isSome) := by
  simp only [isCancelled, get?_strike]
  rcases ts.get? i with _ | t
  · simp
  · by_cases hi : i ∈ marks <;> simp [hi, Token.struck]

theorem catches_strike (h : (ts.strike marks).catches i = true) : ts.catches i = true := by
  unfold catches at *
  rw [isAlive_strike, isCancelled_strike] at h
  grind

theorem catches_strike_of_notMem (h : ts.catches i = true) (hi : i ∉ marks) :
    (ts.strike marks).catches i = true := by
  unfold catches at *
  rw [isAlive_strike, isCancelled_strike]
  simpa [hi] using h

theorem fire_subscribers (ts : Tokens) (i : Nat) : (ts.fire i).2 = ts.subscribers i := by
  unfold fire subscribers
  rcases ts.get? i with _ | t <;> rfl

theorem subscribers_strike (hi : i ∉ marks) :
    (ts.strike marks).subscribers i = ts.subscribers i := by
  rw [subscribers, get?_strike_of_notMem hi, subscribers]

theorem takeChildren_fire (ts : Tokens) (i : Nat) :
    ((ts.fire i).1.takeChildren i).1 = ts.strike [i] ∧
      ((ts.fire i).1.takeChildren i).2 = ts.childrenOf i := by
  have kept : (ts.fire i).1.childrenOf i = ts.childrenOf i := by rw [childrenOf_fire]
  refine ⟨ext_get? fun j => ?_, kept⟩
  rcases ht : ts.get? i with _ | t
  · have same : (ts.fire i).1 = ts := by simp [fire, ht]
    rw [same, get?_strike]
    simp only [takeChildren, get?_update, List.mem_singleton]
    by_cases hj : i = j
    · subst hj
      simp [ht]
    · simp [hj, Ne.symm hj]
  · rw [get?_strike, fire_eq ht]
    simp only [takeChildren, get?_update, List.mem_singleton]
    by_cases hj : i = j
    · subst hj
      simp [ht, Token.struck]
    · simp [hj, Ne.symm hj]

end Tokens

/-! ## Calls -/

/-- The task that a waker stands for. -/
def Waker.name? : Waker → Option String
  | .task name => some name
  | _ => none

namespace World

/-- Waking it only records the call. -/
def Records (w : World P) : Waker → Prop
  | .task name => ∀ steps ∈ w.onWake.find? name, steps = []
  | .sleeper | .trigger .. => False

end World

theorem Names.erase_of_find? {α : Type} {m : Names α} {name : String} (h : m.find? name = none) :
    m.erase name = m := by
  obtain ⟨es⟩ := m
  unfold Names.erase
  congr 1
  refine List.filter_eq_self.mpr fun e he => ?_
  have missing : es.find? (·.1 = name) = none := Option.map_eq_none_iff.mp h
  simpa using List.find?_eq_none.mp missing e he

namespace Machine

variable {m m' m'' : Machine P} {rest : List (Frame P)} {names : List String} {ws : List Waker}

/-- There is always something left to be done from `m` to `m'`. -/
def Leads : Machine P → Machine P → Prop :=
  Relation.ReflTransGen fun m m' => m.agenda ≠ [] ∧ m' = m.step

theorem Leads.refl (m : Machine P) : m.Leads m := Relation.ReflTransGen.refl

theorem Leads.trans (h : m.Leads m') (h' : m'.Leads m'') : m.Leads m'' :=
  Relation.ReflTransGen.trans h h'

theorem Leads.of_step (busy : m.agenda ≠ []) (h : m.step.Leads m') : m.Leads m' :=
  .head ⟨busy, rfl⟩ h

theorem Leads.iterate (h : m.Leads m') :
    ∃ n, m' = step^[n] m ∧ ∀ j < n, (step^[j] m).agenda ≠ [] := by
  induction h with
  | refl => exact ⟨0, rfl, nofun⟩
  | tail _ edge ih =>
    obtain ⟨n, rfl, busy⟩ := ih
    refine ⟨n + 1, by rw [Function.iterate_succ_apply', edge.2], fun j hj => ?_⟩
    rcases Nat.lt_succ_iff_lt_or_eq.mp hj with hj | rfl
    · exact busy j hj
    · exact edge.1

/-- These tasks have been woken, and then `rest` is to be done. -/
def rouse (m : Machine P) (names : List String) (rest : List (Frame P)) : Machine P :=
  { m with
    world := { m.world with onWake := names.foldl Names.erase m.world.onWake }
    agenda := rest
    woken := names.reverse ++ m.woken
    wakes := m.wakes ++ names }

theorem rouse_nil (m : Machine P) : m.rouse [] rest = { m with agenda := rest } := by
  simp [rouse]

theorem rouse_rouse (m : Machine P) (names names' : List String) (rest rest' : List (Frame P)) :
    (m.rouse names rest).rouse names' rest' = m.rouse (names ++ names') rest' := by
  simp [rouse]

theorem records_rouse {w : Waker} (h : m.world.Records w) (names : List String)
    (rest : List (Frame P)) : (m.rouse names rest).world.Records w := by
  cases w with
  | task name =>
    suffices kept : ∀ steps ∈ (names.foldl Names.erase m.world.onWake).find? name, steps = [] from
      kept
    have h : ∀ steps ∈ m.world.onWake.find? name, steps = [] := h
    revert h
    generalize m.world.onWake = given
    intro h
    induction names generalizing given with
    | nil => exact h
    | cons name' names ih =>
      refine ih (given.erase name') fun steps hsteps => ?_
      rw [Names.find?_erase] at hsteps
      split at hsteps
      · cases hsteps
      · exact h steps hsteps
  | sleeper | trigger => exact h

theorem leads_wake {name : String} (agenda : m.agenda = .wake false (.task name :: ws) :: rest)
    (records : m.world.Records (.task name)) :
    m.Leads (m.rouse [name] (.wake false ws :: rest)) := by
  obtain ⟨world, agenda', script, woken, wakes, nested, events, reports⟩ := m
  obtain rfl : agenda' = _ := agenda
  refine .of_step (by simp) ?_
  rcases found : world.onWake.find? name with _ | steps
  · have same : step ⟨world, .wake false (.task name :: ws) :: rest, script, woken, wakes, nested,
        events, reports⟩ = rouse ⟨world, .wake false (.task name :: ws) :: rest, script, woken,
        wakes, nested, events, reports⟩ [name] (.wake false ws :: rest) := by
      simp [step, perform, wake, push, found, rouse, Names.erase_of_find? found]
    rw [same]
    exact .refl _
  · obtain rfl : steps = [] := records steps found
    refine .of_step (by simp [step, perform, wake, push, found]) ?_
    have same : step (step ⟨world, .wake false (.task name :: ws) :: rest, script, woken, wakes,
        nested, events, reports⟩) = rouse ⟨world, .wake false (.task name :: ws) :: rest, script,
        woken, wakes, nested, events, reports⟩ [name] (.wake false ws :: rest) := by
      simp [step, perform, wake, push, found, rouse]
    rw [same]
    exact .refl _

theorem leads_wakes (agenda : m.agenda = .wake false ws :: rest)
    (records : ∀ w ∈ ws, m.world.Records w) :
    m.Leads (m.rouse (ws.filterMap Waker.name?) rest) := by
  induction ws generalizing m with
  | nil =>
    obtain ⟨world, agenda', script, woken, wakes, nested, events, reports⟩ := m
    obtain rfl : agenda' = _ := agenda
    refine .of_step (by simp) ?_
    rw [List.filterMap_nil, rouse_nil]
    exact .refl _
  | cons w ws ih =>
    cases w with
    | task name =>
      refine (leads_wake agenda (records _ List.mem_cons_self)).trans ?_
      have later := ih (m := m.rouse [name] (.wake false ws :: rest)) rfl fun w hw =>
        records_rouse (records w (List.mem_cons_of_mem _ hw)) _ _
      rwa [rouse_rouse] at later
    | sleeper | trigger => exact (records _ List.mem_cons_self).elim

/-! ## The way of a cancellation -/

/-- The tasks that are subscribed to these tokens. -/
def called (ts : Tokens) (marks : List Nat) : List String :=
  (marks.flatMap ts.subscribers).filterMap Waker.name?

/-- The tokens `marks` of `ts` have been struck and their subscribers woken, and then `rest` is to
be done. -/
def struck (m : Machine P) (ts : Tokens) (marks : List Nat) (rest : List (Frame P)) : Machine P :=
  { m.rouse (called ts marks) rest with
    world := { (m.rouse (called ts marks) rest).world with tokens := m.world.tokens.strike marks }
    events := m.events ++ marks.map fun c => .tokenFired (ts.subscribers c).length }

variable {ts : Tokens} {marks marks' : List Nat}

theorem called_append (ts : Tokens) (marks marks' : List Nat) :
    called ts (marks ++ marks') = called ts marks ++ called ts marks' := by
  simp [called]

theorem struck_struck (m : Machine P) (ts : Tokens) (marks marks' : List Nat)
    (rest rest' : List (Frame P)) :
    (m.struck ts marks rest).struck ts marks' rest' = m.struck ts (marks ++ marks') rest' := by
  simp [struck, rouse, called_append, Tokens.strike_strike]

theorem records_struck {w : Waker} (h : m.world.Records w) (ts : Tokens) (marks : List Nat)
    (rest : List (Frame P)) : (m.struck ts marks rest).world.Records w := by
  have roused := records_rouse h (called ts marks) rest
  cases w <;> exact roused

theorem leads_struck {p : Nat} {done : List Nat} (tokens : m.world.tokens = ts.strike done)
    (new : p ∉ done) (records : ∀ w ∈ ts.subscribers p, m.world.Records w) :
    ({ m with
        world := { m.world with tokens := (m.world.tokens.fire p).1 }
        agenda := .wake false (m.world.tokens.fire p).2 :: .children p :: rest
        events := m.events ++ [.tokenFired (m.world.tokens.fire p).2.length] } : Machine P).Leads
      (m.struck ts [p] (.cancel (ts.childrenOf p) :: rest)) := by
  have fired : (m.world.tokens.fire p).2 = ts.subscribers p := by
    rw [Tokens.fire_subscribers, tokens, Tokens.subscribers_strike new]
  obtain ⟨whole, heirs⟩ := m.world.tokens.takeChildren_fire p
  have kept : m.world.tokens.childrenOf p = ts.childrenOf p := by
    rw [tokens, Tokens.childrenOf, Tokens.get?_strike_of_notMem new, Tokens.childrenOf]
  refine (leads_wakes rfl ?_).trans (.of_step (List.cons_ne_nil _ _) ?_)
  · intro w hw
    have quiet := records w (fired ▸ hw)
    cases w <;> exact quiet
  · have same : step (rouse
        { m with
          world := { m.world with tokens := (m.world.tokens.fire p).1 }
          agenda := .wake false (m.world.tokens.fire p).2 :: .children p :: rest
          events := m.events ++ [.tokenFired (m.world.tokens.fire p).2.length] }
        ((m.world.tokens.fire p).2.filterMap Waker.name?) (.children p :: rest)) =
        m.struck ts [p] (.cancel (ts.childrenOf p) :: rest) := by
      simp [step, rouse, perform, push, struck, called, whole, heirs, kept, fired]
    rw [same]
    exact .refl _

theorem leads_past {passed cs done : List Nat} (tokens : m.world.tokens = ts.strike done)
    (agenda : m.agenda = .cancel (passed ++ cs) :: rest)
    (spared : ∀ c ∈ passed, ts.catches c ≠ true) :
    m.Leads { m with agenda := .cancel cs :: rest } := by
  induction passed generalizing m with
  | nil =>
    obtain ⟨world, agenda', script, woken, wakes, nested, events, reports⟩ := m
    obtain rfl : agenda' = _ := agenda
    exact .refl _
  | cons c passed ih =>
    obtain ⟨world, agenda', script, woken, wakes, nested, events, reports⟩ := m
    obtain rfl : agenda' = _ := agenda
    refine .of_step (by simp) ?_
    have gone : ¬(world.tokens.isAlive c && !world.tokens.isCancelled c) = true := fun catches => by
      have tokens : world.tokens = ts.strike done := tokens
      rw [tokens] at catches
      exact spared c List.mem_cons_self (Tokens.catches_strike catches)
    have same : step ⟨world, .cancel (c :: passed ++ cs) :: rest, script, woken, wakes, nested,
        events, reports⟩ = ⟨world, .cancel (passed ++ cs) :: rest, script, woken, wakes, nested,
        events, reports⟩ := if_neg gone
    rw [same]
    exact ih tokens rfl fun d hd => spared d (List.mem_cons_of_mem _ hd)

/-- A cancellation strikes the tokens that a walk through those that catch it comes to. -/
theorem leads_walk {ps : List Nat}
    (walk : Walks (fun p => (ts.childrenOf p).filter ts.catches) ps marks) {done cs : List Nat}
    (tokens : m.world.tokens = ts.strike done) (new : (done ++ marks).Nodup)
    (records : ∀ c ∈ marks, ∀ w ∈ ts.subscribers c, m.world.Records w)
    (catching : cs.filter ts.catches = ps) (agenda : m.agenda = .cancel cs :: rest) :
    m.Leads (m.struck ts marks rest) := by
  induction walk generalizing m done cs rest with
  | nil =>
    have spared : ∀ c ∈ cs, ts.catches c ≠ true := List.filter_eq_nil_iff.mp catching
    have all : m.agenda = .cancel (cs ++ []) :: rest := by rw [List.append_nil, agenda]
    refine (leads_past tokens all spared).trans (.of_step (List.cons_ne_nil _ _) ?_)
    have same : step { m with agenda := .cancel [] :: rest } = m.struck ts [] rest := by
      simp [step, perform, struck, rouse, called, Tokens.strike_nil]
    rw [same]
    exact .refl _
  | @cons p ps first others _ _ ih ih' =>
    obtain ⟨passed, cs', rfl, spared, catches, catching⟩ := List.filter_eq_cons_iff.mp catching
    have fresh : p ∉ done := fun again =>
      (List.nodup_append.mp new).2.2 p again p List.mem_cons_self rfl
    refine (leads_past tokens agenda spared).trans (.of_step (List.cons_ne_nil _ _) ?_)
    have fires : (m.world.tokens.isAlive p && !m.world.tokens.isCancelled p) = true := by
      rw [tokens]
      exact Tokens.catches_strike_of_notMem catches fresh
    have fired : step { m with agenda := .cancel (p :: cs') :: rest } =
        { m with
          world := { m.world with tokens := (m.world.tokens.fire p).1 }
          agenda := .wake false (m.world.tokens.fire p).2 :: .children p :: .cancel cs' :: rest
          events := m.events ++ [.tokenFired (m.world.tokens.fire p).2.length] } := by
      show cancelChild _ p = _
      unfold cancelChild
      exact if_pos fires
    rw [fired]
    refine (leads_struck tokens fresh (records p List.mem_cons_self)).trans ?_
    -- First all below it, and then the others.
    have one : (m.world.tokens.strike [p]) = ts.strike (done ++ [p]) := by
      rw [tokens, Tokens.strike_strike]
    have all : (m.world.tokens.strike ([p] ++ first)) = ts.strike (done ++ p :: first) := by
      rw [tokens, Tokens.strike_strike]
      rfl
    refine (ih one ?_ ?_ rfl rfl).trans ?_
    · refine new.sublist ?_
      rw [List.append_assoc, List.cons_append]
      exact ((List.sublist_append_left first others).cons_cons p).append_left done
    · exact fun c hc w hw => records_struck
        (records c (List.mem_append_left _ (List.mem_cons_of_mem _ hc)) w hw) _ _ _
    · have later := ih' (m := m.struck ts ([p] ++ first) (.cancel cs' :: rest)) all
        (by rwa [List.append_assoc])
        (fun c hc w hw => records_struck (records c (List.mem_append_right _ hc) w hw) _ _ _)
        catching rfl
      rw [struck_struck] at later ⊢
      exact later

end Machine

end Turnstile
