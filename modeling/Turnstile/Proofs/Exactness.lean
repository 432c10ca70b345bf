import Turnstile.Proofs.Leases
import Turnstile.Proofs.Reports
import Turnstile.Proofs.Spreading

/-!
# A cancellation is exact

A cancellation by the script marks what lives below its token and has not been cancelled yet, and
nothing else. It calls those who keep a registration there, each once, and nobody else.
-/

namespace Turnstile

variable {P : Policy}

/-! ## Subscribers -/

namespace Tokens

variable {ts : Tokens} {kept : List Registration} {marks : List Nat} {i : Nat} {r : Registration}

/-- The waker that is subscribed under a registration. -/
def heard? (ts : Tokens) (r : Registration) : Option Waker :=
  (ts.listener? r.token r.slot).bind (·.waker)

/-- The registrations under which wakers are subscribed to a token, in the order of their slots. -/
def subscriptions (ts : Tokens) (i : Nat) : List Registration :=
  (List.range ((ts.get? i).elim 0 (·.listeners.slots.size))).filterMap fun n =>
    (ts.listener? i n).bind fun s => s.waker.map fun _ => ⟨i, n, s.generation⟩

theorem subscriptions_eq (ts : Tokens) (i : Nat) :
    ts.subscriptions i = ts.gather (·.waker.isSome) i := by
  refine List.filterMap_congr fun n _ => ?_
  rcases ts.listener? i n with _ | ⟨generation, _ | w, occupied⟩ <;> rfl

theorem mem_subscriptions : r ∈ ts.subscriptions i ↔ r.token = i ∧ ∃ s,
    ts.listener? i r.slot = some s ∧ s.waker.isSome ∧ s.generation = r.generation := by
  rw [subscriptions_eq]
  exact mem_gather

theorem nodup_subscriptions (ts : Tokens) (i : Nat) : (ts.subscriptions i).Nodup := by
  rw [subscriptions_eq]
  exact ts.nodup_gather _ i

theorem filterMap_subscriptions (ts : Tokens) (i : Nat) :
    (ts.subscriptions i).filterMap ts.heard? = ts.subscribers i := by
  have heard (n : Nat) :
      ((ts.listener? i n).bind fun s => s.waker.map fun _ =>
        (⟨i, n, s.generation⟩ : Registration)).bind ts.heard? =
          (ts.listener? i n).bind (·.waker) := by
    rcases hs : ts.listener? i n with _ | ⟨generation, _ | w, occupied⟩
    · rfl
    · rfl
    · simp [heard?, hs]
  unfold subscriptions subscribers
  rw [List.filterMap_filterMap, List.filterMap_congr fun n _ => heard n]
  rcases ht : ts.get? i with _ | t
  · rfl
  · have slots (n : Nat) : ts.listener? i n = t.listeners.slots.toList[n]? := by
      simp [listener?, face?, ht]
    simp only [slots, Option.elim_some, Option.map_some, Option.getD_some]
    exact filterMap_range t.listeners.slots.toList (·.waker)

theorem subscribers_perm (nodup : marks.Nodup) (distinct : kept.Nodup)
    (theirs : ∀ r ∈ kept, r.token ∈ marks → ∃ w, ts.Hears r w)
    (owned : ∀ t ∈ marks, ∀ n s w, ts.listener? t n = some s → s.waker = some w →
      ⟨t, n, s.generation⟩ ∈ kept) :
    (marks.flatMap ts.subscribers).Perm ((kept.filter (·.token ∈ marks)).filterMap ts.heard?) := by
  have all : (marks.flatMap ts.subscriptions).Perm (kept.filter (·.token ∈ marks)) := by
    refine (List.perm_ext_iff_of_nodup ?_ (distinct.filter _)).mpr fun r => ?_
    · refine List.nodup_flatMap.mpr ⟨fun t _ => ts.nodup_subscriptions t, ?_⟩
      refine nodup.imp fun {a b} apart r ha hb => apart ?_
      exact (mem_subscriptions.mp ha).1.symm.trans (mem_subscriptions.mp hb).1
    · rw [List.mem_flatMap, List.mem_filter, decide_eq_true_eq]
      constructor
      · rintro ⟨t, ht, hr⟩
        obtain ⟨rfl, s, hs, hw, generation⟩ := mem_subscriptions.mp hr
        obtain ⟨w, hw⟩ := Option.isSome_iff_exists.mp hw
        have known := owned r.token ht r.slot s w hs hw
        rw [generation] at known
        exact ⟨known, ht⟩
      · rintro ⟨hr, ht⟩
        obtain ⟨w, hears⟩ := theirs r hr ht
        exact ⟨r.token, ht, mem_subscriptions.mpr ⟨rfl, _, hears, rfl, rfl⟩⟩
  have heard := all.filterMap ts.heard?
  rw [List.filterMap_flatMap] at heard
  simpa only [filterMap_subscriptions] using heard

end Tokens

/-! ## Cancelled tokens -/

namespace World

variable {w : World P} {c : Nat}

theorem register_refuses (h : w.tokens.isCancelled c = true) (name waker : String) :
    w.register c name waker = w.reply .nothing := by
  have refused : w.tokens.register? c (.task waker) = none := by
    unfold Tokens.isCancelled at h
    unfold Tokens.register?
    rcases ht : w.tokens.get? c with _ | t
    · rfl
    · rw [ht] at h
      exact if_pos h
  unfold World.register
  rw [refused]

theorem child_born_cancelled (h : w.tokens.isCancelled c = true) (name : String) :
    (w.child c name).world.tokenNames.find? name = some w.tokens.all.size ∧
      (w.child c name).world.tokens.isCancelled w.tokens.all.size = true := by
  have born : w.child c name =
      { reply (w.nameToken (w.tokens.create.1.fire w.tokens.all.size).1 w.tokens.all.size name)
          .nothing with events := [.tokenFired 0] } := if_pos h
  rw [born]
  constructor
  · show (Names.insert _ name _).find? name = _
    rw [Names.find?_insert, if_pos rfl]
  · obtain ⟨-, -, faces, -⟩ := w.nameToken_still (w.tokens.create.1.fire w.tokens.all.size).1
      w.tokens.all.size name
    show (w.nameToken _ _ name).tokens.isCancelled _ = true
    rw [Tokens.isCancelled_of_faces faces, Tokens.isCancelled_eq_face, Tokens.face?_fire,
      if_pos rfl, Tokens.face?_create, if_pos rfl]
    rfl

end World

/-! ## Lines of descent -/

namespace Machine

variable {m₀ : Machine P} {k n t p c : Nat} {marks : List Nat}

/-- `c` descends from `p` by tokens that live. -/
def Below (m₀ : Machine P) (k : Nat) : Nat → Nat → Prop :=
  Relation.ReflTransGen fun p c =>
    (p, c) ∈ m₀.lineage k ∧ (step^[k] m₀).world.tokens.isAlive c = true

/-- The children of `p` that live and have not been cancelled, in the order of their birth. -/
def offspring (m₀ : Machine P) (k p : Nat) : List Nat :=
  (heirs (m₀.lineage k) p).filter (step^[k] m₀).world.tokens.catches

theorem Fresh.lineage_sorted (fresh : m₀.Fresh) (n : Nat) :
    (m₀.lineage n).Pairwise (fun e e' => e.2 < e'.2) ∧ ∀ p c, (p, c) ∈ m₀.lineage n → p < c := by
  induction n with
  | zero => exact ⟨.nil, nofun⟩
  | succ n ih =>
    rw [lineage_add, show (step^[n] m₀).lineage 1 = (step^[n] m₀).bears?.toList from
      List.append_nil _]
    have rooted := fresh.rooted n
    have bears (p c : Nat) (h : (p, c) ∈ (step^[n] m₀).bears?.toList) :
        p < c ∧ c = (step^[n] m₀).world.tokens.all.size := by
      obtain ⟨s, -, hs⟩ := Option.bind_eq_some_iff.mp (Option.mem_toList.mp h)
      cases s with
      | child token name =>
        obtain ⟨q, named, pair⟩ := Option.map_eq_some_iff.mp hs
        obtain ⟨rfl, rfl⟩ := Prod.mk.inj pair
        exact ⟨Tokens.lt_size_of_isAlive
          (rooted.isAlive (List.mem_append_left _ (World.mem_named named))), rfl⟩
      | _ => cases hs
    constructor
    · refine List.pairwise_append.mpr ⟨ih.1, ?_, fun e he e' he' => ?_⟩
      · rcases (step^[n] m₀).bears? with _ | e
        · exact .nil
        · exact List.pairwise_singleton _ _
      · rw [(bears e'.1 e'.2 he').2]
        exact (rooted.known e.1 e.2 he).2
    · intro p c h
      rcases List.mem_append.mp h with h | h
      · exact ih.2 p c h
      · exact (bears p c h).1

theorem Fresh.wooded (fresh : m₀.Fresh) (k : Nat) : Wooded (m₀.offspring k) := by
  obtain ⟨sorted, older⟩ := fresh.lineage_sorted k
  have born {p c : Nat} (h : c ∈ m₀.offspring k p) : (p, c) ∈ m₀.lineage k :=
    mem_heirs.mp (List.mem_filter.mp h).1
  refine ⟨fun p c h => older p c (born h), fun p q c hp hq => ?_, fun p => ?_⟩
  · have distinct : ((m₀.lineage k).map Prod.snd).Nodup :=
      (List.pairwise_map.mpr sorted).imp Nat.ne_of_lt
    exact congrArg Prod.fst (List.inj_on_of_nodup_map distinct (born hp) (born hq) rfl)
  · refine List.Nodup.filter _ ?_
    exact (List.pairwise_map.mpr (sorted.filter _)).imp Nat.ne_of_lt

theorem Fresh.settled (fresh : m₀.Fresh) (idle : (step^[k] m₀).agenda = [])
    (hp : (step^[k] m₀).world.tokens.isCancelled p = true) (below : m₀.Below k p c) :
    (step^[k] m₀).world.tokens.isCancelled c = true := by
  induction below with
  | refl => exact hp
  | tail _ edge ih => exact (fresh.rooted k).passed_of_idle idle edge.1 edge.2 ih

theorem Fresh.reaches_iff (fresh : m₀.Fresh) (idle : (step^[k] m₀).agenda = [])
    (free : (step^[k] m₀).world.tokens.isCancelled t = false) :
    Reaches (m₀.offspring k) t c ↔
      m₀.Below k t c ∧ (step^[k] m₀).world.tokens.isCancelled c = false := by
  have catches {p c : Nat} (h : c ∈ m₀.offspring k p) : (p, c) ∈ m₀.lineage k ∧
      (step^[k] m₀).world.tokens.isAlive c = true ∧
      (step^[k] m₀).world.tokens.isCancelled c = false := by
    obtain ⟨born, catches⟩ := List.mem_filter.mp h
    obtain ⟨alive, free⟩ := Bool.and_eq_true_iff.mp catches
    exact ⟨mem_heirs.mp born, alive, by simpa using free⟩
  constructor
  · intro reaches
    induction reaches with
    | refl => exact ⟨.refl, free⟩
    | tail _ edge ih =>
      obtain ⟨born, alive, free⟩ := catches edge
      exact ⟨.tail ih.1 ⟨born, alive⟩, free⟩
  · rintro ⟨below, hc⟩
    induction below with
    | refl => exact .refl
    | @tail b c _ edge ih =>
      have lit : (step^[k] m₀).world.tokens.isCancelled b = false := by
        by_contra hb
        rw [(fresh.rooted k).passed_of_idle idle edge.1 edge.2 (by simpa using hb)] at hc
        cases hc
      refine .tail (ih lit) (List.mem_filter.mpr ⟨mem_heirs.mpr edge.1, ?_⟩)
      simp [Tokens.catches, edge.2, hc]

theorem Fresh.linked_offspring (fresh : m₀.Fresh)
    (free : (step^[k] m₀).world.tokens.isCancelled p = false) :
    ((step^[k] m₀).world.tokens.childrenOf p).filter (step^[k] m₀).world.tokens.catches =
      m₀.offspring k p := by
  refine ((fresh.children k p).filter _).eq_of_length_le ?_
  refine List.Subperm.length_le (((fresh.wooded k).nodup p).subperm fun c hc => ?_)
  obtain ⟨born, catches⟩ := List.mem_filter.mp hc
  have alive := (Bool.and_eq_true_iff.mp catches).1
  exact List.mem_filter.mpr ⟨(fresh.rooted k).linked p c (mem_heirs.mp born) alive free, catches⟩

/-! ## The cancellation -/

/-- What the cancellation of `t` does that the script begins after `k` steps, if it returns after
`n` steps and marks the tokens `marks`. -/
structure Cancellation (m₀ : Machine P) (k n t : Nat) (marks : List Nat) : Prop where
  returns : m₀.Returns k n
  /-- What lives below the token and has not been cancelled is marked, and nothing else is. -/
  exact : ∀ c, c ∈ marks ↔
    m₀.Below k t c ∧ (step^[k] m₀).world.tokens.isCancelled c = false
  once : marks.Nodup
  /-- A token comes before its children, and these come in the order of their birth, each with all
  that is below it. -/
  order : Walks (m₀.offspring k) (if (step^[k] m₀).world.tokens.isCancelled t then [] else [t])
    marks
  /-- Nothing else happens to the world than that the tokens are struck and the tasks are woken. -/
  world : (step^[n] m₀).world =
    { (step^[k] m₀).world with
      tokens := (step^[k] m₀).world.tokens.strike marks
      onWake := (called (step^[k] m₀).world.tokens marks).foldl Names.erase
        (step^[k] m₀).world.onWake }
  others : ∀ c ∉ marks, (step^[n] m₀).world.tokens.get? c = (step^[k] m₀).world.tokens.get? c
  report : (step^[n] m₀).reports = (step^[k] m₀).reports ++
    [{ answer := .flag (!(step^[k] m₀).world.tokens.isCancelled t)
       wakes := called (step^[k] m₀).world.tokens marks
       nested := []
       events := marks.map fun c =>
         .tokenFired ((step^[k] m₀).world.tokens.subscribers c).length
       snapshot := (step^[n] m₀).world.snapshot }]
  /-- Each waker that is subscribed to a marked token is called once, by the order of the tokens. -/
  calls : (called (step^[k] m₀).world.tokens marks).map Waker.task =
    marks.flatMap (step^[k] m₀).world.tokens.subscribers
  /-- They are those whose registrations the callers still keep. -/
  kept : (marks.flatMap (step^[k] m₀).world.tokens.subscribers).Perm
    (((registrations (step^[k] m₀).items).filter (·.token ∈ marks)).filterMap
      (step^[k] m₀).world.tokens.heard?)
  /-- From then on nobody subscribes to a marked token, and its children are born cancelled. -/
  marked : ∀ c ∈ marks, ∀ l, n ≤ l → (step^[l] m₀).world.tokens.isCancelled c = true ∧
    (step^[l] m₀).world.tokens.listenerCount c = 0 ∧
    (∀ name waker, (step^[l] m₀).world.register c name waker = (step^[l] m₀).world.reply .nothing) ∧
    ∀ name, ((step^[l] m₀).world.child c name).world.tokenNames.find? name =
        some (step^[l] m₀).world.tokens.all.size ∧
      ((step^[l] m₀).world.child c name).world.tokens.isCancelled
        (step^[l] m₀).world.tokens.all.size = true
  /-- Whatever lives below a cancelled token is cancelled, before and after. -/
  settled : ∀ l, l = k ∨ l = n → ∀ p c, (step^[l] m₀).world.tokens.isCancelled p = true →
    m₀.Below l p c → (step^[l] m₀).world.tokens.isCancelled c = true

/-- A call by the script strikes the tokens that a walk from its token comes to, and answers whether
there was one. -/
theorem leads_cancel {m : Machine P} (call : m.cancelling? = some t)
    (walk : Walks (fun p => (m.world.tokens.childrenOf p).filter m.world.tokens.catches)
      (if m.world.tokens.isCancelled t then [] else [t]) marks) (once : marks.Nodup)
    (records : ∀ c ∈ marks, ∀ w ∈ m.world.tokens.subscribers c, m.world.Records w) :
    ∃ script, m.step.Leads (({ m with script } : Machine P).struck m.world.tokens marks
      [.finish true (.flag (!m.world.tokens.isCancelled t))]) := by
  obtain ⟨idle, name, script, planned, named⟩ := cancelling?_eq_some call
  refine ⟨script, ?_⟩
  have begun : m.step = ({ m with script } : Machine P).take true (m.world.cancel t) := by
    unfold step
    rw [idle, planned]
    simp only [begin, World.start, World.lookup, named]
  rw [begun]
  -- The walk begins at the token if this call is what fires it. Otherwise it is empty.
  rcases free : m.world.tokens.isCancelled t with _ | _
  · have cancels : m.world.cancel t =
        { world := { m.world with tokens := (m.world.tokens.fire t).1 }, answer := .flag true
          wakes := (m.world.tokens.fire t).2, firing := some t
          events := [.tokenFired (m.world.tokens.fire t).2.length] } :=
      if_neg (Bool.eq_false_iff.mp free)
    have fired : ({ m with script } : Machine P).take true (m.world.cancel t) =
        { m with
          script
          world := { m.world with tokens := (m.world.tokens.fire t).1 }
          agenda := .wake false (m.world.tokens.fire t).2 :: .children t ::
            [.finish true (.flag true)]
          events := m.events ++ [.tokenFired (m.world.tokens.fire t).2.length] } := by
      rw [cancels]
      simp [take, push, report, idle]
    rw [fired]
    rw [free] at walk
    obtain ⟨first, others, hf, ho, rfl⟩ : ∃ first others,
        Walks (fun p => (m.world.tokens.childrenOf p).filter m.world.tokens.catches)
          ((m.world.tokens.childrenOf t).filter m.world.tokens.catches) first ∧
        Walks (fun p => (m.world.tokens.childrenOf p).filter m.world.tokens.catches) [] others ∧
        marks = t :: first ++ others := by
      cases walk with
      | cons hf ho => exact ⟨_, _, hf, ho, rfl⟩
    cases ho
    rw [List.append_nil] at once records ⊢
    let m₁ : Machine P := { m with script }
    have own : m₁.world.tokens = m.world.tokens.strike [] := (Tokens.strike_nil _).symm
    refine (leads_struck (m := m₁) own List.not_mem_nil (records t List.mem_cons_self)).trans ?_
    have below := leads_walk
      (m := m₁.struck m.world.tokens [t]
        (.cancel (m.world.tokens.childrenOf t) :: [.finish true (.flag true)])) hf rfl once
      (fun c hc w hw => records_struck (m := m₁)
        (records c (List.mem_cons_of_mem _ hc) w hw) _ _ _) rfl rfl
    rw [struck_struck] at below
    exact below
  · have cancels : m.world.cancel t = m.world.reply (.flag false) := if_pos free
    rw [free] at walk
    cases walk
    rw [cancels]
    refine .of_step (List.cons_ne_nil _ _) ?_
    have same : step (({ m with script } : Machine P).take true (m.world.reply (.flag false))) =
        ({ m with script } : Machine P).struck m.world.tokens []
          [.finish true (.flag (!true))] := by
      simp [step, take, push, report, World.reply, perform, struck, rouse, called,
        Tokens.strike_nil, idle]
    rw [same]
    exact .refl _

theorem called_tasks {m : Machine P} {ts : Tokens}
    (records : ∀ c ∈ marks, ∀ w ∈ ts.subscribers c, m.world.Records w) :
    (called ts marks).map Waker.task = marks.flatMap ts.subscribers := by
  have tasks : ∀ w ∈ marks.flatMap ts.subscribers, ∃ name, w = .task name := fun w hw => by
    obtain ⟨c, hc, hw⟩ := List.mem_flatMap.mp hw
    cases w with
    | task name => exact ⟨name, rfl⟩
    | sleeper | trigger => exact (records c hc _ hw).elim
  unfold called
  generalize marks.flatMap ts.subscribers = ws at tasks
  induction ws with
  | nil => rfl
  | cons w ws ih =>
    obtain ⟨name, rfl⟩ := tasks w List.mem_cons_self
    exact congrArg _ (ih fun w hw => tasks w (List.mem_cons_of_mem _ hw))

theorem Fresh.returns_struck (fresh : m₀.Fresh) (call : (step^[k] m₀).cancelling? = some t)
    (walk : Walks (m₀.offspring k) (if (step^[k] m₀).world.tokens.isCancelled t then [] else [t])
      marks) (free : ∀ c ∈ marks, (step^[k] m₀).world.tokens.isCancelled c = false)
    (once : marks.Nodup)
    (records : ∀ c ∈ marks, ∀ w ∈ (step^[k] m₀).world.tokens.subscribers c,
      (step^[k] m₀).world.Records w) :
    ∃ n, m₀.Returns k n ∧ ∃ script, step^[n] m₀ =
      (({ step^[k] m₀ with script } : Machine P).struck (step^[k] m₀).world.tokens marks []).deliver
        true (.flag (!(step^[k] m₀).world.tokens.isCancelled t)) := by
  have linked : Walks (fun p => ((step^[k] m₀).world.tokens.childrenOf p).filter
      (step^[k] m₀).world.tokens.catches)
      (if (step^[k] m₀).world.tokens.isCancelled t then [] else [t]) marks :=
    walk.congr fun p hp => fresh.linked_offspring (free p hp)
  obtain ⟨script, leads⟩ := leads_cancel call linked once records
  obtain ⟨j, last, busy⟩ := leads.iterate
  have reached (i : Nat) : step^[i] (step^[k] m₀).step = step^[k + 1 + i] m₀ := by
    rw [← Function.iterate_succ_apply' step k m₀, ← Function.iterate_add_apply,
      Nat.add_comm i (k + 1)]
  rw [reached] at last
  have ended : step^[k + 1 + j + 1] m₀ =
      (({ step^[k] m₀ with script } : Machine P).struck (step^[k] m₀).world.tokens marks []).deliver
        true (.flag (!(step^[k] m₀).world.tokens.isCancelled t)) := by
    rw [Function.iterate_succ_apply', ← last]
    rfl
  refine ⟨k + 1 + j + 1, ⟨by omega, ?_, fun i later before => ?_⟩, script, ended⟩
  · rw [ended]
    rfl
  · obtain ⟨i, rfl⟩ := Nat.exists_eq_add_of_lt later
    rcases Nat.lt_or_ge i j with hi | hi
    · have := busy i hi
      rwa [reached, show k + 1 + i = k + i + 1 by omega] at this
    · rw [show k + i + 1 = k + 1 + j by omega, ← last]
      exact List.cons_ne_nil _ _

theorem Fresh.walk_of_call (fresh : m₀.Fresh) (call : (step^[k] m₀).cancelling? = some t) :
    ∃ marks, Walks (m₀.offspring k)
        (if (step^[k] m₀).world.tokens.isCancelled t then [] else [t]) marks ∧
      (∀ c, c ∈ marks ↔
        m₀.Below k t c ∧ (step^[k] m₀).world.tokens.isCancelled c = false) ∧
      marks.Nodup := by
  obtain ⟨idle, name, _, -, named⟩ := cancelling?_eq_some call
  have rooted := fresh.rooted k
  have lives := rooted.isAlive (List.mem_append_left _ (World.mem_named named))
  have bounded (p c : Nat) (hc : c ∈ m₀.offspring k p) :
      p < c ∧ c < (step^[k] m₀).world.tokens.all.size := by
    have born := mem_heirs.mp (List.mem_filter.mp hc).1
    exact ⟨(fresh.lineage_sorted k).2 p c born, (rooted.known p c born).2⟩
  obtain ⟨marks, walk⟩ := Walks.exists_of_bounded bounded
    (if (step^[k] m₀).world.tokens.isCancelled t then [] else [t]) fun p hp => by
      split at hp
      · cases hp
      · rw [List.mem_singleton.mp hp]
        exact Tokens.lt_size_of_isAlive lives
  refine ⟨marks, walk, fun c => ?_, (fresh.wooded k).walks_nodup walk ?_ fun p hp q hq _ => ?_⟩
  · rw [walk.mem_iff]
    rcases free : (step^[k] m₀).world.tokens.isCancelled t with _ | _
    · simpa using fresh.reaches_iff idle free
    · simp only [if_pos, List.not_mem_nil, false_and, exists_false, false_iff]
      rintro ⟨below, hc⟩
      rw [fresh.settled idle free below] at hc
      cases hc
  · split <;> simp
  · split at hp
    · cases hp
    · rename_i free
      rw [if_neg free] at hq
      rw [List.mem_singleton.mp hp, List.mem_singleton.mp hq]

theorem Fresh.subscribers_kept (fresh : m₀.Fresh) (once : marks.Nodup)
    (free : ∀ c ∈ marks, (step^[k] m₀).world.tokens.isCancelled c = false)
    (records : ∀ c ∈ marks, ∀ w ∈ (step^[k] m₀).world.tokens.subscribers c,
      (step^[k] m₀).world.Records w) :
    (marks.flatMap (step^[k] m₀).world.tokens.subscribers).Perm
      (((registrations (step^[k] m₀).items).filter (·.token ∈ marks)).filterMap
        (step^[k] m₀).world.tokens.heard?) := by
  have serves := (fresh.serves_if (n := k) fun c : False => c.elim).tokens
  refine Tokens.subscribers_perm once serves.nodup (fun r hr ht => ?_) fun c hc n s w hs hw => ?_
  · rcases serves.theirs r hr with gone | ⟨name, hears⟩
    · cases gone.symm.trans (free r.token ht)
    · exact ⟨_, hears⟩
  · have subscribed : w ∈ (step^[k] m₀).world.tokens.subscribers c := by
      rw [← Tokens.fire_subscribers]
      exact ((fresh.tended k).sound.fire c).2.2.2 n s hs w hw
    cases w with
    | task name => exact (fresh.tended k).owned c n s name hs hw
    | sleeper | trigger => exact (records c hc _ subscribed).elim

/-- A cancellation by the script is exact, if all that the subscribers of the tokens that it marks
do is to note that they are called. -/
theorem Fresh.cancellation (fresh : m₀.Fresh) (call : (step^[k] m₀).cancelling? = some t)
    (records : ∀ c, m₀.Below k t c → (step^[k] m₀).world.tokens.isCancelled c = false →
      ∀ w ∈ (step^[k] m₀).world.tokens.subscribers c, (step^[k] m₀).world.Records w) :
    ∃ n marks, m₀.Cancellation k n t marks := by
  obtain ⟨idle, name, _, -, named⟩ := cancelling?_eq_some call
  obtain ⟨marks, walk, exact, once⟩ := fresh.walk_of_call call
  have free (c : Nat) (hc : c ∈ marks) := ((exact c).mp hc).2
  have quiet (c : Nat) (hc : c ∈ marks) := records c ((exact c).mp hc).1 (free c hc)
  have alive (c : Nat) (hc : c ∈ marks) : (step^[k] m₀).world.tokens.isAlive c = true := by
    rcases ((exact c).mp hc).1.cases_tail with rfl | ⟨p, -, edge⟩
    · exact (fresh.rooted k).isAlive (List.mem_append_left _ (World.mem_named named))
    · exact edge.2
  obtain ⟨n, returns, script, ended⟩ := fresh.returns_struck call walk free once quiet
  refine ⟨n, marks, returns, exact, once, walk, ?_, fun c hc => ?_, ?_, called_tasks quiet,
    fresh.subscribers_kept once free quiet, fun c hc l later => ?_, fun l hl => ?_⟩
  · rw [ended]
    rfl
  · rw [ended]
    exact Tokens.get?_strike_of_notMem hc
  · obtain ⟨wakes, nested, events⟩ := fresh.reported idle
    rw [ended]
    simp [deliver, struck, rouse, wakes, nested, events]
  · have cancelled : (step^[l] m₀).world.tokens.isCancelled c = true := by
      refine fresh.cancelled_for_good later ?_
      rw [ended]
      show ((step^[k] m₀).world.tokens.strike marks).isCancelled c = true
      obtain ⟨u, hu, -⟩ := Tokens.get?_of_isAlive (alive c hc)
      simp [Tokens.isCancelled_strike, hc, hu]
    exact ⟨cancelled, (fresh.tended l).sound.listenerCount_of_cancelled cancelled,
      World.register_refuses cancelled, World.child_born_cancelled cancelled⟩
  · rcases hl with rfl | rfl
    · exact fun p c => fresh.settled idle
    · exact fun p c => fresh.settled returns.done

/-- A family of which one has gone, one was cancelled before and one has lost its registration. -/
def family : Machine Policy.standard :=
  ofScript (.blank .zero none false)
    [.createToken "root", .child "root" "left", .child "left" "leaf", .child "root" "right",
      .child "root" "lost", .child "lost" "orphan", .dropToken "lost",
      .register "root" "kept" "one" none, .register "leaf" "kept too" "two" none,
      .register "left" "dropped" "three" none, .drop "dropped", .cancel "right", .cancel "root"]

theorem cancellation_family : ∃ n marks, family.Cancellation 41 n 0 marks := by
  have quiet : (step^[41] family).world.onWake.entries = [] :=
    List.isEmpty_iff.mp (by decide +kernel)
  have tasks : ∀ t ∈ (step^[41] family).world.tokens.all.toList,
      ∀ w ∈ t.listeners.takeWakers.2, w.name?.isSome := by decide +kernel
  refine Fresh.cancellation ⟨.zero, none, false, _, rfl⟩ (by decide +kernel) fun c _ _ w hw => ?_
  unfold Tokens.subscribers at hw
  rcases hc : (step^[41] family).world.tokens.get? c with _ | t
  · rw [hc] at hw
    cases hw
  · rw [hc] at hw
    have known : t ∈ (step^[41] family).world.tokens.all.toList :=
      Array.mem_toList_iff.mpr (Array.mem_of_getElem? hc)
    cases w with
    | task name =>
      intro steps hsteps
      rw [Names.find?, quiet] at hsteps
      cases hsteps
    | sleeper | trigger => cases tasks t known _ hw

end Machine

end Turnstile
