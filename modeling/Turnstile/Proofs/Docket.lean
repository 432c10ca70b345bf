import Turnstile.Sync
import Mathlib.Logic.Function.Basic

/-!
# The docket

What a synchronizer does, without slots, links and generations: the acquisitions that are pending,
in the order of their arrival, and the outcomes that nobody has observed yet. Every critical section
is an operation on the docket.
-/

namespace Turnstile

/-- A pending acquisition. -/
structure Petition (R : Type) where
  ticket : Nat
  request : R
  deadline : Option Time := none
  token : Option Nat := none
  waker : Option Waker := none

structure Docket (P : Policy) where
  holding : P.State
  phase : Phase := .active
  /-- First come first. -/
  pending : List (Petition P.Request) := []
  /-- The outcomes that wait to be observed, by ticket. -/
  settled : Nat → Option (P.Request × Outcome) := fun _ => none
  arrivals : Nat := 0
  awaitingEnd : List Waker := []
  /-- The wakers gathered by the present section. -/
  wakes : List Waker := []
  /-- The tickets granted by the present section, in order. -/
  granted : List Nat := []

variable {P : Policy}

/-- The longest run from the front that the policy admits one after another. -/
def Policy.admissible (P : Policy) :
    P.State → List (Petition P.Request) → List (Petition P.Request)
  | _, [] => []
  | h, e :: es =>
    if P.allows h e.request then e :: P.admissible (P.enter h e.request) es else []

/-- The holding after all of these have entered. -/
def Policy.entered (P : Policy) (h : P.State) (es : List (Petition P.Request)) : P.State :=
  es.foldl (fun h e => P.enter h e.request) h

namespace Docket

/-- A pending acquisition ends. -/
def settle (o : Outcome) (d : Docket P) (e : Petition P.Request) : Docket P :=
  { d with
    settled := Function.update d.settled e.ticket (some (e.request, o))
    wakes := d.wakes ++ e.waker.toList }

/-- Takes a ticket off the list. -/
def strike (d : Docket P) (t : Nat) : Docket P :=
  { d with pending := d.pending.filter (·.ticket ≠ t) }

/-- The outcome of a ticket has been seen. -/
def forget (d : Docket P) (t : Nat) : Docket P :=
  { d with settled := Function.update d.settled t none }

/-- Grants the longest run that the policy admits. -/
def grantRun (d : Docket P) : Docket P :=
  let es := P.admissible d.holding d.pending
  { es.foldl (settle .granted) d with
    holding := P.entered d.holding es
    pending := d.pending.drop es.length
    granted := d.granted ++ es.map (·.ticket) }

/-- Everybody who is pending gets outcome `o`. -/
def resolveAll (d : Docket P) (o : Outcome) : Docket P :=
  { d.pending.foldl (settle o) d with pending := [] }

def endDisposal (d : Docket P) : Docket P :=
  if d.phase = .disposing && P.isIdle d.holding && d.pending.isEmpty then
    { d with phase := .disposed, awaitingEnd := [], wakes := d.wakes ++ d.awaitingEnd }
  else d

/-- Interrupts everybody, if there is a reason to. -/
def evict (d : Docket P) (steal : Option Reason) : Docket P :=
  steal.elim d fun r => d.resolveAll (.interrupted r)

/-- Lets a petition enter or puts it on the list, with the next ticket. Tells the answer if it has
one at once. -/
def join (d : Docket P) (e : Petition P.Request) (zero refused : Bool) :
    Docket P × Option (Except Refusal Unit) :=
  if d.pending.isEmpty && P.allows d.holding e.request then
    ({ d with holding := P.enter d.holding e.request }, some (.ok ()))
  else if zero then (d, some (.error .timedOut))
  else if refused then (d, some (.error .cancelled))
  else
    ({ d with
        pending := d.pending ++ [{ e with ticket := d.arrivals }], arrivals := d.arrivals + 1 },
      none)

def acquire (d : Docket P) (e : Petition P.Request) (zero refused : Bool) (steal : Option Reason) :
    Docket P × Option (Except Refusal Unit) :=
  if d.phase ≠ .active then (d, some (.error .disposed)) else (d.evict steal).join e zero refused

/-- The future of a ticket is dropped. A grant that nobody saw is handed back. -/
def withdraw (d : Docket P) (t : Nat) : Docket P :=
  match d.settled t with
  | none => (d.strike t).grantRun.endDisposal
  | some (r, o) =>
    if o = .granted then
      { d.forget t with holding := P.release d.holding r }.grantRun.endDisposal
    else d.forget t

/-- The task that polled a pending ticket last. -/
def await (d : Docket P) (t : Nat) (waker : Waker) : Docket P :=
  { d with
    pending := d.pending.map fun e => if e.ticket = t then { e with waker := some waker } else e }

/-- The holding changes, and whoever may enter now does. -/
def give (d : Docket P) (h : P.State) : Docket P :=
  { d with holding := h }.grantRun.endDisposal

/-- Something is given back, if nothing stands against it. -/
def giveIf (d : Docket P) (f : P.State → Except Refusal P.State) :
    Docket P × Except Refusal Unit :=
  if d.phase = .disposed then (d, .error .disposed)
  else
    match f d.holding with
    | .error r => (d, .error r)
    | .ok hold => (d.give hold, .ok ())

/-- A pending acquisition's own token or deadline has fired. -/
def trigger (d : Docket P) (e : Petition P.Request) (o : Outcome) : Docket P :=
  (settle o (d.strike e.ticket) e).grantRun

def dispose (d : Docket P) : Docket P :=
  if d.phase ≠ .active then d else ({ d with phase := .disposing }.resolveAll .disposed).endDisposal

/-! ## Granting -/

theorem foldl_settle_fields (o : Outcome) (es : List (Petition P.Request)) (d : Docket P) :
    (es.foldl (settle o) d).holding = d.holding ∧ (es.foldl (settle o) d).phase = d.phase ∧
      (es.foldl (settle o) d).pending = d.pending ∧
      (es.foldl (settle o) d).arrivals = d.arrivals ∧
      (es.foldl (settle o) d).awaitingEnd = d.awaitingEnd ∧
      (es.foldl (settle o) d).granted = d.granted := by
  induction es generalizing d with
  | nil => exact ⟨rfl, rfl, rfl, rfl, rfl, rfl⟩
  | cons e es ih => exact ih (settle o d e)

theorem foldl_settle_settled (o : Outcome) (es : List (Petition P.Request)) (d : Docket P)
    (hnd : (es.map (·.ticket)).Nodup) (t : Nat) :
    (es.foldl (settle o) d).settled t =
      ((es.find? (·.ticket = t)).map fun e => (e.request, o)).or (d.settled t) := by
  induction es generalizing d with
  | nil => rfl
  | cons e es ih =>
    rw [List.map_cons, List.nodup_cons] at hnd
    rw [List.foldl_cons, ih _ hnd.2]
    by_cases he : e.ticket = t
    · subst he
      have : es.find? (·.ticket = e.ticket) = none := by
        rw [List.find?_eq_none]
        intro x hx hxe
        exact hnd.1 (List.mem_map.mpr ⟨x, hx, by simpa using hxe⟩)
      simp [this, settle]
    · have : Function.update d.settled e.ticket (some (e.request, o)) t = d.settled t :=
        Function.update_of_ne (Ne.symm he) _ _
      simp [he, settle, this]

theorem foldl_settle_with (o : Outcome) (es : List (Petition P.Request)) (d : Docket P)
    (hold : P.State) (ps : List (Petition P.Request)) (g : List Nat) :
    es.foldl (settle o) { d with holding := hold, pending := ps, granted := g } =
      { es.foldl (settle o) d with holding := hold, pending := ps, granted := g } := by
  induction es generalizing d with
  | nil => rfl
  | cons e es ih => exact ih (settle o d e)

theorem resolveAll_nil (o : Outcome) (d : Docket P) (h : d.pending = []) : d.resolveAll o = d := by
  unfold resolveAll
  rw [h]
  cases d
  simp_all

theorem resolveAll_cons (o : Outcome) (d : Docket P) {e : Petition P.Request}
    {es : List (Petition P.Request)} (h : d.pending = e :: es) :
    d.resolveAll o = { settle o d e with pending := es }.resolveAll o := by
  have move := foldl_settle_with o es (settle o d e) d.holding es d.granted
  have fields := foldl_settle_fields o es (settle o d e)
  have same : { settle o d e with pending := es } =
      { settle o d e with holding := d.holding, pending := es, granted := d.granted } := rfl
  unfold resolveAll
  rw [same, h, List.foldl_cons, move]
  simp only [Docket.mk.injEq, true_and]
  exact ⟨fields.1, fields.2.2.2.2.2⟩

theorem grantRun_nil (d : Docket P) (h : d.pending = []) : d.grantRun = d := by
  unfold grantRun
  cases d
  simp_all [Policy.admissible, Policy.entered]

theorem grantRun_blocked (d : Docket P) {e : Petition P.Request} {es : List (Petition P.Request)}
    (h : d.pending = e :: es) (he : P.allows d.holding e.request = false) : d.grantRun = d := by
  unfold grantRun
  cases d
  simp_all [Policy.admissible, Policy.entered]

/-- The first of the line is granted. -/
def grantHead (d : Docket P) (e : Petition P.Request) (es : List (Petition P.Request)) : Docket P :=
  { settle .granted d e with
    holding := P.enter d.holding e.request, pending := es, granted := d.granted ++ [e.ticket] }

theorem grantRun_cons (d : Docket P) {e : Petition P.Request} {es : List (Petition P.Request)}
    (h : d.pending = e :: es) (he : P.allows d.holding e.request = true) :
    d.grantRun = (d.grantHead e es).grantRun := by
  have step : P.admissible d.holding (e :: es) =
      e :: P.admissible (P.enter d.holding e.request) es := by
    rw [Policy.admissible, if_pos he]
  unfold grantRun
  rw [h, step]
  -- Settling the rest commutes with the other changes that the first grant makes.
  have move := foldl_settle_with .granted (P.admissible (P.enter d.holding e.request) es)
    (settle .granted d e) (P.enter d.holding e.request) es (d.granted ++ [e.ticket])
  simp only [List.foldl_cons, List.length_cons, List.drop_succ_cons, List.map_cons, grantHead,
    Policy.entered]
  rw [move]
  simp

theorem admissible_blocked (h : P.State) (es : List (Petition P.Request)) (e : Petition P.Request)
    (rest : List (Petition P.Request)) (hr : es.drop (P.admissible h es).length = e :: rest) :
    P.allows (P.entered h (P.admissible h es)) e.request = false := by
  induction es generalizing h with
  | nil => simp at hr
  | cons x es ih =>
    unfold Policy.admissible at hr ⊢
    split at hr
    · rename_i hx
      rw [if_pos hx]
      exact ih _ hr
    · rename_i hx
      rw [if_neg hx]
      simp only [List.length_nil, List.drop_zero, List.cons.injEq] at hr
      rw [← hr.1]
      simpa [Policy.entered] using hx

theorem admissible_append_drop (h : P.State) (es : List (Petition P.Request)) :
    P.admissible h es ++ es.drop (P.admissible h es).length = es := by
  induction es generalizing h with
  | nil => rfl
  | cons x es ih =>
    unfold Policy.admissible
    split
    · simp [ih]
    · rfl

theorem admissible_sublist (h : P.State) (es : List (Petition P.Request)) :
    (P.admissible h es).Sublist es :=
  List.IsPrefix.sublist ⟨_, admissible_append_drop h es⟩

/-! ## Between sections -/

/-- What is true of a docket that nobody works on. -/
structure Rests (d : Docket P) : Prop where
  blocked : ∀ e es, d.pending = e :: es → P.allows d.holding e.request = false
  closed : d.phase ≠ .active → d.pending = []
  busy : d.phase = .disposing → P.isIdle d.holding = false

theorem grantRun_fields (d : Docket P) :
    d.grantRun.holding = P.entered d.holding (P.admissible d.holding d.pending) ∧
      d.grantRun.pending = d.pending.drop (P.admissible d.holding d.pending).length ∧
      d.grantRun.phase = d.phase ∧ d.grantRun.arrivals = d.arrivals := by
  have fields := foldl_settle_fields .granted (P.admissible d.holding d.pending) d
  exact ⟨rfl, rfl, fields.2.1, fields.2.2.2.1⟩

theorem endDisposal_fields (d : Docket P) :
    d.endDisposal.holding = d.holding ∧ d.endDisposal.pending = d.pending ∧
      d.endDisposal.settled = d.settled ∧ d.endDisposal.arrivals = d.arrivals ∧
      d.endDisposal.granted = d.granted := by
  unfold endDisposal
  split <;> exact ⟨rfl, rfl, rfl, rfl, rfl⟩

theorem resolveAll_fields (o : Outcome) (d : Docket P) :
    (d.resolveAll o).holding = d.holding ∧ (d.resolveAll o).pending = [] ∧
      (d.resolveAll o).phase = d.phase ∧ (d.resolveAll o).arrivals = d.arrivals ∧
      (d.resolveAll o).granted = d.granted := by
  have fields := foldl_settle_fields o d.pending d
  exact ⟨fields.1, rfl, fields.2.1, fields.2.2.2.1, fields.2.2.2.2.2⟩

theorem grantRun_blocks (d : Docket P) (e : Petition P.Request) (es : List (Petition P.Request))
    (h : d.grantRun.pending = e :: es) : P.allows d.grantRun.holding e.request = false := by
  obtain ⟨holding, pending, -, -⟩ := grantRun_fields d
  rw [pending] at h
  rw [holding]
  exact admissible_blocked d.holding d.pending e es h

theorem endDisposal_rests {d : Docket P}
    (blocked : ∀ e es, d.pending = e :: es → P.allows d.holding e.request = false)
    (closed : d.phase ≠ .active → d.pending = []) : d.endDisposal.Rests := by
  unfold endDisposal
  split
  · rename_i h
    simp only [Bool.and_eq_true, decide_eq_true_eq, List.isEmpty_iff] at h
    exact ⟨blocked, fun _ => h.2, fun hp => by cases hp⟩
  · rename_i h
    refine ⟨blocked, closed, fun hp => ?_⟩
    have : d.pending = [] := closed (by rw [hp]; simp)
    simpa [hp, this] using h

/-- Whatever has changed the holding or the list, granting and ending disposal put it in order. -/
theorem grantRun_endDisposal_rests {d : Docket P} (closed : d.phase ≠ .active → d.pending = []) :
    d.grantRun.endDisposal.Rests := by
  obtain ⟨-, pending, phase, -⟩ := grantRun_fields d
  refine endDisposal_rests (grantRun_blocks d) fun hp => ?_
  rw [pending, closed (by rwa [phase] at hp)]
  simp

theorem strike_closed {d : Docket P} (closed : d.phase ≠ .active → d.pending = []) (t : Nat) :
    (d.strike t).phase ≠ .active → (d.strike t).pending = [] := by
  intro hp
  simp [strike, closed hp]

section

variable {d : Docket P} {e : Petition P.Request}

theorem join_of_allowed (h : (d.pending.isEmpty && P.allows d.holding e.request) = true)
    (zero refused : Bool) :
    d.join e zero refused = ({ d with holding := P.enter d.holding e.request }, some (.ok ())) :=
  if_pos h

theorem join_of_zero (h : (d.pending.isEmpty && P.allows d.holding e.request) = false)
    (refused : Bool) : d.join e true refused = (d, some (.error .timedOut)) := by
  simp [join, h]

theorem join_of_refused (h : (d.pending.isEmpty && P.allows d.holding e.request) = false) :
    d.join e false true = (d, some (.error .cancelled)) := by
  simp [join, h]

theorem join_of_queued (h : (d.pending.isEmpty && P.allows d.holding e.request) = false)
    (ht : e.ticket = d.arrivals) :
    d.join e false false =
      ({ d with pending := d.pending ++ [e], arrivals := d.arrivals + 1 }, none) := by
  simp [join, h, ← ht]

end

theorem evict_fields (d : Docket P) (steal : Option Reason) :
    (d.evict steal).holding = d.holding ∧ (d.evict steal).phase = d.phase ∧
      (d.evict steal).arrivals = d.arrivals ∧ (d.evict steal).granted = d.granted := by
  rcases steal with _ | r
  · exact ⟨rfl, rfl, rfl, rfl⟩
  · obtain ⟨holding, -, rest⟩ := resolveAll_fields (.interrupted r) d
    exact ⟨holding, rest⟩

theorem Rests.evict {d : Docket P} (h : d.Rests) (hp : d.phase = .active) (steal : Option Reason) :
    (d.evict steal).Rests := by
  rcases steal with _ | r
  · exact h
  · obtain ⟨-, pending, phase, -⟩ := resolveAll_fields (.interrupted r) d
    refine ⟨fun e es he => ?_, fun _ => pending, fun hd => ?_⟩
    · rw [Docket.evict, Option.elim_some, pending] at he; cases he
    · rw [(evict_fields d _).2.1, hp] at hd; cases hd

theorem Rests.join {d : Docket P} (h : d.Rests) (hp : d.phase = .active) (e : Petition P.Request)
    (zero refused : Bool) : (d.join e zero refused).1.Rests := by
  unfold Docket.join
  split
  · rename_i ha
    simp only [Bool.and_eq_true, List.isEmpty_iff] at ha
    exact ⟨by simp [ha.1], by simp [hp], by simp [hp]⟩
  · rename_i ha
    split
    · exact h
    · split
      · exact h
      · refine ⟨?_, by simp [hp], by simp [hp]⟩
        intro y ys hy
        rcases hq : d.pending with _ | ⟨x, xs⟩
        · simp only [hq, List.isEmpty_nil, Bool.true_and, Bool.not_eq_true] at ha
          simp only [hq, List.nil_append, List.cons.injEq] at hy
          rw [← hy.1]
          exact ha
        · simp only [hq, List.cons_append, List.cons.injEq] at hy
          rw [← hy.1]
          exact h.blocked x xs hq

theorem Rests.forget {d : Docket P} (h : d.Rests) (t : Nat) : (d.forget t).Rests :=
  ⟨h.blocked, h.closed, h.busy⟩

theorem Rests.await {d : Docket P} (h : d.Rests) (t : Nat) (k : Waker) : (d.await t k).Rests := by
  refine ⟨?_, ?_, h.busy⟩
  · intro e es he
    simp only [Docket.await] at he
    obtain ⟨x, xs, hx, rfl, rfl⟩ := List.map_eq_cons_iff.mp he
    have := h.blocked x xs hx
    split
    · exact this
    · exact this
  · intro hp
    simp [Docket.await, h.closed hp]

theorem Rests.trigger {d : Docket P} (h : d.Rests) {e : Petition P.Request} (he : e ∈ d.pending)
    (o : Outcome) : (d.trigger e o).Rests := by
  obtain ⟨-, -, phase, -⟩ := grantRun_fields (Docket.settle o (d.strike e.ticket) e)
  have active : d.phase = .active := by
    by_contra hp
    rw [h.closed hp] at he
    cases he
  have active : (d.trigger e o).phase = .active := phase.trans active
  exact ⟨grantRun_blocks _, by simp [active], by simp [active]⟩

theorem Rests.dispose {d : Docket P} (h : d.Rests) : d.dispose.Rests := by
  unfold Docket.dispose
  split
  · exact h
  · obtain ⟨-, pending, -⟩ := resolveAll_fields .disposed { d with phase := .disposing }
    refine endDisposal_rests ?_ fun _ => pending
    intro e es he
    rw [pending] at he
    cases he

/-! ## Who stays on the list -/

/-- Nobody has joined the list, and nobody on it has changed but for its waker. -/
structure Remains (d d' : Docket P) : Prop where
  arrivals : d'.arrivals = d.arrivals
  pending : ∀ e' ∈ d'.pending, ∃ e ∈ d.pending, e.ticket = e'.ticket ∧ e.request = e'.request ∧
    e.deadline = e'.deadline ∧ e.token = e'.token

theorem Remains.of_subset {d d' : Docket P} (arrivals : d'.arrivals = d.arrivals)
    (h : d'.pending ⊆ d.pending) : d.Remains d' :=
  ⟨arrivals, fun e he => ⟨e, h he, rfl, rfl, rfl, rfl⟩⟩

theorem Remains.refl (d : Docket P) : d.Remains d := .of_subset rfl fun _ h => h

theorem Remains.trans {d e f : Docket P} (h : d.Remains e) (h' : e.Remains f) : d.Remains f := by
  refine ⟨h'.arrivals.trans h.arrivals, fun x hx => ?_⟩
  obtain ⟨y, hy, ht, hr, hd, hk⟩ := h'.pending x hx
  obtain ⟨z, hz, ht', hr', hd', hk'⟩ := h.pending y hy
  exact ⟨z, hz, ht'.trans ht, hr'.trans hr, hd'.trans hd, hk'.trans hk⟩

theorem grantRun_remains (d : Docket P) : d.Remains d.grantRun := by
  obtain ⟨-, pending, -, arrivals⟩ := grantRun_fields d
  exact .of_subset arrivals (by rw [pending]; exact List.drop_subset _ _)

theorem endDisposal_remains (d : Docket P) : d.Remains d.endDisposal := by
  obtain ⟨-, pending, -, arrivals, -⟩ := endDisposal_fields d
  exact .of_subset arrivals (by rw [pending]; exact fun _ h => h)

theorem strike_remains (d : Docket P) (t : Nat) : d.Remains (d.strike t) :=
  .of_subset rfl List.filter_sublist.subset

theorem forget_remains (d : Docket P) (t : Nat) : d.Remains (d.forget t) :=
  .of_subset rfl fun _ h => h

theorem give_remains (d : Docket P) (hold : P.State) : d.Remains (d.give hold) :=
  (show d.Remains { d with holding := hold } from .of_subset rfl fun _ h => h).trans
    ((grantRun_remains _).trans (endDisposal_remains _))

theorem giveIf_remains (d : Docket P) (f : P.State → Except Refusal P.State) :
    d.Remains (d.giveIf f).1 := by
  unfold giveIf
  split
  · exact .refl d
  · split
    · exact .refl d
    · exact give_remains d _

theorem withdraw_remains (d : Docket P) (t : Nat) : d.Remains (d.withdraw t) := by
  unfold withdraw
  split
  · exact (strike_remains d t).trans ((grantRun_remains _).trans (endDisposal_remains _))
  · split
    · exact (forget_remains d t).trans (give_remains _ _)
    · exact forget_remains d t

theorem await_remains (d : Docket P) (t : Nat) (k : Waker) : d.Remains (d.await t k) := by
  refine ⟨rfl, fun e' he' => ?_⟩
  obtain ⟨e, he, rfl⟩ := List.mem_map.mp he'
  refine ⟨e, he, ?_⟩
  split <;> exact ⟨rfl, rfl, rfl, rfl⟩

theorem trigger_remains (d : Docket P) (e : Petition P.Request) (o : Outcome) :
    d.Remains (d.trigger e o) :=
  (show d.Remains (settle o (d.strike e.ticket) e) from
    .of_subset rfl List.filter_sublist.subset).trans (grantRun_remains _)

theorem resolveAll_remains (d : Docket P) (o : Outcome) : d.Remains (d.resolveAll o) := by
  obtain ⟨-, pending, -, arrivals, -⟩ := resolveAll_fields o d
  exact .of_subset arrivals (by simp [pending])

theorem dispose_remains (d : Docket P) : d.Remains d.dispose := by
  unfold dispose
  split
  · exact .refl d
  · exact (show d.Remains { d with phase := .disposing } from .of_subset rfl fun _ h => h).trans
      ((resolveAll_remains _ _).trans (endDisposal_remains _))

theorem evict_remains (d : Docket P) (steal : Option Reason) : d.Remains (d.evict steal) := by
  rcases steal with _ | r
  · exact .refl d
  · exact resolveAll_remains d _

theorem acquire_answered {d : Docket P} {e : Petition P.Request} {zero refused : Bool}
    {steal : Option Reason} {answer : Except Refusal Unit}
    (h : (d.acquire e zero refused steal).2 = some answer) :
    d.Remains (d.acquire e zero refused steal).1 := by
  unfold acquire join at *
  split
  · exact .refl d
  · rename_i hp
    rw [if_neg hp] at h
    have remains := evict_remains d steal
    split
    · exact remains.trans (.of_subset rfl fun _ h => h)
    · rename_i ha
      rw [if_neg ha] at h
      split
      · exact remains
      · rename_i hz
        rw [if_neg hz] at h
        split
        · exact remains
        · rename_i hr
          rw [if_neg hr] at h
          cases h

theorem acquire_queued {d : Docket P} {e : Petition P.Request} {zero refused : Bool}
    {steal : Option Reason} (h : (d.acquire e zero refused steal).2 = none) :
    (d.acquire e zero refused steal).1 =
      { d.evict steal with
        pending := (d.evict steal).pending ++ [{ e with ticket := d.arrivals }]
        arrivals := d.arrivals + 1 } := by
  obtain ⟨-, -, arrivals, -⟩ := evict_fields d steal
  unfold acquire join at *
  split
  · rename_i hp
    rw [if_pos hp] at h
    cases h
  · rename_i hp
    rw [if_neg hp] at h
    split
    · rename_i ha
      rw [if_pos ha] at h
      cases h
    · rename_i ha
      rw [if_neg ha] at h
      split
      · rename_i hz
        rw [if_pos hz] at h
        cases h
      · rename_i hz
        rw [if_neg hz] at h
        split
        · rename_i hr
          rw [if_pos hr] at h
          cases h
        · rw [arrivals]

theorem acquire_zero (d : Docket P) (e : Petition P.Request) (refused : Bool)
    (steal : Option Reason) : (d.acquire e true refused steal).2 ≠ none := by
  unfold acquire join
  split
  · simp
  · split <;> simp

end Docket

end Turnstile
