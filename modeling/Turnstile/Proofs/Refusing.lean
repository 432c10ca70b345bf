import Turnstile.Proofs.Estate
import Turnstile.Proofs.Watch

/-!
# Calls that fail

A call that fails has looked and gone away again: the line was in order before, so to put it in order
first changes nothing, and whatever such a call has taken it gives back.
-/

namespace Turnstile

variable {P : Policy}

/-! ## Sections -/

namespace Section

variable {s : Section P} {d : Docket P} {L : List Nat} {request : P.Request} {timeout : Timeout}
  {token : Option Nat} {steal : Option Reason}

theorem enqueue_waits (s : Section P) (request : P.Request) (timeout : Timeout)
    {token : Option Nat} (taken : token.any s.tokens.refuses = false) :
    ∃ id, (s.enqueue request timeout token).2 = .waiting id := by
  obtain ⟨tokens, r, subscribed, -⟩ :=
    subscribe?_eq_some taken (.trigger s.sync.id s.sync.line.pool.rent.2.slot)
  unfold enqueue
  dsimp only
  rw [subscribed]
  exact ⟨_, rfl⟩

theorem Rests.acquire_cases (h : s.Rests d L) (request : P.Request) (timeout : Timeout)
    (token : Option Nat) (kept : steal = none ∨ s.sync.phase ≠ .active) :
    (s.acquire request timeout token steal).2 = .ready (.ok ()) ∨
      (timeout.isZero = false ∧ ∃ id, (s.acquire request timeout token steal).2 = .waiting id) ∨
      ∃ r, s.acquire request timeout token steal = (s, .ready (.error r)) := by
  unfold acquire
  by_cases active : s.sync.phase = .active
  · obtain rfl := kept.resolve_right (not_not_intro active)
    simp only [active, ne_eq, not_true_eq_false, if_false, Option.elim_none, h.exposeHead_eq]
    split
    · exact .inl rfl
    split
    · exact .inr (.inr ⟨_, rfl⟩)
    rename_i timed
    split
    · exact .inr (.inr ⟨_, rfl⟩)
    · rename_i taken
      have waits := s.enqueue_waits request timeout (Bool.eq_false_iff.mpr taken)
      exact .inr (.inl ⟨by simpa using timed, waits⟩)
  · rw [if_pos active]
    exact .inr (.inr ⟨_, rfl⟩)

theorem releaseBy_cases (s : Section P) (f : P.State → Except Refusal P.State) :
    (s.releaseBy f).2 = .ok () ∨ ∃ r, s.releaseBy f = (s, .error r) := by
  unfold releaseBy
  split
  · exact .inr ⟨_, rfl⟩
  · split
    · exact .inr ⟨_, rfl⟩
    · exact .inl rfl

end Section

/-! ## Worlds -/

theorem Tokens.release_retain (ts : Tokens) (t : Nat) : (ts.retain t).release t = ts := by
  obtain ⟨all⟩ := ts
  refine congrArg Tokens.mk (Array.ext_getElem? fun i => ?_)
  simp only [retain, update, Array.getElem?_modify]
  split
  · rcases all[i]? with _ | u <;> rfl
  · rfl

/-- The call is refused or answers false, or its future has an error at once. -/
def Turn.Fails (t : Turn P) : Prop :=
  (∃ r, t.answer = .refused r) ∨ t.answer = .flag false ∨
    ∃ name i request lenient r,
      t.put = some (name, .acquisition i request lenient (.ready (.error r)))

/-- A call has left the synchronizers, the timers and the tokens of `w` alone, and it calls nobody.
While it lasts it holds its token. -/
structure Turn.Spares (w : World P) (t : Turn P) : Prop where
  syncs : t.world.syncs = w.syncs
  timers : t.world.timers = w.timers
  listeners : t.world.tokens.face? = w.tokens.face?
  tokens : t.held.elim t.world.tokens t.world.tokens.release = w.tokens
  wakes : t.wakes = []
  events : t.events = []
  firing : t.firing = none

theorem Turn.Spares.congr {v w : World P} {t : Turn P} (syncs : v.syncs = w.syncs)
    (timers : v.timers = w.timers) (tokens : v.tokens = w.tokens) (h : t.Spares v) : t.Spares w :=
  ⟨h.syncs.trans syncs, h.timers.trans timers, h.listeners.trans (by rw [tokens]),
    h.tokens.trans tokens, h.wakes, h.events, h.firing⟩

namespace World

variable {w : World P} {items : List (Item P)} {i : Nat}

/-- The step asks to be admitted or gives something back, and it steals from nobody. A locking future
asks when it is first polled. -/
inductive Asks (w : World P) : Step P → Prop
  | tryAcquire (object : String) (request : P.Request) : Asks w (.tryAcquire object request)
  | acquire (object name : String) (a : Acquiring P)
      (kept : a.steal = none ∨ ∀ o s, w.objects.find? object = some o → w.sync? o = some s →
        s.phase ≠ .active) : Asks w (.acquire object name a)
  | release (object : String) (request : Option P.Request) : Asks w (.release object request)
  | lock (slot waker : String) (onWake : Option (List (Step P)))
      (unasked : ∃ i request, w.slots.find? slot = some (.locking i request none)) :
      Asks w (.poll slot waker onWake)

theorem visit_same {α : Type} (w : World P) (otherwise : α) {f : Section P → Section P × α}
    (same : ∀ s, w.syncs[i]? = some s → (f (w.inside s)).1 = w.inside s) :
    (w.visit i otherwise f).world = w ∧ (w.visit i otherwise f).wakes = [] ∧
      (w.visit i otherwise f).events = [] := by
  unfold World.visit
  rcases hi : w.syncs[i]? with _ | s
  · exact ⟨rfl, rfl, rfl⟩
  · have same := same s hi
    dsimp only
    show w.outside i (f (w.inside s)).1 = w ∧ (f (w.inside s)).1.wakes = [] ∧
      (f (w.inside s)).1.events = []
    rw [same]
    exact ⟨outside_inside hi, rfl, rfl⟩

theorem spares_reply (w : World P) (answer : Answer P) : (w.reply answer).Spares w :=
  ⟨rfl, rfl, rfl, rfl, rfl, rfl, rfl⟩

theorem spares_lookup {α : Type} {names : Names α} {name : String} {f : α → Turn P}
    (found : ∀ a, names.find? name = some a → (f a).Fails → (f a).Spares w) :
    (w.lookup names name f).Fails → (w.lookup names name f).Spares w := by
  unfold lookup
  rcases ha : names.find? name with _ | a
  · exact fun _ => w.spares_reply .missing
  · exact found a ha

theorem spares_visit {α : Type} {otherwise : α} {f : Section P → Section P × α} {t : Turn P}
    (world : t.world = (w.visit i otherwise f).world) (wakes : t.wakes = (w.visit i otherwise f).wakes)
    (events : t.events = (w.visit i otherwise f).events) (held : t.held = none)
    (firing : t.firing = none)
    (same : ∀ s, w.syncs[i]? = some s → (f (w.inside s)).1 = w.inside s) : t.Spares w := by
  obtain ⟨world', wakes', events'⟩ := visit_same w otherwise same
  rw [world'] at world
  refine ⟨by rw [world], by rw [world], by rw [world], ?_, wakes.trans wakes',
    events.trans events', firing⟩
  rw [held, world]
  rfl

theorem Plays.spares_tryAcquire (h : w.Plays items) (o : Object) (request : P.Request) :
    (w.tryAcquire o request).Fails → (w.tryAcquire o request).Spares w := by
  unfold World.tryAcquire
  split
  · exact fun _ => w.spares_reply _
  dsimp only
  intro fails
  refine spares_visit rfl rfl rfl rfl rfl fun s hs => ?_
  obtain ⟨d, L, rests⟩ := h.rests hs
  rcases rests.acquire_cases request .zero none (.inl rfl) with admitted | ⟨timed, -⟩ | ⟨r, refused⟩
  · rw [visit_value, hs] at fails
    simp [Turn.Fails, ofVisit, admitted] at fails
  · cases timed
  · rw [refused]

theorem Plays.spares_startAcquisition (h : w.Plays items) (o : Object) (name : String)
    (a : Acquiring P) (timeout : Timeout) (token : Option Nat)
    (kept : a.steal = none ∨ ∀ s, w.sync? o = some s → s.phase ≠ .active) :
    (w.startAcquisition o name a timeout token).Fails →
      (w.startAcquisition o name a timeout token).Spares w ∧
        (w.startAcquisition o name a timeout token).held = none := by
  unfold World.startAcquisition
  dsimp only
  split
  · exact fun _ => ⟨⟨rfl, rfl, rfl, rfl, rfl, rfl, rfl⟩, rfl⟩
  intro fails
  refine ⟨spares_visit rfl rfl rfl rfl rfl fun s hs => ?_, rfl⟩
  obtain ⟨d, L, rests⟩ := h.rests hs
  rcases rests.acquire_cases a.request timeout token
    (kept.imp_right fun closed => closed s hs) with admitted | ⟨-, id, waits⟩ | ⟨r, refused⟩
  · rw [visit_value, hs] at fails
    simp [Turn.Fails, admitted] at fails
  · rw [visit_value, hs] at fails
    simp [Turn.Fails, waits] at fails
  · rw [refused]

theorem Plays.spares_acquire (h : w.Plays items) (o : Object) (name : String) (a : Acquiring P)
    (kept : a.steal = none ∨ ∀ s, w.sync? o = some s → s.phase ≠ .active) :
    (w.acquire o name a).Fails → (w.acquire o name a).Spares w := by
  unfold World.acquire
  dsimp only
  rcases a.token with _ | token
  · dsimp only
    split
    · exact fun _ => w.spares_reply _
    · intro fails
      obtain ⟨spares, free⟩ := h.spares_startAcquisition o name a _ none kept fails
      have tokens := spares.tokens
      rw [free] at tokens
      exact ⟨spares.syncs, spares.timers, spares.listeners, tokens, spares.wakes, spares.events,
        spares.firing⟩
  · refine spares_lookup fun t _ => ?_
    split
    · exact fun _ => w.spares_reply _
    · rename_i timeout _
      intro fails
      have holding : World.Plays { w with tokens := w.tokens.retain t } items :=
        h.mono rfl fun _ => .refl _
      obtain ⟨spares, free⟩ := holding.spares_startAcquisition o name a timeout (some t) kept fails
      have tokens := spares.tokens
      rw [free, Option.elim_none] at tokens
      refine ⟨spares.syncs, spares.timers, spares.listeners.trans (face?_retain w.tokens t), ?_,
        spares.wakes, spares.events, spares.firing⟩
      exact (congrArg (·.release t) tokens).trans (w.tokens.release_retain t)

theorem spares_release (w : World P) (o : Object) (request : Option P.Request) :
    (w.release o request).Fails → (w.release o request).Spares w := by
  unfold World.release
  split
  · exact fun _ => w.spares_reply _
  dsimp only
  intro fails
  refine spares_visit rfl rfl rfl rfl rfl fun s hs => ?_
  rcases (w.inside s).releaseBy_cases (request.elim Section.returnedStanding Section.returned)
    with given | ⟨r, refused⟩
  · rw [visit_value, hs] at fails
    have given : ((w.inside s).release request).2 = .ok () := given
    simp [Turn.Fails, ofVisit, given] at fails
  · exact congrArg Prod.fst refused

theorem Plays.pending_of_acquired (h : w.Plays items) {s : Sync P} (hs : w.syncs[i]? = some s)
    {request : P.Request} {timeout : Timeout} {token : Option Nat} {steal : Option Reason}
    {id : WaiterId} (waits : ((w.inside s).acquire request timeout token steal).2 = .waiting id) :
    ∃ v, ((w.inside s).acquire request timeout token steal).1.sync.line.pool.get? id = some v ∧
      v.outcome = none := by
  obtain ⟨c, reach, rfl, -⟩ := h.scene i s hs
  obtain ⟨d, L, shows⟩ := (reach.run [.elsewhere w.timers w.tokens]).shows
  exact shows.waits_of_acquired waits

theorem Plays.inside_of_refused (h : w.Plays items) {s : Sync P} (hs : w.syncs[i]? = some s)
    {request : P.Request} {waker : Waker} {r : Refusal} :
    let begun := (w.inside s).acquire request .forever none none
    (begun.1.pollStage begun.2 waker).2.2 = some (.error r) →
      (begun.1.pollStage begun.2 waker).1 = w.inside s := by
  intro begun answer
  obtain ⟨d, L, rests⟩ := h.rests hs
  rcases rests.acquire_cases request .forever none (.inl rfl)
    with admitted | ⟨-, id, waits⟩ | ⟨r', refused⟩
  · simp [begun, admitted, Section.pollStage] at answer
  · obtain ⟨v, current, pending⟩ := h.pending_of_acquired hs waits
    simp [begun, waits, Section.pollStage, Section.poll, current, pending] at answer
  · simp only [begun, refused, Section.pollStage]

theorem refused_of_locked {t : Turn P} {request : P.Request} {p : Polled} {slot : String}
    (answer : t.answer = (Item.locked i request p).2)
    (put : t.put = some (slot, (Item.locked i request p).1)) (fails : t.Fails) :
    ∃ r, p.2 = some (.error r) := by
  obtain ⟨stage, _ | r | a⟩ := p
  · simp [Turn.Fails, answer, put, Item.locked] at fails
  · exact ⟨r, rfl⟩
  · simp [Turn.Fails, answer, put, Item.locked] at fails

theorem Plays.spares_lock (h : w.Plays items) {slot : String} {waker : Waker} {request : P.Request}
    (unasked : w.slots.find? slot = some (.locking i request none)) :
    (w.poll slot waker).Fails → (w.poll slot waker).Spares w := by
  unfold World.poll World.lookup
  rw [unasked]
  intro fails
  obtain ⟨r, refused⟩ := refused_of_locked rfl rfl fails
  rw [visit_value] at refused
  refine Turn.Spares.congr (v := { w with slots := w.slots.erase slot }) rfl rfl rfl ?_
  refine spares_visit rfl rfl rfl rfl rfl fun s hs => ?_
  rw [show ({ w with slots := w.slots.erase slot } : World P).syncs[i]? = some s from hs] at refused
  exact h.inside_of_refused hs refused

theorem Plays.spares (h : w.Plays items) {s : Step P} (asks : w.Asks s) :
    (w.start s).Fails → (w.start s).Spares w := by
  cases asks with
  | tryAcquire object request => exact spares_lookup fun o _ => h.spares_tryAcquire o request
  | acquire object name a kept =>
    exact spares_lookup fun o ho =>
      h.spares_acquire o name a (kept.imp_right fun closed s => closed o s ho)
  | release object request => exact spares_lookup fun o _ => w.spares_release o request
  | lock slot waker onWake unasked =>
    obtain ⟨i, request, unasked⟩ := unasked
    obtain ⟨syncs, slots⟩ := setOnWake_fields w waker onWake
    obtain ⟨timers, tokens, -⟩ := w.setOnWake_still waker onWake
    have h : (w.setOnWake waker onWake).Plays items := h.mono syncs fun _ => .refl _
    have unasked : (w.setOnWake waker onWake).slots.find? slot = some (.locking i request none) := by
      rw [slots, unasked]
    exact fun fails => (h.spares_lock unasked fails).congr syncs timers tokens

end World

namespace Machine

/-- An operation that fails in its call, other than a steal from the living, leaves every
synchronizer, timer and token as it was and wakes nobody. -/
theorem spares_of_fails {m₀ : Machine P} (fresh : m₀.Fresh) {n : Nat} {s : Step P}
    (asks : (step^[n] m₀).world.Asks s) (fails : ((step^[n] m₀).world.start s).Fails) :
    ((step^[n] m₀).world.start s).Spares (step^[n] m₀).world :=
  (fresh.plays n).spares asks fails

/-- One holds a permit, two wait for it, and the second of them has just been cancelled. Its node is
still in line. -/
def refusals : Machine Policy.standard :=
  ofScript (.blank .zero none false)
    [.create "gate" true (Holding.permits 1 1) {}, .createToken "stop",
      .acquire "gate" "first" { request := Request.permits 1, timeout := .ok .forever },
      .acquire "gate" "second" { request := Request.permits 1, timeout := .ok (.after 5) },
      .acquire "gate" "third"
        { request := Request.permits 1, timeout := .ok .forever, token := some "stop" },
      .cancel "stop"]

/-- Behind them another one comes with the cancelled token. -/
theorem spares_of_fails_cancelled :
    let w := (step^[26] refusals).world
    let s : Step Policy.standard := .acquire "gate" "fourth"
      { request := Request.permits 1, timeout := .ok .forever, token := some "stop" }
    w.Asks s ∧ (w.start s).Fails ∧ (w.start s).Spares w := by
  intro w s
  have asks : w.Asks s := .acquire _ _ _ (.inl rfl)
  have fails : (w.start s).Fails :=
    .inr (.inr ⟨"fourth", 0, Request.permits 1, false, .cancelled, rfl⟩)
  exact ⟨asks, fails, spares_of_fails ⟨.zero, none, false, _, rfl⟩ asks fails⟩

end Machine

end Turnstile
