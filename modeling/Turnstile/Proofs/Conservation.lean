import Turnstile.Proofs.Accounts

/-!
# Nothing is lost, nothing is held twice

The callers of a scene who give back only what they were told to have. What is out is what they have
and what their futures have not told them yet; the holding always amounts to exactly that.
-/

namespace Turnstile

variable {P : Policy}

namespace Scene

variable (A : P.Accounts)

/-- What a future has been given and has not told. -/
def unseenOf (c : Scene P) (f : Future P) : Tally :=
  match f.stage with
  | .ready (.ok _) => A.weight f.request
  | .waiting id =>
    if (c.sync.line.pool.get? id).any (·.outcome = some .granted) then A.weight f.request else 0
  | _ => 0

def unseen (c : Scene P) : Tally := (c.futures.map (c.unseenOf A)).sum

/-- What has been admitted and not given back, when the callers have `held`. -/
def outstanding (c : Scene P) (held : Tally) : Tally := held + c.unseen A

/-- Callers who have `held` give back only some of it. -/
def Honest (held : Tally) : Deed P → Prop
  | .release r => A.weight (r.getD (A.given held)) ≤ held
  | .dropGuard r => A.weight r ≤ held
  | _ => True

/-- What the callers have after a deed: they get what they are told that they have got, and lose
what they are told that they have given back. -/
def heldAfter (c : Scene P) (held : Tally) (x : Deed P) : Tally :=
  match (c.perform x).answer with
  | some (.ok _) =>
    match x with
    | .tryAcquire r => held + A.weight r
    | .poll k _ => held + c.futures[k]?.elim 0 fun f => A.weight f.request
    | .release r => held - A.weight (r.getD (A.given held))
    | .dropGuard r => held - A.weight r
    | _ => held
  | _ => held

/-- The scenes that honest callers reach from `c₀`, with what they have. -/
inductive HonestRun (c₀ : Scene P) : Scene P → Tally → Prop
  | init : HonestRun c₀ c₀ 0
  | step {c : Scene P} {held : Tally} {x : Deed P} (run : HonestRun c₀ c held)
    (honest : Honest A held x) : HonestRun c₀ (c.after x) (c.heldAfter A held x)

/-! ## What the futures have not told -/

/-- The part of it that never had to queue. -/
def ready (c : Scene P) : Tally :=
  (c.futures.map fun f => Docket.taken A f.request f.stage.result?).sum

variable {A} {c : Scene P} {d : Docket P} {L : List Nat}

theorem sum_map_filterMap (fs : List (Future P)) (g : Nat → Tally) :
    ((fs.filterMap (·.ticket)).map g).sum = (fs.map fun f => f.ticket.elim 0 g).sum := by
  induction fs with
  | nil => rfl
  | cons f fs ih =>
    rcases hf : f.ticket with _ | t
    · rw [List.filterMap_cons_none hf, ih, List.map_cons, List.sum_cons, hf]
      exact (zero_add _).symm
    · rw [List.filterMap_cons_some hf, List.map_cons, List.sum_cons, ih, List.map_cons,
        List.sum_cons, hf]
      rfl

theorem taken_result (r : P.Request) (o : Outcome) :
    Docket.taken A r (some o.result) = Docket.unheardOf A (some (r, o)) := by
  cases o <;> rfl

theorem Shows.unseen_eq (h : c.Shows d L) : c.unseen A = c.ready A + d.unheard A := by
  have each : ∀ f ∈ c.futures, c.unseenOf A f = Docket.taken A f.request f.stage.result? +
      f.ticket.elim 0 fun t => Docket.unheardOf A (d.settled t) := by
    intro f hf
    obtain ⟨k, hk⟩ := List.mem_iff_getElem?.mp hf
    have quiet : f.stage.id? = none →
        (f.ticket.elim 0 fun t => Docket.unheardOf A (d.settled t)) = 0 := by
      intro hid
      rcases ht : f.ticket with _ | t
      · rfl
      · rw [Option.elim_some, h.settled_ticket hk ht, waiter?_eq_none hk hid]
        rfl
    unfold unseenOf
    rcases hs : f.stage with r | id | _
    · rw [quiet (by rw [hs]; rfl), add_zero]
      rcases r with r | _ <;> rfl
    · obtain ⟨w, hw, hget, ht, hr⟩ := h.waiter?_eq hk hs
      rw [ht, Option.elim_some, h.settled_ticket hk ht]
      simp only [hw, Option.bind_some, hget, Option.any_some, Stage.result?, Docket.taken, zero_add,
        Waiter.verdict?, ← hr]
      rcases w.outcome with _ | o
      · rfl
      · cases o <;> rfl
    · rw [quiet (by rw [hs]; rfl)]
      rfl
  unfold unseen ready Docket.unheard
  rw [List.map_congr_left each, List.sum_map_add, ← h.tickets, sum_map_filterMap]

/-! ## One deed -/

theorem heldAfter_tryAcquire (held : Tally) (r : P.Request) :
    c.heldAfter A held (.tryAcquire r) =
      held + Docket.taken A r (c.perform (.tryAcquire r)).answer := by
  unfold heldAfter Docket.taken
  rcases (c.perform (.tryAcquire r)).answer with _ | _ | _ <;> simp

theorem heldAfter_poll (held : Tally) {k : Nat} {f : Future P} (hk : c.futures[k]? = some f)
    (waker : Waker) :
    c.heldAfter A held (.poll k waker) =
      held + Docket.taken A f.request (c.perform (.poll k waker)).answer := by
  unfold heldAfter Docket.taken
  rcases (c.perform (.poll k waker)).answer with _ | _ | _ <;> simp [hk]

theorem heldAfter_release (held : Tally) (r : Option P.Request) :
    c.heldAfter A held (.release r) =
      held - Docket.taken A (r.getD (A.given held)) (c.perform (.release r)).answer := by
  unfold heldAfter Docket.taken
  rcases (c.perform (.release r)).answer with _ | _ | _ <;> simp

theorem heldAfter_dropGuard (held : Tally) (r : P.Request) :
    c.heldAfter A held (.dropGuard r) =
      held - Docket.taken A r (c.perform (.dropGuard r)).answer := by
  unfold heldAfter Docket.taken
  rcases (c.perform (.dropGuard r)).answer with _ | _ | _ <;> simp

theorem ready_append {f : Future P} {u : Scene P} (hc : u.futures = c.futures ++ [f])
    {answer : Option (Except Refusal Unit)} (hf : f.stage.result? = answer) :
    u.ready A = c.ready A + Docket.taken A f.request answer := by
  unfold ready
  rw [hc, List.map_append, List.sum_append, ← hf]
  simp

theorem ready_set {k : Nat} {f : Future P} (hk : c.futures[k]? = some f) {u : Scene P}
    (hc : u.futures = c.futures.set k { f with stage := .done }) :
    c.ready A = Docket.taken A f.request f.stage.result? + u.ready A := by
  have := sum_map_set (fun f => Docket.taken A f.request f.stage.result?)
    (y := { f with stage := .done }) hk
  unfold ready
  rw [hc, add_comm, this]
  exact (add_zero _).symm

theorem Shows.tryAcquire_balanced (h : c.Shows d L) {held : Tally}
    (hb : d.Balanced A (held + c.ready A)) (r : P.Request) :
    (d.after c (.tryAcquire r)).Balanced A
      (c.heldAfter A held (.tryAcquire r) + (c.after (.tryAcquire r)).ready A) := by
  obtain ⟨-, -, begun⟩ := Section.acquire_rests h.rests r .zero none none
  have answer : (c.perform (.tryAcquire r)).answer = _ := begun.result?_eq
  rw [heldAfter_tryAcquire, answer, add_right_comm]
  exact hb.acquire h.rests.roll.proper _ _ _ _

theorem Shows.acquire_balanced (h : c.Shows d L) {held : Tally}
    (hb : d.Balanced A (held + c.ready A)) (r : P.Request) (timeout : Timeout) (token : Option Nat)
    (steal : Option Reason) :
    (d.after c (.acquire r timeout token steal)).Balanced A
      (c.heldAfter A held (.acquire r timeout token steal) +
        (c.after (.acquire r timeout token steal)).ready A) := by
  obtain ⟨-, -, begun⟩ := Section.acquire_rests h.rests r timeout token steal
  have more := ready_append (A := A) (c := c) (u := c.after (.acquire r timeout token steal))
    (f := { request := r, timeout, token, made := c.timers.now, ticket := _, stage := _ }) rfl
    (begun.result?_eq)
  rw [more, ← add_assoc]
  exact hb.acquire h.rests.roll.proper _ _ _ _

theorem Shows.poll_balanced (h : c.Shows d L) {held : Tally} (hb : d.Balanced A (held + c.ready A))
    (k : Nat) (waker : Waker) :
    (d.after c (.poll k waker)).Balanced A
      (c.heldAfter A held (.poll k waker) + (c.after (.poll k waker)).ready A) := by
  unfold after
  rcases hk : c.futures[k]? with _ | f
  · have idle : c.waiter? k = none := by simp [waiter?, hk]
    have same : c.perform (.poll k waker) = c.unchanged := by simp [Scene.perform, hk]
    simp only [heldAfter, same, Docket.after, idle]
    exact hb
  rw [heldAfter_poll held hk]
  rcases hf : f.stage with r | id | _
  · have less := ready_set (A := A) hk (u := (c.perform (.poll k waker)).scene)
      (by rw [poll_ready hk hf]; rfl)
    have answer : (c.perform (.poll k waker)).answer = some r := by rw [poll_ready hk hf]
    rw [less, hf, Stage.result?, ← add_assoc] at hb
    simp only [answer, Docket.after, waiter?_eq_none hk (f := f) (by rw [hf]; rfl)]
    exact hb
  · obtain ⟨w, hw, hget, ht, hr⟩ := h.waiter?_eq hk hf
    rcases ho : w.outcome with _ | o
    · simp only [poll_waiting hk hf hget ho, Docket.after, hw, Waiter.isPending, ho,
        Option.isNone_none, if_true]
      exact hb.await _ _
    · have heard := hb.forget h.rests.roll.proper w.ticket
      rw [h.settled_waiter hw,
        show w.verdict? = some (f.request, o) by simp [Waiter.verdict?, ho, hr], ← taken_result,
        ready_set (A := A) hk (u := (c.perform (.poll k waker)).scene)
          (by rw [poll_resolved hk hf hget ho]; rfl), hf, add_right_comm] at heard
      have answer : (c.perform (.poll k waker)).answer = some o.result := by
        rw [poll_resolved hk hf hget ho]
      simp only [answer, Docket.after, hw, Waiter.isPending, ho, Option.isNone_some,
        Bool.false_eq_true, if_false]
      simpa [Docket.taken, Stage.result?] using heard
  · simp only [poll_done hk hf, Docket.after, waiter?_eq_none hk (f := f) (by rw [hf]; rfl)]
    show d.Balanced A (held + 0 + c.ready A)
    rwa [add_zero]

theorem Shows.drop_balanced (h : c.Shows d L) {held : Tally} (hb : d.Balanced A (held + c.ready A))
    (k : Nat) : (d.after c (.drop k)).Balanced A (held + (c.after (.drop k)).ready A) := by
  unfold after
  rcases hk : c.futures[k]? with _ | f
  · have same : c.perform (.drop k) = c.unchanged := by simp [Scene.perform, hk]
    simp only [same, Docket.after, hk]
    exact hb
  have less := ready_set (A := A) hk (u := (c.perform (.drop k)).scene) (by rw [drop_eq hk]; rfl)
  simp only [Docket.after, hk]
  rw [less] at hb
  rcases hf : f.stage with r | id | _ <;> rw [hf] at hb
  · rcases r with r | _
    · simpa [Docket.taken, Stage.result?] using hb
    · have given := hb.giveIf h.rests.roll.proper h.rests.rests.closed (r := f.request)
        (f := fun h => .ok (P.release h f.request)) (le_add_left (le_add_right (le_refl _)))
        fun _ e => (Except.ok.inj e).symm
      have back : held + (A.weight f.request + (c.perform (.drop k)).scene.ready A) -
          Docket.taken A f.request (some (d.giveIf fun h => .ok (P.release h f.request)).2) =
          held + (c.perform (.drop k)).scene.ready A := by
        by_cases hp : d.phase = .disposed
        · -- Nothing is given back after the end, but there was nothing out then.
          simp only [Docket.giveIf, if_pos hp, Docket.taken]
          funext i
          have none_out : held i + (A.weight f.request i + (c.perform (.drop k)).scene.ready A i) +
              d.unheard A i = 0 := congrFun (hb.ended hp) i
          show held i + (A.weight f.request i + _) - 0 = held i + _
          omega
        · simp only [Docket.giveIf, if_neg hp, Docket.taken]
          rw [add_left_comm, add_tsub_cancel_left]
      rw [← back]
      exact given
  · obtain ⟨w, hw, -⟩ := h.waiter?_eq hk hf
    rw [hw]
    have := hb.withdraw h.rests.roll.proper h.rests.rests.closed w.ticket
    simpa [Docket.taken, Stage.result?] using this
  · simpa [Docket.taken, Stage.result?] using hb

theorem Shows.release_balanced (h : c.Shows d L) {held : Tally}
    (hb : d.Balanced A (held + c.ready A)) {r : P.Request} (hr : A.weight r ≤ held)
    {f : P.State → Except Refusal P.State}
    (hf : ∀ hold, f d.holding = .ok hold → hold = P.release d.holding r) :
    (d.giveIf f).1.Balanced A
      (held - Docket.taken A r (some (c.inside.releaseBy f).2) + c.ready A) := by
  have answer := (Section.releaseBy_rests h.rests f).1
  have given := hb.giveIf h.rests.roll.proper h.rests.rests.closed (le_add_right hr) hf
  have le : Docket.taken A r (some (d.giveIf f).2) ≤ held := by
    rcases (d.giveIf f).2 with _ | _
    · exact fun _ => Nat.zero_le _
    · exact hr
  rwa [← tsub_add_eq_add_tsub le, ← answer] at given

theorem Shows.trigger_balanced (h : c.Shows d L) {held : Tally}
    (hb : d.Balanced A (held + c.ready A)) (slot : Nat) :
    (d.after c (.trigger slot)).Balanced A (held + c.ready A) := by
  simp only [Docket.after]
  rcases hp : c.inside.fired? slot with _ | ⟨e, o⟩
  · exact hb
  have own : o ≠ .granted := by
    rcases Petition.cause?_eq_some (Section.fired?_eq_some hp).2 with ⟨rfl, -⟩ | ⟨rfl, -⟩ <;> simp
  exact hb.trigger h.rests.roll.proper h.rests.rests.closed (h.rests.mem_of_fired hp) own

theorem Shows.balanced (h : c.Shows d L) {held : Tally} (hb : d.Balanced A (held + c.ready A))
    {x : Deed P} (honest : Honest A held x) :
    (d.after c x).Balanced A (c.heldAfter A held x + (c.after x).ready A) := by
  cases x with
  | tryAcquire r => exact h.tryAcquire_balanced hb r
  | acquire r timeout token steal => exact h.acquire_balanced hb r timeout token steal
  | poll k waker => exact h.poll_balanced hb k waker
  | drop k =>
    have : c.heldAfter A held (.drop k) = held := by
      unfold heldAfter
      split <;> rfl
    rw [this]
    exact h.drop_balanced hb k
  | release r =>
    rw [heldAfter_release]
    refine h.release_balanced hb honest fun hold e => ?_
    rcases r with _ | r
    · obtain ⟨r, hr, rfl⟩ := Section.returnedStanding_eq e
      rw [A.standing _ _ held r hb.balances (le_add_right (le_add_right (le_refl held))) honest hr]
      rfl
    · exact Section.returned_eq e
  | dropGuard r =>
    rw [heldAfter_dropGuard]
    exact h.release_balanced hb honest fun hold e => Section.returned_eq e
  | dispose => exact hb.dispose h.rests.roll.proper
  | pollDispose waker => exact ⟨hb.balances, hb.ended⟩
  | trigger slot => exact h.trigger_balanced hb slot
  | elsewhere timers tokens => exact hb

/-! ## Runs -/

theorem HonestRun.balanced {id : Nat} {holding : P.State} {warm : Nat} {retainLimit : Option Nat}
    {timers : Timers} {tokens : Tokens} (h₀ : A.Balances holding 0) {held : Tally}
    (run : HonestRun A (start id holding warm retainLimit timers tokens) c held) :
    ∃ d L, c.Shows d L ∧ d.Balanced A (held + c.ready A) := by
  induction run with
  | init =>
    refine ⟨_, _, start_shows id holding warm retainLimit timers tokens, ?_, fun hp => by cases hp⟩
    simpa [ready, start, Docket.unheard] using h₀
  | @step c held x run honest ih =>
    obtain ⟨d, L, shows, balanced⟩ := ih
    obtain ⟨L', -, next⟩ := shows.perform x
    have after := shows.balanced balanced honest
    exact ⟨_, L', next, after.balances, after.ended⟩

/-- The holding amounts to what has been admitted and not given back. -/
theorem HonestRun.balances {id : Nat} {holding : P.State} {warm : Nat} {retainLimit : Option Nat}
    {timers : Timers} {tokens : Tokens} (h₀ : A.Balances holding 0) {held : Tally}
    (run : HonestRun A (start id holding warm retainLimit timers tokens) c held) :
    A.Balances c.sync.holding (c.outstanding A held) := by
  obtain ⟨d, L, shows, balanced⟩ := run.balanced h₀
  rw [outstanding, shows.unseen_eq, ← add_assoc, ← shows.holding]
  exact balanced.balances

end Scene

/-! ## Locks, semaphores and reader/writer locks -/

def Request.tally : Request → Tally
  | .entry, .entry => 1
  | .permits n, .permit => n
  | .access .read, .read => 1
  | .access .write, .write => 1
  | _, _ => 0

namespace Holding

/-- The holding that has become of `start` while so much of it is out. -/
def Balances : Holding → Holding → Tally → Prop
  | exclusive _, exclusive held, t =>
    t .entry = held.toNat ∧ t .permit = 0 ∧ t .read = 0 ∧ t .write = 0
  | permits _ c, permits available capacity, t =>
    capacity = c ∧ available + t .permit = c ∧ t .entry = 0 ∧ t .read = 0 ∧ t .write = 0
  | access _ _, access readers writer, t =>
    t .read = readers ∧ t .write = writer.toNat ∧ (readers = 0 ∨ writer = false) ∧
      t .entry = 0 ∧ t .permit = 0
  | _, _, _ => False

/-- What somebody gives back who has this much and does not say what. -/
def given (held : Tally) : Request :=
  if held .write ≠ 0 then .access .write else if held .read ≠ 0 then .access .read else .entry

variable {start h : Holding} {t : Tally}

theorem Balances.enter (hb : Balances start h t) {r : Request} (ha : h.allows r = true) :
    Balances start (h.enter r) (t + r.tally) := by
  cases start <;> cases h <;> try exact hb.elim
  · cases r <;> simp_all [Balances, allows, Holding.enter, Request.tally]
  · cases r <;> simp_all [Balances, allows, Holding.enter, Request.tally]
    omega
  · rcases r with _ | n | _ | _ <;> simp_all [Balances, allows, Holding.enter, Request.tally]

theorem Balances.release (hb : Balances start h t) {r : Request} (hr : r.tally ≤ t) :
    Balances start (h.release r) (t - r.tally) := by
  have hentry : r.tally .entry ≤ t .entry := hr .entry
  have hpermit : r.tally .permit ≤ t .permit := hr .permit
  have hread : r.tally .read ≤ t .read := hr .read
  have hwrite : r.tally .write ≤ t .write := hr .write
  rcases start with s | ⟨a, c⟩ | ⟨n, w⟩ <;>
    rcases h with held | ⟨available, capacity⟩ | ⟨readers, writer⟩ <;> try exact hb.elim
  · have := held.toNat_le
    rcases r with _ | n | _ | _ <;> simp_all [Balances, Holding.release, Request.tally]
  · rcases r with _ | n | _ | _ <;> simp_all [Balances, Holding.release, Request.tally]
  · rcases writer with _ | _ <;> rcases r with _ | n | _ | _ <;>
      simp_all [Balances, Holding.release, Request.tally]

theorem Balances.idle (hb : Balances start h t) (hi : h.isIdle = true) : t = 0 := by
  funext s
  cases start <;> cases h <;> try exact hb.elim
  · cases s <;> simp_all [Balances, isIdle]
  · cases s <;> simp_all [Balances, isIdle]
    omega
  · cases s <;> simp_all [Balances, isIdle]

theorem Balances.standing (hb : Balances start h t) {held : Tally} {r : Request} (hl : held ≤ t)
    (hg : (given held).tally ≤ held) (hs : h.standing = some r) : r = given held := by
  have hread : held .read ≤ t .read := hl .read
  have hwrite : held .write ≤ t .write := hl .write
  have hentry : held .entry ≤ t .entry := hl .entry
  -- Whoever has neither a read nor a write gives an entry back.
  have entered : given held = .entry → 1 ≤ held .entry := fun e => by
    rw [e] at hg
    exact hg .entry
  rcases start with s | ⟨a, c⟩ | ⟨n, w⟩ <;>
    rcases h with locked | ⟨available, capacity⟩ | ⟨readers, writer⟩ <;> try exact hb.elim
  · obtain ⟨-, -, hr, hw⟩ := hb
    have : given held = .entry := by
      simp [given, show held .write = 0 by omega, show held .read = 0 by omega]
    rw [this]
    simp only [Holding.standing] at hs
    split at hs
    · exact (Option.some.inj hs).symm
    · cases hs
  · cases hs
  · obtain ⟨hr, hw, apart, he, -⟩ := hb
    have none_entered : given held ≠ .entry := fun e => by have := entered e; omega
    unfold given at none_entered ⊢
    simp only [Holding.standing, access?] at hs
    rcases writer with _ | _
    · have no_write : held .write = 0 := by simpa [hw] using hwrite
      simp only [no_write, ne_eq, not_true, if_false] at none_entered ⊢
      split at none_entered
      · rename_i hr'
        have some_read : 0 < readers := by omega
        rw [if_pos hr']
        simpa [some_read] using hs.symm
      · exact absurd rfl none_entered
    · have no_read : held .read = 0 := by simp at apart; omega
      simp only [no_read, ne_eq, not_true, if_false] at none_entered ⊢
      split at none_entered
      · rename_i hw'
        rw [if_pos hw']
        exact (Option.some.inj hs).symm
      · exact absurd rfl none_entered

end Holding

/-- The accounts of a synchronizer that starts with the holding `start`. -/
def Policy.standardAccounts (start : Holding) : Policy.standard.Accounts where
  weight := Turnstile.Request.tally
  Balances := Holding.Balances start
  given := Holding.given
  enter _ _ _ hb ha := hb.enter ha
  release _ _ _ hb hr := hb.release hr
  idle _ _ hb hi := hb.idle hi
  standing _ _ _ _ hb hl hg hs := hb.standing hl hg hs

namespace Scene

theorem balances_of_idle {h : Holding} (hi : h.isIdle = true) : Holding.Balances h h 0 := by
  rcases h with held | ⟨available, capacity⟩ | ⟨readers, writer⟩ <;>
    simp_all [Holding.Balances, Holding.isIdle]

/-- Mutual exclusion and conservation, as long as callers give back only what they have. -/
theorem holding_of_honest {h : Holding} (hi : h.isIdle = true) {id warm : Nat}
    {retainLimit : Option Nat} {timers : Timers} {tokens : Tokens} {c : Scene Policy.standard}
    {held : Tally} (run : HonestRun (Policy.standardAccounts h)
      (start id h warm retainLimit timers tokens) c held) :
    match h, c.outstanding (Policy.standardAccounts h) held with
    | .exclusive _, out => ∃ locked, c.sync.holding = .exclusive locked ∧
        (locked = true ↔ out .entry = 1) ∧ out .entry ≤ 1
    | .permits _ capacity, out => ∃ available, c.sync.holding = .permits available capacity ∧
        available + out .permit = capacity
    | .access _ _, out => ∃ readers writer, c.sync.holding = .access readers writer ∧
        readers = out .read ∧ (writer = true ↔ out .write = 1) ∧ out .write ≤ 1 ∧
        (out .write = 0 ∨ out .read = 0) := by
  have balances : Holding.Balances h c.sync.holding _ := run.balances (balances_of_idle hi)
  rcases h with _ | ⟨_, capacity⟩ | ⟨_, _⟩ <;>
    rcases hc : c.sync.holding with locked | _ | ⟨readers, writer⟩ <;>
    rw [hc] at balances <;> try exact balances.elim
  · obtain ⟨entry, -⟩ := balances
    refine ⟨locked, rfl, ?_, ?_⟩
    · rw [entry, Bool.toNat_eq_one]
    · rw [entry]
      exact locked.toNat_le
  · obtain ⟨rfl, total, -⟩ := balances
    exact ⟨_, rfl, total⟩
  · obtain ⟨read, write, apart, -⟩ := balances
    refine ⟨readers, writer, rfl, read.symm, ?_, ?_, ?_⟩
    · rw [write, Bool.toNat_eq_one]
    · rw [write]
      exact writer.toNat_le
    · rw [read, write, Bool.toNat_eq_zero]
      exact apart.symm

/-- A reader leaves, and the writer that waited has it before it knows. -/
theorem holding_of_honest_handover :
    ∃ held readers writer,
      let c : Scene Policy.standard := (start 0 (Holding.access 0 false) 0 none {} {}).run
        [.tryAcquire (Request.access .read), .acquire (Request.access .write) .forever none none,
          .release (some (Request.access .read))]
      let out := c.outstanding (Policy.standardAccounts (.access 0 false)) held
      c.sync.holding = Holding.access readers writer ∧ readers = out .read ∧
        (writer = true ↔ out .write = 1) ∧ out .write ≤ 1 ∧ (out .write = 0 ∨ out .read = 0) := by
  have entered := HonestRun.step (A := Policy.standardAccounts (.access 0 false))
    (x := .tryAcquire (Request.access .read))
    (.init : HonestRun _ (start 0 (Holding.access 0 false) 0 none {} {}) _ _) trivial
  have queued := entered.step (x := .acquire (Request.access .write) .forever none none) trivial
  have left := queued.step (x := .release (some (Request.access .read)))
    fun i => by cases i <;> decide
  exact ⟨_, holding_of_honest (h := .access 0 false) rfl left⟩

end Scene

end Turnstile
