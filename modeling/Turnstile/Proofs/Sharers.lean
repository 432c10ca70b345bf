import Turnstile.Proofs.Cancelling

/-!
# Those who share a token

A cancellation wakes those who wait with the token one after another, and then cancels the children of
the token. Whoever is still pending when its wake comes is cancelled, so when the children's turn
comes nobody waits with the token any more.
-/

namespace Turnstile

variable {P : Policy}

namespace Machine

variable {m m' : Machine P} {f : Frame P} {rest : List (Frame P)} {w₀ : World P} {t : Nat}

/-! ## One cancellation -/

/-- Token `t` has fired, and those who wait with it are woken. -/
structure Firing (w₀ : World P) (t : Nat) (m : Machine P) : Prop where
  agenda : ∃ F answer, m.agenda = F ++ [.children t, .finish true answer] ∧
    ∀ f ∈ F, f.rouses = true
  thins : w₀.Thins t m.world
  /-- No other waiter is to be woken. -/
  aims : ∀ p ∈ targets m.due, ∀ a, m.world.arms? p.1 p.2 = some a →
    a.registration.map (·.token) = some t

/-- All of them have been woken. -/
structure Fired (w₀ : World P) (t : Nat) (m : Machine P) : Prop where
  agenda : ∀ f ∈ m.agenda, f.cancels = true
  cleared : ∃ w, w₀.Thins t w ∧ w.Free t ∧ w.Keeps m.world

theorem Fired.step (h : m.Fired w₀ t) (tame : m.world.Tame) (idle : m.next? = none) :
    m.step.Fired w₀ t := by
  obtain ⟨w, thins, free, keeps⟩ := h.cleared
  obtain ⟨agenda, later⟩ := step_of_cancels h.agenda tame idle
  exact ⟨agenda, w, thins, free, keeps.trans later⟩

theorem free_of_children {answer : Answer P} (tame : m.world.Tame) (serves : m.watch.Serves False)
    (agenda : m.agenda = [.children t, .finish true answer])
    (cancelled : m.world.tokens.isCancelled t = true) : m.world.Free t := by
  refine tame.free fun i j a ha shares => ?_
  obtain ⟨r, hr, rfl⟩ := Option.map_eq_some_iff.mp shares
  rcases serves.tokens.armed i j a ha r hr with ⟨live, -⟩ | ⟨-, owed⟩
  · exact absurd (cancelled.symm.trans live) (by simp)
  · have nobody : attended Frame.cancelling m.agenda = [] := by
      rw [agenda, attended_idle rfl, attended_idle rfl]
      rfl
    rw [show m.watch.early = _ from nobody] at owed
    cases owed

theorem Firing.step (h : m.Firing w₀ t) (tame₀ : w₀.Tame) (tame : m.world.Tame)
    (serves : m.watch.Serves False) (cancelled : m.world.tokens.isCancelled t = true)
    (idle : m.next? = none) : m.step.Firing w₀ t ∨ m.step.Fired w₀ t := by
  obtain ⟨F, answer, agenda, rouses⟩ := h.agenda
  rcases F with _ | ⟨f, F⟩
  · right
    have all : ∀ f ∈ m.agenda, f.cancels = true := by
      rw [agenda]
      simp [Frame.cancels]
    obtain ⟨plan, keeps⟩ := step_of_cancels all tame idle
    exact ⟨plan, m.world, h.thins, free_of_children tame serves agenda cancelled, keeps⟩
  · left
    have first := rouses f List.mem_cons_self
    obtain ⟨⟨F', plan, all⟩, world⟩ := step_of_rouses agenda first idle
    obtain ⟨later, targeted, gathers⟩ := m.targets_step
    refine ⟨⟨F' ++ F, answer, plan.trans (List.append_assoc ..).symm, fun g hg => ?_⟩, ?_, ?_⟩
    · rcases List.mem_append.mp hg with hg | hg
      · exact all g hg
      · exact rouses g (List.mem_cons_of_mem _ hg)
    · rcases world with ⟨-, syncs⟩ | ⟨i, j, waking, -, world⟩
      · exact h.thins.of_syncs syncs
      · rw [world]
        refine h.thins.touch tame₀ tame cancelled fun a ha => h.aims (i, j) ?_ a ha
        rw [targeted, waking]
        exact List.mem_cons_self
    · intro p hp a ha
      rw [gathers] at hp
      rcases world with ⟨nobody, syncs⟩ | ⟨i, j, -, gathered, world⟩
      · rw [nobody] at hp
        refine h.aims p (targeted ▸ List.mem_append_right _ hp) a ?_
        rwa [World.arms?, ← syncs]
      · rw [gathered, tame.targets_trigger] at hp
        rw [world] at ha
        exact h.aims p (targeted ▸ List.mem_append_right _ hp) a (World.arms?_of_trigger ha)

theorem listener?_of_fire {ts : Tokens} {waker : Waker} (hw : waker ∈ (ts.fire t).2) :
    ∃ n l, ts.listener? t n = some l ∧ l.waker = some waker := by
  rw [Tokens.fire_wakers] at hw
  rcases hf : ts.face? t with _ | ⟨c, ls⟩
  · rw [hf] at hw
    cases hw
  · rw [hf] at hw
    obtain ⟨l, hl, same⟩ := List.mem_filterMap.mp hw
    obtain ⟨n, hn⟩ := List.getElem?_of_mem hl
    refine ⟨n, l, ?_, same⟩
    unfold Tokens.listener?
    rw [hf, Option.bind_some, ← Array.getElem?_toList]
    exact hn

theorem Cancels.firing (h : m.Cancels t) (serves : m.watch.Serves False) :
    m.step.Firing m.world t := by
  obtain ⟨world, agenda⟩ := h.begins
  refine ⟨⟨[.wake false _], _, agenda, by simp [Frame.rouses]⟩, fun i s hs => ?_, ?_⟩
  · rw [world]
    exact ⟨s, [], hs, .start t s.docket⟩
  · rintro ⟨i, j⟩ hp a ha
    have due : m.step.due = (m.world.tokens.fire t).2 := by
      rw [Machine.due, agenda]
      simp [Frame.wakers]
    rw [due] at hp
    obtain ⟨waker, hw, aim⟩ := List.mem_filterMap.mp hp
    cases waker with
    | trigger i' j' =>
      obtain ⟨rfl, rfl⟩ := Prod.mk.inj (Option.some.inj aim)
      obtain ⟨n, l, hl, same⟩ := listener?_of_fire hw
      obtain ⟨b, hb, registration⟩ := serves.tokens.owned t n l i' j' hl same
      rw [world] at ha
      obtain rfl := Option.some.inj (hb.symm.trans ha)
      rw [registration]
      rfl
    | task name => cases aim
    | sleeper => cases aim

end Machine

/-! ## Whoever shares the token -/

/-- From `s` to `s'` a cancellation of token `t` has let `e` in. The first in line shared the token and
was cancelled, and the policy admitted `e` after those before it that were let in as well. -/
structure Sync.LetsIn (s s' : Sync P) (t : Nat) (e : Petition P.Request) : Prop where
  first : ∃ f ∈ s.petitions.head?, f.token = some t ∧ f.ticket < e.ticket ∧
    s'.verdict? f.ticket = some (f.request, .cancelled)
  room : ∃ before : List (Petition P.Request), before.Sublist s.petitions ∧
    (∀ f ∈ before, f.ticket < e.ticket ∧ s'.verdict? f.ticket = some (f.request, .granted)) ∧
    P.allows (P.entered s.holding before) e.request = true

namespace Machine

variable {m : Machine P} {w₀ : World P} {t : Nat}

theorem Fresh.fired {m₀ : Machine P} (fresh : m₀.Fresh) {k n t : Nat}
    (call : (step^[k] m₀).Cancels t) (returns : m₀.Returns k n) (alone : m₀.Undisturbed k) :
    (step^[n] m₀).Fired (step^[k] m₀).world t := by
  have serves (j : Nat) : (step^[j] m₀).watch.Serves False := fresh.serves_if False.elim
  have begun : (step^[k + 1] m₀).Firing (step^[k] m₀).world t := by
    rw [Function.iterate_succ_apply']
    exact call.firing (serves k)
  have either : (step^[n] m₀).Firing (step^[k] m₀).world t ∨
      (step^[n] m₀).Fired (step^[k] m₀).world t := by
    refine returns.induct alone
      (I := fun m => m.Firing (step^[k] m₀).world t ∨ m.Fired (step^[k] m₀).world t)
      (.inl begun) fun l later _ quiet ih => ?_
    rcases ih with firing | fired
    · exact firing.step (fresh.tame k) (fresh.tame l) (serves l)
        (fresh.stays_cancelled call.call later) quiet
    · exact .inr (fired.step (fresh.tame l) quiet)
  rcases either with firing | fired
  · obtain ⟨F, answer, agenda, -⟩ := firing.agenda
    rw [returns.done] at agenda
    cases F <;> cases agenda
  · exact fired

theorem Fired.resolved (h : m.Fired w₀ t) (tame₀ : w₀.Tame) {i : Nat} {s : Sync P}
    (hs : w₀.syncs[i]? = some s) {e : Petition P.Request} (waiting : e ∈ s.petitions)
    (shares : e.token = some t) :
    ∃ s', m.world.syncs[i]? = some s' ∧
      (s'.verdict? e.ticket = some (e.request, .cancelled) ∨
        s'.verdict? e.ticket = some (e.request, .granted) ∧ s.LetsIn s' t e) := by
  obtain ⟨w, thins, free, keeps⟩ := h.cleared
  obtain ⟨u, G, hu, thin⟩ := thins i s hs
  obtain ⟨s', hs', kept⟩ := keeps i u hu
  refine ⟨s', hs', ?_⟩
  rcases thin.sharers e waiting shares with entered | waits | gone
  · right
    obtain ⟨L, rests⟩ := tame₀.rests hs
    obtain ⟨⟨f, head, token, before, gone⟩, ahead, sub, granted, allowed⟩ :=
      thin.lets_in rests.roll.sorted entered
    exact ⟨kept _ _ (thin.granted e entered), ⟨f, head, token, before, kept _ _ gone⟩, ahead, sub,
      fun g hg => ⟨(granted g hg).1, kept _ _ (granted g hg).2⟩, allowed⟩
  · exact absurd shares (free i u hu e waits)
  · exact .inl (kept _ _ gone)

/-- A cancellation by the script in which nobody begins a step returns, and then every acquisition that
was pending with the token is resolved. It is cancelled, unless the first in its line shared the token
and so made room for it before its own wake came. -/
theorem resolved_of_sharing {m₀ : Machine P} (fresh : m₀.Fresh) {k t : Nat}
    (call : (step^[k] m₀).Cancels t) (alone : m₀.Undisturbed k) :
    ∃ n, m₀.Returns k n ∧ ∀ (i : Nat) (s : Sync P), (step^[k] m₀).world.syncs[i]? = some s →
      ∀ e ∈ s.petitions, e.token = some t → ∃ s', (step^[n] m₀).world.syncs[i]? = some s' ∧
        (s'.verdict? e.ticket = some (e.request, .cancelled) ∨
          s'.verdict? e.ticket = some (e.request, .granted) ∧ s.LetsIn s' t e) := by
  obtain ⟨n, returns⟩ := fresh.returns call alone
  exact ⟨n, returns, fun i s hs e waiting shares =>
    (fresh.fired call returns alone).resolved (fresh.tame k) hs waiting shares⟩

/-- Two share a token at a semaphore with one permit left: the first wants both, the second one. -/
def sharing : Machine Policy.standard :=
  ofScript (.blank .zero none false)
    [.create "semaphore" false (.permits 2 2) {}, .tryAcquire "semaphore" (Request.permits 1),
      .createToken "token",
      .acquire "semaphore" "large"
        { request := Request.permits 2, timeout := .ok .forever, token := some "token" },
      .acquire "semaphore" "small"
        { request := Request.permits 1, timeout := .ok .forever, token := some "token" },
      .cancel "token"]

theorem sharing_cancels : (step^[19] sharing).Cancels 0 := ⟨by decide +kernel, by decide +kernel⟩

theorem sharing_returns : sharing.Returns 19 28 :=
  returns_of_isEmpty (by decide) (by decide +kernel) (by decide +kernel)

theorem sharing_undisturbed : sharing.Undisturbed 19 :=
  sharing_returns.undisturbed (by decide +kernel)

theorem sharing_small : ∃ s s' e, (step^[19] sharing).world.syncs[0]? = some s ∧
    (step^[28] sharing).world.syncs[0]? = some s' ∧ e ∈ s.petitions ∧ e.token = some 0 ∧
    s'.verdict? e.ticket = some (e.request, .granted) := by
  obtain ⟨s, hs⟩ : ∃ s, (step^[19] sharing).world.syncs[0]? = some s :=
    Option.isSome_iff_exists.mp (by decide +kernel)
  obtain ⟨s', hs'⟩ : ∃ s', (step^[28] sharing).world.syncs[0]? = some s' :=
    Option.isSome_iff_exists.mp (by decide +kernel)
  have line : (step^[19] sharing).world.syncs[0]?.map (fun s => s.petitions.map fun e =>
      (e.ticket, (e.request : Request), e.token)) =
      some [(0, .permits 2, some 0), (1, .permits 1, some 0)] := by decide +kernel
  have verdict : ((step^[28] sharing).world.syncs[0]?.bind fun s => s.verdict? 1 :
      Option (Request × Outcome)) = some (.permits 1, .granted) := by decide +kernel
  rw [hs, Option.map_some, Option.some.injEq] at line
  rw [hs'] at verdict
  have second : (1, Request.permits 1, some 0) ∈
      s.petitions.map fun e => (e.ticket, (e.request : Request), e.token) := by
    rw [line]
    exact List.mem_cons_of_mem _ List.mem_cons_self
  obtain ⟨⟨ticket, request, deadline, token, waker⟩, he, same⟩ := List.mem_map.mp second
  obtain ⟨rfl, rfl, rfl⟩ := same
  exact ⟨s, s', _, hs, hs', he, rfl, verdict⟩

theorem resolved_of_sharing_small : ∃ s s' e, (step^[19] sharing).world.syncs[0]? = some s ∧
    (step^[28] sharing).world.syncs[0]? = some s' ∧ e ∈ s.petitions ∧
    s'.verdict? e.ticket = some (e.request, .granted) ∧ s.LetsIn s' 0 e := by
  obtain ⟨s, s', e, hs, hs', he, token, granted⟩ := sharing_small
  obtain ⟨n, returns, resolved⟩ :=
    resolved_of_sharing ⟨.zero, none, false, _, rfl⟩ sharing_cancels sharing_undisturbed
  obtain rfl := returns.unique sharing_returns
  obtain ⟨u, hu, fate⟩ := resolved 0 s hs e he token
  obtain rfl := Option.some.inj (hs'.symm.trans hu)
  refine ⟨s, s', e, hs, hs', he, granted, ?_⟩
  rcases fate with cancelled | ⟨-, letsIn⟩
  · rw [granted] at cancelled
    cases cancelled
  · exact letsIn

/-- Not everybody who shares a token is cancelled with it. -/
theorem not_cancelled_of_sharing :
    ¬ ∀ m₀ : Machine Policy.standard, m₀.Fresh → ∀ k t, (step^[k] m₀).Cancels t →
      m₀.Undisturbed k → ∃ n, m₀.Returns k n ∧
        ∀ (i : Nat) s, (step^[k] m₀).world.syncs[i]? = some s → ∀ e ∈ s.petitions,
          e.token = some t → ∃ s', (step^[n] m₀).world.syncs[i]? = some s' ∧
            s'.verdict? e.ticket = some (e.request, .cancelled) := by
  intro claimed
  obtain ⟨s, s', e, hs, hs', he, token, granted⟩ := sharing_small
  obtain ⟨n, returns, resolved⟩ :=
    claimed sharing ⟨.zero, none, false, _, rfl⟩ 19 0 sharing_cancels sharing_undisturbed
  obtain rfl := returns.unique sharing_returns
  obtain ⟨u, hu, cancelled⟩ := resolved 0 s hs e he token
  obtain rfl := Option.some.inj (hs'.symm.trans hu)
  rw [granted] at cancelled
  cases cancelled

theorem entered_exclusive (es : List (Petition Policy.standard.Request)) :
    Policy.standard.entered (.exclusive true) es = Holding.exclusive true := by
  induction es with
  | nil => rfl
  | cons e es ih =>
    have held : Holding.enter (.exclusive true) e.request = .exclusive true := by
      rcases (e.request : Request) with _ | _ | _ <;> rfl
    exact (congrArg (fun h => Policy.standard.entered h es) held).trans ih

/-- Everybody who waits for a lock with the token is cancelled with it. -/
theorem cancelled_of_lock {m₀ : Machine Policy.standard} (fresh : m₀.Fresh) {k n t : Nat}
    (call : (step^[k] m₀).Cancels t) (returns : m₀.Returns k n) (alone : m₀.Undisturbed k) {i : Nat}
    {s : Sync Policy.standard} (hs : (step^[k] m₀).world.syncs[i]? = some s)
    (held : s.holding = Holding.exclusive true) {e : Petition Policy.standard.Request}
    (waiting : e ∈ s.petitions) (shares : e.token = some t) :
    ∃ s', (step^[n] m₀).world.syncs[i]? = some s' ∧
      s'.verdict? e.ticket = some (e.request, .cancelled) := by
  obtain ⟨s', hs', cancelled | ⟨-, -, before, -, -, allowed⟩⟩ :=
    (fresh.fired call returns alone).resolved (fresh.tame k) hs waiting shares
  · exact ⟨s', hs', cancelled⟩
  · rw [held, entered_exclusive] at allowed
    have refused : Holding.allows (.exclusive true) e.request = false := by
      rcases (e.request : Request) with _ | _ | _ <;> rfl
    exact absurd (allowed.symm.trans refused) (by simp)

end Machine

end Turnstile
