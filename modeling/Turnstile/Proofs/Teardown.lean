import Turnstile.Proofs.Conservation
import Turnstile.Proofs.Wakes

/-!
# The end of a synchronizer

Disposal resolves everybody in line and lets nobody enter any more. It ends in the very section that
leaves nothing held, and that section wakes whoever waits for the end.
-/

namespace Turnstile

variable {P : Policy}

namespace Docket

variable {d : Docket P}

theorem endDisposal_phase (d : Docket P) :
    d.endDisposal.phase = d.phase ∨ d.phase = .disposing ∧ d.endDisposal.phase = .disposed := by
  unfold endDisposal
  split
  · rename_i h
    simp only [Bool.and_eq_true, decide_eq_true_eq] at h
    exact .inr ⟨h.1.1, rfl⟩
  · exact .inl rfl

theorem dispose_begins (d : Docket P) : d.dispose.phase ≠ .active := by
  unfold dispose
  split
  · assumption
  · rcases endDisposal_phase ({ d with phase := .disposing }.resolveAll .disposed) with same | ended
    · rw [same, (resolveAll_fields _ _).2.2.1]
      simp
    · rw [ended.2]
      simp

theorem Becomes.phase {x : Order P} {d' : Docket P} (h : d.Becomes x d') :
    d'.phase = d.phase ∨ (d.phase = .active ∧ x = .dispose ∧ d'.phase ≠ .active) ∨
      (d.phase = .disposing ∧ d'.phase = .disposed) := by
  cases h with
  | joined _ e zero refused steal =>
    exact .inl ((join_fields _ _ _).2.1.trans (evict_fields d steal).2.1)
  | fired _ e o => exact .inl (grantRun_fields (settle o (d.strike e.ticket) e)).2.2.1
  | regranted _ e loosens =>
    rcases endDisposal_phase e.grantRun with same | ended
    · exact .inl (same.trans ((grantRun_fields e).2.2.1.trans loosens.phase))
    · have begun := (grantRun_fields e).2.2.1.symm.trans ended.1
      exact .inr (.inr ⟨loosens.phase.symm.trans begun, ended.2⟩)
  | disposed active => exact .inr (.inl ⟨active, rfl, dispose_begins d⟩)
  | _ => exact .inl rfl

theorem dispose_pending (rests : d.Rests) : d.dispose.pending = [] := by
  unfold dispose
  split
  · rename_i h
    exact rests.closed h
  · rw [(endDisposal_fields _).2.1]
    rfl

end Docket

/-- Nobody stands in line. -/
structure Sync.Deserted (s : Sync P) : Prop where
  head : s.line.head = none
  tail : s.line.tail = none
  length : s.line.length = 0
  /-- Rented or not, no waiter says that it stands there. -/
  unlinked : ∀ (i : Nat) (x : Slot P.Request) w, s.line.pool.slots[i]? = some x →
    x.waiter = some w → w.linked = false

namespace Scene

variable {c : Scene P} {d : Docket P} {L : List Nat} {k : Nat}

/-! ## Nobody enters any more -/

theorem tryAcquire_disposed (closed : c.sync.phase ≠ .active) (r : P.Request) :
    c.perform (.tryAcquire r) = { c.unchanged with answer := some (.error .disposed) } := by
  have refused : c.inside.acquire r .zero none none = (c.inside, .ready (.error .disposed)) :=
    if_pos closed
  rw [perform, refused]
  rfl

theorem acquire_disposed (closed : c.sync.phase ≠ .active) (r : P.Request) (timeout : Timeout)
    (token : Option Nat) (steal : Option Reason) :
    (c.perform (.acquire r timeout token steal)).after = c.inside ∧
      ∃ f, (c.perform (.acquire r timeout token steal)).futures = c.futures ++ [f] ∧
        f.stage = .ready (.error .disposed) := by
  have refused : c.inside.acquire r timeout token steal = (c.inside, .ready (.error .disposed)) :=
    if_pos closed
  rw [perform, refused]
  exact ⟨rfl, _, rfl, rfl⟩

/-! ## Nobody stays in line -/

theorem Shows.nobody_pending (h : c.Shows d L) (closed : c.sync.phase ≠ .active) : d.pending = [] :=
  h.rests.rests.closed (by rwa [h.phase])

theorem Shows.deserted (h : c.Shows d L) (listed : c.sync.line.pool.Listed)
    (closed : c.sync.phase ≠ .active) : c.sync.Deserted := by
  have nobody := h.nobody_pending closed
  obtain rfl : L = [] := by
    rcases L with _ | ⟨i, L⟩
    · rfl
    · obtain ⟨w, hw, ho⟩ := h.rests.fronted i rfl
      have mem := h.rests.roll.mem_pending hw (Waiter.petition?_of_pending ho)
      rw [nobody] at mem
      cases mem
  refine ⟨(Chained.head_eq h.rests.line).trans rfl, Chained.tail h.rests.line,
    Chained.length h.rests.line, fun i x w hx hw => ?_⟩
  exact Bool.eq_false_iff.mpr fun linked => by simpa using (h.linked_iff listed hx hw).1.mp linked

theorem Shows.outcome_of_dispose (h : c.Shows d L) (k : Nat) :
    (c.after .dispose).pends k = false ∧
      (c.after .dispose).outcome? k = if c.pends k then some .disposed else c.outcome? k := by
  obtain ⟨L', -, next⟩ := h.perform .dispose
  have idle : (c.after .dispose).pends k = false := by
    rw [Bool.eq_false_iff]
    intro hp
    obtain ⟨-, e, -, -, he⟩ := next.mem_of_pends hp
    have gone : (d.after c .dispose).fresh.pending = [] := Docket.dispose_pending h.rests.rests
    rw [gone] at he
    cases he
  refine ⟨idle, ?_⟩
  split
  · rename_i hp
    obtain ⟨e, he⟩ := pends_eq_true.mp hp
    have mem := h.mem_pending_iff.mpr ⟨k, he⟩
    have active : d.phase = .active := by
      by_contra closed
      rw [h.rests.rests.closed closed] at mem
      cases mem
    rw [h.outcome_of_petition (x := .dispose) he]
    show (d.dispose.settled e.ticket).map Prod.snd = _
    rw [Docket.dispose, if_neg (by simp [active]), (Docket.endDisposal_fields _).2.2.1]
    exact congrArg _ (Docket.settled_of_mem .disposed { d with phase := .disposing } h.nodup mem)
  · rename_i hp
    rcases ho : c.outcome? k with _ | o
    · rcases ho' : (c.after .dispose).outcome? k with _ | o
      · rfl
      · rcases h.outcome_after .dispose ho' with before | ⟨-, -, pends, -⟩
        · rw [ho] at before
          cases before
        · exact absurd pends hp
    · exact h.outcome_stays ho (by simp) (by simp)

/-! ## How disposal goes on -/

theorem Shows.phase_after (h : c.Shows d L) (x : Deed P) :
    (c.after x).sync.phase = c.sync.phase ∨
      (c.sync.phase = .active ∧ x = .dispose ∧ (c.after x).sync.phase ≠ .active) ∨
      (c.sync.phase = .disposing ∧ (c.after x).sync.phase = .disposed) := by
  obtain ⟨L', -, next⟩ := h.perform x
  have phase : (c.after x).sync.phase = (d.run (c.errand x)).1.phase :=
    next.phase.symm.trans (congrArg (·.phase) (h.after_eq x).1)
  rw [phase, ← h.phase, Docket.run]
  rcases ho : (c.errand x).order with _ | order
  · exact .inl rfl
  · have becomes := d.obey_becomes (c.errand x).now (c.errand x).tokens order
    rcases becomes.phase with same | ⟨active, ordered, begun⟩ | ended
    · exact .inl same
    · exact .inr (.inl ⟨active, (order_of_errand ho).2.2 ordered, begun⟩)
    · exact .inr (.inr ended)

theorem nodup_eraseDups {α : Type} [DecidableEq α] (as : List α) : as.eraseDups.Nodup := by
  induction as using List.reverseRecOn with
  | nil => exact List.nodup_nil
  | append_singleton as a ih =>
    rw [eraseDups_concat]
    split
    · exact ih
    · rename_i ha
      exact ih.append (List.nodup_singleton a) (by simpa using ha)

/-! ## Honest callers -/

/-- Callers who have `held` give back only what they have in each of the deeds. -/
def Honestly (A : P.Accounts) (c : Scene P) (held : Tally) : List (Deed P) → Prop
  | [] => True
  | x :: xs => Honest A held x ∧ (c.after x).Honestly A (c.heldAfter A held x) xs

theorem Honestly.run {A : P.Accounts} {c₀ c : Scene P} {held : Tally} (run : HonestRun A c₀ c held)
    {xs : List (Deed P)} (honest : c.Honestly A held xs) :
    ∃ held', HonestRun A c₀ (c.run xs) held' := by
  induction xs generalizing c held with
  | nil => exact ⟨held, run⟩
  | cons x xs ih => exact ih (run.step honest.1) honest.2

end Scene

theorem Holding.Balances.isIdle {start h : Holding} (hb : Balances start h 0) :
    h.isIdle = true := by
  rcases start with _ | ⟨_, capacity⟩ | ⟨_, _⟩ <;>
    rcases h with locked | ⟨available, _⟩ | ⟨readers, writer⟩ <;> try exact hb.elim
  · obtain ⟨unlocked, -⟩ := hb
    rw [Holding.isIdle, Bool.toNat_eq_zero.mp unlocked.symm]
    rfl
  · obtain ⟨rfl, total, -⟩ := hb
    exact decide_eq_true total
  · obtain ⟨rfl, unlocked, -⟩ := hb
    rw [Holding.isIdle, Bool.toNat_eq_zero.mp unlocked.symm]
    rfl

namespace Scene

variable {c : Scene P} {d : Docket P} {L : List Nat}

/-! ## The end -/

/-- What is true of a scene at every stage of its disposal. -/
structure Winding (c : Scene P) : Prop where
  /-- Once disposal has begun, whoever asks is told so, and nothing happens. -/
  refuses : c.sync.phase ≠ .active → ∀ r,
    c.perform (.tryAcquire r) = { c.unchanged with answer := some (.error .disposed) } ∧
      ∀ timeout token steal, (c.perform (.acquire r timeout token steal)).after = c.inside ∧
        ∃ f, (c.perform (.acquire r timeout token steal)).futures = c.futures ++ [f] ∧
          f.stage = .ready (.error .disposed)
  /-- Disposal ends the wait of everybody in line and changes no outcome. -/
  resolves : ∀ k, (c.after .dispose).pends k = false ∧
    (c.after .dispose).outcome? k = if c.pends k then some .disposed else c.outcome? k
  disposing : c.sync.phase = .disposing → c.sync.Deserted ∧ P.isIdle c.sync.holding = false
  disposed : c.sync.phase = .disposed → c.sync.Deserted ∧ P.isIdle c.sync.holding = true ∧
    c.sync.line.pool.idle = []
  polls : ∀ waker, (c.inside.pollDispose waker).2 = decide (c.sync.phase = .disposed)

/-- What the deed does to disposal. -/
structure Proceeds (c : Scene P) (x : Deed P) : Prop where
  phase : (c.after x).sync.phase = c.sync.phase ∨
    (c.sync.phase = .active ∧ x = .dispose ∧ (c.after x).sync.phase ≠ .active) ∨
    (c.sync.phase = .disposing ∧ (c.after x).sync.phase = .disposed)
  /-- The deed that leaves nothing held ends it. -/
  ends : c.sync.phase ≠ .active ∨ x = .dispose → P.isIdle (c.after x).sync.holding = true →
    (c.after x).sync.phase = .disposed

theorem pollDispose_answer (s : Section P) (waker : Waker) :
    (s.pollDispose waker).2 = decide (s.sync.phase = .disposed) := by
  unfold Section.pollDispose
  split
  · rename_i h
    exact (decide_eq_true h).symm
  · rename_i h
    rw [decide_eq_false h]
    split <;> rfl

theorem Shows.busy (h : c.Shows d L) (disposing : c.sync.phase = .disposing) :
    P.isIdle c.sync.holding = false := by
  rw [← h.holding]
  exact h.rests.rests.busy (h.phase.trans disposing)

theorem Shows.proceeds (h : c.Shows d L) (x : Deed P) : c.Proceeds x := by
  obtain ⟨L', -, next⟩ := h.perform x
  have phase := h.phase_after x
  refine ⟨phase, fun begun idle => ?_⟩
  have closed : (c.after x).sync.phase ≠ .active := by
    rcases begun with closed | rfl
    · rcases phase with same | ⟨active, -⟩ | ⟨-, ended⟩
      · rwa [same]
      · exact absurd active closed
      · rw [ended]
        simp
    · rw [← next.phase]
      exact Docket.dispose_begins d
  rcases hp : (c.after x).sync.phase with _ | _ | _
  · exact absurd hp closed
  · rw [next.busy hp] at idle
    cases idle
  · rfl

theorem Shows.winding (h : c.Shows d L) (listed : c.sync.line.pool.Listed)
    (idle : c.sync.phase = .disposed → P.isIdle c.sync.holding = true)
    (drained : c.sync.phase = .disposed → c.sync.line.pool.idle = []) : c.Winding where
  refuses closed r := ⟨tryAcquire_disposed closed r, acquire_disposed closed r⟩
  resolves := h.outcome_of_dispose
  disposing hp := ⟨h.deserted listed (by simp [hp]), h.busy hp⟩
  disposed hp := ⟨h.deserted listed (by simp [hp]), idle hp, drained hp⟩
  polls := pollDispose_answer c.inside

/-- Disposal of a lock, a semaphore or a reader/writer lock whose callers give back only what they
have, in any state of it, and what the next deed does to it. The deed that ends it wakes each task
that waits for the end once. -/
theorem teardown_of_honest {h : Holding} (hi : h.isIdle = true) (id warm : Nat)
    (retainLimit : Option Nat) (timers : Timers) (tokens : Tokens)
    (xs : List (Deed Policy.standard))
    (honest : (start id h warm retainLimit timers tokens).Honestly (Policy.standardAccounts h) 0 xs)
    (x : Deed Policy.standard) :
    let c₀ : Scene Policy.standard := start id h warm retainLimit timers tokens
    let c := c₀.run xs
    c.Winding ∧ c.Proceeds x ∧
      ∃ vs : List Waker, vs.Nodup ∧ (∀ w, w ∈ vs ↔ w ∈ c₀.watchers xs) ∧
        (c.perform x).after.wakes = (c.resolved x).filterMap (c₀.lastPoll · xs) ++
          if c.sync.phase ≠ .disposed ∧ (c.after x).sync.phase = .disposed then vs else [] := by
  intro c₀ c
  have h₀ := start_shows (P := Policy.standard) id h warm retainLimit timers tokens
  obtain ⟨held, run⟩ := Honestly.run (.init : HonestRun (Policy.standardAccounts h) c₀ c₀ 0) honest
  obtain ⟨d, L, shows, balanced⟩ := run.balanced (balances_of_idle hi)
  have idle (ended : c.sync.phase = .disposed) : c.sync.holding.isIdle = true := by
    have balances := balanced.balances
    rw [balanced.ended (shows.phase.trans ended), shows.holding] at balances
    exact Holding.Balances.isIdle balances
  refine ⟨shows.winding (listed_of_run id h warm retainLimit timers tokens xs) idle
    (idle_of_run id h warm retainLimit timers tokens xs), shows.proceeds x,
    (c₀.watchers xs).eraseDups, nodup_eraseDups _, fun w => List.mem_eraseDups, ?_⟩
  exact h₀.wakes_of_run rfl rfl xs x

/-- A lock is disposed while it is held and somebody waits for it. The release ends disposal and
wakes the task that waits for that, although it has asked twice. -/
theorem teardown_of_honest_release :
    let c₀ : Scene Policy.standard := start 0 (Holding.exclusive false) 0 none {} {}
    let c := c₀.run [.tryAcquire Request.entry, .acquire Request.entry .forever none none,
      .poll 0 (.task "queued"), .dispose, .pollDispose (.task "end"), .pollDispose (.task "end")]
    let x : Deed Policy.standard := .release (some Request.entry)
    (c.after x).sync.phase = .disposed ∧
      ∃ vs : List Waker, vs.Nodup ∧ (∀ w, w ∈ vs ↔ w ∈ [Waker.task "end", .task "end"]) ∧
        (c.perform x).after.wakes = vs := by
  have all := teardown_of_honest (h := .exclusive false) rfl 0 0 none {} {}
    [.tryAcquire Request.entry, .acquire Request.entry .forever none none,
      .poll 0 (.task "queued"), .dispose, .pollDispose (.task "end"), .pollDispose (.task "end")]
    ⟨trivial, trivial, trivial, trivial, trivial, trivial, trivial⟩ (.release (some Request.entry))
  exact ⟨all.2.1.ends (.inl (by decide)) rfl, all.2.2⟩

end Scene

end Turnstile
