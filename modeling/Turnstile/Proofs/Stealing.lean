import Turnstile.Proofs.Fairness
import Turnstile.Proofs.Progress
import Turnstile.Proofs.Teardown

/-!
# Stealing

A steal interrupts everybody in line and nobody else, and only then asks for entry itself. Whoever
has been granted is not in line, whether its future knows that or not.
-/

namespace Turnstile

variable {P : Policy}

namespace Docket

theorem acquire_stealing {d : Docket P} (active : d.phase = .active) (e : Petition P.Request)
    (zero refused : Bool) (reason : Reason) :
    let (after, answer) := d.acquire e zero refused (some reason)
    if P.allows d.holding e.request then
      answer = some (.ok ()) ∧ after.holding = P.enter d.holding e.request ∧ after.pending = []
    else
      after.holding = d.holding ∧
        if zero then answer = some (.error .timedOut) ∧ after.pending = []
        else if refused then answer = some (.error .cancelled) ∧ after.pending = []
        else answer = none ∧ ∃ e', e'.ticket = d.arrivals ∧ after.pending = [e'] := by
  obtain ⟨holding, pending, -, arrivals, -⟩ := resolveAll_fields (.interrupted reason) d
  rw [acquire, if_neg (not_not_intro active), evict, Option.elim_some]
  simp only [join, pending, holding, arrivals, List.isEmpty_nil, Bool.true_and, List.nil_append]
  by_cases allowed : P.allows d.holding e.request = true
  · simp only [allowed, if_true, true_and]
  · cases zero <;> cases refused <;> simp [allowed, pending, holding]

theorem acquire_settled {d : Docket P} (active : d.phase = .active) (e : Petition P.Request)
    (zero refused : Bool) (reason : Reason) :
    (d.acquire e zero refused (some reason)).1.settled =
      (d.pending.foldl (settle (.interrupted reason)) d).settled := by
  rw [acquire, if_neg (not_not_intro active), join_settled, evict_settled]
  rfl

end Docket

namespace Scene

variable {c : Scene P} {d : Docket P} {L : List Nat} {j k : Nat} {x : Deed P}

/-! ## Out of the line for good -/

theorem Shows.pends_before (h : c.Shows d L) (known : k < c.futures.length)
    (pends : (c.after x).pends k = true) : c.pends k = true := by
  obtain ⟨e, he⟩ := pends_eq_true.mp pends
  rcases h.waker_after x he with ⟨e', he', -⟩ | ⟨new, -⟩
  · exact pends_eq_true.mpr ⟨e', he'⟩
  · omega

theorem Shows.idle_of_run (h : c.Shows d L) (known : k < c.futures.length)
    (idle : c.pends k = false) (xs : List (Deed P)) : (c.run xs).pends k = false := by
  induction xs generalizing c d L with
  | nil => exact idle
  | cons x xs ih =>
    obtain ⟨L', -, next⟩ := h.perform x
    refine ih next (Nat.lt_of_lt_of_le known (length_after x)) ?_
    by_contra still
    rw [h.pends_before known (by simpa using still)] at idle
    cases idle

theorem Shows.ungranted (h : c.Shows d L) {f : Future P} (hk : c.futures[k]? = some f) {t : Nat}
    (ht : f.ticket = some t) (idle : c.pends k = false) (x : Deed P) :
    t ∉ (c.perform x).granted := by
  obtain ⟨L', rests, -⟩ := h.perform x
  intro granted
  rcases h.frees_or x with ⟨base, es, frees⟩ | none
  · obtain ⟨told, -, -, pended⟩ := h.freed frees
    rw [told] at granted
    obtain ⟨e, he, rfl⟩ := List.mem_map.mp granted
    obtain ⟨l, g, hl, hg, pends, -⟩ := pended e he
    obtain rfl := ticket_injective h.tickets hk hl ht hg
    rw [idle] at pends
    cases pends
  · rw [Effect.granted, ← rests.granted, none] at granted
    cases granted

/-! ## The backlog -/

/-- `c'` has become of `c` when somebody has stolen for this reason. -/
structure Evicts (c c' : Scene P) (reason : Reason) : Prop where
  /-- Whoever was in line was interrupted, hears of that and of nothing else, and is in no later run
  of grants. -/
  backlog : ∀ k, c.pends k = true →
    c'.outcome? k = some (.interrupted reason) ∧
      ∀ xs, ((c'.run xs).outcome? k = some (.interrupted reason) ∨ (c'.run xs).IsDone k) ∧
        ∀ x, ∀ t ∈ c.futures[k]?.bind (·.ticket), t ∉ ((c'.run xs).perform x).granted
  /-- Whoever was not in line keeps its outcome, if it had one, and its answer, if it knew it. -/
  spared : ∀ k < c.futures.length, c.pends k = false →
    c'.futures[k]? = c.futures[k]? ∧ c'.pends k = false ∧ c'.outcome? k = c.outcome? k

/-- Future `k` is alone in line and first of it while it stays there: nobody else is granted. -/
structure Heads (c : Scene P) (k : Nat) : Prop where
  alone : ∀ j, c.pends j = true ↔ j = k
  first : ∀ xs x, (c.run xs).pends k = true → ((c.run xs).after x).pends k = true →
    ((c.run xs).perform x).granted = [] ∧
      ∀ j, ((c.run xs).after x).outcome? j = some .granted → (c.run xs).outcome? j = some .granted

/-- How the steal of the future `f` comes out in `c`, whose holding counts as it is, and leaves
`c'`. -/
def Ends (c c' : Scene P) (f : Future P) : Prop :=
  if P.allows c.sync.holding f.request then
    f.stage = .ready (.ok ()) ∧ c'.sync.holding = P.enter c.sync.holding f.request ∧
      ∀ j, c'.pends j = false
  else
    c'.sync.holding = c.sync.holding ∧
      if f.timeout.isZero then
        f.stage = .ready (.error .timedOut) ∧ ∀ j, c'.pends j = false
      else if f.token.any c.tokens.refuses then
        f.stage = .ready (.error .cancelled) ∧ ∀ j, c'.pends j = false
      else f.stage.isWaiting = true ∧ c'.Heads c.futures.length

section

variable (request : P.Request) (timeout : Timeout) (token : Option Nat) (reason : Reason)

theorem Shows.interrupted (h : c.Shows d L) (active : c.sync.phase = .active)
    (pends : c.pends k = true) :
    (c.after (.acquire request timeout token (some reason))).outcome? k =
      some (.interrupted reason) := by
  obtain ⟨f, e, hk, ht, he⟩ := h.mem_of_pends pends
  obtain ⟨L', -, next⟩ := h.perform (.acquire request timeout token (some reason))
  obtain ⟨stage, hk', -⟩ := future_after hk (.acquire request timeout token (some reason))
  have settled : (d.after c (.acquire request timeout token (some reason))).settled = _ :=
    Docket.acquire_settled (h.phase.trans active) _ _ _ reason
  rw [next.outcome?_eq hk' ht, Docket.fresh, settled, Docket.settled_of_mem _ _ h.nodup he]
  rfl

theorem Shows.evicts (h : c.Shows d L) (active : c.sync.phase = .active) :
    c.Evicts (c.after (.acquire request timeout token (some reason))) reason where
  backlog k pends := by
    have outcome := h.interrupted request timeout token reason active pends
    obtain ⟨L', -, next⟩ := h.perform (.acquire request timeout token (some reason))
    refine ⟨outcome, fun xs => ⟨?_, fun x t ht => ?_⟩⟩
    · exact (next.final outcome xs).imp And.left And.left
    · obtain ⟨f, hk, ht⟩ := Option.bind_eq_some_iff.mp ht
      obtain ⟨_, hk', -⟩ := future_after hk (.acquire request timeout token (some reason))
      obtain ⟨_, hk''⟩ := future_run hk' xs
      obtain ⟨d', L'', later⟩ := next.run xs
      exact later.ungranted hk'' ht (next.pends_of_outcome outcome xs) x
  spared k known idle := by
    have stays : (c.after (.acquire request timeout token (some reason))).pends k = false := by
      by_contra pends
      rw [h.pends_before known (by simpa using pends)] at idle
      cases idle
    refine ⟨List.getElem?_append_left known, stays, ?_⟩
    rcases ho : c.outcome? k with _ | o
    · rcases ho' : (c.after (.acquire request timeout token (some reason))).outcome? k with _ | o
      · rfl
      · rcases h.outcome_after _ ho' with before | ⟨-, -, pends, -⟩
        · rw [ho] at before
          cases before
        · rw [idle] at pends
          cases pends
    · exact h.outcome_stays ho (by simp) (by simp)

end

/-! ## The stealer -/

theorem Shows.heads (h : c.Shows d L) {f : Future P} (hk : c.futures[k]? = some f)
    {e : Petition P.Request} (hf : f.ticket = some e.ticket) (sole : d.pending = [e])
    (last : c.futures.length = k + 1) : c.Heads k := by
  have alone : ∀ j, c.pends j = true ↔ j = k := by
    intro j
    refine ⟨fun pends => ?_, ?_⟩
    · obtain ⟨g, e', hj, hg, he⟩ := h.mem_of_pends pends
      rw [sole, List.mem_singleton] at he
      exact ticket_injective h.tickets hj hk hg (by rw [hf, he])
    · rintro rfl
      exact (h.pends_iff hk hf).mpr ⟨e, by rw [sole]; exact List.mem_singleton_self e, rfl⟩
  refine ⟨alone, fun xs x before after => ?_⟩
  obtain ⟨d', L', here⟩ := h.run xs
  obtain ⟨stage, hk'⟩ := future_run hk xs
  obtain ⟨L'', rests, next⟩ := here.perform x
  -- Who is granted was in line, not before the stealer and not behind it.
  have nobody : ∀ j, (c.run xs).pends j = true →
      ((c.run xs).after x).outcome? j ≠ some .granted := by
    intro j pends granted
    obtain ⟨g, e, hj, hg, -⟩ := here.mem_of_pends pends
    rcases Nat.lt_trichotomy j k with lt | rfl | lt
    · have idle : c.pends j = false := by
        rw [Bool.eq_false_iff, ne_eq, alone]
        omega
      rw [h.idle_of_run (by omega) idle xs] at pends
      cases pends
    · have idle := next.pends_of_outcome granted []
      rw [show (((c.run xs).after x).run []).pends j = true from after] at idle
      cases idle
    · have behind := tickets_lt here.tickets hk' hj hf hg lt
      rw [(here.granted_after hk' hj hf hg behind pends granted).1] at after
      cases after
  refine ⟨?_, fun j granted => ?_⟩
  · rcases here.frees_or x with ⟨base, es, frees⟩ | none
    · obtain ⟨told, -, -, pended⟩ := here.freed frees
      rw [told, List.map_eq_nil_iff, List.eq_nil_iff_forall_not_mem]
      intro e he
      obtain ⟨j, g, -, -, pends, granted⟩ := pended e he
      exact nobody j pends granted
    · exact rests.granted.symm.trans none
  · rcases here.outcome_after x granted with had | ⟨-, -, pends, -⟩
    · exact had
    · exact absurd granted (nobody j pends)

theorem Shows.nobody_of_pending (h : c.Shows d L) (nobody : d.pending = []) (j : Nat) :
    c.pends j = false := by
  by_contra pends
  obtain ⟨-, e, -, -, he⟩ := h.mem_of_pends (by simpa using pends)
  rw [nobody] at he
  cases he

theorem Shows.ends (h : c.Shows d L) (active : c.sync.phase = .active) {f : Future P}
    {reason : Reason}
    (stage : f.stage = (c.inside.acquire f.request f.timeout f.token (some reason)).2)
    (ticket : f.ticket = if f.stage.isWaiting then some c.sync.arrivals else none)
    (made : (c.after (.acquire f.request f.timeout f.token (some reason))).futures =
      c.futures ++ [f]) :
    c.Ends (c.after (.acquire f.request f.timeout f.token (some reason))) f := by
  obtain ⟨-, -, begun⟩ := Section.acquire_rests h.rests f.request f.timeout f.token (some reason)
  obtain ⟨L', -, next⟩ := h.perform (.acquire f.request f.timeout f.token (some reason))
  rw [← stage] at begun
  rcases ha : d.acquire (c.inside.petition f.request f.timeout f.token) f.timeout.isZero
    (f.token.any c.inside.tokens.refuses) (some reason) with ⟨d', answer⟩
  have after : d.after c (.acquire f.request f.timeout f.token (some reason)) = d' :=
    congrArg Prod.fst ha
  -- The four ends, in the order in which they are tried.
  have steals : if P.allows c.sync.holding f.request then
        answer = some (.ok ()) ∧ d'.holding = P.enter c.sync.holding f.request ∧ d'.pending = []
      else
        d'.holding = c.sync.holding ∧
          if f.timeout.isZero then answer = some (.error .timedOut) ∧ d'.pending = []
          else if f.token.any c.tokens.refuses then
            answer = some (.error .cancelled) ∧ d'.pending = []
          else answer = none ∧ ∃ e, e.ticket = d.arrivals ∧ d'.pending = [e] := by
    have all := Docket.acquire_stealing (h.phase.trans active)
      (c.inside.petition f.request f.timeout f.token) f.timeout.isZero
      (f.token.any c.inside.tokens.refuses) reason
    rw [ha, h.holding] at all
    exact all
  rw [ha] at begun
  rw [after] at next
  have nobody (none : d'.pending = []) := next.nobody_of_pending none
  have answered {r : Except Refusal Unit} (hr : answer = some r) : f.stage = .ready r := by
    rw [hr] at begun
    exact begun.1
  rw [Ends, ← show d'.holding = _ from next.holding]
  split
  · rename_i allowed
    rw [if_pos allowed] at steals
    exact ⟨answered steals.1, steals.2.1, nobody steals.2.2⟩
  rename_i refused
  rw [if_neg refused] at steals
  refine ⟨steals.1, ?_⟩
  replace steals := steals.2
  split
  · rename_i zero
    rw [if_pos zero] at steals
    exact ⟨answered steals.1, nobody steals.2⟩
  rename_i late
  rw [if_neg late] at steals
  split
  · rename_i cancelled
    rw [if_pos cancelled] at steals
    exact ⟨answered steals.1, nobody steals.2⟩
  rename_i waits
  rw [if_neg waits] at steals
  obtain ⟨queued, e, next_ticket, sole⟩ := steals
  rw [queued] at begun
  obtain ⟨id, waits, -⟩ := begun
  have waiting : f.stage.isWaiting = true := by rw [waits]; rfl
  have arrivals : d.arrivals = c.sync.arrivals := h.rests.arrivals
  rw [if_pos waiting, ← arrivals, ← next_ticket] at ticket
  refine ⟨waiting, next.heads ?_ ticket sole ?_⟩
  · rw [made]
    exact List.getElem?_concat_length ..
  · rw [made, List.length_append, List.length_singleton]

/-- A steal evicts the backlog and only the backlog. -/
theorem backlog_evicted (id : Nat) (holding : P.State) (warm : Nat) (retainLimit : Option Nat)
    (timers : Timers) (tokens : Tokens) (xs : List (Deed P)) (request : P.Request)
    (timeout : Timeout) (token : Option Nat) (reason : Reason) :
    let c : Scene P := (start id holding warm retainLimit timers tokens).run xs
    let x : Deed P := .acquire request timeout token (some reason)
    ∃ f : Future P, (c.after x).futures = c.futures ++ [f] ∧
      (f.request = request ∧ f.timeout = timeout ∧ f.token = token) ∧
      (c.sync.phase = .active → c.Evicts (c.after x) reason ∧ c.Ends (c.after x) f) ∧
      (c.sync.phase ≠ .active →
        (c.perform x).after = c.inside ∧ f.stage = .ready (.error .disposed)) := by
  intro c x
  obtain ⟨d, L, h⟩ := run_shows (P := P) id holding warm retainLimit timers tokens xs
  refine ⟨_, rfl, ⟨rfl, rfl, rfl⟩, fun active => ⟨h.evicts _ _ _ _ active, h.ends active rfl rfl rfl⟩,
    fun closed => ?_⟩
  obtain ⟨same, f, made, answered⟩ := acquire_disposed closed request timeout token (some reason)
  obtain rfl := List.singleton_injective (List.append_cancel_left made)
  exact ⟨same, answered⟩

/-- Two wait for a lock when it comes free. The first has got it and has not looked yet, so the
thief interrupts only the second, and waits for the first with nobody before it. -/
theorem backlog_evicted_behind :
    let c : Scene Policy.standard := (start 0 (Holding.exclusive false) 0 none {} {}).run
      [.tryAcquire Request.entry, .acquire Request.entry .forever none none,
        .acquire Request.entry .forever none none, .release (some Request.entry)]
    let c' := c.after (.acquire Request.entry .forever none (some ⟨"failover"⟩))
    c'.outcome? 0 = some .granted ∧ c'.outcome? 1 = some (.interrupted ⟨"failover"⟩) ∧
      c'.sync.holding = Holding.exclusive true ∧ ∀ j, c'.pends j = true ↔ j = 2 := by
  intro c c'
  obtain ⟨f, -, ⟨hr, ht, hu⟩, begun, -⟩ := backlog_evicted (P := Policy.standard) 0
    (Holding.exclusive false) 0 none {} {} [.tryAcquire Request.entry,
      .acquire Request.entry .forever none none, .acquire Request.entry .forever none none,
      .release (some Request.entry)] Request.entry .forever none ⟨"failover"⟩
  obtain ⟨evicts, ends⟩ := begun rfl
  rw [Ends, hr, ht, hu] at ends
  exact ⟨(evicts.spared 0 (by decide) rfl).2.2, (evicts.backlog 1 rfl).1, ends.1, ends.2.2.alone⟩

end Scene

end Turnstile
