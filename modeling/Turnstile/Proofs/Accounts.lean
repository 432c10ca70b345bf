import Turnstile.Proofs.Simulation
import Turnstile.Holding
import Mathlib

/-!
# Keeping accounts

An `Accounts` of a policy says how much each request takes and what a holding amounts to. The
holding of a docket then amounts to what was admitted and not given back, through every operation.
-/

namespace Turnstile

inductive Share where
  | entry
  | permit
  | read
  | write
  deriving DecidableEq, Repr

/-- How much there is of each share. -/
abbrev Tally := Share → Nat

structure Policy.Accounts (P : Policy) where
  weight : P.Request → Tally
  /-- The holding is what the tally amounts to. -/
  Balances : P.State → Tally → Prop
  /-- What somebody who holds this much gives back without saying what. -/
  given : Tally → P.Request
  enter : ∀ h t r, Balances h t → P.allows h r = true → Balances (P.enter h r) (t + weight r)
  release : ∀ h t r, Balances h t → weight r ≤ t → Balances (P.release h r) (t - weight r)
  idle : ∀ h t, Balances h t → P.isIdle h = true → t = 0
  standing : ∀ h t held r, Balances h t → held ≤ t → weight (given held) ≤ held →
    P.desk.standing h = some r → r = given held

variable {P : Policy}

/-! ## Sums -/

theorem sum_map_update (f : Nat → Tally) {n i : Nat} (hi : i < n) (b : Tally) :
    ((List.range n).map (Function.update f i b)).sum + f i = ((List.range n).map f).sum + b := by
  induction n with
  | zero => omega
  | succ n ih =>
    rw [List.range_succ, List.map_append, List.map_append, List.sum_append, List.sum_append]
    simp only [List.map_cons, List.map_nil, List.sum_cons, List.sum_nil, add_zero]
    by_cases hin : i = n
    · subst hin
      have same : (List.range i).map (Function.update f i b) = (List.range i).map f := by
        refine List.map_congr_left fun j hj => ?_
        exact Function.update_of_ne (by have := List.mem_range.mp hj; omega) _ _
      rw [same, Function.update_self]
      exact add_right_comm _ _ _
    · rw [Function.update_of_ne (Ne.symm hin), add_right_comm, ih (by omega), add_right_comm]

theorem sum_map_set {α : Type} (g : α → Tally) {xs : List α} {k : Nat} {x y : α}
    (hk : xs[k]? = some x) : ((xs.set k y).map g).sum + g x = (xs.map g).sum + g y := by
  induction xs generalizing k with
  | nil => simp at hk
  | cons z xs ih =>
    cases k with
    | zero =>
      obtain rfl := Option.some.inj hk
      simp only [List.set_cons_zero, List.map_cons, List.sum_cons]
      rw [add_assoc, add_comm, add_comm (List.sum _)]
    | succ k =>
      simp only [List.set_cons_succ, List.map_cons, List.sum_cons]
      rw [add_assoc, ih hk, add_assoc]

/-! ## Grants that nobody has heard of -/

namespace Docket

variable (A : P.Accounts)

/-- What an outcome that waits to be observed takes. -/
def unheardOf : Option (P.Request × Outcome) → Tally
  | some (r, .granted) => A.weight r
  | _ => 0

def unheard (d : Docket P) : Tally :=
  ((List.range d.arrivals).map fun t => unheardOf A (d.settled t)).sum

/-- The docket's holding amounts to what it says is out, with `x` known elsewhere. Once disposal has
ended there is nothing out. -/
structure Balanced (d : Docket P) (x : Tally) : Prop where
  balances : A.Balances d.holding (x + d.unheard A)
  ended : d.phase = .disposed → x + d.unheard A = 0

/-- Tickets are known, and no pending one has an outcome. -/
structure Proper (d : Docket P) : Prop where
  nodup : (d.pending.map (·.ticket)).Nodup
  unsettled : ∀ e ∈ d.pending, d.settled e.ticket = none
  bounded : ∀ e ∈ d.pending, e.ticket < d.arrivals
  known : ∀ t v, d.settled t = some v → t < d.arrivals

theorem Shows.proper {d : Docket P} {F : Nat → Option (Waiter P.Request)} {L : List Nat}
    (h : d.Shows F L) : d.Proper := by
  refine ⟨h.sorted.imp Nat.ne_of_lt, fun e he => h.unsettled he, fun e he => h.ticket_lt he, ?_⟩
  intro t v hv
  obtain ⟨i, w, hw, ht, -⟩ := (h.settled t v).mp hv
  rw [← ht]
  exact (h.regular i w hw).numbered

variable {A}

theorem unheard_update {d u : Docket P} {t : Nat} (ht : t < d.arrivals)
    {v : Option (P.Request × Outcome)} (arrivals : u.arrivals = d.arrivals)
    (settled : u.settled = Function.update d.settled t v) :
    u.unheard A + unheardOf A (d.settled t) = d.unheard A + unheardOf A v := by
  unfold unheard
  rw [arrivals, settled]
  have : (fun u => unheardOf A (Function.update d.settled t v u)) =
      Function.update (fun u => unheardOf A (d.settled u)) t (unheardOf A v) := by
    funext u
    by_cases hu : u = t
    · subst hu; simp
    · simp [Function.update_of_ne hu]
  rw [this]
  exact sum_map_update _ ht _

theorem unheard_congr {d u : Docket P} (arrivals : u.arrivals = d.arrivals)
    (settled : u.settled = d.settled) : u.unheard A = d.unheard A := by
  unfold unheard
  rw [arrivals, settled]

theorem unheard_settle {d : Docket P} {e : Petition P.Request} (ht : e.ticket < d.arrivals)
    (hn : d.settled e.ticket = none) (o : Outcome) :
    (settle o d e).unheard A = d.unheard A + unheardOf A (some (e.request, o)) := by
  have := unheard_update (A := A) (d := d) (u := settle o d e) ht rfl rfl
  rw [hn] at this
  simpa [unheardOf] using this

/-! ## What each operation does to the accounts -/

theorem unheard_foldl_settle {es : List (Petition P.Request)} {d : Docket P}
    (nodup : (es.map (·.ticket)).Nodup) (unsettled : ∀ e ∈ es, d.settled e.ticket = none)
    (bounded : ∀ e ∈ es, e.ticket < d.arrivals) (o : Outcome) :
    (es.foldl (settle o) d).unheard A =
      d.unheard A + (es.map fun e => unheardOf A (some (e.request, o))).sum := by
  induction es generalizing d with
  | nil => simp
  | cons e es ih =>
    rw [List.map_cons, List.nodup_cons] at nodup
    have next : ∀ x ∈ es, (settle o d e).settled x.ticket = none := by
      intro x hx
      have hne : x.ticket ≠ e.ticket := fun ht => nodup.1 (ht ▸ List.mem_map_of_mem hx)
      exact (Function.update_of_ne hne _ _).trans (unsettled x (List.mem_cons_of_mem _ hx))
    rw [List.foldl_cons, ih nodup.2 next fun x hx => bounded x (List.mem_cons_of_mem _ hx),
      unheard_settle (bounded e List.mem_cons_self) (unsettled e List.mem_cons_self),
      List.map_cons, List.sum_cons, add_assoc]

theorem balances_entered {h : P.State} {t : Tally} (hb : A.Balances h t)
    (es : List (Petition P.Request)) :
    A.Balances (P.entered h (P.admissible h es))
      (t + ((P.admissible h es).map fun e => A.weight e.request).sum) := by
  induction es generalizing h t with
  | nil => simpa [Policy.admissible, Policy.entered] using hb
  | cons e es ih =>
    unfold Policy.admissible
    split
    · rename_i he
      have := ih (A.enter h t e.request hb he)
      rwa [add_assoc] at this
    · simpa [Policy.entered] using hb

theorem Proper.admissible {d : Docket P} (h : d.Proper) :
    ((P.admissible d.holding d.pending).map (·.ticket)).Nodup ∧
      ∀ e ∈ P.admissible d.holding d.pending, e ∈ d.pending := by
  have sub := admissible_sublist d.holding d.pending
  exact ⟨h.nodup.sublist (sub.map _), fun e he => sub.subset he⟩

theorem Balanced.grantRun {d : Docket P} {x : Tally} (h : d.Balanced A x) (proper : d.Proper)
    (closed : d.phase ≠ .active → d.pending = []) : d.grantRun.Balanced A x := by
  obtain ⟨nodup, sub⟩ := proper.admissible
  obtain ⟨holding, -, phase, arrivals⟩ := grantRun_fields d
  have unheard := unheard_foldl_settle (A := A) nodup (fun e he => proper.unsettled e (sub e he))
    (fun e he => proper.bounded e (sub e he)) .granted
  have same : d.grantRun.unheard A =
      d.unheard A + ((P.admissible d.holding d.pending).map fun e => A.weight e.request).sum := by
    refine Eq.trans ?_ unheard
    exact unheard_congr (by rw [arrivals, (foldl_settle_fields _ _ d).2.2.2.1]) rfl
  refine ⟨?_, fun hp => ?_⟩
  · rw [holding, same, ← add_assoc]
    exact balances_entered h.balances d.pending
  · rw [phase] at hp
    rw [grantRun_nil d (closed (by rw [hp]; simp))]
    exact h.ended hp

theorem Balanced.endDisposal {d : Docket P} {x : Tally} (h : d.Balanced A x) :
    d.endDisposal.Balanced A x := by
  obtain ⟨holding, -, settled, arrivals, -⟩ := endDisposal_fields d
  have same : d.endDisposal.unheard A = d.unheard A := unheard_congr arrivals settled
  refine ⟨by rw [holding, same]; exact h.balances, fun hp => ?_⟩
  rw [same]
  unfold Docket.endDisposal at hp
  split at hp
  · rename_i hd
    simp only [Bool.and_eq_true, decide_eq_true_eq] at hd
    exact A.idle d.holding _ h.balances hd.1.2
  · exact h.ended hp

theorem Balanced.settles {d : Docket P} {x : Tally} (h : d.Balanced A x) (proper : d.Proper)
    (closed : d.phase ≠ .active → d.pending = []) : d.grantRun.endDisposal.Balanced A x :=
  (h.grantRun proper closed).endDisposal

theorem unheardOf_eq_zero {o : Outcome} (ho : o ≠ .granted) (r : P.Request) :
    unheardOf A (some (r, o)) = 0 := by
  cases o <;> first | rfl | exact absurd rfl ho

theorem Balanced.resolveAll {d : Docket P} {x : Tally} (h : d.Balanced A x) (proper : d.Proper)
    {o : Outcome} (ho : o ≠ .granted) : (d.resolveAll o).Balanced A x := by
  obtain ⟨holding, -, phase, -⟩ := resolveAll_fields o d
  have unheard := unheard_foldl_settle (A := A) proper.nodup proper.unsettled proper.bounded o
  have same : (d.resolveAll o).unheard A = d.unheard A := by
    refine (unheard_congr (d := d.pending.foldl (settle o) d) ?_ rfl).trans (unheard.trans ?_)
    · rfl
    · rw [List.map_congr_left fun e _ => unheardOf_eq_zero ho e.request]
      simp
  exact ⟨by rw [holding, same]; exact h.balances, by rw [phase, same]; exact h.ended⟩

theorem Balanced.evict {d : Docket P} {x : Tally} (h : d.Balanced A x) (proper : d.Proper)
    (steal : Option Reason) : (d.evict steal).Balanced A x := by
  rcases steal with _ | r
  · exact h
  · exact h.resolveAll proper (by simp)

theorem Balanced.strike {d : Docket P} {x : Tally} (h : d.Balanced A x) (t : Nat) :
    (d.strike t).Balanced A x := ⟨h.balances, h.ended⟩

theorem Proper.strike {d : Docket P} (h : d.Proper) (t : Nat) : (d.strike t).Proper := by
  have sub : (d.strike t).pending.Sublist d.pending := List.filter_sublist
  exact ⟨h.nodup.sublist (sub.map _), fun e he => h.unsettled e (sub.subset he),
    fun e he => h.bounded e (sub.subset he), h.known⟩

theorem unheard_forget {d : Docket P} (proper : d.Proper) (t : Nat) :
    (d.forget t).unheard A + unheardOf A (d.settled t) = d.unheard A := by
  rcases hv : d.settled t with _ | v
  · have : (d.forget t).settled = d.settled := Function.update_eq_self_iff.mpr hv.symm
    rw [unheard_congr (A := A) (d := d) (u := d.forget t) rfl this]
    exact add_zero _
  · have := unheard_update (A := A) (d := d) (u := d.forget t) (proper.known t v hv) rfl rfl
    rw [hv] at this
    exact this.trans (add_zero _)

theorem Proper.forget {d : Docket P} (h : d.Proper) (t : Nat) : (d.forget t).Proper := by
  have none_of : ∀ u, d.settled u = none → (d.forget t).settled u = none := by
    intro u hu
    by_cases hut : u = t
    · subst hut; exact Function.update_self ..
    · exact (Function.update_of_ne hut ..).trans hu
  refine ⟨h.nodup, fun e he => none_of _ (h.unsettled e he), h.bounded, fun u v hv => ?_⟩
  by_contra hu
  have : d.settled u = none := by
    rcases hs : d.settled u with _ | v'
    · rfl
    · exact absurd (h.known u v' hs) hu
  rw [none_of u this] at hv
  cases hv

theorem Balanced.forget {d : Docket P} {x : Tally} (h : d.Balanced A x) (proper : d.Proper)
    (t : Nat) : (d.forget t).Balanced A (x + unheardOf A (d.settled t)) := by
  have same : x + unheardOf A (d.settled t) + (d.forget t).unheard A = x + d.unheard A := by
    rw [add_assoc, add_comm (unheardOf A _), unheard_forget proper t]
  exact ⟨by rw [same]; exact h.balances, by rw [same]; exact h.ended⟩

theorem Balanced.withdraw {d : Docket P} {x : Tally} (h : d.Balanced A x) (proper : d.Proper)
    (closed : d.phase ≠ .active → d.pending = []) (t : Nat) : (d.withdraw t).Balanced A x := by
  unfold Docket.withdraw
  split
  · exact (h.strike t).settles (proper.strike t) (strike_closed closed t)
  · rename_i r o hs
    have heard := h.forget proper t
    rw [hs] at heard
    split
    · rename_i ho
      subst ho
      have total : x + A.weight r + (d.forget t).unheard A - A.weight r =
          x + (d.forget t).unheard A := by
        rw [add_right_comm, add_tsub_cancel_right]
      have back : Balanced A { d.forget t with holding := P.release d.holding r } x := by
        refine ⟨?_, fun hp => ?_⟩
        · have := A.release _ _ r heard.balances
            (le_trans le_add_self (le_add_right (le_refl (x + A.weight r))))
          rw [show unheardOf A (some (r, Outcome.granted)) = A.weight r from rfl, total] at this
          exact this
        · have := heard.ended hp
          rw [show unheardOf A (some (r, Outcome.granted)) = A.weight r from rfl] at this
          show x + (d.forget t).unheard A = 0
          rw [← total, this]
          exact zero_tsub _
      have proper' : Docket.Proper { d.forget t with holding := P.release d.holding r } :=
        ⟨(proper.forget t).nodup, (proper.forget t).unsettled, (proper.forget t).bounded,
          (proper.forget t).known⟩
      exact back.settles proper' closed
    · rename_i ho
      rw [unheardOf_eq_zero ho, add_zero] at heard
      exact heard

theorem Balanced.await {d : Docket P} {x : Tally} (h : d.Balanced A x) (t : Nat) (k : Waker) :
    (d.await t k).Balanced A x := ⟨h.balances, h.ended⟩

theorem Balanced.give {d : Docket P} {x : Tally} (h : d.Balanced A x) (proper : d.Proper)
    (closed : d.phase ≠ .active → d.pending = []) {r : P.Request} (hr : A.weight r ≤ x) :
    (d.give (P.release d.holding r)).Balanced A (x - A.weight r) := by
  have total : x + d.unheard A - A.weight r = x - A.weight r + d.unheard A :=
    tsub_add_eq_add_tsub hr |>.symm
  have back : Balanced A { d with holding := P.release d.holding r } (x - A.weight r) := by
    refine ⟨?_, fun hp => ?_⟩
    · have := A.release _ _ r h.balances (le_add_right hr)
      rw [total] at this
      exact this
    · show x - A.weight r + d.unheard A = 0
      rw [← total, h.ended hp]
      exact zero_tsub _
  exact back.settles ⟨proper.nodup, proper.unsettled, proper.bounded, proper.known⟩ closed

theorem Balanced.trigger {d : Docket P} {x : Tally} (h : d.Balanced A x) (proper : d.Proper)
    (closed : d.phase ≠ .active → d.pending = []) {e : Petition P.Request} (he : e ∈ d.pending)
    {o : Outcome} (ho : o ≠ .granted) : (d.trigger e o).Balanced A x := by
  have same : (Docket.settle o (d.strike e.ticket) e).unheard A = d.unheard A := by
    rw [unheard_settle (d := d.strike e.ticket) (proper.bounded e he) (proper.unsettled e he),
      unheardOf_eq_zero ho, add_zero]
    rfl
  have resolved : (Docket.settle o (d.strike e.ticket) e).Balanced A x :=
    ⟨by rw [same]; exact h.balances, by rw [same]; exact h.ended⟩
  have others : ∀ y ∈ (d.strike e.ticket).pending, y.ticket ≠ e.ticket := by
    intro y hy
    simpa using (List.mem_filter.mp hy).2
  refine resolved.grantRun ⟨(proper.strike _).nodup, ?_, (proper.strike _).bounded, ?_⟩
    (strike_closed closed e.ticket)
  · intro y hy
    exact (Function.update_of_ne (others y hy) _ _).trans ((proper.strike _).unsettled y hy)
  · intro t v hv
    by_cases ht : t = e.ticket
    · rw [ht]; exact proper.bounded e he
    · exact proper.known t v ((Function.update_of_ne ht _ _).symm.trans hv)

theorem Balanced.dispose {d : Docket P} {x : Tally} (h : d.Balanced A x) (proper : d.Proper) :
    d.dispose.Balanced A x := by
  unfold Docket.dispose
  split
  · exact h
  · have closing : Balanced A { d with phase := .disposing } x :=
      ⟨h.balances, fun hp => by cases hp⟩
    exact (closing.resolveAll ⟨proper.nodup, proper.unsettled, proper.bounded, proper.known⟩
      (by simp)).endDisposal

theorem unheard_arrival {d u : Docket P} (proper : d.Proper) (arrivals : u.arrivals = d.arrivals + 1)
    (settled : u.settled = d.settled) : u.unheard A = d.unheard A := by
  have fresh : d.settled d.arrivals = none := by
    rcases hs : d.settled d.arrivals with _ | v
    · rfl
    · exact absurd (proper.known _ v hs) (Nat.lt_irrefl _)
  unfold unheard
  rw [arrivals, settled, List.range_succ, List.map_append, List.sum_append]
  simp [fresh, unheardOf]

/-- What an answer tells the caller to have. -/
def taken (A : P.Accounts) (r : P.Request) : Option (Except Refusal Unit) → Tally
  | some (.ok _) => A.weight r
  | _ => 0

theorem Balanced.join {d : Docket P} {x : Tally} (h : d.Balanced A x) (proper : d.Proper)
    (hp : d.phase = .active) (e : Petition P.Request) (zero refused : Bool) :
    (d.join e zero refused).1.Balanced A (x + taken A e.request (d.join e zero refused).2) := by
  unfold Docket.join
  split
  · rename_i ha
    simp only [Bool.and_eq_true] at ha
    refine ⟨?_, fun hd => by rw [hp] at hd; cases hd⟩
    have := A.enter _ _ e.request h.balances ha.2
    rw [add_right_comm] at this
    exact this
  · split
    · exact ⟨by simpa [taken] using h.balances, by simpa [taken] using h.ended⟩
    · split
      · exact ⟨by simpa [taken] using h.balances, by simpa [taken] using h.ended⟩
      · refine ⟨?_, fun hd => by rw [hp] at hd; cases hd⟩
        have same := unheard_arrival (A := A) (u := { d with
          pending := d.pending ++ [{ e with ticket := d.arrivals }], arrivals := d.arrivals + 1 })
          proper rfl rfl
        show A.Balances d.holding (x + 0 + _)
        rw [add_zero, same]
        exact h.balances

theorem Proper.evict {d : Docket P} (h : d.Proper) (steal : Option Reason) :
    (d.evict steal).Proper := by
  rcases steal with _ | r
  · exact h
  · obtain ⟨-, pending, -, arrivals, -⟩ := resolveAll_fields (.interrupted r) d
    have settled := foldl_settle_settled (.interrupted r) d.pending d h.nodup
    refine ⟨by simp [Docket.evict, pending], by simp [Docket.evict, pending],
      by simp [Docket.evict, pending], fun t v hv => ?_⟩
    rw [show (d.evict (some r)).arrivals = d.arrivals from arrivals]
    rw [show (d.evict (some r)).settled t = _ from settled t] at hv
    rcases hf : d.pending.find? (·.ticket = t) with _ | e
    · rw [hf] at hv
      exact h.known t v hv
    · have := List.find?_some hf
      simp only [decide_eq_true_eq] at this
      rw [← this]
      exact h.bounded e (List.mem_of_find?_eq_some hf)

theorem Balanced.acquire {d : Docket P} {x : Tally} (h : d.Balanced A x) (proper : d.Proper)
    (e : Petition P.Request) (zero refused : Bool) (steal : Option Reason) :
    (d.acquire e zero refused steal).1.Balanced A
      (x + taken A e.request (d.acquire e zero refused steal).2) := by
  unfold Docket.acquire
  split
  · exact ⟨by simpa [taken] using h.balances, by simpa [taken] using h.ended⟩
  · rename_i hp
    simp only [ne_eq, Decidable.not_not] at hp
    exact (h.evict proper steal).join (proper.evict steal) ((evict_fields d steal).2.1.trans hp) e zero
      refused

theorem Balanced.giveIf {d : Docket P} {x : Tally} (h : d.Balanced A x) (proper : d.Proper)
    (closed : d.phase ≠ .active → d.pending = []) {f : P.State → Except Refusal P.State}
    {r : P.Request} (hr : A.weight r ≤ x)
    (hf : ∀ hold, f d.holding = .ok hold → hold = P.release d.holding r) :
    (d.giveIf f).1.Balanced A (x - taken A r (some (d.giveIf f).2)) := by
  unfold Docket.giveIf
  split
  · exact ⟨by simpa [taken] using h.balances, by simpa [taken] using h.ended⟩
  · rcases hd : f d.holding with e | hold
    · exact ⟨by simpa [taken] using h.balances, by simpa [taken] using h.ended⟩
    · rw [hf hold hd]
      exact h.give proper closed hr

end Docket

end Turnstile
