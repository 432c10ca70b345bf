import Turnstile.Proofs.Chain
import Turnstile.Proofs.Docket
import Mathlib.Data.List.Basic

/-!
# What the waiters amount to

`Docket.Shows d F L` says that the waiters `F`, in line as `L`, amount to the docket `d`. A section
changes one waiter after another, and for each kind of change one lemma tells the docket after it.
-/

namespace Turnstile

variable {P : Policy}

namespace Waiter

variable {R : Type}

/-- A pending waiter as the docket lists it. -/
def petition? (w : Waiter R) : Option (Petition R) :=
  if w.isPending then
    some
      { ticket := w.ticket, request := w.request, deadline := w.deadline
        token := w.registration.map (·.token), waker := w.waker }
  else none

/-- The outcome of a resolved waiter as the docket keeps it. -/
def verdict? (w : Waiter R) : Option (R × Outcome) := w.outcome.map (w.request, ·)

/-- What `w` becomes when it gets its outcome. -/
def settled (o : Outcome) (lingers : Bool) (w : Waiter R) : Waiter R :=
  { w with outcome := some o, waker := none, timer := none, registration := none, lingers }

theorem petition?_eq_none {w : Waiter R} (h : w.outcome ≠ none) : w.petition? = none := by
  obtain ⟨o, ho⟩ := Option.ne_none_iff_exists'.mp h
  simp [petition?, isPending, ho]

theorem petition?_of_pending {w : Waiter R} (h : w.outcome = none) :
    w.petition? =
      some ⟨w.ticket, w.request, w.deadline, w.registration.map (·.token), w.waker⟩ := by
  simp [petition?, isPending, h]

theorem ticket_of_petition? {w : Waiter R} {e : Petition R} (h : w.petition? = some e) :
    e.ticket = w.ticket := by
  unfold petition? at h
  split at h
  · rw [← Option.some.inj h]
  · cases h

theorem isPending_iff {w : Waiter R} : w.isPending = true ↔ ∃ e, w.petition? = some e := by
  unfold petition?
  split <;> simp_all

theorem verdict?_eq_none {w : Waiter R} : w.verdict? = none ↔ w.outcome = none := by
  simp [verdict?]

end Waiter

namespace Docket

/-- What a waiter in slot `i` must be like, standing in line or not. -/
structure Regular {R : Type} (L : List Nat) (arrivals : Nat) (i : Nat) (w : Waiter R) : Prop where
  queued : w.outcome = none → i ∈ L
  lingers : w.lingers = true ↔ i ∈ L ∧ w.outcome ≠ none
  quiet : w.outcome ≠ none → w.timer = none ∧ w.registration = none ∧ w.waker = none
  numbered : w.ticket < arrivals

structure Shows (d : Docket P) (F : Nat → Option (Waiter P.Request)) (L : List Nat) : Prop where
  pending : d.pending = L.filterMap fun i => (F i).bind Waiter.petition?
  settled : ∀ t v, d.settled t = some v ↔
    ∃ i w, F i = some w ∧ w.ticket = t ∧ w.verdict? = some v
  nodup : L.Nodup
  regular : ∀ i w, F i = some w → Regular L d.arrivals i w
  unique : ∀ i j w v, F i = some w → F j = some v → w.ticket = v.ticket → i = j
  order : (L.filterMap fun i => (F i).map (·.ticket)).Pairwise (· < ·)

theorem strike_pending (d : Docket P) (t : Nat) :
    (d.strike t).pending = d.pending.filterMap fun e => if e.ticket = t then none else some e := by
  simp only [strike]
  rw [← List.filterMap_eq_filter]
  refine List.filterMap_congr fun e _ => ?_
  by_cases he : e.ticket = t <;> simp [Option.guard, he]

namespace Shows

variable {d d' : Docket P} {F F' : Nat → Option (Waiter P.Request)} {L L' : List Nat}
variable {i : Nat} {w : Waiter P.Request}

theorem settled_eq_none (h : d.Shows F L) (hi : F i = some w) (hw : w.outcome = none) :
    d.settled w.ticket = none := by
  rw [Option.eq_none_iff_forall_ne_some]
  intro v hv
  obtain ⟨j, u, hj, ht, hu⟩ := (h.settled _ _).mp hv
  obtain rfl := h.unique j i u w hj hi ht
  rw [hi] at hj
  obtain rfl := Option.some.inj hj
  rw [Waiter.verdict?_eq_none.mpr hw] at hu
  cases hu

theorem settled_eq (h : d.Shows F L) (hi : F i = some w) : d.settled w.ticket = w.verdict? := by
  rcases hw : w.outcome with _ | o
  · rw [h.settled_eq_none hi hw, Waiter.verdict?_eq_none.mpr hw]
  · have hv : w.verdict? = some (w.request, o) := by simp [Waiter.verdict?, hw]
    rw [hv, h.settled]
    exact ⟨i, w, hi, rfl, hv⟩

theorem mem_pending (h : d.Shows F L) (hi : F i = some w) {e : Petition P.Request}
    (he : w.petition? = some e) : e ∈ d.pending := by
  rw [h.pending, List.mem_filterMap]
  refine ⟨i, (h.regular i w hi).queued ?_, by rw [hi]; exact he⟩
  by_contra hw
  rw [Waiter.petition?_eq_none hw] at he
  cases he

theorem of_mem_pending (h : d.Shows F L) {e : Petition P.Request} (he : e ∈ d.pending) :
    ∃ i w, i ∈ L ∧ F i = some w ∧ w.petition? = some e := by
  rw [h.pending, List.mem_filterMap] at he
  obtain ⟨i, hi, he⟩ := he
  obtain ⟨w, hw, he⟩ := Option.bind_eq_some_iff.mp he
  exact ⟨i, w, hi, hw, he⟩

theorem unsettled (h : d.Shows F L) {e : Petition P.Request} (he : e ∈ d.pending) :
    d.settled e.ticket = none := by
  obtain ⟨i, w, -, hw, hp⟩ := h.of_mem_pending he
  rw [Waiter.ticket_of_petition? hp]
  refine h.settled_eq_none hw ?_
  by_contra ho
  rw [Waiter.petition?_eq_none ho] at hp
  cases hp

theorem petition?_of_mem (h : d.Shows F L) (hi : F i = some w) {e : Petition P.Request}
    (he : e ∈ d.pending) (ht : e.ticket = w.ticket) : w.petition? = some e := by
  obtain ⟨j, u, -, hj, hp⟩ := h.of_mem_pending he
  rw [Waiter.ticket_of_petition? hp] at ht
  obtain rfl := h.unique j i u w hj hi ht
  rw [hi] at hj
  exact Option.some.inj hj ▸ hp

theorem ticket_ne_of_resolved (h : d.Shows F L) (hi : F i = some w) (hw : w.outcome ≠ none)
    {e : Petition P.Request} (he : e ∈ d.pending) : e.ticket ≠ w.ticket := by
  intro ht
  have := h.petition?_of_mem hi he ht
  rw [Waiter.petition?_eq_none hw] at this
  cases this

theorem sorted (h : d.Shows F L) : (d.pending.map (·.ticket)).Pairwise (· < ·) := by
  refine h.order.sublist ?_
  rw [h.pending, List.map_filterMap]
  clear h
  induction L with
  | nil => exact List.Sublist.slnil
  | cons i L ih =>
    rw [List.filterMap_cons, List.filterMap_cons]
    rcases hi : F i with _ | w
    · exact ih
    · rcases hp : w.petition? with _ | e
      · simpa [hp] using ih.cons w.ticket
      · simpa [hp, Waiter.ticket_of_petition? hp] using ih

theorem ticket_lt (h : d.Shows F L) {e : Petition P.Request} (he : e ∈ d.pending) :
    e.ticket < d.arrivals := by
  obtain ⟨i, w, -, hw, he⟩ := h.of_mem_pending he
  rw [Waiter.ticket_of_petition? he]
  exact (h.regular i w hw).numbered

end Shows

/-! ## One slot changes -/

/-- Slot `i` is all in which `F'` and `L'` differ from `F` and `L`: it held `w` and holds `v`. -/
structure Changes {R : Type} (F F' : Nat → Option (Waiter R)) (L L' : List Nat) (i : Nat)
    (w : Waiter R) (v : Option (Waiter R)) : Prop where
  before : F i = some w
  after : F' i = v
  away : ∀ j, j ≠ i → F' j = F j
  line : L' = L ∨ L' = L.erase i
  heir : ∀ u, v = some u → u.ticket = w.ticket ∧ (w.outcome ≠ none → u.outcome ≠ none)

namespace Changes

variable {d : Docket P} {F F' : Nat → Option (Waiter P.Request)} {L L' : List Nat} {i : Nat}
variable {w : Waiter P.Request} {v : Option (Waiter P.Request)}

theorem sublist (c : Changes F F' L L' i w v) : L'.Sublist L := by
  rcases c.line with rfl | rfl
  · exact List.Sublist.refl _
  · exact List.erase_sublist

theorem mem_iff (c : Changes F F' L L' i w v) {j : Nat} (hj : j ≠ i) : j ∈ L' ↔ j ∈ L := by
  rcases c.line with rfl | rfl
  · rfl
  · exact List.mem_erase_of_ne hj

theorem listed (c : Changes F F' L L' i w v) (nodup : L.Nodup) :
    (L'.filterMap fun j => (F' j).bind Waiter.petition?) = L.filterMap fun j =>
      if j = i then (if i ∈ L' then v.bind Waiter.petition? else none)
      else (F j).bind Waiter.petition? := by
  rcases c.line with rfl | rfl
  · refine List.filterMap_congr fun j hj => ?_
    by_cases hji : j = i
    · subst hji; simp [c.after, hj]
    · simp [hji, c.away j hji]
  · have hni : i ∉ L.erase i := by
      rw [nodup.mem_erase_iff]; simp
    rw [nodup.erase_eq_filter, List.filterMap_filter]
    refine List.filterMap_congr fun j _ => ?_
    by_cases hji : j = i
    · subst hji; simp
    · simp [hji, c.away j hji]

theorem pending (c : Changes F F' L L' i w v) (h : d.Shows F L) :
    (d.pending.filterMap fun e =>
      if e.ticket = w.ticket then (if i ∈ L' then v.bind Waiter.petition? else none) else some e) =
      L'.filterMap fun j => (F' j).bind Waiter.petition? := by
  rw [h.pending, List.filterMap_filterMap, c.listed h.nodup]
  refine List.filterMap_congr fun j hj => ?_
  by_cases hji : j = i
  · subst hji
    rw [if_pos rfl, c.before, Option.bind_some]
    rcases hp : w.petition? with _ | e
    · have hw : w.outcome ≠ none := by
        intro hw; rw [Waiter.petition?_of_pending hw] at hp; cases hp
      rcases hu : v with _ | u
      · simp
      · have := (c.heir u hu).2 hw
        simp [Waiter.petition?_eq_none this]
    · rw [Option.bind_some, if_pos (Waiter.ticket_of_petition? hp)]
  · rw [if_neg hji]
    rcases hj : F j with _ | u
    · rfl
    · rcases hp : u.petition? with _ | e
      · simp [hp]
      · have : e.ticket ≠ w.ticket := by
          rw [Waiter.ticket_of_petition? hp]
          exact fun ht => hji (h.unique j i u w hj c.before ht)
        simp [hp, this]

theorem settled (c : Changes F F' L L' i w v) (h : d.Shows F L) (t : Nat)
    (x : P.Request × Outcome) :
    Function.update d.settled w.ticket (v.bind Waiter.verdict?) t = some x ↔
      ∃ j u, F' j = some u ∧ u.ticket = t ∧ u.verdict? = some x := by
  by_cases ht : t = w.ticket
  · subst ht
    rw [Function.update_self]
    constructor
    · intro hx
      obtain ⟨u, hu, hx⟩ := Option.bind_eq_some_iff.mp hx
      exact ⟨i, u, by rw [c.after, hu], (c.heir u hu).1, hx⟩
    · rintro ⟨j, u, hj, ht, hx⟩
      by_cases hji : j = i
      · subst hji; rw [← c.after, hj]; exact hx
      · rw [c.away j hji] at hj
        exact absurd (h.unique j i u w hj c.before ht) hji
  · rw [Function.update_of_ne ht, h.settled]
    constructor
    · rintro ⟨j, u, hj, htu, hx⟩
      have hji : j ≠ i := by
        rintro rfl
        rw [c.before] at hj
        exact ht (Option.some.inj hj ▸ htu.symm)
      exact ⟨j, u, by rw [c.away j hji]; exact hj, htu, hx⟩
    · rintro ⟨j, u, hj, htu, hx⟩
      have hji : j ≠ i := by
        rintro rfl
        rw [c.after] at hj
        exact ht (htu ▸ (c.heir u hj).1)
      exact ⟨j, u, by rw [← c.away j hji]; exact hj, htu, hx⟩

theorem regular (c : Changes F F' L L' i w v) (h : d.Shows F L)
    (new : ∀ u, v = some u → Regular L' d.arrivals i u) {j : Nat} {u : Waiter P.Request}
    (hj : F' j = some u) : Regular L' d.arrivals j u := by
  by_cases hji : j = i
  · subst hji; exact new u (c.after ▸ hj)
  · rw [c.away j hji] at hj
    have r := h.regular j u hj
    exact ⟨fun hu => (c.mem_iff hji).mpr (r.queued hu), by rw [c.mem_iff hji]; exact r.lingers,
      r.quiet, r.numbered⟩

theorem ticket_of_after (c : Changes F F' L L' i w v) {j : Nat} {u : Waiter P.Request}
    (hj : F' j = some u) : ∃ u', F j = some u' ∧ u'.ticket = u.ticket := by
  by_cases hji : j = i
  · subst hji; exact ⟨w, c.before, ((c.heir u (c.after ▸ hj)).1).symm⟩
  · exact ⟨u, by rw [← c.away j hji]; exact hj, rfl⟩

theorem tickets_sublist (c : Changes F F' L L' i w v) (M : List Nat) :
    (M.filterMap fun j => (F' j).map (·.ticket)).Sublist
      (M.filterMap fun j => (F j).map (·.ticket)) := by
  induction M with
  | nil => exact List.Sublist.slnil
  | cons j M ih =>
    rw [List.filterMap_cons, List.filterMap_cons]
    by_cases hji : j = i
    · subst hji
      rw [c.after, c.before]
      rcases hu : v with _ | u
      · exact ih.cons _
      · simpa [(c.heir u hu).1] using ih
    · rw [c.away j hji]
      rcases F j with _ | u
      · exact ih
      · exact ih.cons_cons _

end Changes

namespace Shows

variable {d d' : Docket P} {F F' : Nat → Option (Waiter P.Request)} {L L' : List Nat}
variable {i : Nat} {w : Waiter P.Request}

theorem change (h : d.Shows F L) (hi : F i = some w) {v : Option (Waiter P.Request)}
    (hF : ∀ j, F' j = if j = i then v else F j) (hL : L' = L ∨ L' = L.erase i)
    (hv : ∀ u, v = some u →
      Regular L' d.arrivals i u ∧ u.ticket = w.ticket ∧ (w.outcome ≠ none → u.outcome ≠ none))
    (arrivals : d'.arrivals = d.arrivals)
    (settled : d'.settled = Function.update d.settled w.ticket (v.bind Waiter.verdict?))
    (pending : d'.pending = d.pending.filterMap fun e =>
      if e.ticket = w.ticket then (if i ∈ L' then v.bind Waiter.petition? else none) else some e) :
    d'.Shows F' L' := by
  have c : Changes F F' L L' i w v :=
    ⟨hi, by rw [hF, if_pos rfl], fun j hj => by rw [hF, if_neg hj], hL, fun u hu => (hv u hu).2⟩
  refine ⟨pending.trans (c.pending h), fun t x => ?_, h.nodup.sublist c.sublist, fun j u hj => ?_,
    fun j k u x hj hk ht => ?_, ?_⟩
  · rw [settled]
    exact c.settled h t x
  · rw [arrivals]
    exact c.regular h (fun u hu => (hv u hu).1) hj
  · obtain ⟨u', hu', htu⟩ := c.ticket_of_after hj
    obtain ⟨x', hx', htx⟩ := c.ticket_of_after hk
    exact h.unique j k u' x' hu' hx' (by rw [htu, htx, ht])
  · exact h.order.sublist ((c.tickets_sublist L').trans (c.sublist.filterMap _))

theorem congr (h : d.Shows F L) (pending : d'.pending = d.pending) (settled : d'.settled = d.settled)
    (arrivals : d'.arrivals = d.arrivals) : d'.Shows F L :=
  ⟨by rw [pending]; exact h.pending, by rw [settled]; exact h.settled, h.nodup,
    by rw [arrivals]; exact h.regular, h.unique, h.order⟩

/-! ## One kind of change each -/

theorem settle (h : d.Shows F L) (hi : F i = some w) {e : Petition P.Request}
    (he : w.petition? = some e) (o : Outcome) (hL : L' = L ∨ L' = L.erase i)
    (hF : ∀ j, F' j = if j = i then some (w.settled o (decide (i ∈ L'))) else F j) :
    (Docket.settle o (d.strike e.ticket) e).Shows F' L' := by
  have ht := Waiter.ticket_of_petition? he
  have hr : e.request = w.request := by
    unfold Waiter.petition? at he
    split at he
    · rw [← Option.some.inj he]
    · cases he
  refine h.change hi hF hL ?_ rfl ?_ ?_
  · rintro u hu
    obtain rfl := Option.some.inj hu
    exact ⟨⟨by simp [Waiter.settled], by simp [Waiter.settled], by simp [Waiter.settled],
      (h.regular i w hi).numbered⟩, rfl, by simp [Waiter.settled]⟩
  · simp [Docket.settle, strike, ht, hr, Waiter.verdict?, Waiter.settled]
  · have : (w.settled o (decide (i ∈ L'))).petition? = none :=
      Waiter.petition?_eq_none (by simp [Waiter.settled])
    simp only [Option.bind_some, this, ite_self]
    rw [← ht]
    exact strike_pending d e.ticket

theorem remove (h : d.Shows F L) (hi : F i = some w) (hw : w.outcome ≠ none)
    (hF : ∀ j, F' j = if j = i then some w.calm else F j) : d.Shows F' (L.erase i) := by
  have hni : i ∉ L.erase i := by rw [h.nodup.mem_erase_iff]; simp
  have r := h.regular i w hi
  refine h.change hi hF (.inr rfl) ?_ rfl ?_ ?_
  · rintro u hu
    obtain rfl := Option.some.inj hu
    exact ⟨⟨fun hu => absurd hu hw, by simp [Waiter.calm, hni], r.quiet, r.numbered⟩, rfl, fun h => h⟩
  · refine (Function.update_eq_self_iff.mpr ?_).symm
    rw [h.settled_eq hi]
    rfl
  · rw [List.filterMap_congr fun e he => if_neg (h.ticket_ne_of_resolved hi hw he)]
    exact List.filterMap_some.symm

theorem vacate_pending (h : d.Shows F L) (hi : F i = some w) (hw : w.outcome = none)
    (hF : ∀ j, F' j = if j = i then none else F j) : (d.strike w.ticket).Shows F' (L.erase i) := by
  refine h.change hi hF (.inr rfl) (by simp) rfl ?_ ?_
  · refine (Function.update_eq_self_iff.mpr ?_).symm
    exact (h.settled_eq_none hi hw).symm
  · simp only [Option.bind_none, ite_self]
    exact strike_pending d w.ticket

theorem vacate_resolved (h : d.Shows F L) (hi : F i = some w) (hw : w.outcome ≠ none)
    (hF : ∀ j, F' j = if j = i then none else F j) : (d.forget w.ticket).Shows F' (L.erase i) := by
  refine h.change hi hF (.inr rfl) (by simp) rfl rfl ?_
  simp only [Option.bind_none, ite_self]
  rw [List.filterMap_congr fun e he => if_neg (h.ticket_ne_of_resolved hi hw he)]
  exact List.filterMap_some.symm

theorem await (h : d.Shows F L) (hi : F i = some w) (hw : w.outcome = none) (k : Waker)
    (hF : ∀ j, F' j = if j = i then some { w with waker := some k } else F j) :
    (d.await w.ticket k).Shows F' L := by
  have r := h.regular i w hi
  have hiL := r.queued hw
  refine h.change hi hF (.inl rfl) ?_ rfl ?_ ?_
  · rintro u hu
    obtain rfl := Option.some.inj hu
    exact ⟨⟨fun _ => hiL, r.lingers, fun h => absurd hw h, r.numbered⟩, rfl, fun h => h⟩
  · refine (Function.update_eq_self_iff.mpr ?_).symm
    exact (Waiter.verdict?_eq_none.mpr hw).trans (h.settled_eq_none hi hw).symm
  · have hk : ({ w with waker := some k } : Waiter P.Request).outcome = none := hw
    simp only [Docket.await, if_pos hiL, Option.bind_some, Waiter.petition?_of_pending hk]
    rw [← List.filterMap_eq_map]
    refine List.filterMap_congr fun e he => ?_
    by_cases ht : e.ticket = w.ticket
    · have := h.petition?_of_mem hi he ht
      rw [Waiter.petition?_of_pending hw] at this
      simp [← Option.some.inj this]
    · simp [ht]

theorem arrive (h : d.Shows F L) (hi : F i = none) (hiL : i ∉ L) {e : Petition P.Request}
    (hw : w.outcome = none) (hl : w.lingers = false) (ht : w.ticket = d.arrivals)
    (hF : ∀ j, F' j = if j = i then some w else F j) (he : w.petition? = some e) :
    { d with pending := d.pending ++ [e], arrivals := d.arrivals + 1 }.Shows F' (L ++ [i]) := by
  have here : F' i = some w := by rw [hF, if_pos rfl]
  have away : ∀ j, j ≠ i → F' j = F j := fun j hj => by rw [hF, if_neg hj]
  have inL : ∀ j ∈ L, F' j = F j := fun j hj => away j (by rintro rfl; exact hiL hj)
  refine ⟨?_, ?_, ?_, ?_, ?_, ?_⟩
  · rw [List.filterMap_append, List.filterMap_congr (fun j hj => by rw [inL j hj]), ← h.pending]
    simp [here, he]
  · intro t v
    rw [h.settled]
    constructor
    · rintro ⟨j, u, hj, hu⟩
      exact ⟨j, u, by rw [away j (by rintro rfl; rw [hi] at hj; cases hj)]; exact hj, hu⟩
    · rintro ⟨j, u, hj, hu⟩
      by_cases hji : j = i
      · subst hji
        rw [here] at hj
        obtain rfl := Option.some.inj hj
        rw [Waiter.verdict?_eq_none.mpr hw] at hu
        cases hu.2
      · exact ⟨j, u, by rw [← away j hji]; exact hj, hu⟩
  · simpa [List.nodup_append, h.nodup] using fun a ha (e : a = i) => hiL (e ▸ ha)
  · intro j u hj
    by_cases hji : j = i
    · subst hji
      rw [here] at hj
      obtain rfl := Option.some.inj hj
      exact ⟨by simp, by simp [hl, hw], fun h => absurd hw h, by simp [ht]⟩
    · rw [away j hji] at hj
      have r := h.regular j u hj
      refine ⟨fun hu => List.mem_append_left _ (r.queued hu), ?_, r.quiet, ?_⟩
      · rw [r.lingers]; simp [hji]
      · exact Nat.lt_succ_of_lt r.numbered
  · -- The newcomer has the next ticket, which is later than any that is out.
    have old : ∀ j u, j ≠ i → F' j = some u → F j = some u ∧ u.ticket < d.arrivals := by
      intro j u hji hj
      rw [away j hji] at hj
      exact ⟨hj, (h.regular j u hj).numbered⟩
    intro j k u x hj hk hux
    by_cases hji : j = i <;> by_cases hki : k = i
    · rw [hji, hki]
    · subst hji
      rw [here] at hj
      have := (old k x hki hk).2
      rw [← Option.some.inj hj] at hux
      omega
    · subst hki
      rw [here] at hk
      have := (old j u hji hj).2
      rw [← Option.some.inj hk] at hux
      omega
    · exact h.unique j k u x (old j u hji hj).1 (old k x hki hk).1 hux
  · rw [List.filterMap_append, List.filterMap_congr (fun j hj => by rw [inL j hj])]
    refine List.pairwise_append.mpr ⟨h.order, by simp [here], ?_⟩
    intro a ha b hb
    obtain ⟨j, -, hj⟩ := List.mem_filterMap.mp ha
    obtain ⟨u, hu, rfl⟩ := Option.map_eq_some_iff.mp hj
    have := (h.regular j u hu).numbered
    simp only [List.filterMap_cons, here, Option.map_some, List.filterMap_nil,
      List.mem_singleton] at hb
    omega

end Shows

end Docket

end Turnstile
