import Turnstile.Proofs.Halting
import Turnstile.Proofs.Integrity

/-!
# Who is woken

A critical section gathers the wakers of those whose wait it has ended, and of nobody else, in the
order in which it ended their waits. If it ends disposal, the tasks that wait for that come last.
-/

namespace Turnstile

variable {P : Policy}

theorem eq_filter_of_sublist {α : Type} {as bs : List α} {p : α → Bool} (sub : as.Sublist bs)
    (nodup : bs.Nodup) (h : ∀ b ∈ bs, b ∈ as ↔ p b = true) : as = bs.filter p := by
  induction sub with
  | slnil => rfl
  | cons b sub ih =>
    obtain ⟨hb, nodup⟩ := List.nodup_cons.mp nodup
    have out : p b = false :=
      Bool.eq_false_iff.mpr fun hp => hb (sub.subset ((h b List.mem_cons_self).mpr hp))
    rw [List.filter_cons_of_neg (by simp [out])]
    exact ih nodup fun x hx => h x (List.mem_cons_of_mem _ hx)
  | cons_cons b sub ih =>
    obtain ⟨hb, nodup⟩ := List.nodup_cons.mp nodup
    rw [List.filter_cons_of_pos ((h b List.mem_cons_self).mp List.mem_cons_self)]
    refine congrArg _ (ih nodup fun x hx => ?_)
    have apart : x ≠ b := fun e => hb (e ▸ hx)
    rw [← h x (List.mem_cons_of_mem _ hx), List.mem_cons]
    exact (or_iff_right apart).symm

/-! ## What a section does to those who are pending -/

namespace Docket

/-- From `d` to `d'` those in `R` get outcome `o`, then those in `G` are granted, and then disposal
may end. -/
structure Resolves (d d' : Docket P) (o : Outcome) (R G : List (Petition P.Request)) : Prop where
  refusal : o ≠ .granted
  refused : R.Sublist d.pending
  admitted : G.Sublist d.pending
  settled_refused : ∀ e ∈ R, d'.settled e.ticket = some (e.request, o)
  settled_admitted : ∀ e ∈ G, d'.settled e.ticket = some (e.request, .granted)
  settled_other : ∀ e ∈ d.pending, e ∉ R → e ∉ G → d'.settled e.ticket = none
  granted : d'.granted = d.granted ++ G.map (·.ticket)
  wakes : d'.wakes = d.wakes ++ (R ++ G).filterMap (·.waker) ++
    if d.phase ≠ .disposed ∧ d'.phase = .disposed then d.awaitingEnd else []

variable {d d' : Docket P} {o : Outcome} {R G : List (Petition P.Request)}

theorem grantRun_awaitingEnd (d : Docket P) : d.grantRun.awaitingEnd = d.awaitingEnd :=
  (foldl_settle_fields .granted (P.admissible d.holding d.pending) d).2.2.2.2.1

theorem resolveAll_awaitingEnd (o : Outcome) (d : Docket P) :
    (d.resolveAll o).awaitingEnd = d.awaitingEnd :=
  (foldl_settle_fields o d.pending d).2.2.2.2.1

theorem resolves_nobody (still : ∀ e ∈ d.pending, d'.settled e.ticket = none)
    (wakes : d'.wakes = d.wakes) (granted : d'.granted = d.granted)
    (phase : d'.phase = .disposed → d.phase = .disposed) : d.Resolves d' .cancelled [] [] where
  refusal := by simp
  refused := List.nil_sublist _
  admitted := List.nil_sublist _
  settled_refused := by simp
  settled_admitted := by simp
  settled_other := fun e he _ _ => still e he
  granted := by simp [granted]
  wakes := by
    rw [wakes, if_neg fun h => h.1 (phase h.2)]
    simp

theorem resolves_all (nodup : (d.pending.map (·.ticket)).Nodup) (refusal : o ≠ .granted) :
    d.Resolves (d.resolveAll o) o d.pending [] where
  refusal := refusal
  refused := List.Sublist.refl _
  admitted := List.nil_sublist _
  settled_refused := fun e he => settled_of_mem o d nodup he
  settled_admitted := by simp
  settled_other := fun e he out _ => absurd he out
  granted := by simp [(resolveAll_fields o d).2.2.2.2]
  wakes := by
    have phase := (resolveAll_fields o d).2.2.1
    rw [if_neg fun h => h.1 (phase.symm.trans h.2)]
    refine (foldl_settle_wakes o d.pending d).trans ?_
    simp

theorem resolves_one (nodup : (d.pending.map (·.ticket)).Nodup)
    (unsettled : ∀ e ∈ d.pending, d.settled e.ticket = none) {e : Petition P.Request}
    (he : e ∈ d.pending) (refusal : o ≠ .granted) :
    d.Resolves (settle o (d.strike e.ticket) e) o [e] [] where
  refusal := refusal
  refused := List.singleton_sublist.mpr he
  admitted := List.nil_sublist _
  settled_refused := by
    intro x hx
    rw [List.mem_singleton.mp hx]
    exact Function.update_self ..
  settled_admitted := by simp
  settled_other := by
    intro x hx out _
    refine (Function.update_of_ne (fun same => out ?_) ..).trans (unsettled x hx)
    exact List.mem_singleton.mpr (List.inj_on_of_nodup_map nodup hx he same)
  granted := (List.append_nil _).symm
  wakes := by
    have phase : (settle o (d.strike e.ticket) e).phase = d.phase := rfl
    rw [if_neg fun h => h.1 (phase.symm.trans h.2)]
    rcases hw : e.waker with _ | w <;> simp [settle, strike, hw]

theorem Resolves.grantRun (h : d.Resolves d' o R []) (nodup : (d.pending.map (·.ticket)).Nodup)
    (sub : d'.pending.Sublist d.pending)
    (unsettled : ∀ e ∈ d'.pending, d'.settled e.ticket = none)
    (phase : d'.phase = .disposed → d.phase = .disposed) :
    d.Resolves d'.grantRun o R (P.admissible d'.holding d'.pending) := by
  obtain ⟨-, -, same, -⟩ := grantRun_fields d'
  have admitted := admissible_sublist d'.holding d'.pending
  have other : ∀ e ∈ d.pending, e ∉ P.admissible d'.holding d'.pending →
      d'.grantRun.settled e.ticket = d'.settled e.ticket := by
    intro e he out
    refine foldl_settled_other (fun x hx same => out ?_) d'
    rwa [← List.inj_on_of_nodup_map nodup (sub.subset (admitted.subset hx)) he same]
  refine ⟨h.refusal, h.refused, admitted.trans sub, fun e he => ?_, fun e he => ?_,
    fun e he outR outG => ?_, ?_, ?_⟩
  · have settled := h.settled_refused e he
    rw [other e (h.refused.subset he) fun hG => ?_]
    · exact settled
    · rw [unsettled e (admitted.subset hG)] at settled
      cases settled
  · exact settled_of_mem .granted d' (nodup.sublist ((admitted.trans sub).map _)) he
  · rw [other e he outG]
    exact h.settled_other e he outR (by simp)
  · show d'.granted ++ _ = _
    rw [h.granted]
    simp
  · refine (foldl_settle_wakes .granted _ d').trans ?_
    rw [h.wakes, same, if_neg fun h => h.1 (phase h.2)]
    simp

theorem Resolves.endDisposal (h : d.Resolves d' o R G)
    (ending : d'.phase = .disposing → d.phase ≠ .disposed ∧ d'.awaitingEnd = d.awaitingEnd) :
    d.Resolves d'.endDisposal o R G := by
  obtain ⟨-, -, settled, -, granted⟩ := endDisposal_fields d'
  refine ⟨h.refusal, h.refused, h.admitted, ?_, ?_, ?_, granted.trans h.granted, ?_⟩
  · rw [settled]
    exact h.settled_refused
  · rw [settled]
    exact h.settled_admitted
  · rw [settled]
    exact h.settled_other
  · unfold Docket.endDisposal
    split
    · rename_i now
      simp only [Bool.and_eq_true, decide_eq_true_eq] at now
      obtain ⟨before, awaited⟩ := ending now.1.1
      rw [h.wakes, now.1.1, awaited]
      simp [before]
    · exact h.wakes

theorem Resolves.congr (h : d.Resolves d' o R G) {d'' : Docket P}
    (settled : d''.settled = d'.settled) (wakes : d''.wakes = d'.wakes) (granted : d''.granted = d'.granted)
    (phase : d''.phase = d'.phase) : d.Resolves d'' o R G := by
  refine ⟨h.refusal, h.refused, h.admitted, ?_, ?_, ?_, granted.trans h.granted, ?_⟩
  · rw [settled]
    exact h.settled_refused
  · rw [settled]
    exact h.settled_admitted
  · rw [settled]
    exact h.settled_other
  · rw [wakes, phase]
    exact h.wakes

theorem join_fields (e : Petition P.Request) (zero refused : Bool) :
    (d.join e zero refused).1.wakes = d.wakes ∧ (d.join e zero refused).1.phase = d.phase ∧
      (d.join e zero refused).1.awaitingEnd = d.awaitingEnd := by
  unfold join
  split
  · exact ⟨rfl, rfl, rfl⟩
  · split
    · exact ⟨rfl, rfl, rfl⟩
    · split <;> exact ⟨rfl, rfl, rfl⟩

/-- Whatever is ordered, some are refused, then some are granted, and then disposal may end. -/
theorem Becomes.resolves {x : Order P} (h : d.Becomes x d')
    (nodup : (d.pending.map (·.ticket)).Nodup)
    (unsettled : ∀ e ∈ d.pending, d.settled e.ticket = none) :
    ∃ o R G, d.Resolves d' o R G := by
  have nobody : d.Resolves d .cancelled [] [] := resolves_nobody unsettled rfl rfl id
  cases h with
  | same => exact ⟨_, _, _, nobody⟩
  | joined _ e zero refused steal =>
    obtain ⟨wakes, phase, -⟩ := join_fields (d := d.evict steal) e zero refused
    have joined {o : Outcome} {R : List (Petition P.Request)}
        (h : d.Resolves (d.evict steal) o R []) :
        d.Resolves ((d.evict steal).join e zero refused).1 o R [] :=
      h.congr (join_settled e zero refused) wakes (join_granted e zero refused) phase
    rcases steal with _ | r
    · exact ⟨_, _, _, joined nobody⟩
    · exact ⟨_, _, _, joined (resolves_all nodup (by simp))⟩
  | fired _ e o he refusal =>
    refine ⟨o, _, _, (resolves_one nodup unsettled he refusal).grantRun nodup
      List.filter_sublist (fun y hy => ?_) id⟩
    obtain ⟨hy, apart⟩ := List.mem_filter.mp hy
    exact (Function.update_of_ne (of_decide_eq_true apart) ..).trans (unsettled y hy)
  | awaited => exact ⟨_, _, _, resolves_nobody unsettled rfl rfl id⟩
  | forgotten _ t =>
    have forgotten : ∀ e ∈ d.pending, (d.forget t).settled e.ticket = none :=
      fun e he => forget_eq_none (unsettled e he)
    exact ⟨_, _, _, resolves_nobody forgotten rfl rfl id⟩
  | regranted _ e loosens =>
    have still : ∀ y ∈ d.pending, e.settled y.ticket = none :=
      fun y hy => loosens.settled _ (unsettled y hy)
    have begun : d.Resolves e .cancelled [] [] :=
      resolves_nobody still loosens.wakes loosens.granted fun h => loosens.phase.symm.trans h
    have granted := begun.grantRun nodup loosens.pending
      (fun y hy => still y (loosens.pending.subset hy)) fun h => loosens.phase.symm.trans h
    refine ⟨_, _, _, granted.endDisposal fun disposing =>
      ⟨?_, (grantRun_awaitingEnd e).trans loosens.awaitingEnd⟩⟩
    rw [← loosens.phase, ← (grantRun_fields e).2.2.1, disposing]
    simp
  | disposed active =>
    have all := resolves_all (d := { d with phase := .disposing }) nodup (o := .disposed) (by simp)
    have all : d.Resolves ({ d with phase := .disposing }.resolveAll .disposed) .disposed
        d.pending [] :=
      ⟨all.refusal, all.refused, all.admitted, all.settled_refused, all.settled_admitted,
        all.settled_other, all.granted, by simpa [active] using all.wakes⟩
    have ended := all.endDisposal fun _ => ⟨by simp [active], resolveAll_awaitingEnd _ _⟩
    rw [dispose, if_neg (by simp [active])]
    exact ⟨_, _, _, ended⟩
  | watched => exact ⟨_, _, _, resolves_nobody unsettled rfl rfl id⟩

/-! ## The wakers that stay -/

theorem grantRun_subset (d : Docket P) : d.grantRun.pending ⊆ d.pending := by
  rw [(grantRun_fields d).2.1]
  exact List.drop_subset _ _

theorem evict_subset (steal : Option Reason) : (d.evict steal).pending ⊆ d.pending := by
  rcases steal with _ | r
  · exact fun e he => he
  · rw [show (d.evict (some r)).pending = [] from rfl]
    exact List.nil_subset _

theorem Becomes.pending {x : Order P} (h : d.Becomes x d')
    (polled : ∀ t waker, x ≠ .observe t waker) {e : Petition P.Request} (he : e ∈ d'.pending) :
    e ∈ d.pending ∨ e.ticket = d.arrivals ∧ e.waker = none := by
  cases h with
  | same => exact .inl he
  | joined _ y zero refused steal unpolled =>
    unfold join at he
    split at he
    · exact .inl (evict_subset steal he)
    · split at he
      · exact .inl (evict_subset steal he)
      · split at he
        · exact .inl (evict_subset steal he)
        · rcases List.mem_append.mp he with he | he
          · exact .inl (evict_subset steal he)
          · rw [List.mem_singleton.mp he]
            exact .inr ⟨(evict_fields d steal).2.2.1, unpolled⟩
  | fired _ y o => exact .inl (List.filter_sublist.subset (grantRun_subset _ he))
  | awaited t waker => exact absurd rfl (polled t waker)
  | forgotten => exact .inl he
  | regranted _ y loosens =>
    rw [(endDisposal_fields _).2.1] at he
    exact .inl (loosens.pending.subset (grantRun_subset y he))
  | disposed active =>
    rw [dispose, if_neg (by simp [active]), (endDisposal_fields _).2.1] at he
    cases he
  | watched => exact .inl he

theorem endDisposal_of_running (running : d.endDisposal.phase ≠ .disposed) :
    d.endDisposal = d := by
  unfold endDisposal at running ⊢
  split
  · rename_i h
    rw [if_pos h] at running
    exact absurd rfl running
  · rfl

theorem Becomes.awaitingEnd {x : Order P} (h : d.Becomes x d')
    (asked : ∀ waker, x ≠ .awaitEnd waker) (running : d'.phase ≠ .disposed) :
    d.phase ≠ .disposed ∧ d'.awaitingEnd = d.awaitingEnd := by
  cases h with
  | same => exact ⟨running, rfl⟩
  | joined _ e zero refused steal _ active =>
    refine ⟨by simp [active], (join_fields _ _ _).2.2.trans ?_⟩
    rcases steal with _ | r
    · rfl
    · exact resolveAll_awaitingEnd (.interrupted r) d
  | fired _ e o =>
    let ended := settle o (d.strike e.ticket) e
    exact ⟨fun h => running ((grantRun_fields ended).2.2.1.trans h), grantRun_awaitingEnd ended⟩
  | awaited => exact ⟨running, rfl⟩
  | forgotten => exact ⟨running, rfl⟩
  | regranted _ e loosens =>
    have same := endDisposal_of_running running
    rw [same] at running ⊢
    exact ⟨fun h => running ((grantRun_fields e).2.2.1.trans (loosens.phase.trans h)),
      (grantRun_awaitingEnd e).trans loosens.awaitingEnd⟩
  | disposed active =>
    rw [dispose, if_neg (by simp [active])] at running ⊢
    rw [endDisposal_of_running running]
    exact ⟨by simp [active], resolveAll_awaitingEnd _ _⟩
  | watched waker => exact absurd rfl (asked waker)

end Docket

/-! ## What callers see of it -/

namespace Scene

variable {c : Scene P} {d : Docket P} {L : List Nat} {k : Nat} {x : Deed P}

/-- The futures whose wait the deed ends with an outcome of the given kind, first come first. -/
def ended (c : Scene P) (x : Deed P) (kind : Outcome → Bool) : List Nat :=
  (List.range c.futures.length).filter fun k => c.pends k && ((c.after x).outcome? k).any kind

/-- The futures whose wait the deed ends. Nobody is granted until the others have made room. -/
def resolved (c : Scene P) (x : Deed P) : List Nat :=
  c.ended x (· ≠ .granted) ++ c.ended x (· = .granted)

theorem Shows.unsettled (h : c.Shows d L) : ∀ e ∈ d.pending, d.settled e.ticket = none :=
  fun _ he => h.rests.roll.unsettled he

theorem Shows.resolves (h : c.Shows d L) (x : Deed P) :
    ∃ o R G, d.Resolves (d.after c x) o R G := by
  obtain ⟨fresh, wakes, granted⟩ := h.after_eq x
  have settled : (d.after c x).settled = (d.run (c.errand x)).1.settled :=
    congrArg (·.settled) fresh
  have phase : (d.after c x).phase = (d.run (c.errand x)).1.phase := congrArg (·.phase) fresh
  obtain ⟨o, R, G, resolves⟩ : ∃ o R G, d.Resolves (d.run (c.errand x)).1 o R G := by
    unfold Docket.run
    rcases (c.errand x).order with _ | order
    · exact ⟨_, _, _, Docket.resolves_nobody h.unsettled rfl rfl id⟩
    · exact (d.obey_becomes _ _ order).resolves h.nodup h.unsettled
  exact ⟨o, R, G, resolves.congr settled wakes granted phase⟩

theorem Shows.outcome_of_petition (h : c.Shows d L) {e : Petition P.Request}
    (he : c.petition? k = some e) :
    (c.after x).outcome? k = ((d.after c x).settled e.ticket).map Prod.snd := by
  obtain ⟨L', -, next⟩ := h.perform x
  obtain ⟨f, hk, ht⟩ := h.future_of_petition? he
  obtain ⟨stage, hk', -⟩ := future_after hk x
  exact next.outcome?_eq hk' ht

theorem Shows.ended_eq {α : Type} (h : c.Shows d L) (x : Deed P) (kind : Outcome → Bool)
    {F : Petition P.Request → Option α} {f : Nat → Option α}
    (same : ∀ k e, c.petition? k = some e → F e = f k) :
    (d.pending.filter fun e => ((d.after c x).settled e.ticket).any (kind ·.2)).filterMap F =
      (c.ended x kind).filterMap f := by
  rw [h.pending_eq, ended, List.filter_filterMap, List.filterMap_filterMap, List.filterMap_filter]
  refine List.filterMap_congr fun k _ => ?_
  rcases hk : c.petition? k with _ | e
  · have idle : c.pends k = false := by
      rw [Bool.eq_false_iff, Ne, pends_eq_true]
      rintro ⟨e, he⟩
      cases hk.symm.trans he
    simp [idle]
  · have pends : c.pends k = true := pends_eq_true.mpr ⟨e, hk⟩
    rw [pends, h.outcome_of_petition hk, ← same k e hk]
    rcases hv : (d.after c x).settled e.ticket with _ | v
    · simp [hv]
    · cases ho : kind v.2 <;> simp [Option.filter, hv, ho]

theorem Shows.refused_eq (h : c.Shows d L) {o : Outcome} {R G : List (Petition P.Request)}
    (resolves : d.Resolves (d.after c x) o R G) :
    R = d.pending.filter fun e => ((d.after c x).settled e.ticket).any (·.2 ≠ .granted) := by
  refine eq_filter_of_sublist resolves.refused h.nodup.of_map fun e he =>
    ⟨fun hR => ?_, fun hv => ?_⟩
  · rw [resolves.settled_refused e hR]
    simpa using resolves.refusal
  · by_contra hR
    by_cases hG : e ∈ G
    · rw [resolves.settled_admitted e hG] at hv
      simp at hv
    · rw [resolves.settled_other e he hR hG] at hv
      cases hv

theorem Shows.admitted_eq (h : c.Shows d L) {o : Outcome} {R G : List (Petition P.Request)}
    (resolves : d.Resolves (d.after c x) o R G) :
    G = d.pending.filter fun e => ((d.after c x).settled e.ticket).any (·.2 = .granted) := by
  refine eq_filter_of_sublist resolves.admitted h.nodup.of_map fun e he =>
    ⟨fun hG => ?_, fun hv => ?_⟩
  · rw [resolves.settled_admitted e hG]
    rfl
  · by_contra hG
    by_cases hR : e ∈ R
    · rw [resolves.settled_refused e hR] at hv
      exact resolves.refusal (by simpa using hv)
    · rw [resolves.settled_other e he hR hG] at hv
      cases hv

/-- A deed gathers the wakers of the futures whose wait it ends, and of those who wait for the end
of disposal if it brings that about. -/
theorem Shows.gathered (h : c.Shows d L) (x : Deed P) {waker : Nat → Option Waker}
    (known : ∀ k e, c.petition? k = some e → e.waker = waker k) :
    (c.perform x).after.wakes = (c.resolved x).filterMap waker ++
        (if c.sync.phase ≠ .disposed ∧ (c.after x).sync.phase = .disposed then c.sync.awaitingEnd
          else []) ∧
      (c.perform x).granted =
        (c.ended x (· = .granted)).filterMap fun k => c.futures[k]?.bind (·.ticket) := by
  obtain ⟨L', rests, next⟩ := h.perform x
  obtain ⟨o, R, G, resolves⟩ := h.resolves x
  have quiet : d.wakes = [] := h.rests.wakes
  have phase : (d.after c x).phase = (c.after x).sync.phase := next.phase
  have wakes : (d.after c x).wakes = (c.perform x).after.wakes := rests.wakes
  have granted : (d.after c x).granted = (c.perform x).granted := rests.granted
  constructor
  · rw [← wakes, resolves.wakes, quiet, List.nil_append, List.filterMap_append, phase, h.phase,
      h.rests.awaitingEnd, resolved, List.filterMap_append, ← h.ended_eq x _ known,
      ← h.ended_eq x _ known, ← h.refused_eq resolves, ← h.admitted_eq resolves]
    rfl
  · rw [← granted, resolves.granted, h.nobody, List.nil_append, ← List.filterMap_eq_map]
    refine (congrArg _ (h.admitted_eq resolves)).trans
      (h.ended_eq x (· = .granted) fun k e he => ?_)
    obtain ⟨f, hk, ht⟩ := h.future_of_petition? he
    rw [hk]
    exact ht.symm

/-! ## The latest poll -/

/-- The waker that the deed leaves with future `k`, which is in line. -/
def polls (c : Scene P) (k : Nat) : Deed P → Option Waker
  | .poll l waker => if l = k ∧ c.pends k = true then some waker else none
  | _ => none

/-- The waker that the latest of these deeds to poll future `k` in line has left with it. -/
def lastPoll (c : Scene P) (k : Nat) : List (Deed P) → Option Waker
  | [] => none
  | x :: xs => ((c.after x).lastPoll k xs).or (c.polls k x)

theorem lastPoll_append (c : Scene P) (k : Nat) (xs : List (Deed P)) (x : Deed P) :
    c.lastPoll k (xs ++ [x]) = ((c.run xs).polls k x).or (c.lastPoll k xs) := by
  induction xs generalizing c with
  | nil => simp [lastPoll, run]
  | cons y ys ih =>
    rw [List.cons_append, lastPoll, ih, lastPoll, Option.or_assoc]
    rfl

theorem polls_of_length_le (hk : c.futures.length ≤ k) (x : Deed P) : c.polls k x = none := by
  have idle : c.pends k = false := by
    rw [pends, waiter?, List.getElem?_eq_none hk]
    rfl
  cases x with
  | poll l waker => simp [polls, idle]
  | _ => rfl

theorem length_after (x : Deed P) : c.futures.length ≤ (c.after x).futures.length := by
  by_contra lt
  obtain ⟨f, hf⟩ : ∃ f, c.futures[(c.after x).futures.length]? = some f :=
    ⟨_, List.getElem?_eq_getElem (Nat.not_le.mp lt)⟩
  obtain ⟨stage, hf', -⟩ := future_after hf x
  exact Nat.lt_irrefl _ (List.getElem?_eq_some_iff.mp hf').1

theorem lastPoll_of_length_le (xs : List (Deed P)) (hk : (c.run xs).futures.length ≤ k) :
    c.lastPoll k xs = none := by
  induction xs using List.reverseRecOn with
  | nil => rfl
  | append_singleton xs x ih =>
    have le : (c.run xs).futures.length ≤ k := by
      rw [run_append] at hk
      exact Nat.le_trans (length_after x) hk
    rw [lastPoll_append, polls_of_length_le le, ih le]
    rfl

theorem Shows.petition_before (h : c.Shows d L) {x : Deed P} {e e' : Petition P.Request}
    (he : (c.after x).petition? k = some e) (he' : e' ∈ d.pending) (same : e'.ticket = e.ticket) :
    c.petition? k = some e' := by
  obtain ⟨L', -, next⟩ := h.perform x
  obtain ⟨g, hk, hg⟩ := next.future_of_petition? he
  obtain ⟨l, hl⟩ := h.mem_pending_iff.mp he'
  obtain ⟨f, hf, ht⟩ := h.future_of_petition? hl
  obtain ⟨stage, hf', -⟩ := future_after hf x
  obtain rfl := ticket_injective next.tickets hf' hk (show f.ticket = _ by rw [ht, same]) hg
  exact hl

theorem Shows.waker_polled (h : c.Shows d L) {l : Nat} {waker : Waker} {e : Petition P.Request}
    (he : (c.after (.poll l waker)).petition? k = some e) :
    ∃ e', c.petition? k = some e' ∧ e.waker = (c.polls k (.poll l waker)).or e'.waker := by
  obtain ⟨L', -, next⟩ := h.perform (.poll l waker)
  have mem : e ∈ (d.after c (.poll l waker)).pending := next.mem_pending_iff.mpr ⟨k, he⟩
  obtain ⟨g, hk', hg⟩ := next.future_of_petition? he
  simp only [Docket.after] at mem
  rcases hw : c.waiter? l with _ | w <;> rw [hw] at mem <;> dsimp only at mem
  · refine ⟨e, h.petition_before he mem rfl, ?_⟩
    rw [polls, if_neg]
    · rfl
    · rintro ⟨rfl, hp⟩
      rw [pends, hw] at hp
      cases hp
  obtain ⟨f, -, hl, -, ht, -⟩ := h.future_of_waiter? hw
  have pends : c.pends l = w.isPending := by rw [pends, hw, Option.any_some]
  split at mem
  · rename_i hp
    obtain ⟨e', he', same⟩ := List.mem_map.mp mem
    by_cases own : e'.ticket = w.ticket
    · rw [if_pos own] at same
      subst same
      refine ⟨e', h.petition_before he he' rfl, ?_⟩
      obtain ⟨stage, hl', -⟩ := future_after hl (.poll l waker)
      obtain rfl := ticket_injective next.tickets hl' hk' (show f.ticket = _ from ht)
        (hg.trans (congrArg some own))
      rw [polls, if_pos ⟨rfl, pends.trans hp⟩]
      rfl
    · rw [if_neg own] at same
      subst same
      refine ⟨e', h.petition_before he he' rfl, ?_⟩
      rw [polls, if_neg]
      · rfl
      · rintro ⟨rfl, -⟩
        obtain ⟨f', hf', ht'⟩ := h.future_of_petition? (h.petition_before he he' rfl)
        obtain rfl := Option.some.inj (hl.symm.trans hf')
        exact own (Option.some.inj (ht'.symm.trans ht))
  · rename_i hp
    refine ⟨e, h.petition_before he mem rfl, ?_⟩
    rw [polls, if_neg]
    · rfl
    · rintro ⟨rfl, hp'⟩
      exact hp (pends.symm.trans hp')

theorem Shows.waker_after (h : c.Shows d L) (x : Deed P) {e : Petition P.Request}
    (he : (c.after x).petition? k = some e) :
    (∃ e', c.petition? k = some e' ∧ e.waker = (c.polls k x).or e'.waker) ∨
      k = c.futures.length ∧ e.waker = none := by
  by_cases polled : ∃ l waker, x = .poll l waker
  · obtain ⟨l, waker, rfl⟩ := polled
    exact .inl (h.waker_polled he)
  simp only [not_exists] at polled
  obtain ⟨L', -, next⟩ := h.perform x
  have mem : e ∈ (d.after c x).fresh.pending := next.mem_pending_iff.mpr ⟨k, he⟩
  have others : c.polls k x = none := by
    cases x with
    | poll l waker => exact absurd rfl (polled l waker)
    | _ => rfl
  have stayed (mem : e ∈ d.pending) :
      ∃ e', c.petition? k = some e' ∧ e.waker = (c.polls k x).or e'.waker :=
    ⟨e, h.petition_before he mem rfl, by rw [others]; rfl⟩
  rw [(h.after_eq x).1, Docket.run] at mem
  rcases ho : (c.errand x).order with _ | order <;> rw [ho] at mem
  · exact .inl (stayed mem)
  · have unpolled : ∀ t waker, order ≠ .observe t waker := by
      intro t waker same
      obtain ⟨l, hx⟩ := (order_of_errand ho).1 t waker same
      exact polled l waker hx
    rcases (d.obey_becomes _ _ order).pending unpolled mem with mem | ⟨new, quiet⟩
    · exact .inl (stayed mem)
    · right
      refine ⟨?_, quiet⟩
      obtain ⟨g, hk, hg⟩ := next.future_of_petition? he
      rcases future_before hk with ⟨f, stage, hf, rfl⟩ | ⟨here, -⟩
      · -- No future had the next ticket before.
        have old : e.ticket ∈ c.futures.filterMap (·.ticket) :=
          List.mem_filterMap.mpr ⟨f, List.mem_of_getElem? hf, hg⟩
        rw [h.tickets, List.mem_range, new] at old
        exact absurd old (Nat.lt_irrefl _)
      · exact here

theorem Shows.waker_of_run {c₀ : Scene P} {d₀ : Docket P} {L₀ : List Nat} (h₀ : c₀.Shows d₀ L₀)
    (nobody : c₀.futures = []) (xs : List (Deed P)) {e : Petition P.Request}
    (he : (c₀.run xs).petition? k = some e) : e.waker = c₀.lastPoll k xs := by
  induction xs using List.reverseRecOn generalizing e with
  | nil =>
    obtain ⟨f, hk, -⟩ := h₀.future_of_petition? he
    rw [nobody] at hk
    cases hk
  | append_singleton xs x ih =>
    obtain ⟨d, L, h⟩ := h₀.run xs
    rw [run_append] at he
    rw [lastPoll_append]
    rcases h.waker_after x he with ⟨e', he', same⟩ | ⟨new, quiet⟩
    · rw [same, ih he']
    · have le : (c₀.run xs).futures.length ≤ k := Nat.le_of_eq new.symm
      rw [quiet, polls_of_length_le le, lastPoll_of_length_le xs le]
      rfl

/-! ## The end of disposal -/

/-- The wakers that these deeds have left to be woken at the end of disposal, the same one perhaps
more than once. -/
def watchers (c : Scene P) : List (Deed P) → List Waker
  | [] => []
  | x :: xs =>
    let later := (c.after x).watchers xs
    match x with
    | .pollDispose waker => if c.sync.phase = .disposed then later else waker :: later
    | _ => later

theorem watchers_append (c : Scene P) (xs ys : List (Deed P)) :
    c.watchers (xs ++ ys) = c.watchers xs ++ (c.run xs).watchers ys := by
  induction xs generalizing c with
  | nil => rfl
  | cons x xs ih =>
    have step := ih (c.after x)
    cases x with
    | pollDispose waker =>
      simp only [List.cons_append, watchers, step]
      split <;> rfl
    | _ => exact step

theorem eraseDups_concat {α : Type} [DecidableEq α] (as : List α) (a : α) :
    (as ++ [a]).eraseDups = if a ∈ as.eraseDups then as.eraseDups else as.eraseDups ++ [a] := by
  rw [List.eraseDups_append]
  by_cases ha : a ∈ as
  · simp [List.removeAll, ha]
  · simp only [List.removeAll, ha, List.mem_eraseDups, if_false]
    simp [ha]
    rfl

theorem Shows.awaitingEnd_after (h : c.Shows d L) (x : Deed P)
    (running : (c.after x).sync.phase ≠ .disposed) :
    c.sync.phase ≠ .disposed ∧
      ∀ ws : List Waker, c.sync.awaitingEnd = ws.eraseDups →
        (c.after x).sync.awaitingEnd = (ws ++ c.watchers [x]).eraseDups := by
  by_cases asked : ∃ waker, x = .pollDispose waker
  · obtain ⟨waker, rfl⟩ := asked
    have after : (c.after (.pollDispose waker)).sync = (c.inside.pollDispose waker).1.sync := rfl
    have watched : c.watchers [.pollDispose waker] =
        if c.sync.phase = .disposed then [] else [waker] := rfl
    simp only [after, Section.pollDispose, show c.inside.sync = c.sync from rfl] at running ⊢
    by_cases ended : c.sync.phase = .disposed
    · rw [if_pos ended] at running
      exact absurd ended running
    · refine ⟨ended, fun ws hws => ?_⟩
      rw [watched, if_neg ended, if_neg ended, eraseDups_concat, ← hws]
      split <;> rfl
  · simp only [not_exists] at asked
    obtain ⟨L', -, next⟩ := h.perform x
    have unwatched : c.watchers [x] = [] := by
      cases x with
      | pollDispose waker => exact absurd rfl (asked waker)
      | _ => rfl
    have fresh := (h.after_eq x).1
    have phase : (c.after x).sync.phase = (d.run (c.errand x)).1.phase :=
      next.phase.symm.trans (congrArg (·.phase) fresh)
    have awaited : (c.after x).sync.awaitingEnd = (d.run (c.errand x)).1.awaitingEnd :=
      next.rests.awaitingEnd.symm.trans (congrArg (·.awaitingEnd) fresh)
    rw [phase] at running
    have waits : d.awaitingEnd = c.sync.awaitingEnd := h.rests.awaitingEnd
    rw [awaited, unwatched, ← h.phase, ← waits]
    simp only [List.append_nil]
    rw [Docket.run] at running ⊢
    rcases ho : (c.errand x).order with _ | order <;> rw [ho] at running
    · exact ⟨running, fun ws hws => hws⟩
    · obtain ⟨before, same⟩ := (d.obey_becomes _ _ order).awaitingEnd
        (fun waker eq => asked waker ((order_of_errand ho).2.1 waker eq)) running
      exact ⟨before, fun ws hws => same.trans hws⟩

theorem Shows.awaitingEnd_of_run {c₀ : Scene P} {d₀ : Docket P} {L₀ : List Nat}
    (h₀ : c₀.Shows d₀ L₀) (nobody : c₀.sync.awaitingEnd = []) (xs : List (Deed P))
    (running : (c₀.run xs).sync.phase ≠ .disposed) :
    (c₀.run xs).sync.awaitingEnd = (c₀.watchers xs).eraseDups := by
  induction xs using List.reverseRecOn with
  | nil => exact nobody
  | append_singleton xs x ih =>
    obtain ⟨d, L, h⟩ := h₀.run xs
    rw [run_append] at running ⊢
    obtain ⟨before, step⟩ := h.awaitingEnd_after x running
    rw [watchers_append]
    exact step _ (ih before)

/-! ## Every deed of every run -/

theorem mem_ended {kind : Outcome → Bool} (hk : k ∈ c.ended x kind) :
    c.pends k = true ∧ ∃ o, (c.after x).outcome? k = some o ∧ kind o = true := by
  obtain ⟨-, hk⟩ := List.mem_filter.mp hk
  obtain ⟨pends, ended⟩ := Bool.and_eq_true_iff.mp hk
  exact ⟨pends, (Option.any_eq_true _ _).mp ended⟩

theorem mem_resolved (hk : k ∈ c.resolved x) :
    c.pends k = true ∧ ∃ o, (c.after x).outcome? k = some o := by
  rcases List.mem_append.mp hk with hk | hk <;>
    exact ⟨(mem_ended hk).1, (mem_ended hk).2.imp fun _ => And.left⟩

theorem resolved_nodup (c : Scene P) (x : Deed P) : (c.resolved x).Nodup := by
  refine (List.nodup_range.filter _).append (List.nodup_range.filter _) fun k hk hk' => ?_
  obtain ⟨-, o, ho, refusal⟩ := mem_ended hk
  obtain ⟨-, o', ho', grant⟩ := mem_ended hk'
  obtain rfl := Option.some.inj (ho.symm.trans ho')
  simp only [ne_eq, decide_not, Bool.not_eq_true', decide_eq_false_iff_not] at refusal
  exact refusal (of_decide_eq_true grant)

theorem Shows.pends_of_outcome (h : c.Shows d L) {o : Outcome} (ho : c.outcome? k = some o)
    (xs : List (Deed P)) : (c.run xs).pends k = false := by
  rcases h.final ho xs with ⟨ho, -⟩ | ⟨done, -⟩
  · obtain ⟨w, hw, hwo⟩ := Option.bind_eq_some_iff.mp ho
    rw [pends, hw, Option.any_some, Waiter.isPending, hwo]
    rfl
  · exact (done.silent .sleeper).2.1

theorem Shows.wakes_of_run {c₀ : Scene P} {d₀ : Docket P} {L₀ : List Nat} (h₀ : c₀.Shows d₀ L₀)
    (nobody : c₀.futures = []) (unwatched : c₀.sync.awaitingEnd = []) (xs : List (Deed P))
    (x : Deed P) :
    let c := c₀.run xs
    (c.perform x).after.wakes = (c.resolved x).filterMap (c₀.lastPoll · xs) ++
      if c.sync.phase ≠ .disposed ∧ (c.after x).sync.phase = .disposed then
        (c₀.watchers xs).eraseDups
      else [] := by
  obtain ⟨d, L, h⟩ := h₀.run xs
  obtain ⟨wakes, -⟩ := h.gathered x fun k e he => h₀.waker_of_run nobody xs he
  dsimp only
  rw [wakes]
  split
  · rename_i now
    rw [h₀.awaitingEnd_of_run unwatched xs now.1]
  · rfl

/-- Whatever callers have done to a new synchronizer, the next deed gathers for each future whose
wait it ends the waker of its latest poll, and then those of the disposals that were polled, if it
ends disposal. The outcome is there from then on until it is observed, and no later deed ends the wait
of the same future again.

A machine whose next step makes deeds of the synchronizer gathers what they gather, and other than
that only what comes from the timers or a token. Of all that it has gathered so far, each waker has
been woken once or is on the agenda, and a script comes to its end, when each has been woken. -/
theorem wakes_of_resolved (id : Nat) (holding : P.State) (warm : Nat) (retainLimit : Option Nat)
    (timers : Timers) (tokens : Tokens) (xs : List (Deed P)) (x : Deed P) :
    let c₀ : Scene P := start id holding warm retainLimit timers tokens
    let c := c₀.run xs
    let ends := c.sync.phase ≠ .disposed ∧ (c.after x).sync.phase = .disposed
    ((c.perform x).after.wakes = (c.resolved x).filterMap (c₀.lastPoll · xs) ++
        (if ends then (c₀.watchers xs).eraseDups else []) ∧
      (c.perform x).granted =
        (c.ended x (· = .granted)).filterMap (fun k => c.futures[k]?.bind (·.ticket)) ∧
      (c.resolved x).Nodup ∧
      ∀ k ∈ c.resolved x, c.pends k = true ∧
        (∃ o, ∀ ys, ((c.after x).run ys).outcome? k = some o ∨ ((c.after x).run ys).IsDone k) ∧
        ∀ ys y, k ∉ ((c.after x).run ys).resolved y) ∧
      (∀ (m : Machine P) (i : Nat) (ys : List (Deed P)), m.world.Hosts i c → m.Stages i c ys →
        m.gathers = c.gathers ys ++ m.signals ∧
          m.step.world.syncs = m.world.syncs.setIfInBounds i (c.run ys).sync) ∧
      ∀ m₀ : Machine P, m₀.Fresh →
        (∀ n,
          ((Machine.step^[n] m₀).world.Finds (Machine.step^[n] m₀).Stages ∨
            (Machine.step^[n] m₀).gathers = (Machine.step^[n] m₀).signals ∧
              (Machine.step^[n] m₀).world.Preserves (Machine.step^[n + 1] m₀).world) ∧
          (m₀.gathered n).Perm (m₀.roused n ++ (Machine.step^[n] m₀).due)) ∧
        let n := Machine.allowance m₀.script
        (Machine.step^[n] m₀).isDone = true ∧ (m₀.gathered n).Perm (m₀.roused n) := by
  intro c₀ c ends
  have h₀ := start_shows (P := P) id holding warm retainLimit timers tokens
  obtain ⟨d, L, h⟩ := h₀.run xs
  obtain ⟨-, granted⟩ := h.gathered x fun k e he => h₀.waker_of_run rfl xs he
  have reach : c.Reachable := ⟨id, holding, warm, retainLimit, timers, tokens, xs, rfl⟩
  refine ⟨⟨h₀.wakes_of_run rfl rfl xs x, granted, resolved_nodup c x, fun k hk => ?_⟩,
    fun m i ys hosts stages => stages.gathers_eq hosts reach, fun m₀ fresh => ?_⟩
  · obtain ⟨pends, o, ho⟩ := mem_resolved hk
    obtain ⟨L', -, next⟩ := h.perform x
    refine ⟨pends, ⟨o, fun ys => (next.final ho ys).imp And.left And.left⟩, fun ys y again => ?_⟩
    have idle := next.pends_of_outcome ho ys
    rw [(mem_resolved again).1] at idle
    cases idle
  · have done := fresh.done_in_time
    refine ⟨fun n => ⟨?_, fresh.gathered_perm n⟩, done, ?_⟩
    · rw [Function.iterate_succ_apply']
      exact (fresh.plays n).step_finds
    · have woken := fresh.gathered_perm (Machine.allowance m₀.script)
      rwa [Machine.due_of_isDone done, List.append_nil] at woken

/-- Two tasks wait for a lock, and the first of them has polled again with another waker. The
script is about to release the lock. -/
def releasing : Machine Policy.standard :=
  Machine.ofScript (.blank .zero none false)
    [.create "lock" false (Holding.exclusive false) {}, .tryAcquire "lock" Request.entry,
      .acquire "lock" "first" { request := Request.entry, timeout := .ok .forever },
      .acquire "lock" "second" { request := Request.entry, timeout := .ok .forever },
      .poll "first" "a" none, .poll "second" "b" none, .poll "first" "c" none,
      .release "lock" (some Request.entry)]

/-- The release gathers the waker of the latest poll of the first, and in the end that one is woken
and nobody else. -/
theorem wakes_of_resolved_release :
    (Machine.step^[26] releasing).next? = some (.release "lock" (some Request.entry)) ∧
      (Machine.step^[26] releasing).gathers = [.task "c"] ∧
      [.task "c"].Perm (releasing.roused (Machine.allowance releasing.script)) := by
  let xs : List (Deed Policy.standard) :=
    [.tryAcquire Request.entry, .acquire Request.entry .forever none none,
      .acquire Request.entry .forever none none, .poll 0 (.task "a"), .poll 1 (.task "b"),
      .poll 0 (.task "c")]
  obtain ⟨⟨wakes, -⟩, staged, all⟩ := wakes_of_resolved (P := Policy.standard) 0
    (Holding.exclusive false) 0 none {} {} xs (.release (some Request.entry))
  have next : (Machine.step^[26] releasing).next? =
      some (.release "lock" (some Request.entry)) := by rfl
  have hosts : (Machine.step^[26] releasing).world.Hosts 0
      ((start 0 (Holding.exclusive false) 0 none {} {}).run xs) :=
    ⟨by rfl, by decide +kernel, by decide +kernel⟩
  obtain ⟨gathers, -⟩ := staged _ 0 _ hosts (.step next (.release (by rfl) (by rfl)))
  refine ⟨next, gathers.trans ?_, ?_⟩
  · rw [gathers_singleton, wakes]
    decide +kernel
  · have gathered : releasing.gathered (Machine.allowance releasing.script) = [.task "c"] := by
      decide +kernel
    have woken := (all releasing ⟨.zero, none, false, _, rfl⟩).2.2
    rwa [gathered] at woken

end Scene

end Turnstile
