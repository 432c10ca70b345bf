import Turnstile.Proofs.Armed
import Turnstile.Proofs.Callers

/-!
# What cancellations make of a line

Those who wait with a token are cancelled one after another, and a first in line that is cancelled
makes room for those behind it. The policy does not look at their tokens, so whoever it admits then
enters, and a wake for a cancellation that comes later finds it resolved.
-/

namespace Turnstile

variable {P : Policy}

/-! ## Runs of grants -/

namespace Docket

variable {h : P.State} {es : List (Petition P.Request)}

theorem admissible_append (all : P.admissible h es = es) (rest : List (Petition P.Request)) :
    P.admissible h (es ++ rest) = es ++ P.admissible (P.entered h es) rest := by
  induction es generalizing h with
  | nil => rfl
  | cons e es ih =>
    unfold Policy.admissible at all
    split at all
    · rename_i allowed
      rw [List.cons_append, Policy.admissible, if_pos allowed, ih (List.cons.inj all).2]
      rfl
    · cases all

theorem admissible_admissible (h : P.State) (es : List (Petition P.Request)) :
    P.admissible h (P.admissible h es) = P.admissible h es := by
  induction es generalizing h with
  | nil => rfl
  | cons e es ih =>
    by_cases allowed : P.allows h e.request = true
    · have run : P.admissible h (e :: es) = e :: P.admissible (P.enter h e.request) es :=
        if_pos allowed
      rw [run, Policy.admissible, if_pos allowed, ih]
    · have none : P.admissible h (e :: es) = [] := if_neg allowed
      rw [none]
      rfl

theorem allows_of_admissible {before after : List (Petition P.Request)} {e : Petition P.Request}
    (all : P.admissible h (before ++ e :: after) = before ++ e :: after) :
    P.allows (P.entered h before) e.request = true := by
  induction before generalizing h with
  | nil =>
    show P.allows h e.request = true
    by_contra refused
    rw [List.nil_append, Policy.admissible, if_neg refused] at all
    cases all
  | cons x before ih =>
    rw [List.cons_append, Policy.admissible] at all
    split at all
    · exact ih (List.cons.inj all).2
    · cases all

/-! ## One line -/

variable {d₀ d : Docket P} {t : Nat} {G : List (Petition P.Request)} {e : Petition P.Request}

theorem trigger_keeps (unsettled : ∀ e ∈ d.pending, d.settled e.ticket = none) (he : e ∈ d.pending)
    (o : Outcome) {n : Nat} {x : P.Request × Outcome} (hx : d.settled n = some x) :
    (d.trigger e o).settled n = some x := by
  have apart : ∀ y ∈ d.pending, y.ticket ≠ n := by
    rintro y hy rfl
    rw [unsettled y hy] at hx
    cases hx
  refine (foldl_settled_other (fun y hy => ?_) (settle o (d.strike e.ticket) e)).trans
    ((Function.update_of_ne (apart e he).symm ..).trans hx)
  exact apart y (List.filter_sublist.subset ((admissible_sublist _ _).subset hy))

theorem trigger_settled (d : Docket P) (e : Petition P.Request) (o : Outcome) :
    (d.trigger e o).settled e.ticket = some (e.request, o) := by
  refine (foldl_settled_other (fun y hy => ?_) (settle o (d.strike e.ticket) e)).trans
    (Function.update_self ..)
  exact of_decide_eq_true (List.mem_filter.mp ((admissible_sublist _ _).subset hy)).2

/-- What the line `d₀` has become by cancellations of token `t` alone, which have let in `G`. -/
structure Thins (t : Nat) (d₀ d : Docket P) (G : List (Petition P.Request)) : Prop where
  order : (G ++ d.pending).Sublist d₀.pending
  holding : d.holding = P.entered d₀.holding G
  admitted : P.admissible d₀.holding G = G
  granted : ∀ e ∈ G, d.settled e.ticket = some (e.request, .granted)
  /-- Nobody is let in before the first in line has been cancelled. -/
  first : ∀ e ∈ d₀.pending.head?, e ∈ d.pending ∧ G = [] ∨
    e.token = some t ∧ d.settled e.ticket = some (e.request, .cancelled)
  sharers : ∀ e ∈ d₀.pending, e.token = some t →
    e ∈ G ∨ e ∈ d.pending ∨ d.settled e.ticket = some (e.request, .cancelled)

theorem Thins.start (t : Nat) (d : Docket P) : d.Thins t d [] :=
  ⟨List.Sublist.refl _, rfl, rfl, by simp, fun _ he => .inl ⟨List.mem_of_mem_head? he, rfl⟩,
    fun _ he _ => .inr (.inl he)⟩

theorem Thins.trigger_behind (h : d₀.Thins t d G) (rests : d.Rests)
    (unsettled : ∀ e ∈ d.pending, d.settled e.ticket = none)
    (nodup : (d.pending.map (·.ticket)).Nodup) {f : Petition P.Request}
    {es : List (Petition P.Request)} (line : d.pending = f :: es) (he : e ∈ es)
    (token : e.token = some t) : d₀.Thins t (d.trigger e .cancelled) G := by
  have mem : e ∈ d.pending := line ▸ List.mem_cons_of_mem _ he
  have apart : f.ticket ≠ e.ticket := by
    rw [line, List.map_cons, List.nodup_cons] at nodup
    exact fun same => nodup.1 (same ▸ List.mem_map_of_mem he)
  have left : (settle .cancelled (d.strike e.ticket) e).pending =
      f :: es.filter (·.ticket ≠ e.ticket) := by
    show d.pending.filter (·.ticket ≠ e.ticket) = _
    rw [line, List.filter_cons_of_pos (by simpa using apart)]
  have blocked : d.trigger e .cancelled = settle .cancelled (d.strike e.ticket) e :=
    grantRun_blocked _ left (rests.blocked f es line)
  have keeps {n : Nat} {x : P.Request × Outcome} (hx : d.settled n = some x) :=
    trigger_keeps unsettled mem .cancelled hx
  have own := trigger_settled d e .cancelled
  have stays {y : Petition P.Request} (hy : y ∈ d.pending) :
      y = e ∨ y ∈ (d.trigger e .cancelled).pending := by
    rw [blocked]
    by_cases same : y.ticket = e.ticket
    · exact .inl (List.inj_on_of_nodup_map nodup hy mem same)
    · exact .inr (List.mem_filter.mpr ⟨hy, decide_eq_true same⟩)
  refine ⟨?_, ?_, h.admitted, fun y hy => keeps (h.granted y hy), fun y hy => ?_,
    fun y hy shares => ?_⟩
  · rw [blocked]
    exact (List.filter_sublist.append_left G).trans h.order
  · rw [blocked]
    exact h.holding
  · rcases h.first y hy with ⟨waits, none⟩ | ⟨shares, gone⟩
    · rcases stays waits with rfl | waits
      · exact .inr ⟨token, own⟩
      · exact .inl ⟨waits, none⟩
    · exact .inr ⟨shares, keeps gone⟩
  · rcases h.sharers y hy shares with hG | waits | gone
    · exact .inl hG
    · rcases stays waits with rfl | waits
      · exact .inr (.inr own)
      · exact .inr (.inl waits)
    · exact .inr (.inr (keeps gone))

theorem Thins.trigger_first (h : d₀.Thins t d G) (distinct : d₀.pending.Nodup)
    (unsettled : ∀ e ∈ d.pending, d.settled e.ticket = none)
    (nodup : (d.pending.map (·.ticket)).Nodup) {es : List (Petition P.Request)}
    (line : d.pending = e :: es) (token : e.token = some t) :
    d₀.Thins t (d.trigger e .cancelled) (G ++ P.admissible d.holding es) := by
  have mem : e ∈ d.pending := line ▸ List.mem_cons_self
  have struck : (d.strike e.ticket).pending = es := by
    show d.pending.filter (·.ticket ≠ e.ticket) = es
    rw [line, List.map_cons, List.nodup_cons] at nodup
    rw [line, List.filter_cons_of_neg (by simp), List.filter_eq_self]
    exact fun y hy => decide_eq_true fun same => nodup.1 (same ▸ List.mem_map_of_mem hy)
  have keeps {n : Nat} {x : P.Request × Outcome} (hx : d.settled n = some x) :=
    trigger_keeps unsettled mem .cancelled hx
  have own := trigger_settled d e .cancelled
  -- Those behind it are tried at once, and whoever fits is let in.
  have pending : (d.trigger e .cancelled).pending = es.drop (P.admissible d.holding es).length := by
    refine (grantRun_fields _).2.1.trans ?_
    show (d.strike e.ticket).pending.drop (P.admissible d.holding (d.strike e.ticket).pending).length
      = _
    rw [struck]
  have parted := admissible_append_drop d.holding es
  refine ⟨?_, ?_, ?_, fun y hy => ?_, fun y hy => ?_, fun y hy shares => ?_⟩
  · rw [pending, List.append_assoc, parted]
    have shorter : (G ++ es).Sublist (G ++ d.pending) :=
      (line ▸ List.sublist_cons_self e es : es.Sublist d.pending).append_left G
    exact shorter.trans h.order
  · refine (grantRun_fields _).1.trans ?_
    show P.entered d.holding (P.admissible d.holding (d.strike e.ticket).pending) = _
    rw [struck, h.holding, Policy.entered, Policy.entered, Policy.entered, List.foldl_append]
  · rw [admissible_append h.admitted, ← h.holding, admissible_admissible]
  · rcases List.mem_append.mp hy with hy | hy
    · exact keeps (h.granted y hy)
    · refine settled_of_mem .granted (settle .cancelled (d.strike e.ticket) e)
        (nodup.sublist (((admissible_sublist _ _).trans List.filter_sublist).map _)) ?_
      show y ∈ P.admissible d.holding (d.strike e.ticket).pending
      rwa [struck]
  · right
    rcases h.first y hy with ⟨waits, none⟩ | ⟨shares, gone⟩
    · -- As nobody has been let in, the first of all is the first that is left.
      have first : y = e := by
        obtain ⟨rest, all⟩ : ∃ rest, d₀.pending = y :: rest := List.head?_eq_some_iff.mp hy
        have order := h.order
        rw [none, List.nil_append, line, all] at order
        rw [line] at waits
        by_contra apart
        rw [all, List.nodup_cons] at distinct
        cases order with
        | cons _ later => exact distinct.1 (later.subset waits)
        | cons_cons _ _ => exact apart rfl
      subst first
      exact ⟨token, own⟩
    · exact ⟨shares, keeps gone⟩
  · rcases h.sharers y hy shares with hG | waits | gone
    · exact .inl (List.mem_append_left _ hG)
    · rw [line] at waits
      rcases List.mem_cons.mp waits with rfl | waits
      · exact .inr (.inr own)
      · rw [← parted] at waits
        rw [pending]
        rcases List.mem_append.mp waits with entered | waits
        · exact .inl (List.mem_append_right _ entered)
        · exact .inr (.inl waits)
    · exact .inr (.inr (keeps gone))

theorem Thins.trigger (h : d₀.Thins t d G) (distinct : d₀.pending.Nodup) (rests : d.Rests)
    (unsettled : ∀ e ∈ d.pending, d.settled e.ticket = none)
    (nodup : (d.pending.map (·.ticket)).Nodup) (he : e ∈ d.pending) (token : e.token = some t) :
    ∃ G', d₀.Thins t (d.trigger e .cancelled) G' := by
  obtain ⟨f, es, line⟩ := List.exists_cons_of_ne_nil (List.ne_nil_of_mem he)
  rcases List.mem_cons.mp (line ▸ he) with rfl | behind
  · exact ⟨_, h.trigger_first distinct unsettled nodup line token⟩
  · exact ⟨_, h.trigger_behind rests unsettled nodup line behind token⟩

/-- Whoever has been let in stood behind a first in line that was cancelled, and the policy had room
for it after those before it. -/
theorem Thins.lets_in (h : d₀.Thins t d G) (sorted : (d₀.pending.map (·.ticket)).Pairwise (· < ·))
    (he : e ∈ G) :
    (∃ f ∈ d₀.pending.head?, f.token = some t ∧ f.ticket < e.ticket ∧
      d.settled f.ticket = some (f.request, .cancelled)) ∧
    ∃ before : List (Petition P.Request), before.Sublist d₀.pending ∧
      (∀ f ∈ before, f.ticket < e.ticket ∧ d.settled f.ticket = some (f.request, .granted)) ∧
      P.allows (P.entered d₀.holding before) e.request = true := by
  have sorted : d₀.pending.Pairwise fun a b => a.ticket < b.ticket := List.pairwise_map.mp sorted
  have entered : G.Sublist d₀.pending := (List.sublist_append_left G _).trans h.order
  constructor
  · obtain ⟨f, rest, line⟩ := List.exists_cons_of_ne_nil (List.ne_nil_of_mem (entered.subset he))
    have head : f ∈ d₀.pending.head? := by
      rw [line]
      rfl
    rcases h.first f head with ⟨-, none⟩ | ⟨shares, gone⟩
    · rw [none] at he
      cases he
    · refine ⟨f, head, shares, ?_, gone⟩
      rw [line, List.pairwise_cons] at sorted
      rcases List.mem_cons.mp (line ▸ entered.subset he) with rfl | behind
      · have granted := h.granted e he
        rw [gone] at granted
        cases granted
      · exact sorted.1 e behind
  · obtain ⟨before, after, split⟩ := List.append_of_mem he
    have prior : before.Sublist G := split ▸ List.sublist_append_left before _
    have admitted := h.admitted
    rw [split] at admitted
    refine ⟨before, prior.trans entered, fun f hf => ⟨?_, h.granted f (prior.subset hf)⟩,
      allows_of_admissible admitted⟩
    have ordered := sorted.sublist entered
    rw [split, List.pairwise_append] at ordered
    exact ordered.2.2 f hf e List.mem_cons_self

theorem Thins.fresh (h : d₀.Thins t d G) : d₀.Thins t d.fresh G :=
  ⟨h.order, h.holding, h.admitted, h.granted, h.first, h.sharers⟩

end Docket

/-! ## One wake -/

theorem Waiter.pending_of_petition? {R : Type} {v : Waiter R} {e : Petition R}
    (hp : v.petition? = some e) : v.outcome = none := by
  by_contra resolved
  rw [petition?_eq_none resolved] at hp
  cases hp

/-- `a` is what the pending acquisition `e` has out. -/
structure Arms.Fits {R : Type} (a : Arms) (e : Petition R) : Prop where
  ticket : a.ticket = e.ticket
  deadline : a.deadline = e.deadline
  token : a.registration.map (·.token) = e.token

/-- No outcome is lost. -/
def Sync.Keeps (s s' : Sync P) : Prop := ∀ n x, s.verdict? n = some x → s'.verdict? n = some x

namespace World

/-- No outcome is lost in any synchronizer. -/
def Keeps (w w' : World P) : Prop :=
  ∀ (i : Nat) (s : Sync P), w.syncs[i]? = some s → ∃ s', w'.syncs[i]? = some s' ∧ s.Keeps s'

/-- What all lines have become by cancellations of token `t` alone. -/
def Thins (t : Nat) (w₀ w : World P) : Prop :=
  ∀ (i : Nat) (s₀ : Sync P), w₀.syncs[i]? = some s₀ →
    ∃ s G, w.syncs[i]? = some s ∧ s₀.docket.Thins t s.docket G

variable {w₀ w w' w'' : World P} {items : List (Item P)} {t i j : Nat}

theorem Keeps.of_syncs (syncs : w'.syncs = w.syncs) : w.Keeps w' :=
  fun _ s hs => ⟨s, by rw [syncs, hs], fun _ _ hx => hx⟩

theorem Keeps.trans (h : w.Keeps w') (h' : w'.Keeps w'') : w.Keeps w'' := by
  intro i s hs
  obtain ⟨s', hs', keeps⟩ := h i s hs
  obtain ⟨s'', hs'', keeps'⟩ := h' i s' hs'
  exact ⟨s'', hs'', fun n x hx => keeps' n x (keeps n x hx)⟩

theorem Thins.of_syncs (h : w₀.Thins t w) (syncs : w'.syncs = w.syncs) : w₀.Thins t w' := by
  unfold Thins
  rwa [syncs]

theorem Tame.trigger_docket (h : w.Tame) {s : Sync P} (hs : w.syncs[i]? = some s) (j : Nat) :
    ((w.inside s).trigger j).sync.docket =
      (((w.inside s).fired? j).elim s.docket fun p => s.docket.trigger p.1 p.2).fresh := by
  obtain ⟨L, rests⟩ := h.rests hs
  obtain ⟨L', fired, -⟩ := Section.trigger_rests rests j
  exact fired.docket_eq

theorem Tame.keeps_trigger (h : w.Tame) (i j : Nat) :
    w.Keeps (w.touch i fun s => s.trigger j).world := by
  intro k s hk
  rcases hi : w.syncs[i]? with _ | u
  · rw [touch_eq_of_none hi]
    exact ⟨s, hk, fun _ _ hx => hx⟩
  rw [touch_eq hi]
  dsimp only
  rw [outside_sync hi]
  split
  · rename_i here
    subst here
    obtain rfl := Option.some.inj (hi.symm.trans hk)
    refine ⟨_, rfl, fun n x hx => ?_⟩
    obtain ⟨L, rests⟩ := h.rests hk
    show ((w.inside u).trigger j).sync.docket.settled n = some x
    rw [h.trigger_docket hk]
    rcases he : (w.inside u).fired? j with _ | ⟨e, o⟩
    · exact hx
    · exact Docket.trigger_keeps (fun y hy => rests.roll.unsettled hy) (rests.mem_of_fired he) o hx
  · exact ⟨s, hk, fun _ _ hx => hx⟩

theorem arms?_of_petition {s : Sync P} (hs : w.syncs[i]? = some s) {v : Waiter P.Request}
    (hv : s.line.waiter? j = some v) {e : Petition P.Request} (hp : v.petition? = some e) :
    ∃ a, w.arms? i j = some a ∧ a.Fits e := by
  have pending := Waiter.pending_of_petition? hp
  rw [Waiter.petition?_of_pending pending] at hp
  refine ⟨⟨v.ticket, v.deadline, v.timer, v.registration⟩, ?_, ?_⟩
  · rw [arms?_inside hs]
    exact Option.bind_eq_some_iff.mpr ⟨v, hv, Waiter.arms?_of_pending pending⟩
  · rw [← Option.some.inj hp]
    exact ⟨rfl, rfl, rfl⟩

theorem fired?_of_aims {s : Sync P} {L : List Nat} (rests : (w.inside s).Rests s.docket L)
    (hs : w.syncs[i]? = some s) (cancelled : w.tokens.isCancelled t = true)
    (aims : ∀ a, w.arms? i j = some a → a.registration.map (·.token) = some t)
    {e : Petition P.Request} {o : Outcome} (he : (w.inside s).fired? j = some (e, o)) :
    e ∈ s.docket.pending ∧ e.token = some t ∧ o = .cancelled := by
  obtain ⟨⟨v, hv, hp⟩, cause⟩ := Section.fired?_eq_some he
  obtain ⟨a, ha, fits⟩ := arms?_of_petition hs hv hp
  have token : e.token = some t := fits.token.symm.trans (aims a ha)
  refine ⟨rests.mem_of_fired he, token, ?_⟩
  rcases Petition.cause?_eq_some cause with ⟨rfl, -⟩ | ⟨-, -, live⟩
  · rfl
  · rw [token, Option.any_some] at live
    exact absurd (cancelled.symm.trans live) (by simp)

theorem Thins.touch (h : w₀.Thins t w) (tame₀ : w₀.Tame) (tame : w.Tame)
    (cancelled : w.tokens.isCancelled t = true)
    (aims : ∀ a, w.arms? i j = some a → a.registration.map (·.token) = some t) :
    w₀.Thins t (w.touch i fun s => s.trigger j).world := by
  intro k s₀ hk
  obtain ⟨s, G, hs, thins⟩ := h k s₀ hk
  rcases hi : w.syncs[i]? with _ | u
  · rw [touch_eq_of_none hi]
    exact ⟨s, G, hs, thins⟩
  rw [touch_eq hi]
  dsimp only
  rw [outside_sync hi]
  split
  · rename_i here
    subst here
    obtain rfl := Option.some.inj (hi.symm.trans hs)
    obtain ⟨L₀, rests₀⟩ := tame₀.rests hk
    obtain ⟨L, rests⟩ := tame.rests hs
    have trigger := tame.trigger_docket hs j
    rcases he : (w.inside u).fired? j with _ | ⟨e, o⟩
    · rw [he] at trigger
      exact ⟨_, G, rfl, trigger ▸ thins.fresh⟩
    · rw [he] at trigger
      obtain ⟨mem, token, rfl⟩ := fired?_of_aims rests hs cancelled aims he
      have distinct : s₀.docket.pending.Nodup :=
        .of_map Petition.ticket (rests₀.roll.sorted.imp Nat.ne_of_lt)
      obtain ⟨G', thinner⟩ := thins.trigger distinct rests.rests
        (fun y hy => rests.roll.unsettled hy) (rests.roll.sorted.imp Nat.ne_of_lt) mem token
      exact ⟨_, G', rfl, trigger ▸ thinner.fresh⟩
  · exact ⟨s, G, hs, thins⟩

theorem arms?_of_trigger {k l : Nat} {a : Arms}
    (ha : (w.touch i fun s => s.trigger j).world.arms? k l = some a) : w.arms? k l = some a := by
  rcases hi : w.syncs[i]? with _ | u
  · rwa [touch_eq_of_none hi] at ha
  rw [touch_eq hi] at ha
  dsimp only at ha
  rw [outside_arms? hi] at ha
  split at ha
  · rename_i here
    subst here
    rw [arms?_inside hi]
    exact (Section.trigger_lapses _ j).arms? ha
  · exact ha

/-- Nobody is left who waits with `t`. -/
def Free (t : Nat) (w : World P) : Prop :=
  ∀ (i : Nat) (s : Sync P), w.syncs[i]? = some s → ∀ e ∈ s.petitions, e.token ≠ some t

theorem Tame.free (h : w.Tame)
    (nobody : ∀ i j a, w.arms? i j = some a → a.registration.map (·.token) ≠ some t) : w.Free t := by
  intro i s hs e he
  obtain ⟨L, rests⟩ := h.rests hs
  obtain ⟨j, b, -, hb, hp⟩ := rests.roll.of_mem_pending (e := e) he
  obtain ⟨v, hv, rfl⟩ := Section.waiter?_of_bare? (s := w.inside s) hb
  obtain ⟨a, ha, fits⟩ := arms?_of_petition hs hv hp
  exact fun token => nobody i j a ha (fits.token.trans token)

end World

end Turnstile
