import Turnstile.Proofs.Scene

/-!
# Scenes play dockets

`Scene.Shows c d L` ties the futures of the callers to the waiters. It holds of a new scene, and
every deed preserves it while the docket takes the corresponding step.
-/

namespace Turnstile

variable {P : Policy}

theorem Stage.id?_eq_some {stage : Stage} {id : WaiterId} :
    stage.id? = some id ↔ stage = .waiting id := by
  cases stage <;> simp [Stage.id?]

theorem Section.Rests.fresh {s : Section P} {d : Docket P} {L : List Nat} (h : s.Rests d L) :
    ({ s with wakes := [], events := [] } : Section P).Rests d.fresh L :=
  ⟨⟨h.sound, h.line, h.roll.congr rfl rfl rfl, h.holding, h.phase, h.arrivals, h.awaitingEnd, rfl,
    rfl⟩, h.fronted, h.rests.blocked, h.rests.closed, h.rests.busy⟩

namespace Scene

/-- The scene `c`, in line as `L`, shows the docket `d`: every rented slot belongs to one future,
whose ticket and request its waiter keeps. -/
structure Shows (c : Scene P) (d : Docket P) (L : List Nat) : Prop where
  rests : c.inside.Rests d L
  placed : ∀ (k : Nat) (f : Future P) (id : WaiterId), c.futures[k]? = some f → f.stage = .waiting id →
    c.sync.line.pool.IsCurrent id ∧ ∃ t, f.ticket = some t ∧
      (c.sync.line.bare? id.slot).map Waiter.key = some (t, f.request)
  owned : ∀ i w, c.sync.line.bare? i = some w →
    ∃ (k : Nat) (f : Future P) (id : WaiterId), c.futures[k]? = some f ∧ f.stage = .waiting id ∧
      id.slot = i
  tickets : c.futures.filterMap (·.ticket) = List.range d.arrivals
  listed : ∀ e ∈ d.pending, ∀ (k : Nat) (f : Future P), c.futures[k]? = some f →
    f.ticket = some e.ticket → e.request = f.request ∧
      e.deadline = f.timeout.deadline? f.made ∧ e.token = f.token

variable {c : Scene P} {d d' : Docket P} {L L' : List Nat} {t : Section P}

theorem ticket_injective {fs : List (Future P)} {n : Nat}
    (h : fs.filterMap (·.ticket) = List.range n) {k l : Nat} {f g : Future P} {ticket : Nat}
    (hk : fs[k]? = some f) (hl : fs[l]? = some g) (hf : f.ticket = some ticket)
    (hg : g.ticket = some ticket) : k = l := by
  have nodup : (fs.filterMap (·.ticket)).Nodup := h ▸ List.nodup_range
  clear h
  induction fs generalizing k l with
  | nil => simp at hk
  | cons x fs ih =>
    have later : ∀ (j : Nat) (y : Future P), fs[j]? = some y → y.ticket = some ticket →
        x.ticket ≠ some ticket := by
      intro j y hy hyt hx
      rw [List.filterMap_cons_some hx, List.nodup_cons] at nodup
      exact nodup.1 (List.mem_filterMap.mpr ⟨y, List.mem_of_getElem? hy, hyt⟩)
    have rest : (fs.filterMap (·.ticket)).Nodup := by
      refine nodup.sublist ?_
      rcases hx : x.ticket with _ | u
      · rw [List.filterMap_cons_none hx]
      · rw [List.filterMap_cons_some hx]
        exact List.sublist_cons_self _ _
    cases k with
    | zero =>
      cases l with
      | zero => rfl
      | succ l =>
        obtain rfl := Option.some.inj hk
        exact absurd hf (later l g hl hg)
    | succ k =>
      cases l with
      | zero =>
        obtain rfl := Option.some.inj hl
        exact absurd hg (later k f hk hf)
      | succ l => rw [ih hk hl rest]

theorem filterMap_ticket_set {fs : List (Future P)} {k : Nat} {f g : Future P}
    (hk : fs[k]? = some f) (hg : g.ticket = f.ticket) :
    (fs.set k g).filterMap (·.ticket) = fs.filterMap (·.ticket) := by
  induction fs generalizing k with
  | nil => simp at hk
  | cons x fs ih =>
    cases k with
    | zero =>
      obtain rfl := Option.some.inj hk
      rw [List.set_cons_zero, List.filterMap_cons, List.filterMap_cons, hg]
    | succ k => rw [List.set_cons_succ, List.filterMap_cons, List.filterMap_cons, ih hk]

theorem Shows.waiter?_eq (h : c.Shows d L) {k : Nat} {f : Future P} {id : WaiterId}
    (hk : c.futures[k]? = some f) (hf : f.stage = .waiting id) :
    ∃ w, c.waiter? k = some w ∧ c.sync.line.pool.get? id = some w ∧ f.ticket = some w.ticket ∧
      w.request = f.request := by
  obtain ⟨current, ticket, ht, hkey⟩ := h.placed k f id hk hf
  obtain ⟨w, hw⟩ := current.rented?_ne_none h.rests.sound
  have hget : c.sync.line.pool.get? id = some w := Pool.get?_eq_some.mpr ⟨current, hw⟩
  have hb : c.sync.line.bare? id.slot = some w.bare := Section.bare?_of_waiter? (s := c.inside) hw
  rw [hb, Option.map_some, Option.some.injEq] at hkey
  refine ⟨w, ?_, hget, ?_, congrArg Prod.snd hkey⟩
  · simp [waiter?, hk, hf, Stage.id?, hget]
  · rw [ht]
    exact congrArg some (congrArg Prod.fst hkey).symm

theorem waiter?_eq_some {k : Nat} {w : Waiter P.Request} (h : c.waiter? k = some w) :
    ∃ (f : Future P) (id : WaiterId), c.futures[k]? = some f ∧ f.stage = .waiting id ∧
      c.sync.line.pool.get? id = some w := by
  unfold waiter? at h
  obtain ⟨id, hid, hw⟩ := Option.bind_eq_some_iff.mp h
  obtain ⟨f, hf, hid⟩ := Option.bind_eq_some_iff.mp hid
  exact ⟨f, id, hf, Stage.id?_eq_some.mp hid, hw⟩

theorem Shows.holding (h : c.Shows d L) : d.holding = c.sync.holding := h.rests.holding

theorem Shows.phase (h : c.Shows d L) : d.phase = c.sync.phase := h.rests.phase

/-! ### Polls and drops -/

theorem set_stage {k : Nat} {f : Future P} (hk : c.futures[k]? = some f) {stage : Stage}
    (hf : f.stage = stage) : c.futures.set k { f with stage } = c.futures := by
  obtain ⟨hlt, hget⟩ := List.getElem?_eq_some_iff.mp hk
  rw [← hf]
  show c.futures.set k f = _
  rw [← hget]
  exact List.set_getElem_self hlt

section

variable {k : Nat} {f : Future P} {id : WaiterId} {w : Waiter P.Request}

theorem poll_ready (hk : c.futures[k]? = some f) {r : Except Refusal Unit}
    (hf : f.stage = .ready r) (waker : Waker) :
    c.perform (.poll k waker) =
      { after := c.inside, futures := c.futures.set k { f with stage := .done }, answer := some r } := by
  simp [perform, hk, hf, Section.pollStage]

theorem poll_done (hk : c.futures[k]? = some f) (hf : f.stage = .done) (waker : Waker) :
    c.perform (.poll k waker) = c.unchanged := by
  simp [perform, hk, hf, Section.pollStage, unchanged, set_stage hk hf]

theorem poll_waiting (hk : c.futures[k]? = some f) (hf : f.stage = .waiting id)
    (hw : c.sync.line.pool.get? id = some w) (ho : w.outcome = none) (waker : Waker) :
    c.perform (.poll k waker) =
      { after := (c.inside.poll id waker).1, futures := c.futures } := by
  have hw : c.inside.sync.line.pool.get? id = some w := hw
  simp [perform, hk, hf, Section.pollStage, Section.poll, hw, ho, set_stage hk hf]

theorem poll_resolved (hk : c.futures[k]? = some f) (hf : f.stage = .waiting id)
    (hw : c.sync.line.pool.get? id = some w) {o : Outcome} (ho : w.outcome = some o)
    (waker : Waker) :
    c.perform (.poll k waker) =
      { after := (c.inside.poll id waker).1
        futures := c.futures.set k { f with stage := .done }
        answer := some o.result } := by
  have hw : c.inside.sync.line.pool.get? id = some w := hw
  simp [perform, hk, hf, Section.pollStage, Section.poll, hw, ho]

theorem drop_eq (hk : c.futures[k]? = some f) :
    c.perform (.drop k) =
      { after := c.inside.dropStage f.request f.stage
        futures := c.futures.set k { f with stage := .done } } := by
  simp [perform, hk]

theorem waiter?_eq_none (hk : c.futures[k]? = some f) (hf : f.stage.id? = none) :
    c.waiter? k = none := by
  simp [waiter?, hk, hf]

end

theorem Shows.future_of_waiter? (h : c.Shows d L) {k : Nat} {w : Waiter P.Request}
    (hw : c.waiter? k = some w) :
    ∃ (f : Future P) (id : WaiterId), c.futures[k]? = some f ∧ f.stage = .waiting id ∧
      f.ticket = some w.ticket ∧ w.request = f.request := by
  obtain ⟨f, id, hk, hf, -⟩ := waiter?_eq_some hw
  obtain ⟨w', hw', -, ht, hr⟩ := h.waiter?_eq hk hf
  rw [hw] at hw'
  obtain rfl := Option.some.inj hw'
  exact ⟨f, id, hk, hf, ht, hr⟩

/-! ### From one scene to the next -/

theorem Shows.stay (h : c.Shows d L) (rests : t.Rests d' L') (frame : Section.Frame none c.inside t)
    (remains : d.Remains d') :
    Shows { sync := t.sync, timers := t.timers, tokens := t.tokens, futures := c.futures }
      d'.fresh L' := by
  refine ⟨rests.fresh, ?_, ?_, ?_, ?_⟩
  · intro k f id hk hf
    obtain ⟨current, ticket, ht, hkey⟩ := h.placed k f id hk hf
    exact ⟨frame.keeps id (by simp) current, ticket, ht, (frame.keys id.slot (by simp)).trans hkey⟩
  · intro i w hw
    have := frame.keys i (by simp)
    rw [hw, Option.map_some] at this
    obtain ⟨u, hu, -⟩ := Option.map_eq_some_iff.mp this.symm
    exact h.owned i u hu
  · exact h.tickets.trans (by rw [← remains.arrivals]; rfl)
  · intro e he k f hk hf
    obtain ⟨e', he', ht, hr, hd, hk'⟩ := remains.pending e he
    rw [← hr, ← hd, ← hk']
    exact h.listed e' he' k f hk (by rw [hf, ht])

theorem Shows.close (h : c.Shows d L) {k : Nat} {f : Future P} (hk : c.futures[k]? = some f)
    (rests : t.Rests d' L') (frame : Section.Frame (f.stage.id?.map (·.slot)) c.inside t)
    (free : ∀ id, f.stage = .waiting id → t.sync.line.bare? id.slot = none)
    (remains : d.Remains d') :
    Shows
      { sync := t.sync, timers := t.timers, tokens := t.tokens
        futures := c.futures.set k { f with stage := .done } } d'.fresh L' := by
  have other : ∀ (l : Nat) (g : Future P), (c.futures.set k { f with stage := .done })[l]? = some g →
      ∃ g', c.futures[l]? = some g' ∧ g'.ticket = g.ticket ∧ g'.request = g.request ∧
        g'.timeout = g.timeout ∧ g'.made = g.made ∧ g'.token = g.token ∧ (l ≠ k → g' = g) ∧
        (l = k → g.stage = .done) := by
    intro l g hl
    rw [List.getElem?_set] at hl
    split at hl
    · rename_i hkl
      subst hkl
      split at hl
      · obtain rfl := Option.some.inj hl
        exact ⟨f, hk, rfl, rfl, rfl, rfl, rfl, fun h => absurd rfl h, fun _ => rfl⟩
      · cases hl
    · rename_i hkl
      exact ⟨g, hl, rfl, rfl, rfl, rfl, rfl, fun _ => rfl, fun e => absurd e.symm hkl⟩
  refine ⟨rests.fresh, ?_, ?_, ?_, ?_⟩
  · intro l g id hl hg
    obtain ⟨g', hl', -, -, -, -, -, same, done⟩ := other l g hl
    have hlk : l ≠ k := by
      intro e
      rw [done e] at hg
      cases hg
    rw [same hlk] at hl'
    obtain ⟨current, ticket, ht, hkey⟩ := h.placed l g id hl' hg
    -- Another future's slot is another slot.
    have apart : some id.slot ≠ f.stage.id?.map (·.slot) := by
      intro e
      rcases hf : f.stage with r | id' | _ <;> rw [hf] at e <;> simp only [Stage.id?, Option.map_none,
        Option.map_some, reduceCtorEq, Option.some.injEq] at e
      obtain ⟨-, ticket', ht', hkey'⟩ := h.placed k f id' hk hf
      rw [← e, hkey, Option.some.injEq, Prod.mk.injEq] at hkey'
      exact hlk (ticket_injective h.tickets hl' hk ht (by rw [ht', hkey'.1]))
    exact ⟨frame.keeps id apart current, ticket, ht, (frame.keys id.slot apart).trans hkey⟩
  · intro i w hw
    have apart : some i ≠ f.stage.id?.map (·.slot) := by
      intro e
      rcases hf : f.stage with r | id' | _ <;> rw [hf] at e <;> simp only [Stage.id?, Option.map_none,
        Option.map_some, reduceCtorEq, Option.some.injEq] at e
      rw [e, free id' hf] at hw
      cases hw
    have := frame.keys i apart
    rw [hw, Option.map_some] at this
    obtain ⟨u, hu, -⟩ := Option.map_eq_some_iff.mp this.symm
    obtain ⟨l, g, id, hl, hg, rfl⟩ := h.owned i u hu
    refine ⟨l, g, id, ?_, hg, rfl⟩
    have hkl : k ≠ l := by
      rintro rfl
      rw [hk] at hl
      obtain rfl := Option.some.inj hl
      exact apart (by rw [hg]; rfl)
    rw [List.getElem?_set_ne hkl]
    exact hl
  · refine Eq.trans ?_ (h.tickets.trans (by rw [← remains.arrivals]; rfl))
    exact filterMap_ticket_set hk rfl
  · intro e he l g hl hg
    obtain ⟨g', hl', ht, hr, htime, hmade, htok, -⟩ := other l g hl
    obtain ⟨e', he', ht', hr', hd', hk'⟩ := remains.pending e he
    rw [← hr', ← hd', ← hk', ← hr, ← htime, ← hmade, ← htok]
    exact h.listed e' he' l g' hl' (by rw [ht, hg, ht'])

theorem of_getElem?_concat {fs : List (Future P)} {f g : Future P} {k : Nat}
    (hk : (fs ++ [f])[k]? = some g) : fs[k]? = some g ∨ g = f := by
  rw [List.getElem?_append] at hk
  split at hk
  · exact .inl hk
  · rw [List.getElem?_singleton] at hk
    split at hk
    · exact .inr (Option.some.inj hk).symm
    · cases hk

theorem getElem?_concat {fs : List (Future P)} {f g : Future P} {k : Nat}
    (hk : fs[k]? = some g) : (fs ++ [f])[k]? = some g := by
  rw [List.getElem?_append_left (List.getElem?_eq_some_iff.mp hk).1]
  exact hk

theorem Shows.extend (h : c.Shows d L) {f : Future P} (hf : f.stage.id? = none)
    (ht : f.ticket = none) (rests : t.Rests d' L') (frame : Section.Frame none c.inside t)
    (remains : d.Remains d') :
    Shows
      { sync := t.sync, timers := t.timers, tokens := t.tokens, futures := c.futures ++ [f] }
      d'.fresh L' := by
  have same := h.stay rests frame remains
  refine ⟨same.rests, ?_, ?_, ?_, ?_⟩
  · intro k g id hk hg
    rcases of_getElem?_concat hk with hk | rfl
    · exact same.placed k g id hk hg
    · rw [hg] at hf
      cases hf
  · intro i w hw
    obtain ⟨k, g, id, hk, hg⟩ := same.owned i w hw
    exact ⟨k, g, id, getElem?_concat hk, hg⟩
  · rw [List.filterMap_append, List.filterMap_cons_none ht]
    simpa using same.tickets
  · intro e he k g hk hg
    rcases of_getElem?_concat hk with hk | rfl
    · exact same.listed e he k g hk hg
    · rw [ht] at hg
      cases hg

theorem Shows.join (h : c.Shows d L) {f : Future P} {id : WaiterId} (hf : f.stage = .waiting id)
    (ht : f.ticket = some c.sync.arrivals) (hm : f.made = c.timers.now) (rests : t.Rests d' L')
    (joined : Section.Joined c.inside t id f.request) (arrivals : d'.arrivals = d.arrivals + 1)
    (pending : ∀ e' ∈ d'.pending, (∃ e ∈ d.pending, e.ticket = e'.ticket ∧ e.request = e'.request ∧
      e.deadline = e'.deadline ∧ e.token = e'.token) ∨
      e' = c.inside.petition f.request f.timeout f.token) :
    Shows
      { sync := t.sync, timers := t.timers, tokens := t.tokens, futures := c.futures ++ [f] }
      d'.fresh L' := by
  have fresh : d.arrivals = c.sync.arrivals := h.rests.arrivals
  refine ⟨rests.fresh, ?_, ?_, ?_, ?_⟩
  · intro k g id' hk hg
    rcases of_getElem?_concat hk with hk | rfl
    · obtain ⟨current, ticket, ht', hkey⟩ := h.placed k g id' hk hg
      have apart : some id'.slot ≠ some id.slot := by
        intro e
        have free := joined.free
        rw [← Option.some.inj e] at free
        rw [show c.sync.line.bare? id'.slot = none from free] at hkey
        cases hkey
      exact ⟨joined.frame.keeps id' apart current, ticket, ht',
        (joined.frame.keys id'.slot apart).trans hkey⟩
    · rw [hf] at hg
      obtain rfl := Stage.waiting.inj hg
      exact ⟨joined.current, _, ht, joined.waiter⟩
  · intro i w hw
    by_cases hi : i = id.slot
    · exact ⟨c.futures.length, f, id, by simp, hf, hi.symm⟩
    · have := joined.frame.keys i (by simpa using hi)
      rw [hw, Option.map_some] at this
      obtain ⟨u, hu, -⟩ := Option.map_eq_some_iff.mp this.symm
      obtain ⟨k, g, id', hk, hg⟩ := h.owned i u hu
      exact ⟨k, g, id', getElem?_concat hk, hg⟩
  · rw [List.filterMap_append, h.tickets]
    show _ = List.range d'.arrivals
    rw [arrivals, List.range_succ]
    simp [ht, fresh]
  · intro e' he' k g hk hg
    have old : ∀ (k : Nat) (g : Future P), c.futures[k]? = some g → g.ticket ≠ some c.sync.arrivals := by
      intro k g hk hg
      have : c.sync.arrivals ∈ c.futures.filterMap (·.ticket) :=
        List.mem_filterMap.mpr ⟨g, List.mem_of_getElem? hk, hg⟩
      rw [h.tickets, fresh] at this
      simp at this
    rcases pending e' he' with ⟨e, he, ht', hr, hd, hk'⟩ | rfl
    · have : e.ticket < d.arrivals := h.rests.roll.ticket_lt he
      rcases of_getElem?_concat hk with hk | rfl
      · rw [← hr, ← hd, ← hk']
        exact h.listed e he k g hk (by rw [hg, ht'])
      · rw [ht, Option.some.injEq] at hg
        omega
    · rcases of_getElem?_concat hk with hk | rfl
      · exact absurd hg (old k g hk)
      · exact ⟨rfl, by rw [hm]; rfl, rfl⟩

/-! ### Deeds -/

theorem Shows.acquired (h : c.Shows d L) (request : P.Request) (timeout : Timeout)
    (token : Option Nat) (steal : Option Reason) :
    ∃ L', (c.perform (.acquire request timeout token steal)).after.Rests
        (d.after c (.acquire request timeout token steal)) L' ∧
      (c.after (.acquire request timeout token steal)).Shows
        (d.after c (.acquire request timeout token steal)).fresh L' := by
  obtain ⟨L', rests, begun⟩ := Section.acquire_rests h.rests request timeout token steal
  refine ⟨L', rests, ?_⟩
  rcases ha : (d.acquire (c.inside.petition request timeout token) timeout.isZero
    (token.any c.tokens.refuses) steal).2 with _ | answer
  · rw [show c.inside.tokens = c.tokens from rfl, ha] at begun
    obtain ⟨id, stage, joined⟩ := begun
    have queued := Docket.acquire_queued ha
    obtain ⟨-, old⟩ := Docket.evict_remains d steal
    refine h.join stage ?_ rfl rests joined (congrArg Docket.arrivals queued) ?_
    · show (if (c.inside.acquire request timeout token steal).2.isWaiting then _ else _) = _
      rw [stage]
      rfl
    · intro e' he'
      have he' := (congrArg Docket.pending queued) ▸ he'
      rcases List.mem_append.mp he' with he' | he'
      · exact .inl (old e' he')
      · right
        rw [List.mem_singleton.mp he', h.rests.arrivals]
        rfl
  · rw [show c.inside.tokens = c.tokens from rfl, ha] at begun
    obtain ⟨stage, frame⟩ := begun
    refine h.extend ?_ ?_ rests frame (Docket.acquire_answered ha)
    · show (c.inside.acquire request timeout token steal).2.id? = none
      rw [stage]
      rfl
    · show (if (c.inside.acquire request timeout token steal).2.isWaiting then _ else _) = _
      rw [stage]
      rfl

theorem Shows.tried (h : c.Shows d L) (request : P.Request) :
    ∃ L', (c.perform (.tryAcquire request)).after.Rests (d.after c (.tryAcquire request)) L' ∧
      (c.after (.tryAcquire request)).Shows (d.after c (.tryAcquire request)).fresh L' := by
  obtain ⟨L', rests, begun⟩ := Section.acquire_rests h.rests request .zero none none
  refine ⟨L', rests, ?_⟩
  obtain ⟨answer, ha⟩ := Option.ne_none_iff_exists'.mp
    (d.acquire_zero (c.inside.petition request .zero none) false none)
  have ha' : (d.acquire (c.inside.petition request .zero none) Timeout.zero.isZero
    (Option.any c.inside.tokens.refuses none) none).2 = some answer := ha
  rw [ha'] at begun
  exact h.stay rests begun.2 (Docket.acquire_answered ha)

theorem Shows.polled (h : c.Shows d L) (k : Nat) (waker : Waker) :
    ∃ L', (c.perform (.poll k waker)).after.Rests (d.after c (.poll k waker)) L' ∧
      (c.after (.poll k waker)).Shows (d.after c (.poll k waker)).fresh L' := by
  unfold after
  rcases hk : c.futures[k]? with _ | f
  · have idle : c.waiter? k = none := by simp [waiter?, hk]
    simp only [perform, Docket.after, hk, idle]
    exact ⟨L, h.rests, h.stay h.rests (Section.Frame.refl _ _) (.refl d)⟩
  rcases hf : f.stage with r | id | _
  · simp only [poll_ready hk hf, Docket.after, waiter?_eq_none hk (f := f) (by rw [hf]; rfl)]
    exact ⟨L, h.rests, h.close hk h.rests (Section.Frame.refl _ _) (by simp [hf]) (.refl d)⟩
  · obtain ⟨w, hw, hget, -, -⟩ := h.waiter?_eq hk hf
    rcases ho : w.outcome with _ | o
    · obtain ⟨-, rests, frame⟩ := Section.poll_pending h.rests hget ho waker
      simp only [poll_waiting hk hf hget ho, Docket.after, hw, Waiter.isPending, ho,
        Option.isNone_none, if_true]
      exact ⟨L, rests, h.stay rests frame (Docket.await_remains d w.ticket waker)⟩
    · obtain ⟨-, L', rests, frame, free⟩ := Section.poll_resolved h.rests hget ho waker
      simp only [poll_resolved hk hf hget ho, Docket.after, hw, Waiter.isPending, ho,
        Option.isNone_some, Bool.false_eq_true, if_false]
      refine ⟨L', rests, h.close hk rests (by rw [hf]; exact frame) ?_ (d.forget_remains w.ticket)⟩
      intro id' hid
      rw [hf] at hid
      rw [← Stage.waiting.inj hid]
      exact free
  · simp only [poll_done hk hf, Docket.after, waiter?_eq_none hk (f := f) (by rw [hf]; rfl)]
    exact ⟨L, h.rests, h.stay h.rests (Section.Frame.refl _ _) (.refl d)⟩

theorem Shows.dropped (h : c.Shows d L) (k : Nat) :
    ∃ L', (c.perform (.drop k)).after.Rests (d.after c (.drop k)) L' ∧
      (c.after (.drop k)).Shows (d.after c (.drop k)).fresh L' := by
  unfold after
  rcases hk : c.futures[k]? with _ | f
  · simp only [perform, Docket.after, hk]
    exact ⟨L, h.rests, h.stay h.rests (Section.Frame.refl _ _) (.refl d)⟩
  simp only [drop_eq hk, Docket.after, hk]
  rcases hf : f.stage with r | id | _
  · rcases r with r | _
    · exact ⟨L, h.rests, h.close hk h.rests (Section.Frame.refl _ _) (by simp [hf]) (.refl d)⟩
    · obtain ⟨-, L', rests, frame⟩ :=
        Section.releaseBy_rests h.rests fun h => .ok (P.release h f.request)
      exact ⟨L', rests, h.close hk rests (by rw [hf]; exact frame) (by simp [hf])
        (d.giveIf_remains _)⟩
  · obtain ⟨w, hw, hget, -, -⟩ := h.waiter?_eq hk hf
    rw [hw]
    obtain ⟨L', rests, frame, free⟩ := Section.leave_withdraw h.rests hget
    refine ⟨L', rests, h.close hk rests (by rw [hf]; exact frame) ?_ (d.withdraw_remains w.ticket)⟩
    intro id' hid
    rw [hf] at hid
    rw [← Stage.waiting.inj hid]
    exact free
  · exact ⟨L, h.rests, h.close hk h.rests (Section.Frame.refl _ _) (by simp [hf]) (.refl d)⟩

theorem Shows.perform (h : c.Shows d L) (x : Deed P) :
    ∃ L', (c.perform x).after.Rests (d.after c x) L' ∧ (c.after x).Shows (d.after c x).fresh L' := by
  cases x with
  | tryAcquire request => exact h.tried request
  | acquire request timeout token steal => exact h.acquired request timeout token steal
  | poll k waker => exact h.polled k waker
  | drop k => exact h.dropped k
  | release request =>
    obtain ⟨-, L', rests, frame⟩ := Section.releaseBy_rests h.rests
      (request.elim Section.returnedStanding Section.returned)
    exact ⟨L', rests, h.stay rests frame (d.giveIf_remains _)⟩
  | dropGuard request =>
    obtain ⟨L', rests, frame⟩ := Section.dropGuard_rests h.rests request
    exact ⟨L', rests, h.stay rests frame (d.giveIf_remains _)⟩
  | dispose =>
    obtain ⟨L', rests, frame⟩ := Section.dispose_rests h.rests
    exact ⟨L', rests, h.stay rests frame d.dispose_remains⟩
  | pollDispose waker =>
    obtain ⟨rests, frame⟩ := Section.pollDispose_rests h.rests waker
    exact ⟨L, rests, h.stay rests frame (.of_subset rfl fun _ h => h)⟩
  | trigger slot =>
    obtain ⟨L', rests, frame⟩ := Section.trigger_rests h.rests slot
    refine ⟨L', rests, h.stay rests frame ?_⟩
    show d.Remains ((c.inside.fired? slot).elim d _)
    rcases c.inside.fired? slot with _ | p
    · exact .refl d
    · exact d.trigger_remains p.1 p.2
  | elsewhere timers tokens =>
    have rests : ({ sync := c.sync, timers, tokens } : Section P).Rests d L :=
      ⟨⟨h.rests.sound, h.rests.line, h.rests.roll, h.rests.holding, h.rests.phase,
        h.rests.arrivals, h.rests.awaitingEnd, h.rests.wakes, h.rests.granted⟩, h.rests.fronted,
        h.rests.rests⟩
    exact ⟨L, rests, rests.fresh, h.placed, h.owned, h.tickets, h.listed⟩

/-! ### Runs -/

theorem start_shows (id : Nat) (holding : P.State) (warm : Nat) (retainLimit : Option Nat)
    (timers : Timers) (tokens : Tokens) :
    (start id holding warm retainLimit timers tokens : Scene P).Shows { holding } [] := by
  have bare : ∀ i w, (start id holding warm retainLimit timers tokens : Scene P).sync.line.bare? i ≠
      some w := by
    intro i w hw
    obtain ⟨u, hu, -⟩ := Option.map_eq_some_iff.mp hw
    cases (Pool.fresh_rented? P.blank retainLimit warm i).symm.trans hu
  refine ⟨⟨⟨Pool.stock_sound (Pool.fresh_sound _ _) warm, Line.fresh_holds _ _ _, ⟨rfl, ?_,
    List.nodup_nil, ?_, ?_, List.Pairwise.nil⟩, rfl, rfl, rfl, rfl, rfl, rfl⟩, by simp [Section.Fronted],
    by simp, by simp, by simp⟩, by simp [start], ?_, rfl, by simp⟩
  · intro ticket v
    simp only [reduceCtorEq, false_iff, not_exists, not_and]
    exact fun i w hw => absurd hw (bare i w)
  · exact fun i w hw => absurd hw (bare i w)
  · exact fun i j w v hw => absurd hw (bare i w)
  · exact fun i w hw => absurd hw (bare i w)

theorem Shows.run (h : c.Shows d L) (xs : List (Deed P)) : ∃ d' L', (c.run xs).Shows d' L' := by
  induction xs generalizing c d L with
  | nil => exact ⟨d, L, h⟩
  | cons x xs ih =>
    obtain ⟨L', -, next⟩ := h.perform x
    exact ih next

/-- Whatever callers do to a new synchronizer, it shows a docket. -/
theorem run_shows (id : Nat) (holding : P.State) (warm : Nat) (retainLimit : Option Nat)
    (timers : Timers) (tokens : Tokens) (xs : List (Deed P)) :
    ∃ d L, ((start id holding warm retainLimit timers tokens).run xs).Shows d L :=
  (start_shows id holding warm retainLimit timers tokens).run xs

/-! ### What can be seen of the docket -/

theorem Shows.future_of_bare? (h : c.Shows d L) {i : Nat} {w : Waiter P.Request}
    (hw : c.sync.line.bare? i = some w) :
    ∃ (k : Nat) (f : Future P) (id : WaiterId), c.futures[k]? = some f ∧ f.stage = .waiting id ∧
      id.slot = i ∧ f.ticket = some w.ticket := by
  obtain ⟨k, f, id, hk, hf, rfl⟩ := h.owned i w hw
  obtain ⟨-, t, ht, hkey⟩ := h.placed k f id hk hf
  rw [hw, Option.map_some, Option.some.injEq] at hkey
  have : w.ticket = t := congrArg Prod.fst hkey
  exact ⟨k, f, id, hk, hf, rfl, by rw [ht, this]⟩

theorem Shows.waiter_of_ticket (h : c.Shows d L) {k : Nat} {f : Future P}
    (hk : c.futures[k]? = some f) {t : Nat} (ht : f.ticket = some t) :
    (∃ w i, c.waiter? k = some w ∧ c.sync.line.bare? i = some w.bare ∧ w.ticket = t) ∨
      c.waiter? k = none ∧ ∀ i w, c.sync.line.bare? i = some w → w.ticket ≠ t := by
  rcases hf : f.stage.id? with _ | id
  · right
    refine ⟨waiter?_eq_none hk hf, fun i w hw hwt => ?_⟩
    obtain ⟨l, g, id, hl, hg, -, hgt⟩ := h.future_of_bare? hw
    obtain rfl := ticket_injective h.tickets hk hl ht (by rw [hgt, hwt])
    rw [hk] at hl
    obtain rfl := Option.some.inj hl
    rw [hg] at hf
    cases hf
  · left
    obtain ⟨w, hw, hget, hwt, -⟩ := h.waiter?_eq hk (Stage.id?_eq_some.mp hf)
    rw [ht] at hwt
    exact ⟨w, id.slot, hw, Section.bare?_of_waiter? (s := c.inside) (Section.waiter?_of_get? hget),
      (Option.some.inj hwt).symm⟩

theorem Shows.settled_ticket (h : c.Shows d L) {k : Nat} {f : Future P}
    (hk : c.futures[k]? = some f) {t : Nat} (ht : f.ticket = some t) :
    d.settled t = (c.waiter? k).bind Waiter.verdict? := by
  rcases h.waiter_of_ticket hk ht with ⟨w, i, hw, hb, rfl⟩ | ⟨hw, nobody⟩
  · rw [hw]
    exact h.rests.roll.settled_eq (w := w.bare) hb
  · rw [hw, Option.bind_none, Option.eq_none_iff_forall_ne_some]
    intro v hv
    obtain ⟨i, w, hi, hwt, -⟩ := (h.rests.roll.settled t v).mp hv
    exact nobody i w hi hwt

theorem Shows.settled_waiter (h : c.Shows d L) {k : Nat} {w : Waiter P.Request}
    (hw : c.waiter? k = some w) : d.settled w.ticket = w.verdict? := by
  obtain ⟨f, id, hk, -, ht, -⟩ := h.future_of_waiter? hw
  rw [h.settled_ticket hk ht, hw, Option.bind_some]

theorem Shows.pending_ticket (h : c.Shows d L) {k : Nat} {f : Future P}
    (hk : c.futures[k]? = some f) {e : Petition P.Request} (ht : f.ticket = some e.ticket) :
    e ∈ d.pending ↔ (c.waiter? k).bind Waiter.petition? = some e := by
  rcases h.waiter_of_ticket hk ht with ⟨w, i, hw, hb, hwt⟩ | ⟨hw, nobody⟩
  · rw [hw, Option.bind_some]
    refine ⟨fun he => ?_, fun he => ?_⟩
    · exact h.rests.roll.petition?_of_mem (w := w.bare) hb he hwt.symm
    · exact h.rests.roll.mem_pending (w := w.bare) hb he
  · rw [hw]
    refine ⟨fun he => ?_, fun he => by cases he⟩
    obtain ⟨i, w, -, hi, hp⟩ := h.rests.roll.of_mem_pending he
    exact absurd (Waiter.ticket_of_petition? hp).symm (nobody i w hi)

theorem Shows.future_of_mem (h : c.Shows d L) {e : Petition P.Request} (he : e ∈ d.pending) :
    ∃ (k : Nat) (f : Future P), c.futures[k]? = some f ∧ f.ticket = some e.ticket := by
  obtain ⟨i, w, -, hw, hp⟩ := h.rests.roll.of_mem_pending he
  obtain ⟨k, f, -, hk, -, -, ht⟩ := h.future_of_bare? hw
  exact ⟨k, f, hk, by rw [ht, Waiter.ticket_of_petition? hp]⟩

theorem Shows.future_of_settled (h : c.Shows d L) {t : Nat} {v : P.Request × Outcome}
    (hv : d.settled t = some v) :
    ∃ (k : Nat) (f : Future P), c.futures[k]? = some f ∧ f.ticket = some t := by
  obtain ⟨i, w, hw, ht, -⟩ := (h.rests.roll.settled t v).mp hv
  obtain ⟨k, f, -, hk, -, -, hf⟩ := h.future_of_bare? hw
  exact ⟨k, f, hk, by rw [hf, ht]⟩

theorem Shows.outcome?_eq (h : c.Shows d L) {k : Nat} {f : Future P} (hk : c.futures[k]? = some f)
    {t : Nat} (ht : f.ticket = some t) : c.outcome? k = (d.settled t).map Prod.snd := by
  rw [h.settled_ticket hk ht, outcome?]
  rcases c.waiter? k with _ | w
  · rfl
  · rcases ho : w.outcome with _ | o <;> simp [Waiter.verdict?, ho]

theorem pends_eq_true {k : Nat} :
    c.pends k = true ↔ ∃ e, (c.waiter? k).bind Waiter.petition? = some e := by
  unfold pends
  rcases c.waiter? k with _ | w
  · simp
  · exact Waiter.isPending_iff

theorem Shows.mem_of_pends (h : c.Shows d L) {k : Nat} (hp : c.pends k = true) :
    ∃ (f : Future P) (e : Petition P.Request), c.futures[k]? = some f ∧ f.ticket = some e.ticket ∧
      e ∈ d.pending := by
  obtain ⟨e, he⟩ := pends_eq_true.mp hp
  obtain ⟨w, hw, hpet⟩ := Option.bind_eq_some_iff.mp he
  obtain ⟨f, -, hk, -, ht, -⟩ := h.future_of_waiter? hw
  have ht : f.ticket = some e.ticket := by rw [ht, Waiter.ticket_of_petition? hpet]
  exact ⟨f, e, hk, ht, (h.pending_ticket hk ht).mpr he⟩

theorem Shows.pends_iff (h : c.Shows d L) {k : Nat} {f : Future P} (hk : c.futures[k]? = some f)
    {t : Nat} (ht : f.ticket = some t) : c.pends k = true ↔ ∃ e ∈ d.pending, e.ticket = t := by
  refine ⟨fun hp => ?_, fun ⟨e, he, het⟩ => ?_⟩
  · obtain ⟨g, e, hg, hgt, he⟩ := h.mem_of_pends hp
    rw [hk] at hg
    obtain rfl := Option.some.inj hg
    exact ⟨e, he, Option.some.inj (hgt.symm.trans ht)⟩
  · exact pends_eq_true.mpr ⟨e, (h.pending_ticket hk (by rw [ht, het])).mp he⟩

end Scene

theorem Section.Shows.petitions_eq {s : Section P} {d : Docket P} {L : List Nat} (h : s.Shows d L) :
    s.sync.petitions = d.pending := by
  unfold Sync.petitions
  rw [Line.Holds.toList_eq h.line, h.roll.pending]
  refine List.filterMap_congr fun i _ => ?_
  unfold Line.bare?
  rcases s.sync.line.waiter? i with _ | w <;> rfl

end Turnstile
