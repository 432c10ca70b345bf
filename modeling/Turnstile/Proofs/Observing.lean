import Turnstile.Proofs.Doubles
import Turnstile.Proofs.Estate

/-!
# Looking changes nothing

A poll of a future that has not answered leaves a waker behind, or it takes the future's own waiter
away, which has its outcome already. Nobody is granted, resolved or interrupted by it, and no disposal
ends.
-/

namespace Turnstile

variable {P : Policy}

/-! ## Sections -/

namespace Sync

/-- What a poll in `stage` makes of a synchronizer, and what the future hears. -/
inductive Polled (s : Sync P) (waker : Waker) : Stage → Option (Except Refusal Unit) → Sync P → Prop
  | ready (r : Except Refusal Unit) : Polled s waker (.ready r) (some r) s
  | pending {id : WaiterId} {v : Waiter P.Request} (current : s.line.pool.get? id = some v)
      (pending : v.outcome = none) :
    Polled s waker (.waiting id) none
      { s with line := s.line.update id.slot fun v => { v with waker := some waker } }
  | resolved {id : WaiterId} {v : Waiter P.Request} {o : Outcome}
      (current : s.line.pool.get? id = some v) (outcome : v.outcome = some o) :
    Polled s waker (.waiting id) (some o.result) { s with line := s.line.withdraw id v.linked }

/-- Nothing happens but to the waiter that `own` names. If it is pending, it gets a new waker. -/
structure Unmoved (s : Sync P) (own : Option WaiterId) (waker : Waker) (s' : Sync P) : Prop where
  holding : s'.holding = s.holding
  phase : s'.phase = s.phase
  petitions : s'.petitions = s.petitions.map fun e =>
    if (own.bind s.line.pool.get?).any (·.ticket = e.ticket) then { e with waker := some waker }
    else e
  others : ∀ j, own.map (·.slot) ≠ some j → s'.line.bare? j = s.line.bare? j
  order : (s'.line.toList.filter fun j => own.map (·.slot) ≠ some j) =
    s.line.toList.filter fun j => own.map (·.slot) ≠ some j

theorem Unmoved.refl (s : Sync P) (waker : Waker) : s.Unmoved none waker s :=
  ⟨rfl, rfl, by simp, fun _ _ => rfl, rfl⟩

end Sync

namespace Section

variable {s : Section P} {d : Docket P} {L : List Nat} {waker : Waker} {id : WaiterId}
  {v : Waiter P.Request}

theorem Rests.poll_of_resolved (h : s.Rests d L) (hv : s.sync.line.pool.get? id = some v)
    {o : Outcome} (outcome : v.outcome = some o) (waker : Waker) :
    s.poll id waker = (s.setLine (s.sync.line.withdraw id v.linked), some o.result) := by
  have resolved : v.outcome ≠ none := by simp [outcome]
  rw [poll_of_outcome hv outcome, h.leave_of_resolved hv resolved rfl, h.detach_eq hv resolved]

theorem Rests.unmoved_pending (h : s.Rests d L) (hv : s.sync.line.pool.get? id = some v)
    (pending : v.outcome = none) :
    s.sync.Unmoved (some id) waker
      (s.update id.slot fun v => { v with waker := some waker }).sync := by
  obtain ⟨-, rests, -⟩ := poll_pending h hv pending waker
  rw [poll_of_pending hv pending] at rests
  refine ⟨rfl, rfl, ?_, fun j apart => ?_, ?_⟩
  · rw [rests.petitions_eq, h.petitions_eq]
    simp [Docket.await, hv, eq_comm]
  · have turns := s.sync.line.update_turns id.slot (f := fun v => { v with waker := some waker })
      (g := fun v => { v with waker := some waker }) fun _ _ => rfl
    refine (turns.bare? j).trans (if_neg ?_)
    rintro rfl
    exact apart rfl
  · rw [Line.Holds.toList_eq rests.line, Line.Holds.toList_eq h.line]

theorem Rests.unmoved_resolved (h : s.Rests d L) (hv : s.sync.line.pool.get? id = some v)
    (resolved : v.outcome ≠ none) :
    s.sync.Unmoved (some id) waker { s.sync with line := s.sync.line.withdraw id v.linked } := by
  have rests := h.detach hv resolved
  obtain ⟨-, -, bare⟩ := detach_shows h.toShows hv
  rw [h.detach_eq hv resolved] at rests bare
  have listed := rests.petitions_eq.trans h.petitions_eq.symm
  refine ⟨rfl, rfl, listed.trans ?_, fun j apart => ?_, ?_⟩
  · rw [h.petitions_eq]
    have apart (e : Petition P.Request) (he : e ∈ d.pending) : v.ticket ≠ e.ticket := fun same =>
      h.roll.ticket_ne_of_resolved (bare?_of_waiter? (waiter?_of_get? hv)) resolved he same.symm
    rw [List.map_congr_left fun e he => if_neg (by simp [hv, apart e he]), List.map_id']
  · refine (bare j).trans (if_neg ?_)
    rintro rfl
    exact apart rfl
  · rw [show (s.sync.line.withdraw id v.linked).toList = _ from Line.Holds.toList_eq rests.line,
      Line.Holds.toList_eq h.line, h.roll.nodup.erase_eq_filter, List.filter_filter]
    refine List.filter_congr fun j _ => ?_
    by_cases same : id.slot = j
    · simp [same]
    · simp [same, Ne.symm same]

theorem Rests.pollStage (h : s.Rests d L) {stage : Stage} (stands : stage.Stands s.sync.line.pool)
    (unheard : stage ≠ .done) (waker : Waker) :
    (s.pollStage stage waker).1 = { s with sync := (s.pollStage stage waker).1.sync } ∧
      s.sync.Polled waker stage (s.pollStage stage waker).2.2 (s.pollStage stage waker).1.sync ∧
      s.sync.Unmoved stage.id? waker (s.pollStage stage waker).1.sync := by
  rcases stage with r | id | _
  · exact ⟨rfl, .ready r, .refl _ _⟩
  · obtain ⟨v, hv⟩ := (stands id rfl).rented?_ne_none h.sound
    have hv : s.sync.line.pool.get? id = some v := Pool.get?_eq_some.mpr ⟨stands id rfl, hv⟩
    unfold Section.pollStage
    rcases ho : v.outcome with _ | o
    · simp only [poll_of_pending hv ho]
      exact ⟨rfl, .pending hv ho, h.unmoved_pending hv ho⟩
    · simp only [h.poll_of_resolved hv ho waker]
      exact ⟨rfl, .resolved hv ho, h.unmoved_resolved hv (by simp [ho])⟩
  · exact absurd rfl unheard

end Section

/-! ## Worlds -/

/-- A future that has not answered. A locking future has asked. -/
inductive Item.Waits : Item P → Prop
  | acquisition {stage : Stage} (i : Nat) (request : P.Request) (lenient : Bool)
      (unheard : stage ≠ .done) : Waits (.acquisition i request lenient stage)
  | locking {stage : Stage} (i : Nat) (request : P.Request) (unheard : stage ≠ .done) :
    Waits (.locking i request (some stage))
  | disposal (i : Nat) : Waits (.disposal i)

/-- The rental of the future in an item. -/
def Item.id? : Item P → Option WaiterId
  | .acquisition _ _ _ stage | .locking _ _ (some stage) => stage.id?
  | .locking _ _ none | .guard .. | .disposal _ | .registration _ => none

/-- What a poll of an item makes of its synchronizer, and what it answers. -/
inductive Sync.Looked (s : Sync P) (waker : Waker) : Item P → Answer P → Sync P → Prop
  | acquisition {stage : Stage} {heard : Option (Except Refusal Unit)} {s' : Sync P} (i : Nat)
      (request : P.Request) (lenient : Bool) (polled : s.Polled waker stage heard s') :
    Looked s waker (.acquisition i request lenient stage)
      (heard.elim .pending (World.outcomeAnswer lenient)) s'
  | locking {stage stage' : Stage} {heard : Option (Except Refusal Unit)} {s' : Sync P} (i : Nat)
      (request : P.Request) (polled : s.Polled waker stage heard s') :
    Looked s waker (.locking i request (some stage)) (Item.locked i request (stage', heard)).2 s'
  | disposed (i : Nat) (ended : s.phase = .disposed) : Looked s waker (.disposal i) .disposed s
  | awaiting (i : Nat) (unended : s.phase ≠ .disposed) :
    Looked s waker (.disposal i) .pending
      { s with
        awaitingEnd :=
          if waker ∈ s.awaitingEnd then s.awaitingEnd else s.awaitingEnd ++ [waker] }

theorem Section.pollDispose_looks (s : Section P) (i : Nat) (waker : Waker) :
    (s.pollDispose waker).1 = { s with sync := (s.pollDispose waker).1.sync } ∧
      s.sync.Looked waker (.disposal i) (if (s.pollDispose waker).2 then .disposed else .pending)
        (s.pollDispose waker).1.sync ∧
      s.sync.Unmoved none waker (s.pollDispose waker).1.sync := by
  have unmoved (ks : List Waker) : s.sync.Unmoved none waker { s.sync with awaitingEnd := ks } :=
    ⟨rfl, rfl, by simp; rfl, fun _ _ => rfl, rfl⟩
  unfold pollDispose
  split
  · rename_i ended
    exact ⟨rfl, .disposed i ended, .refl _ _⟩
  rename_i unended
  have looked : s.sync.Looked waker (.disposal i) .pending _ := .awaiting i unended
  split
  · rename_i listed
    rw [if_pos listed] at looked
    exact ⟨rfl, looked, .refl _ _⟩
  · rename_i new
    rw [if_neg new] at looked
    exact ⟨rfl, looked, unmoved _⟩

/-- A poll that only looks at its own future. -/
structure Turn.Looks (w : World P) (waker : Waker) (item : Item P) (t : Turn P) : Prop where
  timers : t.world.timers = w.timers
  tokens : t.world.tokens = w.tokens
  wakes : t.wakes = []
  events : t.events = []
  firing : t.firing = none
  held : t.held = none
  apart : ∀ j, item.sync? ≠ some j → t.world.syncs[j]? = w.syncs[j]?
  own : ∀ i s, item.sync? = some i → w.syncs[i]? = some s → ∃ s', t.world.syncs[i]? = some s' ∧
    s.Looked waker item t.answer s' ∧ s.Unmoved item.id? waker s'

namespace World

variable {w : World P} {items : List (Item P)} {item : Item P} {waker : Waker}

theorem looks_of_visit {α : Type} {i : Nat} {otherwise : α} {f : Section P → Section P × α}
    {t : Turn P} (world : t.world = (w.visit i otherwise f).world)
    (wakes : t.wakes = (w.visit i otherwise f).wakes)
    (events : t.events = (w.visit i otherwise f).events) (firing : t.firing = none)
    (held : t.held = none) (own : item.sync? = some i)
    (looked : ∀ s, w.syncs[i]? = some s →
      (f (w.inside s)).1 = { w.inside s with sync := (f (w.inside s)).1.sync } ∧
        s.Looked waker item t.answer (f (w.inside s)).1.sync ∧
        s.Unmoved item.id? waker (f (w.inside s)).1.sync) : t.Looks w waker item := by
  have still : (w.visit i otherwise f).world.timers = w.timers ∧
      (w.visit i otherwise f).world.tokens = w.tokens ∧ (w.visit i otherwise f).wakes = [] ∧
      (w.visit i otherwise f).events = [] := by
    unfold World.visit
    rcases hi : w.syncs[i]? with _ | s
    · exact ⟨rfl, rfl, rfl, rfl⟩
    · obtain ⟨same, -⟩ := looked s hi
      exact ⟨congrArg Section.timers same, congrArg Section.tokens same,
        congrArg Section.wakes same, congrArg Section.events same⟩
  obtain ⟨timers, tokens, woken, told⟩ := still
  refine ⟨world ▸ timers, world ▸ tokens, wakes.trans woken, events.trans told, firing, held,
    fun j apart => ?_, fun j s here hs => ?_⟩
  · rw [world]
    exact visit_apart otherwise f fun same => apart (same ▸ own)
  · obtain rfl := Option.some.inj (own.symm.trans here)
    refine ⟨_, ?_, (looked s hs).2⟩
    rw [world, visit_syncs, if_pos rfl, hs]
    rfl

theorem pollItem?_acquisition {stage : Stage} {i : Nat} {request : P.Request} {lenient : Bool}
    (unheard : stage ≠ .done) :
    w.pollItem? waker (.acquisition i request lenient stage) =
      let v : Visit P Polled := w.visit i (stage, none) fun s => s.pollStage stage waker
      let answer := v.value.2.elim .pending (outcomeAnswer lenient)
      some { v with value := (.acquisition i request lenient v.value.1, answer) } := by
  rcases stage with r | id | _
  · rfl
  · rfl
  · exact absurd rfl unheard

theorem pollItem?_locking {stage : Stage} {i : Nat} {request : P.Request} (unheard : stage ≠ .done) :
    w.pollItem? waker (.locking i request (some stage)) =
      let v : Visit P Polled := w.visit i (.done, none) fun s => s.pollStage stage waker
      some { v with value := Item.locked i request v.value } := by
  rcases stage with r | id | _
  · rfl
  · rfl
  · exact absurd rfl unheard

theorem Plays.looks (h : w.Plays items) {slot : String} (found : w.slots.find? slot = some item)
    (kept : item ∈ items) (waits : item.Waits) (waker : Waker) :
    (w.poll slot waker).Looks w waker item := by
  let v : World P := { w with slots := w.slots.erase slot }
  have stands := h.stands kept
  suffices looks : (w.poll slot waker).Looks v waker item from
    ⟨looks.timers, looks.tokens, looks.wakes, looks.events, looks.firing, looks.held, looks.apart,
      looks.own⟩
  unfold World.poll World.lookup
  rw [found]
  cases waits with
  | @acquisition stage i request lenient unheard =>
    dsimp only
    rw [pollItem?_acquisition unheard]
    refine looks_of_visit rfl rfl rfl rfl rfl rfl fun s hs => ?_
    obtain ⟨d, L, rests⟩ := h.rests hs
    obtain ⟨same, polled, unmoved⟩ := rests.pollStage (stands.stands hs) unheard waker
    refine ⟨same, ?_, unmoved⟩
    dsimp only [ofVisit]
    rw [visit_value, show v.syncs[i]? = some s from hs]
    exact .acquisition i request lenient polled
  | @locking stage i request unheard =>
    dsimp only
    rw [pollItem?_locking unheard]
    refine looks_of_visit rfl rfl rfl rfl rfl rfl fun s hs => ?_
    obtain ⟨d, L, rests⟩ := h.rests hs
    obtain ⟨same, polled, unmoved⟩ := rests.pollStage (stands.stands hs) unheard waker
    refine ⟨same, ?_, unmoved⟩
    dsimp only [ofVisit]
    rw [visit_value, show v.syncs[i]? = some s from hs]
    exact .locking i request polled
  | disposal i =>
    refine looks_of_visit rfl rfl rfl rfl rfl rfl fun s hs => ?_
    dsimp only [pollItem?, ofVisit]
    rw [visit_value, show v.syncs[i]? = some s from hs]
    exact (v.inside s).pollDispose_looks i waker

end World

namespace Machine

/-- A poll of a future that has not answered only looks. -/
theorem looks_of_waits {m₀ : Machine P} (fresh : m₀.Fresh) {n : Nat} {slot : String} {item : Item P}
    (found : (step^[n] m₀).world.slots.find? slot = some item) (waits : item.Waits)
    (waker : Waker) :
    ((step^[n] m₀).world.poll slot waker).Looks (step^[n] m₀).world waker item :=
  World.Plays.looks (fresh.plays n) found (List.mem_append_left _ (World.mem_items found)) waits
    waker

/-- One has a lock, another one waits for it, and the time of a third one has run out behind it. -/
def lateness : Machine Policy.standard :=
  ofScript (.blank .zero none false)
    [.create "lock" false (.exclusive false) {}, .tryAcquire "lock" Request.entry,
      .acquire "lock" "first" { request := Request.entry, timeout := .ok .forever },
      .acquire "lock" "second" { request := Request.entry, timeout := .ok (.after 5) },
      .poll "first" "task" none, .advance 5, .process]

/-- Its poll takes its node out of the line and moves nobody else. -/
theorem looks_of_waits_late :
    let w := (step^[26] lateness).world
    let item : Item Policy.standard := .acquisition 0 Request.entry false (.waiting ⟨1, 0⟩)
    w.slots.find? "second" = some item ∧ item.Waits ∧
      (w.poll "second" (.task "another")).Looks w (.task "another") item := by
  intro w item
  have found : w.slots.find? "second" = some item := rfl
  have waits : item.Waits := by
    refine .acquisition _ _ _ ?_
    rintro ⟨⟩
  exact ⟨found, waits, looks_of_waits ⟨.zero, none, false, _, rfl⟩ found waits (.task "another")⟩

end Machine

end Turnstile
