import Turnstile.Proofs.Sections

/-!
# Sections at rest

Between two sections whoever is first in line is pending and refused, and disposal does not wait to be
ended. So to expose the head of the line, to grant or to end disposal changes nothing then, and whoever
leaves with an outcome takes only its own waiter along.
-/

namespace Turnstile

variable {P : Policy}

theorem Pool.update_eq_self {R : Type} {p : Pool R} {i : Nat} {f : Waiter R → Waiter R}
    (same : ∀ w, p.rented? i = some w → f w = w) : p.update i f = p := by
  unfold update
  have slots : p.slots.modify i (fun s =>
      if s.rented then { s with waiter := s.waiter.map f } else s) = p.slots := by
    refine Array.ext_getElem? fun j => ?_
    rw [Array.getElem?_modify]
    split
    · rename_i here
      subst here
      unfold rented? at same
      generalize p.slots[i]? = slot at same ⊢
      rcases slot with _ | ⟨generation, _ | _, _ | w⟩
      · rfl
      · rfl
      · rfl
      · rfl
      · simp [same w rfl]
    · rfl
  rw [slots]

/-- The waiter of `id` is out of the line, if it was linked, and back in the pool. -/
def Line.withdraw {R : Type} (l : Line R) (id : WaiterId) (linked : Bool) : Line R :=
  let l := if linked then (l.erase id.slot).1 else l
  { l with pool := l.pool.endRental id }

namespace Section

variable {s : Section P} {d : Docket P} {L : List Nat} {id : WaiterId} {w : Waiter P.Request}

/-! ## Nothing to be done -/

theorem exposeAtMost_of_fronted (line : s.sync.line.Holds L) (fronted : s.Fronted L) (fuel : Nat) :
    s.exposeAtMost fuel = s := by
  cases fuel with
  | zero => rfl
  | succ fuel =>
    unfold exposeAtMost
    rw [Chained.head_eq line]
    cases L with
    | nil => rfl
    | cons i M =>
      obtain ⟨w, hw, pending⟩ := fronted i rfl
      simp [isPending_eq hw, pending]

theorem Rests.exposeHead_eq (h : s.Rests d L) : s.exposeHead = s :=
  exposeAtMost_of_fronted h.line h.fronted _

theorem Rests.grantRun_eq (h : s.Rests d L) : s.grantRun = s := by
  have exposed := h.exposeHead_eq
  unfold grantRun
  cases s.sync.line.length with
  | zero => exact exposed
  | succ fuel =>
    unfold grantAtMost
    simp only [exposed, Chained.head_eq h.line]
    cases L with
    | nil => rfl
    | cons i M =>
      obtain ⟨b, hb, pending⟩ := h.fronted i rfl
      obtain ⟨u, hu, rfl⟩ := waiter?_of_bare? hb
      obtain ⟨es, first⟩ := h.pending_cons hb (Waiter.petition?_of_pending pending)
      have refused : P.allows s.sync.holding u.request = false := by
        rw [← h.holding]
        exact h.rests.blocked _ es first
      simp [hu, refused]

theorem Rests.endDisposal_eq (h : s.Rests d L) : s.endDisposal = s := by
  unfold Section.endDisposal
  by_cases hp : s.sync.phase = .disposing
  · have held : P.isIdle s.sync.holding = false := by
      rw [← h.holding]
      exact h.rests.busy (h.phase.trans hp)
    simp [Sync.isQuiet, held]
  · simp [hp]

/-! ## Leaving -/

/-- The waiter in slot `i` is disarmed and out of the line. -/
def unhitch (s : Section P) (i : Nat) (linked : Bool) : Section P :=
  let s := s.disarm i
  if linked then s.setLine (s.sync.line.erase i).1 else s

/-- The waiter of `id` gives up its place and its slot. -/
def detach (s : Section P) (id : WaiterId) (linked : Bool) : Section P :=
  let s := s.unhitch id.slot linked
  s.setLine { s.sync.line with pool := s.sync.line.pool.endRental id }

theorem leave_eq (hw : s.sync.line.pool.get? id = some w) (abandoned : Bool) :
    s.leave id abandoned =
      let regrant := abandoned && w.outcome = some .granted
      let s := s.detach id w.linked
      let s :=
        if regrant then
          (s.setHolding (P.release s.sync.holding w.request)).tell (.handedBack w.request)
        else s
      let s := if w.linked || regrant then s.grantRun else s
      s.endDisposal := by
  unfold leave
  rw [hw]
  dsimp only
  rcases abandoned && decide (w.outcome = some .granted) with _ | _ <;> rfl

theorem unhitch_turns (line : s.sync.line.Holds L) {i : Nat} (hw : s.waiter? i = some w) :
    ∃ g, Turns s (s.unhitch i w.linked) i g ∧
      (∀ w, (g w).timer = none ∧ (g w).registration = none ∧ (g w).key = w.key) ∧
      (s.unhitch i w.linked).sync.line.Holds (L.erase i) ∧
      (s.unhitch i w.linked).wakes = s.wakes ∧ (s.unhitch i w.linked).events = s.events := by
  obtain ⟨disarmed, holds, wakes, events⟩ := disarm_turns hw
  unfold unhitch
  by_cases hl : w.linked = true
  · have hi := (Chained.linked line i w hw).mp hl
    obtain ⟨erased, calm⟩ := (holds L line).erase hi
    rw [if_pos hl]
    exact ⟨_, disarmed.trans (setLine_turns calm), fun _ => ⟨rfl, rfl, rfl⟩, erased, wakes, events⟩
  · have hi := fun hm => hl ((Chained.linked line i w hw).mpr hm)
    rw [if_neg hl, List.erase_of_not_mem hi]
    exact ⟨_, disarmed, fun _ => ⟨rfl, rfl, rfl⟩, holds L line, wakes, events⟩

theorem unhitch_ends (sound : s.sync.line.pool.Sound) (line : s.sync.line.Holds L)
    (hw : s.sync.line.pool.get? id = some w) :
    (s.unhitch id.slot w.linked).sync.line.pool.Ends
      ((s.unhitch id.slot w.linked).sync.line.pool.endRental id) id := by
  obtain ⟨current, -⟩ := Pool.get?_eq_some.mp hw
  have hwait := waiter?_of_get? hw
  obtain ⟨g, turns, hg, line', -, -⟩ := unhitch_turns line hwait
  have hb := bare?_of_waiter? hwait
  have hbt : (s.unhitch id.slot w.linked).sync.line.bare? id.slot = some (g w.bare) := by
    rw [turns.line.bare?_eq hb, if_pos rfl]
  obtain ⟨u, hu, hub⟩ := waiter?_of_bare? hbt
  have hget := Pool.get?_eq_some.mpr ⟨turns.line.keeps id current, hu⟩
  refine Pool.endRental_ends (turns.line.sound sound) hget ?_
  have htimer : u.timer = none := (congrArg (·.timer) hub).trans (hg w.bare).1
  have hreg : u.registration = none := (congrArg (·.registration) hub).trans (hg w.bare).2.1
  have hlinked : u.linked = false := by
    by_contra hl
    have := (Chained.linked line' id.slot u hu).mp (by simpa using hl)
    rw [(Chained.nodup line).mem_erase_iff] at this
    exact this.1 rfl
  simp [Waiter.cleared, Waiter.idle, htimer, hreg, hlinked]

theorem detach_shows (h : s.Shows d L) (hw : s.sync.line.pool.get? id = some w) :
    (s.detach id w.linked).Shows
        (if w.outcome = none then d.strike w.ticket else d.forget w.ticket) (L.erase id.slot) ∧
      Frame (some id.slot) s (s.detach id w.linked) ∧
      ∀ j, (s.detach id w.linked).sync.line.bare? j =
        if j = id.slot then none else s.sync.line.bare? j := by
  have hwait := waiter?_of_get? hw
  have hb := bare?_of_waiter? hwait
  have hni : id.slot ∉ L.erase id.slot := by rw [h.roll.nodup.mem_erase_iff]; simp
  obtain ⟨g, turns, hg, line, wakes, events⟩ := unhitch_turns h.line hwait
  have ends := unhitch_ends h.sound h.line hw
  have bare : ∀ j, (s.detach id w.linked).sync.line.bare? j =
      if j = id.slot then none else s.sync.line.bare? j := by
    intro j
    refine (Line.bare?_ends ends j).trans ?_
    rw [turns.line.bare?]
    split <;> rfl
  have roll : (if w.outcome = none then d.strike w.ticket else d.forget w.ticket).Shows
      (s.detach id w.linked).sync.line.bare? (L.erase id.slot) := by
    split
    · rename_i ho
      exact h.roll.vacate_pending (w := w.bare) hb ho bare
    · rename_i ho
      exact h.roll.vacate_resolved (w := w.bare) hb ho bare
  have same : (if w.outcome = none then d.strike w.ticket else d.forget w.ticket) =
      { d with
        pending := (if w.outcome = none then d.strike w.ticket else d.forget w.ticket).pending
        settled := (if w.outcome = none then d.strike w.ticket else d.forget w.ticket).settled } := by
    split <;> rfl
  rw [same] at roll ⊢
  refine ⟨⟨ends.sound, line.ends ends hni, roll, ?_, ?_, ?_, ?_, h.wakes.trans wakes.symm,
    h.granted.trans (congrArg _ events.symm)⟩, ⟨?_, turns.now, turns.flags, ?_, ?_⟩, bare⟩
  · exact h.holding.trans (congrArg Sync.holding turns.sync).symm
  · exact h.phase.trans (congrArg Sync.phase turns.sync).symm
  · exact h.arrivals.trans (congrArg Sync.arrivals turns.sync).symm
  · exact h.awaitingEnd.trans (congrArg Sync.awaitingEnd turns.sync).symm
  · have id := congrArg Sync.id turns.sync
    exact id
  · exact fun id' hne hc => ends.keeps id' (fun e => hne (by rw [e])) (turns.line.keeps id' hc)
  · exact fun j hj => by rw [bare, if_neg fun e => hj (by rw [e])]

theorem Rests.detach (h : s.Rests d L) (hw : s.sync.line.pool.get? id = some w)
    (resolved : w.outcome ≠ none) :
    (s.detach id w.linked).Rests (d.forget w.ticket) (L.erase id.slot) := by
  obtain ⟨shown, -, bare⟩ := detach_shows h.toShows hw
  rw [if_neg resolved] at shown
  refine ⟨shown, fun j hj => ?_, h.rests.forget w.ticket⟩
  have own := bare?_of_waiter? (waiter?_of_get? hw)
  cases L with
  | nil => cases hj
  | cons i M =>
    obtain ⟨v, hv, pending⟩ := h.fronted i rfl
    have apart : i ≠ id.slot := by
      rintro rfl
      rw [own] at hv
      obtain rfl := Option.some.inj hv
      exact resolved pending
    rw [List.erase_cons_tail (by simpa using apart)] at hj
    obtain rfl := Option.some.inj hj
    exact ⟨v, by rw [bare, if_neg apart]; exact hv, pending⟩

theorem Rests.leave_of_resolved (h : s.Rests d L) (hw : s.sync.line.pool.get? id = some w)
    (resolved : w.outcome ≠ none) {abandoned : Bool}
    (kept : (abandoned && w.outcome = some .granted) = false) :
    s.leave id abandoned = s.detach id w.linked := by
  have rests := h.detach hw resolved
  rw [leave_eq hw]
  simp only [kept, Bool.or_false, Bool.false_eq_true, if_false]
  split
  · rw [rests.grantRun_eq, rests.endDisposal_eq]
  · exact rests.endDisposal_eq

theorem leave_forget (h : s.Rests d L) (hw : s.sync.line.pool.get? id = some w)
    (ho : w.outcome ≠ none) {abandoned : Bool}
    (ha : (abandoned && w.outcome = some .granted) = false) :
    ∃ L', (s.leave id abandoned).Rests (d.forget w.ticket) L' ∧
      Frame (some id.slot) s (s.leave id abandoned) ∧
      (s.leave id abandoned).sync.line.bare? id.slot = none := by
  obtain ⟨-, frame, bare⟩ := detach_shows h.toShows hw
  rw [h.leave_of_resolved hw ho ha]
  exact ⟨_, h.detach hw ho, frame, (bare id.slot).trans (if_pos rfl)⟩

theorem leave_withdraw (h : s.Rests d L) (hw : s.sync.line.pool.get? id = some w) :
    ∃ L', (s.leave id true).Rests (d.withdraw w.ticket) L' ∧
      Frame (some id.slot) s (s.leave id true) ∧
      (s.leave id true).sync.line.bare? id.slot = none := by
  have hwait := waiter?_of_get? hw
  have hb := bare?_of_waiter? hwait
  obtain ⟨shown, frame, bare⟩ := detach_shows h.toShows hw
  have free := (bare id.slot).trans (if_pos rfl)
  unfold Docket.withdraw
  rw [show d.settled w.ticket = w.verdict? from h.roll.settled_eq (w := w.bare) hb]
  rcases ho : w.outcome with _ | o
  · -- A pending waiter stands in line.
    have hl : w.linked = true :=
      (Chained.linked h.line id.slot w hwait).mpr ((h.roll.regular _ _ hb).queued ho)
    rw [if_pos ho] at shown
    obtain ⟨L', rests, frame'⟩ := shown.settles (Docket.strike_closed h.rests.closed w.ticket)
    rw [leave_eq hw]
    simp only [Waiter.verdict?, ho, Option.map_none, reduceCtorEq, decide_false, Bool.and_false,
      Bool.or_false, Bool.false_eq_true, if_false]
    rw [if_pos hl]
    exact ⟨L', rests, frame.trans (frame'.but_any _), frame'.vacant free⟩
  rw [if_neg (by simp [ho])] at shown
  simp only [Waiter.verdict?, ho, Option.map_some]
  by_cases hg : o = .granted
  · subst hg
    have released : (((s.detach id w.linked).setHolding
        (P.release (s.detach id w.linked).sync.holding w.request)).tell (.handedBack w.request)).Shows
        { d.forget w.ticket with holding := P.release d.holding w.request } (L.erase id.slot) :=
      ⟨shown.sound, shown.line, shown.roll.congr rfl rfl rfl,
        congrArg (P.release · w.request) shown.holding, shown.phase, shown.arrivals,
        shown.awaitingEnd, shown.wakes, by simp [tell, setHolding, Event.granted?, shown.granted]⟩
    obtain ⟨L', rests, frame'⟩ := released.settles h.rests.closed
    have frame'' := (setHolding_frame (s.detach id w.linked) _ none).trans
      ((tell_frame _ (.handedBack w.request) none).trans frame')
    rw [leave_eq hw]
    simp only [ho, decide_true, Bool.and_true, Bool.or_true, if_true]
    exact ⟨L', rests, frame.trans (frame''.but_any _), frame''.vacant free⟩
  · rw [if_neg hg]
    exact leave_forget h hw (by simp [ho]) (by simp [ho, hg])

/-! ## Nothing out -/

theorem Rests.disarm_eq (h : s.Rests d L) {i : Nat} (hw : s.waiter? i = some w)
    (resolved : w.outcome ≠ none) : s.disarm i = s := by
  obtain ⟨timer, registration, -⟩ := (h.roll.regular _ _ (bare?_of_waiter? hw)).quiet resolved
  have timer : w.timer = none := timer
  have registration : w.registration = none := registration
  have same : s.update i (fun w => { w with timer := none, registration := none }) = s := by
    unfold Section.update setLine Line.update
    rw [Pool.update_eq_self fun v hv => ?_]
    obtain rfl := Option.some.inj (hw.symm.trans hv)
    obtain ⟨request, ticket, outcome, waker, deadline, _, _⟩ := w
    cases timer
    cases registration
    rfl
  unfold disarm
  rw [hw]
  simp only [same, timer, registration, Option.elim_none]

theorem Rests.detach_eq (h : s.Rests d L) (hw : s.sync.line.pool.get? id = some w)
    (resolved : w.outcome ≠ none) :
    s.detach id w.linked = s.setLine (s.sync.line.withdraw id w.linked) := by
  unfold Section.detach unhitch Line.withdraw
  rw [h.disarm_eq (waiter?_of_get? hw) resolved]
  dsimp only
  split <;> rfl

end Section

end Turnstile
