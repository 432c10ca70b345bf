import Turnstile.Proofs.Orders

/-!
# What becomes of the pool

A section works on its pool by four operations only: it writes waiters, it begins or ends one rental
at most, and it closes the pool when it ends disposal. Whatever these four preserve is true of the
pool of every synchronizer: each slot is rented or listed, and a closed pool keeps nobody.
-/

namespace Turnstile

namespace Pool

variable {R : Type} {p q : Pool R}

/-- `q` is what some of a section's operations make of `p`. -/
inductive Leads (p : Pool R) : Pool R → Prop
  | refl : Leads p p
  | update {q : Pool R} (h : Leads p q) (i : Nat) (f : Waiter R → Waiter R) : Leads p (q.update i f)
  | rent {q : Pool R} (h : Leads p q) : Leads p q.rent.1
  | endRental {q : Pool R} (h : Leads p q) (id : WaiterId) : Leads p (q.endRental id)
  | close {q : Pool R} (h : Leads p q) : Leads p q.close

/-- What the four operations preserve. -/
structure Preserved (I : Pool R → Prop) : Prop where
  update : ∀ p i f, I p → I (p.update i f)
  rent : ∀ p, I p → I p.rent.1
  endRental : ∀ p id, I p → I (p.endRental id)
  close : ∀ p, I p → I p.close

theorem Leads.keeps {I : Pool R → Prop} (h : p.Leads q) (preserved : Preserved I) (hp : I p) :
    I q := by
  induction h with
  | refl => exact hp
  | update _ i f ih => exact preserved.update _ i f ih
  | rent _ ih => exact preserved.rent _ ih
  | endRental _ id ih => exact preserved.endRental _ id ih
  | close _ ih => exact preserved.close _ ih

theorem Leads.trans {r : Pool R} (h : p.Leads q) (h' : q.Leads r) : p.Leads r :=
  h'.keeps ⟨fun _ i f h => h.update i f, fun _ h => h.rent, fun _ id h => h.endRental id,
    fun _ h => h.close⟩ h

/-- `q` is `p` with other waiters in the rented slots. -/
inductive Written (p : Pool R) : Pool R → Prop
  | refl : Written p p
  | update {q : Pool R} (h : Written p q) (i : Nat) (f : Waiter R → Waiter R) :
    Written p (q.update i f)

theorem Written.trans {r : Pool R} (h : p.Written q) (h' : q.Written r) : p.Written r := by
  induction h' with
  | refl => exact h
  | update _ i f ih => exact ih.update i f

theorem Written.leads (h : p.Written q) : p.Leads q := by
  induction h with
  | refl => exact .refl
  | update _ i f ih => exact ih.update i f

/-- `q` is what a section makes of `p`. Beside writing waiters it rents one slot at most, and only if
the synchronizer is `active`, or it ends one rental at most. -/
inductive Shifts (p : Pool R) (active : Prop) : Pool R → Prop
  | writes {q : Pool R} (h : p.Written q) : Shifts p active q
  | rents {q r : Pool R} (h : p.Written q) (running : active) (h' : q.rent.1.Written r) :
    Shifts p active r
  | returns {q r : Pool R} (id : WaiterId) (h : p.Written q) (h' : (q.endRental id).Written r) :
    Shifts p active r

variable {active : Prop}

theorem Written.shifts_trans {r : Pool R} (h : p.Written q) (h' : q.Shifts active r) :
    p.Shifts active r := by
  cases h' with
  | writes h' => exact .writes (h.trans h')
  | rents h' running h'' => exact .rents (h.trans h') running h''
  | returns id h' h'' => exact .returns id (h.trans h') h''

theorem Shifts.leads (h : p.Shifts active q) : p.Leads q := by
  cases h with
  | writes h => exact h.leads
  | rents h _ h' => exact h.leads.rent.trans h'.leads
  | returns id h h' => exact (h.leads.endRental id).trans h'.leads

/-! ## Closed pools -/

theorem rent_closed (p : Pool R) : p.rent.1.closed = p.closed := by
  obtain ⟨_, _, _, -, same⟩ := p.takeIdle_eq
  exact congrArg (·.closed) same

theorem endRental_closed (p : Pool R) (id : WaiterId) : (p.endRental id).closed = p.closed := by
  by_cases current : p.IsCurrent id
  · obtain ⟨_, _, _, -, same⟩ := endRental_eq current
    rw [same]
  · rw [endRental_of_stale current]

theorem closed_preserved : Preserved fun p : Pool R => p.closed = true :=
  ⟨fun _ _ _ h => h, fun p h => (rent_closed p).trans h,
    fun p id h => (endRental_closed p id).trans h, fun _ _ => rfl⟩

/-- Once a pool is closed it keeps no idle waiter. -/
def Bare (p : Pool R) : Prop := p.closed = true → p.idle = []

theorem bare_preserved : Preserved (Bare (R := R)) := by
  refine ⟨fun _ _ _ h => h, fun p h hc => ?_, fun p id h hc => ?_, fun _ _ _ => rfl⟩
  · have hi := h ((rent_closed p).symm.trans hc)
    obtain ⟨_, idle, _, length, same⟩ := p.takeIdle_eq
    show p.takeIdle.1.idle = []
    rw [same]
    exact List.eq_nil_of_length_eq_zero (by rw [length, hi]; rfl)
  · rw [endRental_closed] at hc
    have hi := h hc
    unfold endRental keepsReturned
    split
    · exact hi
    · split
      · rw [hc]
        exact hi
      · exact hi

/-! ## Slots without a renter -/

/-- A slot that nobody rents waits for its next renter. -/
def Listed (p : Pool R) : Prop :=
  ∀ (i : Nat) (s : Slot R), p.slots[i]? = some s → s.rented = false → i ∈ p.idle ++ p.vacant

theorem Sound.rented_or_idle {p : Pool R} (sound : p.Sound) (listed : p.Listed) {i : Nat} {s : Slot R}
    {w : Waiter R} (hs : p.slots[i]? = some s) (hw : s.waiter = some w) :
    p.rented? i = some w ∨ w = Waiter.idle p.blank ∧ p.rented? i = none := by
  rcases hr : s.rented with _ | _
  · right
    have vacant : p.rented? i = none := by simp [rented?, hs, hr]
    refine ⟨?_, vacant⟩
    rcases List.mem_append.mp (listed i s hs hr) with hi | hi
    · obtain ⟨g, hg⟩ := sound.stocked i hi
      obtain rfl := Option.some.inj (hs.symm.trans hg)
      exact (Option.some.inj hw).symm
    · obtain ⟨g, hg⟩ := sound.emptied i hi
      obtain rfl := Option.some.inj (hs.symm.trans hg)
      cases hw
  · exact .inl (rented?_eq_some.mpr ⟨s, hs, hr, hw⟩)

theorem listed_of_modify {i : Nat} {f : Slot R → Slot R} (h : p.Listed)
    (slots : q.slots = p.slots.modify i f)
    (others : ∀ j, j ≠ i → j ∈ p.idle ++ p.vacant → j ∈ q.idle ++ q.vacant)
    (own : ∀ s, p.slots[i]? = some s → (f s).rented = false → i ∈ q.idle ++ q.vacant) :
    q.Listed := by
  intro j s hs hr
  rw [slots, Array.getElem?_modify] at hs
  split at hs
  · subst j
    obtain ⟨t, ht, rfl⟩ := Option.map_eq_some_iff.mp hs
    exact own t ht hr
  · rename_i hij
    exact others j (Ne.symm hij) (h j s hs hr)

theorem update_listed (h : p.Listed) (i : Nat) (f : Waiter R → Waiter R) :
    (p.update i f).Listed := by
  refine listed_of_modify (i := i) (f := fun s =>
    if s.rented then { s with waiter := s.waiter.map f } else s) h rfl (fun _ _ hj => hj)
    fun s hs hr => ?_
  split at hr
  · rename_i hrent
    rw [hrent] at hr
    cases hr
  · rename_i hrent
    exact h i s hs (Bool.eq_false_iff.mpr hrent)

theorem build_listed (h : p.Listed) :
    ∀ (j : Nat) (s : Slot R), p.build.1.slots[j]? = some s → s.rented = false →
      j = p.build.2 ∨ j ∈ p.build.1.idle ++ p.build.1.vacant := by
  intro j s hs hr
  unfold build at hs ⊢
  split
  next i rest hv =>
    rw [hv] at hs
    simp only [Array.getElem?_modify] at hs
    split at hs
    · exact .inl (Eq.symm ‹_›)
    · have hj := h j s hs hr
      rw [hv] at hj
      simp only [List.mem_append, List.mem_cons] at hj ⊢
      tauto
  next hv =>
    rw [hv] at hs
    simp only [Array.getElem?_push] at hs
    split at hs
    · exact .inl ‹_›
    · have hj := h j s hs hr
      rw [hv] at hj
      exact .inr (by simpa [hv] using hj)

theorem takeIdle_listed (h : p.Listed) :
    ∀ (j : Nat) (s : Slot R), p.takeIdle.1.slots[j]? = some s → s.rented = false →
      j = p.takeIdle.2 ∨ j ∈ p.takeIdle.1.idle ++ p.takeIdle.1.vacant := by
  intro j s hs hr
  unfold takeIdle at hs ⊢
  split
  next i rest hi =>
    rw [hi] at hs
    have hj := h j s hs hr
    rw [hi, List.cons_append, List.mem_cons] at hj
    exact hj
  next hi =>
    rw [hi] at hs
    exact build_listed h j s hs hr

theorem rent_listed (h : p.Listed) : p.rent.1.Listed := by
  intro j s hs hr
  have hs : (p.takeIdle.1.slots.modify p.takeIdle.2 fun s => { s with rented := true })[j]? =
      some s := hs
  rw [Array.getElem?_modify] at hs
  split at hs
  · obtain ⟨t, -, rfl⟩ := Option.map_eq_some_iff.mp hs
    cases hr
  · rename_i hne
    rcases takeIdle_listed h j s hs hr with hj | hj
    · exact absurd hj.symm hne
    · exact hj

theorem endRental_listed (h : p.Listed) (id : WaiterId) : (p.endRental id).Listed := by
  unfold endRental
  split
  · exact h
  · split
    · split
      · refine listed_of_modify (i := id.slot)
          (f := fun s => ⟨id.generation + 1, false, s.waiter.map (·.cleared p.blank)⟩) h rfl
          (fun j _ hj => ?_) fun _ _ _ => by simp
        rw [List.cons_append]
        exact List.mem_cons_of_mem _ hj
      · refine listed_of_modify (i := id.slot) (f := fun _ => ⟨id.generation + 1, false, none⟩) h rfl
          (fun j _ hj => ?_) fun _ _ _ => by simp
        simp only [List.mem_append, List.mem_cons] at hj ⊢
        tauto
    · exact h

theorem close_listed (h : p.Listed) : p.close.Listed := by
  intro j s hs hr
  have vacant := (foldl_evict_vacant p.idle.reverse p).1
  show j ∈ [] ++ (p.idle.reverse.foldl evict p).vacant
  rw [vacant, List.reverse_reverse, List.nil_append]
  rw [close_slots] at hs
  split at hs
  · obtain ⟨t, ht, rfl⟩ := Option.map_eq_some_iff.mp hs
    exact h j t ht hr
  · exact h j s hs hr

theorem listed_preserved : Preserved (Listed (R := R)) :=
  ⟨fun _ i f h => update_listed h i f, fun _ h => rent_listed h, fun _ id h => endRental_listed h id,
    fun _ h => close_listed h⟩

theorem stock_listed (h : p.Listed) (count : Nat) : (p.stock count).Listed := by
  induction count generalizing p with
  | zero => exact h
  | succ count ih =>
    refine ih fun j s hs hr => ?_
    show j ∈ p.build.2 :: (p.build.1.idle ++ p.build.1.vacant)
    exact List.mem_cons.mpr (build_listed h j s hs hr)

theorem stock_closed (p : Pool R) (count : Nat) : (p.stock count).closed = p.closed := by
  obtain ⟨_, _, _, -, same⟩ := p.stock_eq count
  rw [same]

end Pool

/-! ## Synchronizers -/

namespace Sync

variable {P : Policy}

/-- What a critical section makes of the pool. If it ends disposal, the pool is closed after it. -/
structure Evolves (s t : Sync P) : Prop where
  pool : s.line.pool.Leads t.line.pool
  closed : t.phase = .disposed → s.phase = .disposed ∨ t.line.pool.closed = true

variable {s t u : Sync P}

theorem Evolves.trans (h : s.Evolves t) (h' : t.Evolves u) : s.Evolves u := by
  refine ⟨h.pool.trans h'.pool, fun hu => ?_⟩
  rcases h'.closed hu with ht | closed
  · rcases h.closed ht with hs | closed
    · exact .inl hs
    · exact .inr (h'.pool.keeps Pool.closed_preserved closed)
  · exact .inr closed

theorem Evolves.of_pool (pool : s.line.pool.Leads t.line.pool) (phase : t.phase = s.phase) :
    s.Evolves t :=
  ⟨pool, fun ht => .inl (phase.symm.trans ht)⟩

theorem Evolves.refl (s : Sync P) : s.Evolves s := .of_pool .refl rfl

/-- Only waiters were written, and disposal is where it was. -/
structure Written (s t : Sync P) : Prop where
  pool : s.line.pool.Written t.line.pool
  phase : t.phase = s.phase

theorem Written.refl (s : Sync P) : s.Written s := ⟨.refl, rfl⟩

theorem Written.trans (h : s.Written t) (h' : t.Written u) : s.Written u :=
  ⟨h.pool.trans h'.pool, h'.phase.trans h.phase⟩

/-- What a critical section makes of the pool. It closes the pool if it ends disposal. -/
inductive Shifts (s t : Sync P) : Prop
  | stays (pool : s.line.pool.Shifts (s.phase = .active) t.line.pool)
    (phase : t.phase = .disposed ↔ s.phase = .disposed)
  | ends {q : Pool P.Request} (pool : s.line.pool.Shifts (s.phase = .active) q)
    (closed : t.line.pool = q.close) (running : s.phase ≠ .disposed) (ended : t.phase = .disposed)

theorem Written.shifts (h : s.Written t) : s.Shifts t := .stays (.writes h.pool) (by rw [h.phase])

theorem Written.shifts_trans (h : s.Written t) (h' : t.Shifts u) : s.Shifts u := by
  have first {q : Pool P.Request} (moved : t.line.pool.Shifts (t.phase = .active) q) :
      s.line.pool.Shifts (s.phase = .active) q := by
    rw [h.phase] at moved
    exact h.pool.shifts_trans moved
  cases h' with
  | stays pool phase => exact .stays (first pool) (by rw [phase, h.phase])
  | ends pool closed running ended => exact .ends (first pool) closed (by rwa [← h.phase]) ended

theorem Shifts.evolves (h : s.Shifts t) : s.Evolves t := by
  cases h with
  | stays pool phase => exact ⟨pool.leads, fun ended => .inl (phase.mp ended)⟩
  | ends pool closed _ _ =>
    refine ⟨?_, fun _ => .inr (by rw [closed]; rfl)⟩
    rw [closed]
    exact pool.leads.close

end Sync

namespace Line

variable {R : Type}

theorem enqueue_written (l : Line R) (i : Nat) : l.pool.Written (l.enqueue i).pool := by
  unfold enqueue
  split
  · exact (Pool.Written.refl.update ..).update ..
  · exact Pool.Written.refl.update ..

theorem dequeue_written (l : Line R) : l.pool.Written l.dequeue.1.pool := by
  unfold dequeue
  split
  · exact .refl
  · exact Pool.Written.refl.update ..

theorem splice_written (l : Line R) (i : Nat) (before next : Option Nat) :
    l.pool.Written (l.splice i before next).pool := by
  unfold splice
  rcases before with _ | b
  · exact Pool.Written.refl.update ..
  · exact (Pool.Written.refl.update ..).update ..

theorem eraseFrom_written (l : Line R) (i fuel : Nat) (before cursor : Option Nat) :
    l.pool.Written (l.eraseFrom i fuel before cursor).1.pool := by
  induction fuel generalizing before cursor with
  | zero => exact .refl
  | succ fuel ih =>
    rcases cursor with _ | c
    · exact .refl
    · simp only [eraseFrom]
      split
      · exact .refl
      · split
        · exact l.splice_written i _ _
        · exact ih _ _

end Line

namespace Section

variable {P : Policy}

open Sync (Written Shifts)

/-! ### What only writes waiters -/

theorem disarm_written (s : Section P) (i : Nat) : s.sync.Written (s.disarm i).sync := by
  unfold disarm
  split
  · exact .refl _
  · exact ⟨Pool.Written.refl.update .., rfl⟩

theorem resolve_written (s : Section P) (i : Nat) (o : Outcome) :
    s.sync.Written (s.resolve i o).sync := by
  unfold resolve
  split
  · exact .refl _
  · have told : s.sync.Written
        (s.update i fun w => { w with outcome := some o, waker := none }).sync :=
      ⟨Pool.Written.refl.update .., rfl⟩
    exact told.trans (disarm_written _ i)

theorem dequeue_written (s : Section P) : s.sync.Written (s.setLine s.sync.line.dequeue.1).sync :=
  ⟨s.sync.line.dequeue_written, rfl⟩

theorem exposeAtMost_written (s : Section P) (fuel : Nat) :
    s.sync.Written (s.exposeAtMost fuel).sync := by
  induction fuel generalizing s with
  | zero => exact .refl _
  | succ fuel ih =>
    unfold exposeAtMost
    split
    · exact .refl _
    · split
      · exact .refl _
      · exact s.dequeue_written.trans (ih _)

theorem grantAtMost_written (s : Section P) (fuel : Nat) :
    s.sync.Written (s.grantAtMost fuel).sync := by
  induction fuel generalizing s with
  | zero => exact s.exposeAtMost_written _
  | succ fuel ih =>
    have exposed : s.sync.Written s.exposeHead.sync := s.exposeAtMost_written _
    unfold grantAtMost
    dsimp only
    split
    · exact exposed
    · rename_i i w _
      split
      · -- The holding changes between the two changes of the pool.
        have taken := exposed.trans s.exposeHead.dequeue_written
        have entered : (s.exposeHead.setLine s.exposeHead.sync.line.dequeue.1).sync.Written
            ((s.exposeHead.setLine s.exposeHead.sync.line.dequeue.1).setHolding
              (P.enter s.exposeHead.sync.holding w.request)).sync := ⟨.refl, rfl⟩
        refine Written.trans ?_ (ih _)
        exact taken.trans (entered.trans (resolve_written _ i .granted))
      · exact exposed

theorem grantRun_written (s : Section P) : s.sync.Written s.grantRun.sync := s.grantAtMost_written _

theorem sweep_written (s : Section P) (o : Outcome) (fuel count : Nat) :
    s.sync.Written (s.sweep o fuel count).1.sync := by
  induction fuel generalizing s count with
  | zero => exact .refl _
  | succ fuel ih =>
    have first := s.dequeue_written
    unfold sweep
    rcases hd : s.sync.line.dequeue with ⟨line, _ | i⟩
    · exact .refl _
    · rw [hd] at first
      dsimp only
      split
      · exact (first.trans (resolve_written _ i o)).trans (ih _ _)
      · exact first.trans (ih _ _)

theorem cleared_written (s : Section P) (steal : Option Reason) :
    s.sync.Written (steal.elim s s.evictLine).exposeHead.sync := by
  refine Written.trans ?_ (exposeAtMost_written _ _)
  rcases steal with _ | r
  · exact .refl _
  · exact s.sweep_written (.interrupted r) _ 0

theorem unhitch_written (s : Section P) (i : Nat) (linked : Bool) :
    s.sync.Written (s.unhitch i linked).sync := by
  unfold unhitch
  dsimp only
  split
  · exact (s.disarm_written i).trans ⟨Line.eraseFrom_written _ _ _ _ _, rfl⟩
  · exact s.disarm_written i

theorem trigger_written (s : Section P) (i : Nat) : s.sync.Written (s.trigger i).sync := by
  unfold trigger
  split
  · exact .refl _
  · split
    · split
      · exact .refl _
      · rename_i w _ _ _ o _
        have resolved : s.sync.Written (((s.tell (.resolved i w.ticket o)).resolve i o).update i
            fun w => { w with lingers := w.linked }).sync :=
          (resolve_written (s.tell (.resolved i w.ticket o)) i o).trans
            ⟨Pool.Written.refl.update .., rfl⟩
        dsimp only
        split
        · exact resolved.trans (grantRun_written _)
        · exact resolved
    · exact .refl _

/-! ### What rents a slot or gives one back -/

theorem Shifts.endDisposal {s : Sync P} {t : Section P} (h : s.Shifts t.sync) :
    s.Shifts t.endDisposal.sync := by
  unfold Section.endDisposal
  split
  · rename_i ready
    simp only [Bool.and_eq_true, decide_eq_true_eq] at ready
    cases h with
    | stays pool phase =>
      refine .ends pool rfl (fun ended => ?_) rfl
      rw [phase.mpr ended] at ready
      cases ready.1
    | ends _ _ _ ended =>
      rw [ended] at ready
      cases ready.1
  · exact h

theorem enqueue_shifts (s : Section P) (active : s.sync.phase = .active) (request : P.Request)
    (timeout : Timeout) {token : Option Nat} (taken : token.any s.tokens.refuses = false) :
    s.sync.Shifts (s.enqueue request timeout token).1.sync := by
  obtain ⟨tokens, r, subscribed, -⟩ :=
    subscribe?_eq_some taken (.trigger s.sync.id s.sync.line.pool.rent.2.slot)
  unfold enqueue
  dsimp only
  rw [subscribed]
  refine .stays (.rents .refl active (Pool.Written.trans ?_ (Line.enqueue_written _ _))) Iff.rfl
  exact Pool.Written.refl.update ..

theorem acquire_shifts (s : Section P) (request : P.Request) (timeout : Timeout)
    (token : Option Nat) (steal : Option Reason) :
    s.sync.Shifts (s.acquire request timeout token steal).1.sync := by
  have cleared := s.cleared_written steal
  unfold acquire
  split
  · exact (Written.refl _).shifts
  · rename_i active
    rw [ne_eq, Decidable.not_not] at active
    dsimp only
    split
    · have entered : s.sync.Written ((steal.elim s s.evictLine).exposeHead.setHolding
          (P.enter (steal.elim s s.evictLine).exposeHead.sync.holding request)).sync :=
        ⟨cleared.pool, cleared.phase⟩
      exact entered.shifts
    · split
      · exact cleared.shifts
      · split
        · exact cleared.shifts
        · rename_i taken
          exact cleared.shifts_trans
            (enqueue_shifts _ (cleared.phase.trans active) _ _ (Bool.eq_false_iff.mpr taken))

theorem leave_shifts {s : Section P} {id : WaiterId} {w : Waiter P.Request}
    (hw : s.sync.line.pool.get? id = some w) (abandoned : Bool) :
    ∃ u t : Section P, s.sync.Written u.sync ∧
      (u.sync.line.pool.endRental id).Written t.sync.line.pool ∧ t.sync.phase = s.sync.phase ∧
        s.leave id abandoned = t.endDisposal := by
  have freed := s.unhitch_written id.slot w.linked
  rw [leave_eq hw]
  dsimp only
  generalize hn : (if (abandoned && w.outcome = some .granted) = true then
      ((s.detach id w.linked).setHolding
        (P.release (s.detach id w.linked).sync.holding w.request)).tell (.handedBack w.request)
    else s.detach id w.linked) = n
  have kept : (s.detach id w.linked).sync.Written n.sync := by
    rw [← hn]
    split
    · exact ⟨.refl, rfl⟩
    · exact .refl _
  have settled : n.sync.Written
      (if (w.linked || abandoned && w.outcome = some .granted) = true then n.grantRun else n).sync := by
    split
    · exact n.grantRun_written
    · exact .refl _
  exact ⟨_, _, freed, (kept.trans settled).pool, (kept.trans settled).phase.trans freed.phase, rfl⟩

theorem releaseBy_shifts (s : Section P) (f : P.State → Except Refusal P.State) :
    s.sync.Shifts (s.releaseBy f).1.sync := by
  unfold releaseBy
  split
  · exact (Written.refl _).shifts
  · split
    · exact (Written.refl _).shifts
    · rename_i holding _
      have entered : s.sync.Written (s.setHolding holding).sync := ⟨.refl, rfl⟩
      exact Shifts.endDisposal (entered.trans (grantRun_written _)).shifts

theorem dispose_shifts (s : Section P) : s.sync.Shifts s.dispose.sync := by
  unfold dispose
  split
  · exact (Written.refl _).shifts
  · rename_i active
    rw [ne_eq, Decidable.not_not] at active
    have swept := sweep_written { s with sync := { s.sync with phase := .disposing } } .disposed
      s.sync.line.length 0
    refine Shifts.endDisposal (.stays (.writes swept.pool) ?_)
    have phase : (Section.resolveAll { s with sync := { s.sync with phase := .disposing } }
        .disposed).1.sync.phase = .disposing := swept.phase
    show (Section.resolveAll { s with sync := { s.sync with phase := .disposing } }
        .disposed).1.sync.phase = .disposed ↔ _
    rw [phase, active]
    simp

theorem serve_shifts (s : Section P) (x : Call P) : s.sync.Shifts (s.serve x).after.sync := by
  have left (id : WaiterId) (abandoned : Bool) : s.sync.Shifts (s.leave id abandoned).sync := by
    rcases hw : s.sync.line.pool.get? id with _ | w
    · rw [leave, hw]
      exact (Written.refl _).shifts
    · obtain ⟨u, t, before, after, phase, same⟩ := leave_shifts hw abandoned
      rw [same]
      exact Shifts.endDisposal (.stays (.returns id before.pool after) (by rw [phase]))
  cases x with
  | acquire request timeout token steal => exact s.acquire_shifts request timeout token steal
  | trigger slot => exact (s.trigger_written slot).shifts
  | poll id waker =>
    show s.sync.Shifts (s.poll id waker).1.sync
    unfold poll
    split
    · exact (Written.refl _).shifts
    · split
      · exact Written.shifts ⟨Pool.Written.refl.update .., rfl⟩
      · exact left id false
  | abandon id => exact left id true
  | giveBack f => exact s.releaseBy_shifts f
  | dispose => exact s.dispose_shifts
  | pollDispose waker =>
    show s.sync.Shifts (s.pollDispose waker).1.sync
    unfold pollDispose
    split
    · exact (Written.refl _).shifts
    · split
      · exact (Written.refl _).shifts
      · exact Written.shifts ⟨.refl, rfl⟩

end Section

namespace Scene

variable {P : Policy} {c : Scene P}

theorem shifts_after (c : Scene P) (x : Deed P) : c.sync.Shifts (c.after x).sync := by
  have same : (c.after x).sync = _ := (c.perform_eq x).1
  rw [same]
  rcases c.call? x with _ | y
  · exact (Sync.Written.refl _).shifts
  · exact c.inside.serve_shifts y

theorem evolves_run (c : Scene P) (xs : List (Deed P)) : c.sync.Evolves (c.run xs).sync := by
  induction xs generalizing c with
  | nil => exact .refl _
  | cons x xs ih => exact (c.shifts_after x).evolves.trans (ih _)

section

variable (id : Nat) (holding : P.State) (warm : Nat) (retainLimit : Option Nat) (timers : Timers)
  (tokens : Tokens) (xs : List (Deed P))

theorem listed_of_run :
    ((start id holding warm retainLimit timers tokens).run xs).sync.line.pool.Listed :=
  (evolves_run _ xs).pool.keeps Pool.listed_preserved
    (Pool.stock_listed (fun i s hs => by simp at hs) warm)

/-- When disposal has ended, the pool keeps no idle waiter. -/
theorem idle_of_run
    (ended : ((start id holding warm retainLimit timers tokens).run xs).sync.phase = .disposed) :
    ((start id holding warm retainLimit timers tokens).run xs).sync.line.pool.idle = [] := by
  have evolves := evolves_run (start id holding warm retainLimit timers tokens) xs
  have open₀ : (start id holding warm retainLimit timers tokens).sync.line.pool.closed = false :=
    Pool.stock_closed _ warm
  have bare := evolves.pool.keeps Pool.bare_preserved fun hc => by rw [open₀] at hc; cases hc
  rcases evolves.closed ended with start | closed
  · cases start
  · exact bare closed

end

end Scene

end Turnstile
