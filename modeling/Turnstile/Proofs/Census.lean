import Turnstile.Proofs.Integrity
import Mathlib.Data.Finset.Card

/-!
# How many waiters there are

The counters of a pool tell the truth. So many slots are rented as there are futures that wait, and
the number of waiters ever made is the largest number that were rented at a time, but for those that
were made in advance or dropped meanwhile.
-/

namespace Turnstile

namespace Pool

variable {R : Type} {p q : Pool R} {id : WaiterId}

/-! ## What writing waiters leaves alone -/

theorem Written.eq (h : p.Written q) : ∃ slots, q = { p with slots } := by
  induction h with
  | refl => exact ⟨_, rfl⟩
  | update _ i f ih =>
    obtain ⟨slots, rfl⟩ := ih
    exact ⟨_, rfl⟩

theorem Written.stats (h : p.Written q) : q.stats = p.stats := by
  obtain ⟨_, rfl⟩ := h.eq
  rfl

theorem Written.closed (h : p.Written q) : q.closed = p.closed := by
  obtain ⟨_, rfl⟩ := h.eq
  rfl

theorem Written.keepsReturned (h : p.Written q) : q.keepsReturned = p.keepsReturned := by
  obtain ⟨_, rfl⟩ := h.eq
  rfl

theorem Written.sound (h : p.Written q) (sound : p.Sound) : q.Sound := by
  induction h with
  | refl => exact sound
  | update _ i f ih => exact update_sound ih i f

theorem Written.keeps (h : p.Written q) : p.Keeps q := by
  induction h with
  | refl => exact fun _ h => h
  | update _ i f ih => exact ih.trans (update_keeps _ i f)

theorem Written.slots_of_unrented (h : p.Written q) {i : Nat} {s : Slot R}
    (hs : p.slots[i]? = some s) (hr : s.rented = false) : q.slots[i]? = some s := by
  induction h with
  | refl => exact hs
  | update _ j f ih =>
    rw [Pool.update, Array.getElem?_modify, ih]
    split <;> simp [hr]

/-! ## Counters -/

theorem stock_stats (p : Pool R) (count : Nat) :
    (p.stock count).stats = ⟨p.allocated + count, p.idle.length + count, p.rented⟩ := by
  obtain ⟨_, _, _, length, same⟩ := p.stock_eq count
  rw [same, ← length]
  rfl

theorem stock_retainLimit (p : Pool R) (count : Nat) :
    (p.stock count).retainLimit = p.retainLimit := by
  obtain ⟨_, _, _, -, same⟩ := p.stock_eq count
  rw [same]

theorem rent_stats (p : Pool R) :
    p.rent.1.stats = ⟨p.allocated + (1 - p.idle.length), p.idle.length - 1, p.rented + 1⟩ := by
  obtain ⟨_, _, _, length, same⟩ := p.takeIdle_eq
  show (⟨p.takeIdle.1.allocated, p.takeIdle.1.idle.length, p.takeIdle.1.rented + 1⟩ : PoolStats) = _
  rw [same, ← length]

theorem rent_retainLimit (p : Pool R) : p.rent.1.retainLimit = p.retainLimit := by
  obtain ⟨_, _, _, -, same⟩ := p.takeIdle_eq
  exact congrArg (·.retainLimit) same

theorem keepsReturned_of_full {n : Nat} (limit : p.retainLimit = some n)
    (full : n ≤ p.idle.length) : p.keepsReturned = false := by
  rw [keepsReturned, limit, Option.all_some, decide_eq_false (Nat.not_lt.mpr full), Bool.and_false]

theorem endRental_stats (current : p.IsCurrent id) :
    (p.endRental id).stats =
      ⟨p.allocated, p.idle.length + if p.keepsReturned then 1 else 0, p.rented - 1⟩ := by
  obtain ⟨_, _, _, length, same⟩ := endRental_eq current
  rw [same, ← length]
  rfl

theorem endRental_retainLimit (p : Pool R) (id : WaiterId) :
    (p.endRental id).retainLimit = p.retainLimit := by
  by_cases current : p.IsCurrent id
  · obtain ⟨_, _, _, -, same⟩ := endRental_eq current
    rw [same]
  · rw [endRental_of_stale current]

theorem endRental_allocated (p : Pool R) (id : WaiterId) :
    (p.endRental id).allocated = p.allocated := by
  by_cases current : p.IsCurrent id
  · exact (PoolStats.mk.inj (endRental_stats current)).1
  · rw [endRental_of_stale current]

theorem endRental_slots (current : p.IsCurrent id) :
    ∃ w, (p.keepsReturned = false → w = none) ∧ ∀ j, (p.endRental id).slots[j]? =
      if j = id.slot then some ⟨id.generation + 1, false, w⟩ else p.slots[j]? := by
  obtain ⟨s, hs, hr, hg⟩ := current
  simp only [endRental, hs, hr, hg, Bool.true_and, decide_true, if_true]
  split
  · refine ⟨s.waiter.map (·.cleared p.blank), fun dropped => ?_, fun j => ?_⟩
    · simp_all
    · by_cases hj : j = id.slot
      · simp [Array.getElem?_modify, hj, hs]
      · simp [Array.getElem?_modify, hj, Ne.symm hj]
  · refine ⟨none, fun _ => rfl, fun j => ?_⟩
    by_cases hj : j = id.slot
    · simp [Array.getElem?_modify, hj, hs]
    · simp [Array.getElem?_modify, hj, Ne.symm hj]

theorem close_stats (p : Pool R) : p.close.stats = ⟨p.allocated, 0, p.rented⟩ := by
  obtain ⟨_, _, same⟩ := p.close_eq
  rw [same]
  rfl

theorem close_retainLimit (p : Pool R) : p.close.retainLimit = p.retainLimit := by
  obtain ⟨_, _, same⟩ := p.close_eq
  rw [same]

theorem retainLimit_preserved (limit : Option Nat) :
    Preserved fun p : Pool R => p.retainLimit = limit :=
  ⟨fun _ _ _ h => h, fun p h => p.rent_retainLimit.trans h,
    fun p id h => (p.endRental_retainLimit id).trans h, fun p h => p.close_retainLimit.trans h⟩

theorem allocated_preserved (n : Nat) : Preserved fun p : Pool R => n ≤ p.allocated := by
  refine ⟨fun _ _ _ h => h, fun p h => ?_, fun p id h => ?_, fun p h => ?_⟩
  · have := (PoolStats.mk.inj p.rent_stats).1
    omega
  · rwa [endRental_allocated]
  · rwa [(PoolStats.mk.inj p.close_stats).1]

/-! ## Slots that are rented -/

/-- The slots that are rented. -/
def tenants (p : Pool R) : Finset Nat :=
  (Finset.range p.slots.size).filter fun i => (p.rented? i).isSome

theorem mem_tenants {i : Nat} : i ∈ p.tenants ↔ (p.rented? i).isSome := by
  rw [tenants, Finset.mem_filter, Finset.mem_range, and_iff_right_iff_imp]
  intro h
  obtain ⟨w, hw⟩ := Option.isSome_iff_exists.mp h
  obtain ⟨s, hs, -⟩ := rented?_eq_some.mp hw
  exact (Array.getElem?_eq_some_iff.mp hs).1

theorem Written.tenants (h : p.Written q) : q.tenants = p.tenants := by
  ext i
  rw [mem_tenants, mem_tenants]
  induction h with
  | refl => rfl
  | update _ j f ih =>
    rw [rented?_update, ← ih]
    split <;> simp

theorem Rents.tenants (h : p.Rents q id) : q.tenants = insert id.slot p.tenants := by
  ext i
  rw [mem_tenants, h.rented?, Finset.mem_insert, mem_tenants]
  split <;> simp [*]

theorem Rents.not_mem_tenants (h : p.Rents q id) : id.slot ∉ p.tenants := by
  simp [mem_tenants, h.free]

theorem IsCurrent.mem_tenants (h : p.IsCurrent id) (sound : p.Sound) : id.slot ∈ p.tenants := by
  obtain ⟨w, hw⟩ := h.rented?_ne_none sound
  simp [Pool.mem_tenants, hw]

theorem endRental_tenants (current : p.IsCurrent id) :
    (p.endRental id).tenants = p.tenants.erase id.slot := by
  obtain ⟨w, -, slots⟩ := endRental_slots current
  ext i
  rw [mem_tenants, Finset.mem_erase, mem_tenants, rented?, slots]
  by_cases hi : i = id.slot
  · simp [hi]
  · simp [hi, rented?]

theorem close_tenants (sound : p.close.Sound) : p.close.tenants = p.tenants := by
  ext i
  rw [mem_tenants, mem_tenants, rented?, rented?, close_slots]
  split
  · rename_i idle
    rcases hs : p.slots[i]? with _ | s
    · rfl
    · rcases hr : s.rented with _ | _
      · simp [hr]
      · -- A rented slot among the idle ones would have lost its waiter.
        have evicted : p.close.slots[i]? = some { s with waiter := none } := by
          rw [close_slots, if_pos idle, hs]
          rfl
        exact absurd rfl (sound.occupied i _ evicted hr)
  · rfl

/-! ## What the counters have to do with each other -/

/-- The counters of a pool that was stocked with `warm` waiters and never had more than `peak` slots
rented. -/
structure Counted (p : Pool R) (warm peak : Nat) : Prop where
  rented : p.rented = p.tenants.card
  rented_le : p.rented ≤ peak
  allocated : p.idle.length + p.rented ≤ p.allocated
  /-- Without a limit a waiter is only made when all there are have been rented. -/
  unlimited : p.retainLimit = none → p.allocated = max warm peak ∧
    (p.closed = false → p.idle.length + p.rented = p.allocated)
  limited : ∀ n, p.retainLimit = some n → p.idle.length ≤ max warm n

variable {warm peak : Nat}

theorem Counted.again (h : p.Counted warm peak) : p.Counted warm (max peak p.rented) := by
  rwa [Nat.max_eq_left h.rented_le]

theorem Counted.written (h : p.Counted warm peak) (written : p.Written q) :
    q.Counted warm peak := by
  have tenants := written.tenants
  obtain ⟨slots, rfl⟩ := written.eq
  exact ⟨h.rented.trans (by rw [tenants]), h.rented_le, h.allocated, h.unlimited, h.limited⟩

theorem Counted.rent (h : p.Counted warm peak) (sound : p.Sound) (isOpen : p.closed = false) :
    p.rent.1.Counted warm (max peak p.rent.1.rented) := by
  have rents := rent_rents sound
  obtain ⟨allocated, idle, rented⟩ := PoolStats.mk.inj p.rent_stats
  have count : p.rent.1.tenants.card = p.tenants.card + 1 := by
    rw [rents.tenants, Finset.card_insert_of_notMem rents.not_mem_tenants]
  have := h.allocated
  have := h.rented_le
  refine ⟨?_, le_max_right _ _, ?_, fun unlimited => ?_, fun n limit => ?_⟩
  · rw [rented, count, h.rented]
  · omega
  · -- If none is idle, all that were made are rented, so one more is a new peak.
    rw [rent_retainLimit] at unlimited
    obtain ⟨top, whole⟩ := h.unlimited unlimited
    have := whole isOpen
    exact ⟨by omega, fun _ => by omega⟩
  · rw [rent_retainLimit] at limit
    have := h.limited n limit
    omega

theorem Counted.endRental (h : p.Counted warm peak) (sound : p.Sound) (id : WaiterId) :
    (p.endRental id).Counted warm peak := by
  by_cases current : p.IsCurrent id
  · obtain ⟨allocated, idle, rented⟩ := PoolStats.mk.inj (endRental_stats current)
    have count : (p.endRental id).tenants.card = p.tenants.card - 1 := by
      rw [endRental_tenants current, Finset.card_erase_of_mem (current.mem_tenants sound)]
    have some_rented : 0 < p.rented := by
      rw [h.rented]
      exact Finset.card_pos.mpr ⟨_, current.mem_tenants sound⟩
    have := h.allocated
    have := h.rented_le
    refine ⟨?_, ?_, ?_, fun unlimited => ?_, fun n limit => ?_⟩
    · rw [rented, count, h.rented]
    · omega
    · rw [allocated, idle, rented]
      split <;> omega
    · rw [endRental_retainLimit] at unlimited
      obtain ⟨top, whole⟩ := h.unlimited unlimited
      rw [allocated, idle, rented, endRental_closed]
      refine ⟨top, fun isOpen => ?_⟩
      have := whole isOpen
      rw [if_pos (by simp [keepsReturned, isOpen, unlimited])]
      omega
    · rw [endRental_retainLimit] at limit
      have := h.limited n limit
      rw [idle]
      split
      · rename_i keeps
        simp only [keepsReturned, limit, Option.all_some, Bool.and_eq_true, decide_eq_true_eq] at keeps
        omega
      · exact this
  · rw [endRental_of_stale current]
    exact h

theorem Counted.close (h : p.Counted warm peak) (sound : p.close.Sound) :
    p.close.Counted warm peak := by
  obtain ⟨allocated, idle, rented⟩ := PoolStats.mk.inj p.close_stats
  have := h.allocated
  refine ⟨?_, ?_, ?_, fun unlimited => ?_, fun n _ => ?_⟩
  · rw [rented, close_tenants sound, h.rented]
  · rw [rented]
    exact h.rented_le
  · omega
  · rw [close_retainLimit] at unlimited
    rw [allocated]
    exact ⟨(h.unlimited unlimited).1, nofun⟩
  · omega

theorem stock_counted (blank : R) (retainLimit : Option Nat) (warm : Nat) :
    (stock { blank, retainLimit } warm).Counted warm 0 := by
  have nobody : (stock { blank, retainLimit } warm).tenants = ∅ := by
    ext i
    simp [mem_tenants, fresh_rented?]
  obtain ⟨allocated, idle, rented⟩ :=
    PoolStats.mk.inj (stock_stats ({ blank, retainLimit } : Pool R) warm)
  simp only [List.length_nil, Nat.zero_add] at allocated idle rented
  refine ⟨?_, Nat.le_of_eq rented, ?_, fun _ => ⟨?_, fun _ => ?_⟩, fun n _ => ?_⟩
  · rw [rented, nobody]
    rfl
  · omega
  · omega
  · omega
  · omega

theorem Shifts.counted {active : Prop} (h : p.Shifts active q) (sound : p.Sound)
    (isOpen : active → p.closed = false) (counted : p.Counted warm peak) :
    q.Counted warm (max peak q.rented) := by
  cases h with
  | writes written => exact (counted.written written).again
  | rents written running after =>
    have stillOpen := written.closed.trans (isOpen running)
    have next := ((counted.written written).rent (written.sound sound) stillOpen).written after
    rwa [show q.rented = _ from congrArg (·.rented) after.stats]
  | returns id written after =>
    exact (((counted.written written).endRental (written.sound sound) id).written after).again

theorem Shifts.closed {active : Prop} (h : p.Shifts active q) : q.closed = p.closed := by
  cases h with
  | writes written => exact written.closed
  | rents written _ after => exact after.closed.trans ((rent_closed _).trans written.closed)
  | returns id written after =>
    exact after.closed.trans ((endRental_closed _ id).trans written.closed)

theorem Shifts.allocated {active : Prop} (h : p.Shifts active q) (stopped : ¬ active) :
    q.allocated = p.allocated := by
  cases h with
  | writes written => exact congrArg (·.allocated) written.stats
  | rents _ running _ => exact absurd running stopped
  | returns id written after =>
    have before : _ = p.allocated := congrArg (·.allocated) written.stats
    have last : q.allocated = _ := congrArg (·.allocated) after.stats
    exact last.trans ((endRental_allocated _ id).trans before)

end Pool

namespace Sync

variable {P : Policy} {s t : Sync P} {warm peak : Nat}

/-- Its pool is counted, and closed exactly if disposal has ended. -/
structure Counted (s : Sync P) (warm peak : Nat) : Prop where
  pool : s.line.pool.Counted warm peak
  closed : s.line.pool.closed = true ↔ s.phase = .disposed

theorem Counted.isOpen (h : s.Counted warm peak) (active : s.phase = .active) :
    s.line.pool.closed = false := by
  rw [Bool.eq_false_iff, ne_eq, h.closed, active]
  nofun

theorem Shifts.counted (h : s.Shifts t) (counted : s.Counted warm peak)
    (sound : s.line.pool.Sound) (sound' : t.line.pool.Sound) :
    t.Counted warm (max peak t.line.pool.rented) := by
  cases h with
  | stays pool phase =>
    exact ⟨pool.counted sound counted.isOpen counted.pool, by rw [pool.closed, phase, counted.closed]⟩
  | ends pool closed _ ended =>
    have next := pool.counted sound counted.isOpen counted.pool
    rw [closed] at sound' ⊢
    refine ⟨?_, ?_⟩
    · rw [closed, (PoolStats.mk.inj (Pool.close_stats _)).2.2]
      exact next.close sound'
    · simp [closed, ended, Pool.close]

theorem Shifts.settled (h : s.Shifts t) (ended : s.phase = .disposed) :
    t.phase = .disposed ∧ t.line.pool.allocated = s.line.pool.allocated := by
  cases h with
  | stays pool phase => exact ⟨phase.mpr ended, pool.allocated (by rw [ended]; nofun)⟩
  | ends _ _ running _ => exact absurd ended running

end Sync

namespace Scene

variable {P : Policy} {c : Scene P} {k : Nat} {f : Future P} {id : WaiterId}

/-! ## The futures that wait -/

/-- The futures that had to queue, without those that are `gone`. -/
def remaining (c : Scene P) (gone : Nat → Bool) : Finset Nat :=
  (Finset.range c.futures.length).filter fun k =>
    (c.futures[k]?.bind (·.ticket)).isSome ∧ gone k = false

theorem mem_remaining {gone : Nat → Bool} :
    k ∈ c.remaining gone ↔ ∃ f, c.futures[k]? = some f ∧ f.ticket ≠ none ∧ gone k = false := by
  rw [remaining, Finset.mem_filter, Finset.mem_range]
  constructor
  · rintro ⟨lt, ticket, stays⟩
    obtain ⟨t, ht⟩ := Option.isSome_iff_exists.mp ticket
    obtain ⟨f, hk, hf⟩ := Option.bind_eq_some_iff.mp ht
    exact ⟨f, hk, by rw [hf]; nofun, stays⟩
  · rintro ⟨f, hk, ticket, stays⟩
    refine ⟨(List.getElem?_eq_some_iff.mp hk).1, ?_, stays⟩
    rw [hk]
    exact Option.isSome_iff_ne_none.mpr ticket

/-- The slot in which future `k` waits. -/
def slotOf (c : Scene P) (k : Nat) : Nat :=
  ((c.futures[k]?.bind (·.stage.id?)).map (·.slot)).getD 0

theorem slotOf_eq (hk : c.futures[k]? = some f) (hf : f.stage = .waiting id) :
    c.slotOf k = id.slot := by
  simp [slotOf, hk, hf, Stage.id?]

theorem Intact.card_tenants {gone : Nat → Bool} (h : c.Intact gone)
    (sound : c.sync.line.pool.Sound) :
    c.sync.line.pool.tenants.card = (c.remaining gone).card := by
  have waits : ∀ k ∈ c.remaining gone, ∃ f id, c.futures[k]? = some f ∧ f.stage = .waiting id ∧
      c.sync.line.pool.IsCurrent id := by
    intro k hk
    obtain ⟨f, hk, ticket, stays⟩ := mem_remaining.mp hk
    have waiting := h.queued k f hk ticket
    rw [if_neg (by simp [stays])] at waiting
    obtain ⟨id, hf⟩ : ∃ id, f.stage = .waiting id := by
      rcases hs : f.stage with _ | id | _ <;> rw [hs] at waiting <;> simp_all [Stage.isWaiting]
    exact ⟨f, id, hk, hf, (h.renter k f id hk hf).2⟩
  refine (Finset.card_nbij c.slotOf ?_ ?_ ?_).symm
  · intro k hk
    obtain ⟨f, id, hk, hf, current⟩ := waits k hk
    rw [slotOf_eq hk hf]
    exact current.mem_tenants sound
  · intro k hk l hl same
    obtain ⟨f, id, hk, hf, s, hs, hr, hgen⟩ := waits k hk
    obtain ⟨g, id', hl, hg, s', hs', -, hgen'⟩ := waits l hl
    rw [slotOf_eq hk hf, slotOf_eq hl hg] at same
    obtain ⟨slot, gen⟩ := id
    obtain ⟨slot', gen'⟩ := id'
    obtain rfl : slot = slot' := same
    obtain rfl : s = s' := Option.some.inj (hs.symm.trans hs')
    obtain rfl : s.generation = gen := hgen
    obtain rfl : s.generation = gen' := hgen'
    exact (h.rented slot s hs hr).unique ⟨f, hk, hf⟩ ⟨g, hl, hg⟩
  · intro i hi
    obtain ⟨w, hw⟩ := Option.isSome_iff_exists.mp (Pool.mem_tenants.mp hi)
    obtain ⟨s, hs, hr, -⟩ := Pool.rented?_eq_some.mp hw
    obtain ⟨k, ⟨f, hk, hf⟩, -⟩ := h.rented i s hs hr
    have ticket := (h.renter k f _ hk hf).1
    refine ⟨k, mem_remaining.mpr ⟨f, hk, ticket, ?_⟩, slotOf_eq hk hf⟩
    have := h.queued k f hk ticket
    rcases hg : gone k with _ | _
    · rfl
    · rw [hg, hf] at this
      cases this

/-! ## A waiter that is not kept -/

theorem sync_of_spends (hk : c.futures[k]? = some f) (hf : f.stage = .waiting id) {x : Deed P}
    (hx : c.spends k x = true) :
    ∃ abandoned, (c.after x).sync = (c.inside.leave id abandoned).sync := by
  cases x with
  | poll l waker =>
    simp only [spends, perform, Bool.and_eq_true, decide_eq_true_eq] at hx
    obtain ⟨rfl, answered⟩ := hx
    refine ⟨false, ?_⟩
    have polled : (c.inside.poll id waker).2.isSome →
        (c.inside.poll id waker).1 = c.inside.leave id false := by
      rcases hw : c.inside.sync.line.pool.get? id with _ | w
      · simp [Section.poll, hw]
      · rcases ho : w.outcome with _ | o
        · simp [Section.poll_of_pending hw ho]
        · simp [Section.poll_of_outcome hw ho]
    simp only [hk, hf, Section.pollStage] at answered
    simp only [after, perform, hk, hf, Section.pollStage, Effect.scene]
    rcases hp : c.inside.poll id waker with ⟨t, _ | r⟩ <;> rw [hp] at answered polled
    · cases answered
    · exact congrArg (·.sync) (polled rfl)
  | drop l =>
    simp only [spends, Bool.and_eq_true, decide_eq_true_eq] at hx
    obtain ⟨rfl, -⟩ := hx
    refine ⟨true, ?_⟩
    simp [after, perform, hk, hf, Effect.scene, Section.dropStage]
  | _ => cases hx

theorem dropped_of_spends (hk : c.futures[k]? = some f) (hf : f.stage = .waiting id)
    (sound : c.sync.line.pool.Sound) (current : c.sync.line.pool.IsCurrent id) {x : Deed P}
    (hx : c.spends k x = true) {n : Nat} (limit : c.sync.line.pool.retainLimit = some n)
    (full : n ≤ c.sync.line.pool.idle.length) :
    (c.after x).sync.line.pool.slots[id.slot]? = some ⟨id.generation + 1, false, none⟩ := by
  obtain ⟨w, hw⟩ := current.rented?_ne_none sound
  obtain ⟨abandoned, same⟩ := sync_of_spends hk hf hx
  have hget : c.inside.sync.line.pool.get? id = some w := Pool.get?_eq_some.mpr ⟨current, hw⟩
  obtain ⟨u, t, before, behind, -, left⟩ := Section.leave_shifts hget abandoned
  have rejected : u.sync.line.pool.keepsReturned = false :=
    before.pool.keepsReturned.trans (Pool.keepsReturned_of_full limit full)
  obtain ⟨w, gone, slots⟩ := Pool.endRental_slots (before.pool.keeps id current)
  obtain rfl := gone rejected
  have freed := slots id.slot
  rw [if_pos rfl] at freed
  have kept := behind.slots_of_unrented freed rfl
  rw [same, left, Section.endDisposal]
  split
  · show t.sync.line.pool.close.slots[id.slot]? = _
    rw [Pool.close_slots, kept]
    exact ite_self _
  · exact kept

/-! ## Runs -/

/-- The largest number of slots rented at a time in the course of a run. -/
def peak (c : Scene P) : List (Deed P) → Nat
  | [] => c.sync.stats.rented
  | x :: xs => max c.sync.stats.rented ((c.after x).peak xs)

theorem peak_concat (c : Scene P) (xs : List (Deed P)) (x : Deed P) :
    c.peak (xs ++ [x]) = max (c.peak xs) (c.run (xs ++ [x])).sync.stats.rented := by
  induction xs generalizing c with
  | nil => rfl
  | cons y xs ih =>
    rw [List.cons_append, peak, ih, peak, Nat.max_assoc]
    rfl

theorem settled_run (ended : c.sync.phase = .disposed) (xs : List (Deed P)) :
    (c.run xs).sync.phase = .disposed ∧
      (c.run xs).sync.line.pool.allocated = c.sync.line.pool.allocated := by
  induction xs generalizing c with
  | nil => exact ⟨ended, rfl⟩
  | cons x xs ih =>
    obtain ⟨ended', same⟩ := (c.shifts_after x).settled ended
    obtain ⟨last, same'⟩ := ih ended'
    exact ⟨last, same'.trans same⟩

theorem counted_of_run (id : Nat) (holding : P.State) (warm : Nat) (retainLimit : Option Nat)
    (timers : Timers) (tokens : Tokens) (xs : List (Deed P)) :
    let c₀ : Scene P := start id holding warm retainLimit timers tokens
    (c₀.run xs).sync.Counted warm (c₀.peak xs) := by
  intro c₀
  have sound (xs : List (Deed P)) : (c₀.run xs).sync.line.pool.Sound := by
    obtain ⟨d, L, shows⟩ := run_shows (P := P) id holding warm retainLimit timers tokens xs
    exact shows.rests.sound
  -- From the last deed backwards: what it does to the pool is known where the others have led.
  induction xs using List.reverseRecOn with
  | nil =>
    have stocked := Pool.stock_counted P.blank retainLimit warm
    have isOpen : c₀.sync.line.pool.closed = false := Pool.stock_closed _ warm
    have peak : c₀.peak [] = 0 := Nat.le_zero.mp stocked.rented_le
    rw [peak]
    refine ⟨stocked, ?_⟩
    show c₀.sync.line.pool.closed = true ↔ Phase.active = .disposed
    simp [isOpen]
  | append_singleton xs x ih =>
    have next := sound (xs ++ [x])
    rw [peak_concat]
    rw [run_append] at next ⊢
    exact ((c₀.run xs).shifts_after x).counted ih (sound xs) next

theorem retainLimit_of_run (id : Nat) (holding : P.State) (warm : Nat) (retainLimit : Option Nat)
    (timers : Timers) (tokens : Tokens) (xs : List (Deed P)) :
    ((start id holding warm retainLimit timers tokens).run xs).sync.line.pool.retainLimit =
      retainLimit :=
  (evolves_run _ xs).pool.keeps (Pool.retainLimit_preserved retainLimit)
    (Pool.stock_retainLimit _ warm)

/-- What the counters of a pool tell after the deeds `xs`, if it was stocked with `warm` waiters. -/
structure Accounted (c₀ : Scene P) (warm : Nat) (retainLimit : Option Nat) (xs : List (Deed P)) :
    Prop where
  /-- A slot is rented for each queued acquisition that has neither answered nor been dropped. -/
  rented : (c₀.run xs).sync.stats.rented = ((c₀.run xs).remaining (c₀.spent · xs)).card
  within : (c₀.run xs).sync.stats.idle + (c₀.run xs).sync.stats.rented ≤
    (c₀.run xs).sync.stats.allocated
  grows : ∀ ys, (c₀.run xs).sync.stats.allocated ≤ (c₀.run (xs ++ ys)).sync.stats.allocated
  highWater : retainLimit = none → (c₀.run xs).sync.stats.allocated = max warm (c₀.peak xs)
  whole : retainLimit = none → (c₀.run xs).sync.phase ≠ .disposed →
    (c₀.run xs).sync.stats.idle + (c₀.run xs).sync.stats.rented = (c₀.run xs).sync.stats.allocated
  retained : ∀ n, retainLimit = some n → (c₀.run xs).sync.stats.idle ≤ max warm n
  /-- With as many idle waiters as the limit allows, the slot that is given back loses its waiter. -/
  dropped : ∀ n, retainLimit = some n → n ≤ (c₀.run xs).sync.stats.idle →
    ∀ (k : Nat) (f : Future P) (id : WaiterId) (x : Deed P), (c₀.run xs).futures[k]? = some f →
      f.stage = .waiting id → (c₀.run xs).spends k x = true →
        (c₀.run (xs ++ [x])).sync.line.pool.slots[id.slot]? = some ⟨id.generation + 1, false, none⟩
  ended : (c₀.run xs).sync.phase = .disposed → ∀ ys, (c₀.run (xs ++ ys)).sync.stats.idle = 0 ∧
    (c₀.run (xs ++ ys)).sync.stats.allocated = (c₀.run xs).sync.stats.allocated

/-- Whatever callers do to a new synchronizer, the counters of its pool tell the truth. Without a limit
so many waiters are made as were ever rented at a time, with a limit no more are kept than it allows
or were made in advance, and none is kept or made after disposal. -/
theorem accounted_of_run (id : Nat) (holding : P.State) (warm : Nat) (retainLimit : Option Nat)
    (timers : Timers) (tokens : Tokens) (xs : List (Deed P)) :
    (start id holding warm retainLimit timers tokens).Accounted warm retainLimit xs := by
  have counted : ((start id holding warm retainLimit timers tokens).run xs).sync.Counted warm _ :=
    counted_of_run id holding warm retainLimit timers tokens xs
  have limit := retainLimit_of_run id holding warm retainLimit timers tokens xs
  obtain ⟨d, L, shows⟩ := run_shows id holding warm retainLimit timers tokens xs
  have sound := shows.rests.sound
  have intact := shows.intact (listed_of_run id holding warm retainLimit timers tokens xs)
    fun k _ hk ticket => spent_run (Nat.zero_le k) xs hk ticket
  constructor
  case rented => exact counted.pool.rented.trans (intact.card_tenants sound)
  case within => exact counted.pool.allocated
  case grows =>
    intro ys
    rw [run_append]
    exact (evolves_run _ ys).pool.keeps (Pool.allocated_preserved _) (Nat.le_refl _)
  case highWater => exact fun unlimited => (counted.pool.unlimited (limit.trans unlimited)).1
  case whole =>
    intro unlimited running
    refine (counted.pool.unlimited (limit.trans unlimited)).2 ?_
    rwa [Bool.eq_false_iff, ne_eq, counted.closed]
  case retained => exact fun n limited => counted.pool.limited n (limit.trans limited)
  case dropped =>
    intro n limited full k f id' x hk hf hx
    rw [run_append]
    exact dropped_of_spends hk hf sound (intact.renter k f id' hk hf).2 hx (limit.trans limited) full
  case ended =>
    intro ended ys
    obtain ⟨stays, same⟩ := settled_run ended ys
    rw [← run_append] at stays same
    refine ⟨?_, same⟩
    exact List.length_eq_zero_iff.mpr
      (idle_of_run id holding warm retainLimit timers tokens (xs ++ ys) stays)

end Scene

end Turnstile
