import Turnstile.Proofs.Census
import Turnstile.Proofs.Moves

/-!
# Tenancies

A pool is stocked, rented from, given back to and closed in any order, and it is handed any ids. Each
slot is rented, idle or vacant all the time, and no two rentals share one. An id is worth something as
long as its rental is on. After that it is worth nothing, until the generations of its slot have gone
all the way round.
-/

namespace Turnstile

variable {R : Type}

namespace Pool

variable {p q : Pool R} {id : WaiterId}

/-! ## Generations -/

/-- The generation of slot `i`. A slot that is yet to be made begins with this one, too. -/
def generation (p : Pool R) (i : Nat) : UInt32 := (p.slots[i]?.map (·.generation)).getD 0

theorem generation_of_modify {i : Nat} {f : Slot R → Slot R}
    (slots : q.slots = p.slots.modify i f) (hf : ∀ s, (f s).generation = s.generation) (j : Nat) :
    q.generation j = p.generation j := by
  rw [generation, generation, slots, Array.getElem?_modify]
  split
  · rw [Option.map_map]
    exact congrArg (Option.getD · 0) (Option.map_congr fun s _ => hf s)
  · rfl

theorem update_generation (p : Pool R) (i : Nat) (f : Waiter R → Waiter R) (j : Nat) :
    (p.update i f).generation j = p.generation j := by
  refine generation_of_modify (i := i)
    (f := fun s => if s.rented then { s with waiter := s.waiter.map f } else s) rfl (fun s => ?_) j
  split <;> rfl

theorem build_generation (p : Pool R) (j : Nat) : p.build.1.generation j = p.generation j := by
  unfold build
  split
  next i _ _ =>
    exact generation_of_modify (i := i)
      (f := fun s => { s with waiter := some (Waiter.idle p.blank) }) rfl (fun _ => rfl) j
  next =>
    rw [generation, generation, Array.getElem?_push]
    split
    · subst j
      simp
    · rfl

theorem stock_generation (p : Pool R) (count j : Nat) :
    (p.stock count).generation j = p.generation j := by
  induction count generalizing p with
  | zero => rfl
  | succ count ih => exact (ih _).trans (p.build_generation j)

theorem rent_generation (p : Pool R) (j : Nat) : p.rent.1.generation j = p.generation j := by
  have taken : p.takeIdle.1.generation j = p.generation j := by
    unfold takeIdle
    split
    · rfl
    · exact p.build_generation j
  refine Eq.trans ?_ taken
  exact generation_of_modify (i := p.takeIdle.2) (f := fun s => { s with rented := true }) rfl
    (fun _ => rfl) j

theorem close_generation (p : Pool R) (j : Nat) : p.close.generation j = p.generation j := by
  rw [generation, generation, close_slots]
  split
  · rw [Option.map_map]
    rfl
  · rfl

theorem IsCurrent.generation (h : p.IsCurrent id) : p.generation id.slot = id.generation := by
  obtain ⟨s, hs, -, hg⟩ := h
  simp [Pool.generation, hs, hg]

theorem endRental_generation (current : p.IsCurrent id) (j : Nat) :
    (p.endRental id).generation j = p.generation j + if id.slot = j then 1 else 0 := by
  obtain ⟨w, -, slots⟩ := endRental_slots current
  by_cases hj : id.slot = j
  · subst hj
    simp [Pool.generation, slots, ← current.generation]
  · simp [Pool.generation, slots, hj, Ne.symm hj]

/-! ## Current ids -/

theorem isCurrent_iff (sound : p.Sound) :
    p.IsCurrent id ↔ (p.rented? id.slot).isSome ∧ p.generation id.slot = id.generation := by
  constructor
  · intro h
    obtain ⟨w, hw⟩ := h.rented?_ne_none sound
    exact ⟨by rw [hw]; rfl, h.generation⟩
  · rintro ⟨h, hg⟩
    obtain ⟨w, hw⟩ := Option.isSome_iff_exists.mp h
    obtain ⟨s, hs, hr, -⟩ := rented?_eq_some.mp hw
    exact ⟨s, hs, hr, by simpa [Pool.generation, hs] using hg⟩

theorem IsCurrent.unique {id' : WaiterId} (h : p.IsCurrent id) (h' : p.IsCurrent id')
    (same : id.slot = id'.slot) : id = id' := by
  have := h.generation.symm.trans ((congrArg p.generation same).trans h'.generation)
  cases id
  cases id'
  simp_all

theorem isSome_get?_iff (sound : p.Sound) : (p.get? id).isSome ↔ p.IsCurrent id := by
  rw [Option.isSome_iff_exists]
  constructor
  · rintro ⟨w, hw⟩
    exact (get?_eq_some.mp hw).1
  · intro h
    obtain ⟨w, hw⟩ := h.rented?_ne_none sound
    exact ⟨w, get?_eq_some.mpr ⟨h, hw⟩⟩

theorem endRental_ne_self_iff : p.endRental id ≠ p ↔ p.IsCurrent id := by
  constructor
  · intro changes
    by_contra stale
    exact changes (endRental_of_stale stale)
  · intro current same
    obtain ⟨w, -, slots⟩ := endRental_slots current
    obtain ⟨s, hs, hr, -⟩ := current
    have freed := slots id.slot
    rw [if_pos rfl, same, hs] at freed
    simp [Option.some.inj freed] at hr

/-- What is done to a pool, in any order. -/
inductive Act (R : Type) where
  | stock (count : Nat)
  | rent
  /-- Whatever the id names. -/
  | endRental (id : WaiterId)
  | close
  /-- The renter of a slot changes the waiter. -/
  | change (i : Nat) (f : Waiter R → Waiter R)

end Pool

/-- A pool with the ids it has given out. -/
structure Tenancies (R : Type) where
  pool : Pool R
  /-- Those whose rentals are on. -/
  alive : List WaiterId := []
  /-- Those that ended their rentals, the last one first. -/
  ended : List WaiterId := []

namespace Tenancies

variable {t : Tenancies R} {blank : R} {id : WaiterId}

/-- A rental has ended when an id was given back that the pool still knew. -/
def act (t : Tenancies R) : Pool.Act R → Tenancies R
  | .stock count => { t with pool := t.pool.stock count }
  | .rent => { t with pool := t.pool.rent.1, alive := t.pool.rent.2 :: t.alive }
  | .endRental id =>
    if (t.pool.get? id).isSome then
      ⟨t.pool.endRental id, t.alive.erase id, id :: t.ended⟩
    else { t with pool := t.pool.endRental id }
  | .close => { t with pool := t.pool.close }
  | .change i f => { t with pool := t.pool.update i f }

/-- A waiter that is given back is unlinked and disarmed. -/
def Allows (t : Tenancies R) : Pool.Act R → Prop
  | .endRental id => ∀ w, t.pool.get? id = some w → w.linked = false ∧ w.isDisarmed = true
  | _ => True

/-- What allowed acts make of it. -/
inductive Reaches (t₀ : Tenancies R) : Tenancies R → Prop
  | init : Reaches t₀ t₀
  | step {t : Tenancies R} {x : Pool.Act R} (run : Reaches t₀ t) (allowed : t.Allows x) :
    Reaches t₀ (t.act x)

/-- How often slot `i` has been given back. -/
def returns (t : Tenancies R) (i : Nat) : Nat := t.ended.countP (·.slot = i)

/-- The slot of `id` is rented, and it has been given back as often as the generation says, but for
whole rounds of the generations. -/
def Names (t : Tenancies R) (id : WaiterId) : Prop :=
  ∃ s, t.pool.slots[id.slot]? = some s ∧ s.rented = true ∧
    id.generation.toNat = t.returns id.slot % UInt32.size

/-- Each id has the generation that its slot had got by the returns before. -/
def Dated : List WaiterId → Prop
  | [] => True
  | id :: earlier =>
    id.generation = UInt32.ofNat (earlier.countP (·.slot = id.slot)) ∧ Dated earlier

theorem Dated.generation {later earlier : List WaiterId} (h : Dated (later ++ id :: earlier)) :
    id.generation = UInt32.ofNat (earlier.countP (·.slot = id.slot)) := by
  induction later with
  | nil => exact h.1
  | cons _ _ ih => exact ih h.2

/-! ## One act -/

/-- The pool is in order and knows the ids that it has given out. -/
structure Orderly (t : Tenancies R) (blank : R) : Prop where
  sound : t.pool.Sound
  listed : t.pool.Listed
  blank : t.pool.blank = blank
  current : ∀ id, id ∈ t.alive ↔ t.pool.IsCurrent id
  apart : (t.alive.map (·.slot)).Nodup
  rented : t.pool.rented = t.alive.length
  generation : ∀ i, t.pool.generation i = UInt32.ofNat (t.returns i)
  dated : Dated t.ended

theorem Orderly.stay (h : t.Orderly blank) {q : Pool R} (sound : q.Sound) (listed : q.Listed)
    (blank' : q.blank = t.pool.blank) (rented : q.rented = t.pool.rented)
    (rented? : ∀ i, (q.rented? i).isSome = (t.pool.rented? i).isSome)
    (generation : ∀ i, q.generation i = t.pool.generation i) :
    Orderly { t with pool := q } blank where
  sound := sound
  listed := listed
  blank := blank'.trans h.blank
  current id := by
    rw [h.current, Pool.isCurrent_iff h.sound, Pool.isCurrent_iff sound, rented?, generation]
  apart := h.apart
  rented := rented.trans h.rented
  generation i := (generation i).trans (h.generation i)
  dated := h.dated

theorem Orderly.rent (h : t.Orderly blank) : (t.act .rent).Orderly blank where
  sound := (Pool.rent_rents h.sound).sound
  listed := Pool.rent_listed h.listed
  blank := (Pool.rent_rents h.sound).blank.trans h.blank
  current id := by
    have rents := Pool.rent_rents h.sound
    simp only [act, List.mem_cons, h.current]
    constructor
    · rintro (rfl | current)
      · exact rents.current
      · exact rents.keeps id current
    · intro current
      by_cases same : id.slot = t.pool.rent.2.slot
      · exact .inl (current.unique rents.current same)
      · right
        rw [Pool.isCurrent_iff rents.sound, rents.rented?, if_neg same, Pool.rent_generation] at current
        exact (Pool.isCurrent_iff h.sound).mpr current
  apart := by
    refine List.nodup_cons.mpr ⟨fun shared => ?_, h.apart⟩
    obtain ⟨id, alive, same⟩ := List.mem_map.mp shared
    obtain ⟨w, hw⟩ := ((h.current id).mp alive).rented?_ne_none h.sound
    rw [same, (Pool.rent_rents h.sound).free] at hw
    cases hw
  rented := by
    show t.pool.rent.1.stats.rented = t.alive.length + 1
    rw [Pool.rent_stats, h.rented]
  generation i := (t.pool.rent_generation i).trans (h.generation i)
  dated := h.dated

theorem Orderly.endRental (h : t.Orderly blank) {w : Waiter R} (hw : t.pool.get? id = some w)
    (unlinked : w.linked = false) (disarmed : w.isDisarmed = true) :
    (⟨t.pool.endRental id, t.alive.erase id, id :: t.ended⟩ : Tenancies R).Orderly blank := by
  have current := (Pool.get?_eq_some.mp hw).1
  have alive := (h.current id).mpr current
  have ends := Pool.endRental_ends h.sound hw (Waiter.cleared_eq_idle unlinked disarmed _)
  refine ⟨ends.sound, Pool.endRental_listed h.listed id, ends.blank.trans h.blank, fun id' => ?_, ?_,
    ?_, fun i => ?_, ?_, h.dated⟩
  · rw [(List.Nodup.of_map _ h.apart).mem_erase_iff, h.current]
    constructor
    · rintro ⟨other, stays⟩
      exact ends.keeps id' (fun same => other (stays.unique current same)) stays
    · intro stays
      have apart : id'.slot ≠ id.slot := fun same => by
        obtain ⟨u, hu⟩ := stays.rented?_ne_none ends.sound
        rw [ends.rented?, if_pos same] at hu
        cases hu
      rw [Pool.isCurrent_iff ends.sound, ends.rented?, if_neg apart,
        Pool.endRental_generation current, if_neg apart.symm, UInt32.add_zero] at stays
      exact ⟨fun same => apart (by rw [same]), (Pool.isCurrent_iff h.sound).mpr stays⟩
  · exact h.apart.sublist (List.erase_sublist.map _)
  · show (t.pool.endRental id).stats.rented = _
    rw [Pool.endRental_stats current, h.rented, List.length_erase_of_mem alive]
  · rw [Pool.endRental_generation current, h.generation, returns, returns, List.countP_cons]
    by_cases hi : id.slot = i <;> simp [hi]
  · exact current.generation.symm.trans (h.generation id.slot)

theorem Orderly.act (h : t.Orderly blank) {x : Pool.Act R} (allowed : t.Allows x) :
    (t.act x).Orderly blank := by
  cases x with
  | stock count =>
    obtain ⟨_, _, _, -, same⟩ := t.pool.stock_eq count
    exact h.stay (Pool.stock_sound h.sound count) (Pool.stock_listed h.listed count)
      (by rw [same]) (by rw [same]) (fun i => by rw [Pool.stock_rented? h.sound])
      (t.pool.stock_generation count)
  | rent => exact h.rent
  | endRental id =>
    by_cases current : t.pool.IsCurrent id
    · have known := (Pool.isSome_get?_iff h.sound).mpr current
      obtain ⟨w, hw⟩ := Option.isSome_iff_exists.mp known
      obtain ⟨unlinked, disarmed⟩ := allowed w hw
      rw [Tenancies.act, if_pos known]
      exact h.endRental hw unlinked disarmed
    · rw [Tenancies.act, if_neg fun known => current ((Pool.isSome_get?_iff h.sound).mp known),
        Pool.endRental_of_stale current]
      exact h
  | close =>
    have alike := Pool.close_alike h.sound
    exact h.stay (Pool.close_sound h.sound) (Pool.close_listed h.listed) alike.blank
      (congrArg (·.rented) t.pool.close_stats) (fun i => by rw [alike.rented?])
      t.pool.close_generation
  | change i f =>
    refine h.stay (Pool.update_sound h.sound i f) (Pool.update_listed h.listed i f) rfl rfl
      (fun j => ?_) (t.pool.update_generation i f)
    rw [Pool.rented?_update]
    split <;> simp

/-! ## Runs -/

theorem new_orderly (blank : R) (retainLimit : Option Nat) :
    (⟨{ blank, retainLimit }, [], []⟩ : Tenancies R).Orderly blank where
  sound := Pool.fresh_sound blank retainLimit
  listed i s hs := by simp at hs
  blank := rfl
  current id := by simp [Pool.IsCurrent]
  apart := List.nodup_nil
  rented := rfl
  generation i := by simp [Pool.generation, returns]
  dated := trivial

theorem Reaches.orderly {retainLimit : Option Nat}
    (run : Reaches ⟨{ blank, retainLimit }, [], []⟩ t) : t.Orderly blank := by
  induction run with
  | init => exact new_orderly blank retainLimit
  | step _ allowed ih => exact ih.act allowed

theorem Orderly.partition (h : t.Orderly blank) :
    (t.alive.map (·.slot) ++ (t.pool.idle ++ t.pool.vacant)).Perm
      (List.range t.pool.slots.size) := by
  have disjoint : ∀ i ∈ t.alive.map (·.slot), i ∉ t.pool.idle ++ t.pool.vacant := by
    intro i hi
    obtain ⟨id, alive, rfl⟩ := List.mem_map.mp hi
    obtain ⟨s, hs, hr, -⟩ := (h.current id).mp alive
    exact Pool.unlisted_of_rented h.sound hs hr
  have nodup := h.apart.append h.sound.nodup fun i hi hi' => disjoint i hi hi'
  refine (List.perm_ext_iff_of_nodup nodup List.nodup_range).mpr fun i => ?_
  rw [List.mem_append, List.mem_range]
  constructor
  · rintro (hi | hi)
    · obtain ⟨id, alive, rfl⟩ := List.mem_map.mp hi
      obtain ⟨s, hs, -⟩ := (h.current id).mp alive
      exact (Array.getElem?_eq_some_iff.mp hs).1
    · exact Pool.lt_size_of_mem h.sound hi
  · intro hi
    have hs := Array.getElem?_eq_getElem hi
    rcases hr : t.pool.slots[i].rented with _ | _
    · exact .inr (h.listed i _ hs hr)
    · exact .inl (List.mem_map.mpr ⟨⟨i, _⟩, (h.current _).mpr ⟨_, hs, hr, rfl⟩, rfl⟩)

theorem Orderly.names_iff (h : t.Orderly blank) : t.Names id ↔ t.pool.IsCurrent id := by
  have round : id.generation.toNat = t.returns id.slot % UInt32.size ↔
      t.pool.generation id.slot = id.generation := by
    rw [h.generation, ← UInt32.toNat_inj, UInt32.toNat_ofNat', eq_comm]
  constructor
  · rintro ⟨s, hs, hr, hg⟩
    exact ⟨s, hs, hr, by simpa [Pool.generation, hs] using round.mp hg⟩
  · intro current
    have hg := round.mpr current.generation
    obtain ⟨s, hs, hr, -⟩ := current
    exact ⟨s, hs, hr, hg⟩

/-- Fewer returns than a round has do not bring a generation back. -/
theorem Orderly.stale (h : t.Orderly blank) {later earlier : List WaiterId}
    (ended : t.ended = later ++ id :: earlier)
    (few : later.countP (·.slot = id.slot) < UInt32.size - 1) : ¬t.pool.IsCurrent id := by
  intro current
  obtain ⟨-, -, -, hg⟩ := h.names_iff.mpr current
  have dated := (ended ▸ h.dated).generation
  rw [dated, UInt32.toNat_ofNat', returns, ended, List.countP_append, List.countP_cons] at hg
  simp only [decide_true, if_true, UInt32.size] at hg few
  omega

/-- What tells that every slot has its place and every id its worth. -/
structure Settled (t : Tenancies R) (blank : R) : Prop where
  /-- Each slot has one place, and no two rentals share a slot. -/
  partition : (t.alive.map (·.slot) ++ (t.pool.idle ++ t.pool.vacant)).Perm
    (List.range t.pool.slots.size)
  rented : ∀ id ∈ t.alive, ∃ w, t.pool.slots[id.slot]? = some ⟨id.generation, true, some w⟩
  idle : ∀ i ∈ t.pool.idle, ∃ g, t.pool.slots[i]? = some ⟨g, false, some (Waiter.idle blank)⟩
  vacant : ∀ i ∈ t.pool.vacant, ∃ g, t.pool.slots[i]? = some ⟨g, false, none⟩
  stats : t.pool.stats = ⟨t.pool.allocated, t.pool.idle.length, t.alive.length⟩
  found : ∀ id, (t.pool.get? id).isSome ↔ t.Names id
  ends : ∀ id, t.pool.endRental id ≠ t.pool ↔ t.Names id
  /-- An id that ended its rental is worth nothing, unless its slot was given back a whole round of
  generations since. -/
  inert : ∀ later id earlier, t.ended = later ++ id :: earlier →
    later.countP (·.slot = id.slot) < UInt32.size - 1 →
      t.pool.get? id = none ∧ t.pool.endRental id = t.pool

/-- Whatever has been done to a new pool, each slot is rented, idle or vacant, and only a current id
finds a waiter or ends a rental. -/
theorem settled_of_reaches {retainLimit : Option Nat}
    (run : Reaches ⟨{ blank, retainLimit }, [], []⟩ t) : t.Settled blank := by
  have orderly := run.orderly
  constructor
  case partition => exact orderly.partition
  case rented =>
    intro id alive
    obtain ⟨⟨g, r, w⟩, hs, rfl, rfl⟩ := (orderly.current id).mp alive
    obtain ⟨w, rfl⟩ := Option.ne_none_iff_exists'.mp (orderly.sound.occupied _ _ hs rfl)
    exact ⟨w, hs⟩
  case idle => exact orderly.blank ▸ orderly.sound.stocked
  case vacant => exact orderly.sound.emptied
  case stats => rw [Pool.stats, orderly.rented]
  case found => exact fun id => (Pool.isSome_get?_iff orderly.sound).trans orderly.names_iff.symm
  case ends => exact fun id => Pool.endRental_ne_self_iff.trans orderly.names_iff.symm
  case inert =>
    intro later id earlier ended few
    have stale := orderly.stale ended few
    refine ⟨?_, Pool.endRental_of_stale stale⟩
    rw [← Option.not_isSome_iff_eq_none, Pool.isSome_get?_iff orderly.sound]
    exact stale

/-- A slot is rented again after its renter gave it back, which then does so once more. -/
theorem settled_of_reaches_again :
    ∃ t : Tenancies Nat, Reaches ⟨{ blank := 0, retainLimit := some 1 }, [], []⟩ t ∧
      t.alive = [⟨0, 1⟩] ∧ t.pool.vacant = [1] ∧ t.ended = [⟨1, 0⟩, ⟨0, 0⟩] ∧ t.Settled 0 ∧
        t.pool.get? ⟨0, 0⟩ = none ∧ t.pool.endRental ⟨0, 0⟩ = t.pool := by
  have rented : Reaches (⟨{ blank := 0, retainLimit := some 1 }, [], []⟩ : Tenancies Nat) _ :=
    (Reaches.init.step (x := .rent) trivial).step (x := .rent) trivial
  have written := rented.step (x := .change 0 fun w => { w with request := 7 }) trivial
  have first := written.step (x := .endRental ⟨0, 0⟩) fun _ hw => by cases hw; exact ⟨rfl, rfl⟩
  have second := first.step (x := .endRental ⟨1, 0⟩) fun _ hw => by cases hw; exact ⟨rfl, rfl⟩
  have again := second.step (x := .rent) trivial
  have last := again.step (x := .endRental ⟨0, 0⟩) fun _ hw => nomatch hw
  have settled := settled_of_reaches last
  obtain ⟨unknown, ignored⟩ := settled.inert [⟨1, 0⟩] ⟨0, 0⟩ [] rfl (by decide)
  exact ⟨_, last, rfl, rfl, rfl, settled, unknown, ignored⟩

end Tenancies

end Turnstile
