import Turnstile.Proofs.Lookups
import Turnstile.Proofs.Slots

/-!
# The line under any moves

Waiters are linked and unlinked in any order, while the pool rents slots and takes them back. The
line is a list of slots all the time: each move does to the links what it does to the list, answers
what the list answers, and leaves everything else in the pool alone.
-/

namespace Turnstile

variable {R : Type}

namespace Pool

/-- The pool but for the links in its waiters. -/
def plain (p : Pool R) : Pool R :=
  { p with slots := p.slots.map fun s => { s with waiter := s.waiter.map Line.unlinked } }

theorem update_plain (p : Pool R) (i : Nat) {f : Waiter R → Waiter R}
    (hf : ∀ w, Line.unlinked (f w) = Line.unlinked w) : (p.update i f).plain = p.plain := by
  unfold plain update
  congr 1
  refine Array.ext_getElem? fun j => ?_
  simp only [Array.getElem?_map, Array.getElem?_modify]
  split
  · rcases p.slots[j]? with _ | ⟨g, _ | _, _ | w⟩ <;> simp [hf]
  · rfl

end Pool

theorem Waiter.cleared_eq_idle {w : Waiter R} (unlinked : w.linked = false)
    (disarmed : w.isDisarmed = true) (blank : R) : w.cleared blank = Waiter.idle blank := by
  simp only [Waiter.isDisarmed, Bool.and_eq_true, Option.isNone_iff_eq_none] at disarmed
  simp [Waiter.cleared, Waiter.idle, unlinked, disarmed]

/-- A move of the line, or of its pool meanwhile. -/
inductive Move (R : Type) where
  | enqueue (i : Nat)
  | dequeue
  | erase (i : Nat)
  | count (p : Waiter R → Bool)
  | rent
  | endRental (id : WaiterId)
  | close
  /-- The waiter in a slot changes. -/
  | change (i : Nat) (f : Waiter R → Waiter R)

/-- What a move answers. -/
inductive Move.Reply where
  | nothing
  | slot (i : Option Nat)
  | flag (b : Bool)
  | number (n : Nat)

/-- It concerns the line and not only its pool. -/
def Move.isOfLine : Move R → Bool
  | enqueue _ | dequeue | erase _ | count _ => true
  | _ => false

namespace Line

variable {l : Line R} {L : List Nat} {i : Nat}

def make (l : Line R) : Move R → Line R × Move.Reply
  | .enqueue i => (l.enqueue i, .nothing)
  | .dequeue => (l.dequeue.1, .slot l.dequeue.2)
  | .erase i => ((l.erase i).1, .flag (l.erase i).2)
  | .count p => (l, .number (l.countP p))
  | .rent => ({ l with pool := l.pool.rent.1 }, .nothing)
  | .endRental id => ({ l with pool := l.pool.endRental id }, .nothing)
  | .close => ({ l with pool := l.pool.close }, .nothing)
  | .change i f => (l.update i f, .nothing)

/-- The same move on a list of slots. -/
def makeOn (l : Line R) (L : List Nat) : Move R → List Nat × Move.Reply
  | .enqueue i => (L ++ [i], .nothing)
  | .dequeue => (L.tail, .slot L.head?)
  | .erase i => (L.erase i, .flag (decide (i ∈ L)))
  | .count p => (L, .number (L.countP fun i => (l.waiter? i).any p))
  | _ => (L, .nothing)

/-- Only a rented waiter that is not linked is put in line, only one that is unlinked and disarmed is
given back, and nobody else writes links. -/
def Allows (l : Line R) : Move R → Prop
  | .enqueue i => ∃ w, l.waiter? i = some w ∧ w.linked = false
  | .endRental id => ∀ w, l.pool.get? id = some w → w.linked = false ∧ w.isDisarmed = true
  | .change _ f => ∀ w, (f w).next = w.next ∧ (f w).linked = w.linked
  | _ => True

/-- Counts from `cursor` on as long as there are waiters, but not more than `fuel`. -/
def countFrom? (l : Line R) (p : Waiter R → Bool) : Nat → Option Nat → Nat → Option Nat
  | _, none, n => some n
  | 0, some _, _ => none
  | fuel + 1, some i, n =>
    match l.waiter? i with
    | none => some n
    | some w => countFrom? l p fuel w.next (if p w then n + 1 else n)

/-- A move that gives nothing where a lookup finds nobody or a loop goes on for longer than the line
is. -/
def make? (l : Line R) : Move R → Option (Line R × Move.Reply)
  | .enqueue i => (l.enqueue? i).map (·, .nothing)
  | .dequeue => l.dequeue?.map fun r => (r.1, .slot r.2)
  | .erase i => (l.erase? i).map fun r => (r.1, .flag r.2)
  | .count p => (l.countFrom? p l.length l.head 0).map fun n => (l, .number n)
  | m => some (l.make m)

/-- The lines that allowed moves make of a new one, with the lists that the same moves make. -/
inductive Reaches (l₀ : Line R) : Line R → List Nat → Prop
  | init : Reaches l₀ l₀ []
  | step {l : Line R} {L : List Nat} {m : Move R} (run : Reaches l₀ l L) (allowed : l.Allows m) :
    Reaches l₀ (l.make m).1 (l.makeOn L m).1

/-! ## Loops -/

theorem eraseFrom_absent {B : List Nat} (hi : i ∉ B) {fuel : Nat} {before cursor : Option Nat}
    (h : Segment (fun i => (l.waiter? i).map (·.next)) cursor B none) :
    l.eraseFrom i fuel before cursor = (l, false) := by
  induction B generalizing fuel before cursor with
  | nil =>
    obtain rfl : cursor = none := h
    cases fuel <;> rfl
  | cons c B ih =>
    obtain ⟨rfl, n, hn, h⟩ := h
    obtain ⟨w, hw, rfl⟩ := Option.map_eq_some_iff.mp hn
    cases fuel with
    | zero => rfl
    | succ fuel =>
      have hci : c ≠ i := fun e => hi (e ▸ List.mem_cons_self)
      simp only [eraseFrom, hw, if_neg hci]
      exact ih (fun hm => hi (List.mem_cons_of_mem _ hm)) h

theorem Holds.erase_absent (h : l.Holds L) (hi : i ∉ L) : l.erase i = (l, false) :=
  eraseFrom_absent hi (Chained.chain h)

theorem countFrom?_eq {B : List Nat} {fuel : Nat} (hf : B.length ≤ fuel) {cursor : Option Nat}
    (h : Segment (fun i => (l.waiter? i).map (·.next)) cursor B none) (p : Waiter R → Bool)
    (n : Nat) :
    l.countFrom? p fuel cursor n = some (n + B.countP fun i => (l.waiter? i).any p) := by
  induction B generalizing fuel cursor n with
  | nil =>
    obtain rfl : cursor = none := h
    cases fuel <;> rfl
  | cons c B ih =>
    obtain ⟨rfl, m, hm, h⟩ := h
    obtain ⟨w, hw, rfl⟩ := Option.map_eq_some_iff.mp hm
    obtain ⟨fuel, rfl⟩ : ∃ k, fuel = k + 1 := ⟨fuel - 1, by simp at hf; omega⟩
    simp only [countFrom?, hw]
    rw [ih (by simpa using hf) h, List.countP_cons, hw, Option.any_some]
    rcases p w with _ | _
    · simp
    · simp
      omega

theorem Holds.countP_eq (h : l.Holds L) (p : Waiter R → Bool) :
    l.countP p = L.countP fun i => (l.waiter? i).any p := by
  rw [countP, h.toList_eq]

/-! ## Links and nothing else -/

theorem enqueue_plain (l : Line R) (i : Nat) : (l.enqueue i).pool.plain = l.pool.plain := by
  unfold enqueue
  split
  · refine (Pool.update_plain _ _ ?_).trans (Pool.update_plain _ _ ?_) <;> exact fun _ => rfl
  · exact Pool.update_plain _ _ fun _ => rfl

theorem splice_plain (l : Line R) (i : Nat) (before next : Option Nat) :
    (l.splice i before next).pool.plain = l.pool.plain := by
  unfold splice
  rcases before with _ | b
  · exact Pool.update_plain _ _ fun _ => rfl
  · refine (Pool.update_plain _ _ ?_).trans (Pool.update_plain _ _ ?_) <;> exact fun _ => rfl

/-! ## One move -/

/-- The line is the list `L`, in a pool where everything is in its place. -/
structure Orderly (l : Line R) (L : List Nat) : Prop where
  holds : l.Holds L
  sound : l.pool.Sound
  listed : l.pool.Listed

theorem Orderly.not_mem (h : l.Orderly L) {w : Waiter R} (hw : l.waiter? i = some w)
    (unlinked : w.linked = false) : i ∉ L := by
  rw [← Chained.linked h.holds i w hw, unlinked]
  simp

theorem Orderly.enqueue (h : l.Orderly L) {w : Waiter R} (hw : l.waiter? i = some w)
    (unlinked : w.linked = false) : (l.enqueue i).Orderly (L ++ [i]) :=
  ⟨h.holds.enqueue hw (h.not_mem hw unlinked), (l.enqueue_turns i).sound h.sound,
    (l.enqueue_written i).leads.keeps Pool.listed_preserved h.listed⟩

theorem Orderly.dequeue (h : l.Orderly L) : l.dequeue.1.Orderly L.tail := by
  cases L with
  | nil =>
    rw [dequeue_nil h.holds]
    exact h
  | cons i L =>
    obtain ⟨holds, turns⟩ := h.holds.dequeue
    exact ⟨holds, turns.sound h.sound, l.dequeue_written.leads.keeps Pool.listed_preserved h.listed⟩

theorem Orderly.erase (h : l.Orderly L) (i : Nat) : (l.erase i).1.Orderly (L.erase i) := by
  by_cases hi : i ∈ L
  · obtain ⟨holds, turns⟩ := h.holds.erase hi
    exact ⟨holds, turns.sound h.sound,
      (l.eraseFrom_written i _ _ _).leads.keeps Pool.listed_preserved h.listed⟩
  · rw [h.holds.erase_absent hi, List.erase_of_not_mem hi]
    exact h

theorem Orderly.endRental (h : l.Orderly L) {id : WaiterId}
    (free : ∀ w, l.pool.get? id = some w → w.linked = false ∧ w.isDisarmed = true) :
    Orderly { l with pool := l.pool.endRental id } L := by
  by_cases current : l.pool.IsCurrent id
  · obtain ⟨w, hw⟩ := current.rented?_ne_none h.sound
    have hget : l.pool.get? id = some w := Pool.get?_eq_some.mpr ⟨current, hw⟩
    obtain ⟨unlinked, disarmed⟩ := free w hget
    have ends := Pool.endRental_ends h.sound hget (Waiter.cleared_eq_idle unlinked disarmed _)
    exact ⟨h.holds.ends ends (h.not_mem hw unlinked), ends.sound,
      Pool.endRental_listed h.listed id⟩
  · rw [Pool.endRental_of_stale current]
    exact h

theorem Orderly.make (h : l.Orderly L) {m : Move R} (allowed : l.Allows m) :
    (l.make m).1.Orderly (l.makeOn L m).1 := by
  cases m with
  | enqueue i =>
    obtain ⟨w, hw, unlinked⟩ := allowed
    exact h.enqueue hw unlinked
  | dequeue => exact h.dequeue
  | erase i => exact h.erase i
  | count p => exact h
  | rent =>
    have rents := Pool.rent_rents h.sound
    exact ⟨(h.holds.rent rents).2, rents.sound, Pool.rent_listed h.listed⟩
  | endRental id => exact h.endRental allowed
  | close =>
    exact ⟨h.holds.alike (Pool.close_alike h.sound), Pool.close_sound h.sound,
      Pool.close_listed h.listed⟩
  | change i f =>
    exact ⟨h.holds.update i (fun w => (allowed w).1) fun w => (allowed w).2,
      Pool.update_sound h.sound i f, Pool.update_listed h.listed i f⟩

theorem Orderly.reply (h : l.Orderly L) (m : Move R) : (l.make m).2 = (l.makeOn L m).2 := by
  cases m with
  | dequeue =>
    cases L with
    | nil => rw [Line.make, dequeue_nil h.holds]; rfl
    | cons i L => rw [Line.make, dequeue_cons h.holds]; rfl
  | erase i =>
    by_cases hi : i ∈ L
    · obtain ⟨A, B, rfl⟩ := List.append_of_mem hi
      rw [Line.make, erase_eq h.holds, makeOn, decide_eq_true hi]
    · rw [Line.make, h.holds.erase_absent hi, makeOn, decide_eq_false hi]
  | count p => exact congrArg _ (h.holds.countP_eq p)
  | _ => rfl

theorem Orderly.make?_eq (h : l.Orderly L) {m : Move R} (allowed : l.Allows m) :
    l.make? m = some (l.make m) := by
  cases m with
  | enqueue i =>
    obtain ⟨w, hw, -⟩ := allowed
    rw [make?, h.holds.enqueue? hw]
    rfl
  | dequeue => rw [make?, h.holds.dequeue?]; rfl
  | erase i => rw [make?, h.holds.erase? i]; rfl
  | count p =>
    have counted := countFrom?_eq (Nat.le_of_eq (Chained.length h.holds).symm)
      (Chained.chain h.holds) p 0
    rw [make?, counted, Nat.zero_add, ← h.holds.countP_eq]
    rfl
  | _ => rfl

theorem Orderly.make_plain (h : l.Orderly L) {m : Move R} (ofLine : m.isOfLine = true) :
    (l.make m).1.pool.plain = l.pool.plain := by
  cases m with
  | enqueue i => exact l.enqueue_plain i
  | dequeue =>
    cases L with
    | nil => rw [Line.make, dequeue_nil h.holds]
    | cons i L =>
      rw [Line.make, dequeue_cons h.holds]
      exact l.splice_plain i _ _
  | erase i =>
    by_cases hi : i ∈ L
    · obtain ⟨A, B, rfl⟩ := List.append_of_mem hi
      rw [Line.make, erase_eq h.holds]
      exact l.splice_plain i _ _
    · rw [Line.make, h.holds.erase_absent hi]
  | count p => rfl
  | _ => cases ofLine

/-! ## Runs -/

/-- What tells that the line is the list `L`. -/
structure Lists (l : Line R) (L : List Nat) : Prop where
  /-- The links lead from the head through exactly these slots, each of them once, and end there. -/
  chain : Segment (fun i => (l.waiter? i).map (·.next)) l.head L none
  nodup : L.Nodup
  toList : l.toList = L
  head : l.head = L.head?
  tail : l.tail = L.getLast?
  length : l.length = L.length
  isEmpty : l.isEmpty = L.isEmpty
  /-- Rented or not, a waiter says of itself whether it stands there. -/
  linked : ∀ (i : Nat) (s : Slot R) w, l.pool.slots[i]? = some s → s.waiter = some w →
    (w.linked = true ↔ i ∈ L)
  alone : ∀ (i : Nat) (s : Slot R) w, l.pool.slots[i]? = some s → s.waiter = some w → i ∉ L →
    w.next = none

theorem Orderly.lists (h : l.Orderly L) : l.Lists L where
  chain := Chained.chain h.holds
  nodup := Chained.nodup h.holds
  toList := h.holds.toList_eq
  head := Chained.head_eq h.holds
  tail := Chained.tail h.holds
  length := Chained.length h.holds
  isEmpty := h.holds.isEmpty_eq
  linked i s w hs hw := by
    rcases h.sound.rented_or_idle h.listed hs hw with hw | ⟨rfl, vacant⟩
    · exact Chained.linked h.holds i w hw
    · have hi : i ∉ L := fun hi => by
        obtain ⟨u, hu⟩ := Chained.waiter_of_mem h.holds hi
        cases vacant.symm.trans hu
      simp [Waiter.idle, hi]
  alone i s w hs hw hi := by
    rcases h.sound.rented_or_idle h.listed hs hw with hw | ⟨rfl, -⟩
    · exact Chained.alone h.holds i w hw hi
    · rfl

/-- A new line over a new pool. -/
def new (blank : R) (retainLimit : Option Nat) (warm : Nat) : Line R :=
  { pool := Pool.stock { blank, retainLimit } warm }

theorem new_orderly (blank : R) (retainLimit : Option Nat) (warm : Nat) :
    (new blank retainLimit warm).Orderly [] :=
  ⟨fresh_holds blank retainLimit warm, Pool.stock_sound (Pool.fresh_sound blank retainLimit) warm,
    Pool.stock_listed (fun i s hs => by simp at hs) warm⟩

theorem Reaches.orderly {blank : R} {retainLimit : Option Nat} {warm : Nat}
    (run : Reaches (new blank retainLimit warm) l L) : l.Orderly L := by
  induction run with
  | init => exact new_orderly blank retainLimit warm
  | step _ allowed ih => exact ih.make allowed

/-- Whatever moves have been made, the line is the list that the same moves make, and the next move
answers what the list answers. No lookup fails and every loop ends. A move of the line writes links
and nothing else. -/
theorem lists_of_reaches {blank : R} {retainLimit : Option Nat} {warm : Nat}
    (run : Reaches (new blank retainLimit warm) l L) :
    l.Lists L ∧ ∀ m, l.Allows m →
      (l.make m).1.Lists (l.makeOn L m).1 ∧ (l.make m).2 = (l.makeOn L m).2 ∧
        l.make? m = some (l.make m) ∧
          (m.isOfLine = true → (l.make m).1.pool.plain = l.pool.plain) :=
  ⟨run.orderly.lists, fun m allowed =>
    ⟨(run.orderly.make allowed).lists, run.orderly.reply m, run.orderly.make?_eq allowed,
      run.orderly.make_plain⟩⟩

/-- Three waiters are put in line, and the middle one is taken out. -/
theorem lists_of_reaches_middle :
    ∃ l : Line Unit, Reaches (new () none 0) l [0, 1, 2] ∧ l.Lists [0, 1, 2] ∧
      (l.make (.erase 1)).1.Lists [0, 2] ∧ (l.make (.erase 1)).2 = .flag true := by
  have rented : Reaches (new () none 0) _ _ :=
    ((Reaches.init.step (m := .rent) trivial).step (m := .rent) trivial).step (m := .rent) trivial
  have first := rented.step (m := .enqueue 0) ⟨_, rfl, rfl⟩
  have second := first.step (m := .enqueue 1) ⟨_, rfl, rfl⟩
  have third := second.step (m := .enqueue 2) ⟨_, rfl, rfl⟩
  obtain ⟨lists, next⟩ := lists_of_reaches third
  obtain ⟨erased, reply, -⟩ := next (.erase 1) trivial
  exact ⟨_, third, lists, erased, reply⟩

end Line

end Turnstile
