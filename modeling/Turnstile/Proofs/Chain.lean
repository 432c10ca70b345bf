import Turnstile.Proofs.Rentals
import Turnstile.Line

/-!
# The line as a list of slots

`Line.Holds l L` says that the links of `l` run through exactly the slots `L`, in this order. Each
operation on the line is one on `L`, and apart from links it changes one waiter at most.
-/

namespace Turnstile

variable {R : Type}

/-! ## Segments -/

/-- Starting at `a` and following `next?`, the slots visited are `L`, and the last one leads to `b`. -/
def Segment (next? : Nat → Option (Option Nat)) : Option Nat → List Nat → Option Nat → Prop
  | a, [], b => a = b
  | a, i :: L, b => a = some i ∧ ∃ n, next? i = some n ∧ Segment next? n L b

namespace Segment

variable {f g : Nat → Option (Option Nat)}

theorem append {a b c : Option Nat} {L M : List Nat} (h : Segment f a L b) (h' : Segment f b M c) :
    Segment f a (L ++ M) c := by
  induction L generalizing a with
  | nil => rw [show a = b from h]; exact h'
  | cons i L ih =>
    obtain ⟨rfl, n, hn, h⟩ := h
    exact ⟨rfl, n, hn, ih h⟩

theorem split {a c : Option Nat} {L M : List Nat} (h : Segment f a (L ++ M) c) :
    ∃ b, Segment f a L b ∧ Segment f b M c := by
  induction L generalizing a with
  | nil => exact ⟨a, rfl, h⟩
  | cons i L ih =>
    obtain ⟨rfl, n, hn, h⟩ := h
    obtain ⟨b, h1, h2⟩ := ih h
    exact ⟨b, ⟨rfl, n, hn, h1⟩, h2⟩

theorem congr {a b : Option Nat} {L : List Nat} (h : Segment f a L b) (hg : ∀ i ∈ L, g i = f i) :
    Segment g a L b := by
  induction L generalizing a with
  | nil => exact h
  | cons i L ih =>
    obtain ⟨rfl, n, hn, h⟩ := h
    exact ⟨rfl, n, by rw [hg i List.mem_cons_self]; exact hn,
      ih h fun j hj => hg j (List.mem_cons_of_mem _ hj)⟩

theorem start {a : Option Nat} {L : List Nat} (h : Segment f a L none) : a = L.head? := by
  cases L with
  | nil => exact h
  | cons i L => exact h.1

end Segment

/-! ## What stands in line -/

/-- A waiter without its place in line. -/
def Waiter.bare (w : Waiter R) : Waiter R := { w with next := none, linked := false }

/-- Nothing left to remove. -/
def Waiter.calm (w : Waiter R) : Waiter R := { w with lingers := false }

/-- The links in the waiters `W`, from `head` to `tail`, run through the slots `L`. -/
structure Chained (W : Nat → Option (Waiter R)) (head tail : Option Nat) (length : Nat)
    (L : List Nat) : Prop where
  chain : Segment (fun i => (W i).map (·.next)) head L none
  nodup : L.Nodup
  tail : tail = L.getLast?
  length : length = L.length
  linked : ∀ i w, W i = some w → (w.linked = true ↔ i ∈ L)
  alone : ∀ i w, W i = some w → i ∉ L → w.next = none

namespace Chained

variable {W W' : Nat → Option (Waiter R)} {head tail : Option Nat} {n : Nat} {L : List Nat}

theorem head_eq (h : Chained W head tail n L) : head = L.head? := h.chain.start

theorem waiter_of_mem (h : Chained W head tail n L) {i : Nat} (hi : i ∈ L) : ∃ w, W i = some w := by
  obtain ⟨A, B, rfl⟩ := List.append_of_mem hi
  obtain ⟨b, -, rfl, n, hn, -⟩ := h.chain.split
  obtain ⟨w, hw, -⟩ := Option.map_eq_some_iff.mp hn
  exact ⟨w, hw⟩

theorem map (h : Chained W head tail n L)
    (hn : ∀ j, (W' j).map (·.next) = (W j).map (·.next))
    (hl : ∀ j, (W' j).map (·.linked) = (W j).map (·.linked)) : Chained W' head tail n L := by
  refine ⟨h.chain.congr fun j _ => hn j, h.nodup, h.tail, h.length, ?_, ?_⟩
  · intro j w hw
    have := hl j
    rw [hw, Option.map_some] at this
    obtain ⟨v, hv, hvl⟩ := Option.map_eq_some_iff.mp this.symm
    rw [← hvl]; exact h.linked j v hv
  · intro j w hw hj
    have := hn j
    rw [hw, Option.map_some] at this
    obtain ⟨v, hv, hvn⟩ := Option.map_eq_some_iff.mp this.symm
    rw [← hvn]; exact h.alone j v hv hj

theorem concat (h : Chained W head tail n L) {i : Nat} {w : Waiter R} (hw : W i = some w)
    (hi : i ∉ L)
    (hW : ∀ j, W' j = if tail = some j then (W j).map fun w => { w with next := some i }
      else if j = i then (W j).map fun w => { w with next := none, linked := true } else W j) :
    Chained W' (head.or (some i)) (some i) (n + 1) (L ++ [i]) := by
  have tail_mem : ∀ j, tail = some j → j ∈ L := by
    intro j hj
    exact List.mem_of_getLast? (h.tail ▸ hj)
  have here : W' i = some { w with next := none, linked := true } := by
    rw [hW, if_neg (fun e => hi (tail_mem i e)), if_pos rfl, hw, Option.map_some]
  have seg : Segment (fun j => (W' j).map (·.next)) (head.or (some i)) (L ++ [i]) none := by
    rcases List.eq_nil_or_concat L with rfl | ⟨A, t, rfl⟩
    · rw [h.head_eq]
      exact ⟨rfl, none, by simp [here], rfl⟩
    · have ht : tail = some t := by rw [h.tail]; simp
      have hA : t ∉ A := by
        have := h.nodup
        rw [List.concat_eq_append, List.nodup_append] at this
        intro hm; exact this.2.2 t hm t (by simp) rfl
      have hc := h.chain
      rw [List.concat_eq_append] at hc hi ⊢
      obtain ⟨b, hA', rfl, m, hm, rfl⟩ := hc.split
      obtain ⟨u, hu, -⟩ := Option.map_eq_some_iff.mp hm
      have hhead : head.or (some i) = head := by
        rw [h.head_eq]; cases A <;> rfl
      rw [hhead, List.append_assoc]
      refine (hA'.congr fun j hj => ?_).append ⟨rfl, some i, ?_, rfl, none, ?_, rfl⟩
      · have hjt : t ≠ j := by rintro rfl; exact hA hj
        have hji : j ≠ i := by rintro rfl; simp [hj] at hi
        simp [hW, ht, hjt, hji]
      · simp [hW, ht, hu]
      · simp [here]
  refine ⟨seg, ?_, by simp, by simp [h.length], ?_, ?_⟩
  · simpa [List.nodup_append, h.nodup] using fun a ha (e : a = i) => hi (e ▸ ha)
  · intro j v hv
    rw [hW] at hv
    split at hv
    · rename_i ht
      obtain ⟨u, hu, rfl⟩ := Option.map_eq_some_iff.mp hv
      simp [(h.linked j u hu).mpr (tail_mem j ht), tail_mem j ht]
    · split at hv
      · obtain ⟨u, -, rfl⟩ := Option.map_eq_some_iff.mp hv
        simp_all
      · rw [h.linked j v hv]
        simp_all
  · intro j v hv hj
    simp only [List.mem_append, List.mem_singleton, not_or] at hj
    rw [hW, if_neg fun e => hj.1 (tail_mem j e), if_neg hj.2] at hv
    exact h.alone j v hv hj.1

theorem remove {i : Nat} {A B : List Nat} (h : Chained W head tail n (A ++ i :: B))
    (hW : ∀ j, W' j = if A.getLast? = some j then (W j).map fun w => { w with next := B.head? }
      else if j = i then (W j).map Line.unlinked else W j) :
    Chained W' (if A.isEmpty then B.head? else head) (if tail = some i then A.getLast? else tail)
      (n - 1) (A ++ B) := by
  have hnd : i ∉ A ++ B ∧ (A ++ B).Nodup := by
    have := h.nodup
    rw [List.perm_middle.nodup_iff] at this
    exact List.nodup_cons.mp this
  have hiA : i ∉ A := fun hm => hnd.1 (List.mem_append_left _ hm)
  have hiB : i ∉ B := fun hm => hnd.1 (List.mem_append_right _ hm)
  have last_mem : ∀ j, A.getLast? = some j → j ∈ A := fun j hj => List.mem_of_getLast? hj
  obtain ⟨b, hA, rfl, m, hm, hB⟩ := h.chain.split
  obtain rfl : m = B.head? := hB.start
  have apart : ∀ j, j ∈ B → j ∉ A := by
    intro j hB hA
    exact (List.nodup_append.mp hnd.2).2.2 j hA j hB rfl
  -- What stands behind the node stays as it is.
  have segB : Segment (fun j => (W' j).map (·.next)) B.head? B none := by
    refine hB.congr fun j hj => ?_
    have h1 : ¬ A.getLast? = some j := fun e => apart j hj (last_mem j e)
    have h2 : j ≠ i := by rintro rfl; exact hiB hj
    simp [hW, h1, h2]
  have seg : Segment (fun j => (W' j).map (·.next)) (if A.isEmpty then B.head? else head) (A ++ B)
      none := by
    -- The one before the node, if there is one, now points to what was behind it.
    rcases List.eq_nil_or_concat A with rfl | ⟨A, t, rfl⟩
    · exact segB
    · rw [List.concat_eq_append] at hA hW hnd ⊢
      have htA : t ∉ A := by
        have := (List.nodup_append.mp hnd.2).1
        rw [List.nodup_append] at this
        intro hm; exact this.2.2 t hm t (by simp) rfl
      obtain ⟨b, hA', rfl, m, hm, rfl⟩ := hA.split
      obtain ⟨u, hu, -⟩ := Option.map_eq_some_iff.mp hm
      rw [if_neg (by simp), List.append_assoc]
      refine (hA'.congr fun j hj => ?_).append ⟨rfl, B.head?, by simp [hW, hu], segB⟩
      have h1 : t ≠ j := by rintro rfl; exact htA hj
      have h2 : j ≠ i := by rintro rfl; simp [hj] at hnd
      simp [hW, h1, h2]
  refine ⟨seg, hnd.2, ?_, ?_, ?_, ?_⟩
  · rw [h.tail]
    rcases List.eq_nil_or_concat B with rfl | ⟨B, t, rfl⟩
    · simp
    · have hti : t ≠ i := by rintro rfl; simp at hiB
      simp only [List.concat_eq_append]
      rw [show A ++ i :: (B ++ [t]) = (A ++ i :: B) ++ [t] by simp,
        show A ++ (B ++ [t]) = (A ++ B) ++ [t] by simp, List.getLast?_concat, List.getLast?_concat]
      rw [if_neg (by simpa using hti)]
  · rw [h.length]; simp
  · intro j v hv
    rw [hW] at hv
    split at hv
    · rename_i ht
      obtain ⟨u, hu, rfl⟩ := Option.map_eq_some_iff.mp hv
      have := last_mem j ht
      simp [(h.linked j u hu).mpr (by simp [this]), this]
    · split at hv
      · subst j
        obtain ⟨u, -, rfl⟩ := Option.map_eq_some_iff.mp hv
        simpa [Line.unlinked] using hnd.1
      · rename_i hji
        rw [h.linked j v hv]
        simp [hji]
  · intro j v hv hj
    rw [hW, if_neg fun e => hj (List.mem_append_left _ (last_mem j e))] at hv
    split at hv
    · obtain ⟨u, -, rfl⟩ := Option.map_eq_some_iff.mp hv
      rfl
    · rename_i hji
      refine h.alone j v hv ?_
      simp only [List.mem_append, List.mem_cons, not_or] at hj ⊢
      exact ⟨hj.1, hji, hj.2⟩

end Chained

namespace Line

def bare? (l : Line R) (i : Nat) : Option (Waiter R) := (l.waiter? i).map Waiter.bare

/-- The links of `l` run through the slots `L`. -/
def Holds (l : Line R) (L : List Nat) : Prop := Chained l.waiter? l.head l.tail l.length L

/-- Apart from links, `m` is `l` with the waiter in slot `i` changed by `f`. -/
structure Turns (l m : Line R) (i : Nat) (f : Waiter R → Waiter R) : Prop where
  sound : l.pool.Sound → m.pool.Sound
  keeps : l.pool.Keeps m.pool
  blank : m.pool.blank = l.pool.blank
  bare? : ∀ j, m.bare? j = if j = i then (l.bare? j).map f else l.bare? j

theorem Turns.trans {l m n : Line R} {i : Nat} {f g : Waiter R → Waiter R} (h : l.Turns m i f)
    (h' : m.Turns n i g) : l.Turns n i (g ∘ f) := by
  refine ⟨fun hp => h'.sound (h.sound hp), h.keeps.trans h'.keeps, h'.blank.trans h.blank, ?_⟩
  intro j
  rw [h'.bare?, h.bare?]
  split <;> simp

theorem Turns.bare?_eq {l m : Line R} {i : Nat} {f : Waiter R → Waiter R} (h : l.Turns m i f)
    {w : Waiter R} (hw : l.bare? i = some w) (j : Nat) :
    m.bare? j = if j = i then some (f w) else l.bare? j := by
  rw [h.bare?]
  split
  · subst j; rw [hw, Option.map_some]
  · rfl

theorem waiter?_update (l : Line R) (i j : Nat) (f : Waiter R → Waiter R) :
    (l.update i f).waiter? j = if j = i then (l.waiter? j).map f else l.waiter? j :=
  l.pool.rented?_update i j f

theorem update_turns (l : Line R) (i : Nat) {f g : Waiter R → Waiter R}
    (hf : ∀ w, l.waiter? i = some w → (f w).bare = g w.bare) : l.Turns (l.update i f) i g := by
  refine ⟨fun hp => Pool.update_sound hp i f, Pool.update_keeps _ i f, rfl, ?_⟩
  intro j
  unfold bare?
  rw [waiter?_update]
  split
  · subst j
    rcases hw : l.waiter? i with _ | w
    · rfl
    · exact congrArg some (hf w hw)
  · rfl

theorem relink_turns (l : Line R) (i j : Nat) {f : Waiter R → Waiter R}
    (hf : ∀ w, (f w).bare = w.bare) : l.Turns (l.update j f) i id := by
  have t := l.update_turns j (g := id) fun w _ => hf w
  refine ⟨t.sound, t.keeps, t.blank, fun k => ?_⟩
  rw [t.bare?]
  simp

theorem Holds.update {l : Line R} {L : List Nat} (h : l.Holds L) (i : Nat)
    {f : Waiter R → Waiter R} (hn : ∀ w, (f w).next = w.next)
    (hl : ∀ w, (f w).linked = w.linked) : (l.update i f).Holds L := by
  refine Chained.map h ?_ ?_ <;> intro j <;> rw [waiter?_update] <;> split
  · rcases l.waiter? j with _ | w
    · rfl
    · exact congrArg some (hn w)
  · rfl
  · rcases l.waiter? j with _ | w
    · rfl
    · exact congrArg some (hl w)
  · rfl

theorem Holds.alike {l : Line R} {L : List Nat} (h : l.Holds L) {q : Pool R}
    (hq : l.pool.Alike q) : Line.Holds { l with pool := q } L := by
  have waiter : ∀ j, Line.waiter? { l with pool := q } j = l.waiter? j := hq.rented?
  exact Chained.map h (fun j => by rw [waiter]) fun j => by rw [waiter]

theorem bare?_alike {l : Line R} {q : Pool R} (hq : l.pool.Alike q) :
    Line.bare? { l with pool := q } = l.bare? := by
  funext j
  unfold bare?
  rw [show Line.waiter? { l with pool := q } j = l.waiter? j from hq.rented? j]

theorem Holds.rent {l : Line R} {L : List Nat} (h : l.Holds L) {q : Pool R} {id : WaiterId}
    (hq : l.pool.Rents q id) : id.slot ∉ L ∧ Line.Holds { l with pool := q } L := by
  have hi : id.slot ∉ L := by
    intro hi
    obtain ⟨w, hw⟩ := Chained.waiter_of_mem h hi
    rw [show l.waiter? id.slot = none from hq.free] at hw
    cases hw
  have waiter : ∀ j, Line.waiter? { l with pool := q } j =
      if j = id.slot then some (Waiter.idle l.pool.blank) else l.waiter? j := hq.rented?
  refine ⟨hi, ⟨Segment.congr (Chained.chain h) ?_, h.nodup, h.tail, h.length, ?_, ?_⟩⟩
  · intro j hj
    have hji : j ≠ id.slot := by rintro rfl; exact hi hj
    simp only [waiter, if_neg hji]
  · intro j w hw
    rw [waiter] at hw
    split at hw
    · subst j
      rw [← Option.some.inj hw]
      simp [Waiter.idle, hi]
    · exact h.linked j w hw
  · intro j w hw hj
    rw [waiter] at hw
    split at hw
    · rw [← Option.some.inj hw]
      rfl
    · exact h.alone j w hw hj

theorem bare?_rent {l : Line R} {q : Pool R} {id : WaiterId} (hq : l.pool.Rents q id) (j : Nat) :
    Line.bare? { l with pool := q } j =
      if j = id.slot then some (Waiter.idle l.pool.blank) else l.bare? j := by
  unfold bare?
  rw [show Line.waiter? { l with pool := q } j = _ from hq.rented? j]
  split <;> rfl

theorem Holds.ends {l : Line R} {L : List Nat} (h : l.Holds L) {q : Pool R} {id : WaiterId}
    (hq : l.pool.Ends q id) (hi : id.slot ∉ L) : Line.Holds { l with pool := q } L := by
  have waiter : ∀ j, Line.waiter? { l with pool := q } j =
      if j = id.slot then none else l.waiter? j := hq.rented?
  have old : ∀ j w, Line.waiter? { l with pool := q } j = some w → l.waiter? j = some w := by
    intro j w hw
    rw [waiter] at hw
    split at hw
    · cases hw
    · exact hw
  refine ⟨Segment.congr (Chained.chain h) ?_, h.nodup, h.tail, h.length,
    fun j w hw => h.linked j w (old j w hw), fun j w hw => h.alone j w (old j w hw)⟩
  intro j hj
  have hji : j ≠ id.slot := by rintro rfl; exact hi hj
  simp only [waiter, if_neg hji]

theorem bare?_ends {l : Line R} {q : Pool R} {id : WaiterId} (hq : l.pool.Ends q id) (j : Nat) :
    Line.bare? { l with pool := q } j = if j = id.slot then none else l.bare? j := by
  unfold bare?
  rw [show Line.waiter? { l with pool := q } j = _ from hq.rented? j]
  split <;> rfl

theorem fresh_holds (blank : R) (retainLimit : Option Nat) (warm : Nat) :
    Holds { pool := Pool.stock { blank, retainLimit } warm } [] := by
  have nobody : ∀ i w, (Pool.stock { blank, retainLimit } warm).rented? i ≠ some w := by
    intro i w hw
    cases (Pool.fresh_rented? blank retainLimit warm i).symm.trans hw
  exact ⟨rfl, List.nodup_nil, rfl, rfl, fun i w hw => absurd hw (nobody i w),
    fun i w hw => absurd hw (nobody i w)⟩

/-! ## Reading the line -/

theorem walk_eq {p : Pool R} {L : List Nat} {a : Option Nat}
    (h : Segment (fun i => (p.rented? i).map (·.next)) a L none) : walk p L.length a = L := by
  induction L generalizing a with
  | nil => rfl
  | cons i L ih =>
    obtain ⟨rfl, n, hn, h⟩ := h
    obtain ⟨w, hw, rfl⟩ := Option.map_eq_some_iff.mp hn
    simp only [List.length_cons, walk, hw, ih h]

theorem Holds.toList_eq {l : Line R} {L : List Nat} (h : l.Holds L) : l.toList = L := by
  unfold toList
  rw [h.length]
  exact walk_eq h.chain

theorem Holds.isEmpty_eq {l : Line R} {L : List Nat} (h : l.Holds L) :
    l.isEmpty = L.isEmpty := by
  unfold Line.isEmpty
  rw [Chained.head_eq h]
  cases L <;> rfl

/-! ## Joining and leaving -/

theorem enqueue_turns (l : Line R) (i : Nat) : l.Turns (l.enqueue i) i id := by
  unfold enqueue
  have h1 := l.relink_turns i i (f := fun w => { w with next := none, linked := true }) fun _ => rfl
  split
  next t ht =>
    have h2 := h1.trans
      (relink_turns _ i t (f := fun w => { w with next := some i }) fun _ => rfl)
    exact ⟨h2.sound, h2.keeps, h2.blank, h2.bare?⟩
  next => exact ⟨h1.sound, h1.keeps, h1.blank, h1.bare?⟩

theorem Holds.enqueue {l : Line R} {L : List Nat} (h : l.Holds L) {i : Nat} {w : Waiter R}
    (hw : l.waiter? i = some w) (hi : i ∉ L) : (l.enqueue i).Holds (L ++ [i]) := by
  have hti : ∀ t, l.tail = some t → t ≠ i := by
    rintro t ht rfl
    exact hi (List.mem_of_getLast? (Chained.tail h ▸ ht))
  have waiter : ∀ j, (l.enqueue i).waiter? j =
      if l.tail = some j then (l.waiter? j).map fun w => { w with next := some i }
      else if j = i then (l.waiter? j).map fun w => { w with next := none, linked := true }
      else l.waiter? j := by
    intro j
    unfold Line.enqueue
    split
    next t ht =>
      have := hti t ht
      simp only [Line.waiter?, Pool.rented?_update]
      by_cases hj : j = t
      · subst hj; simp [ht, this]
      · simp [ht, hj, Ne.symm hj]
    next ht =>
      simp only [Line.waiter?, Pool.rented?_update]
      simp [ht]
  have ends := Chained.concat h hw hi waiter
  have head : (l.enqueue i).head = l.head.or (some i) := by
    have htail := Chained.tail h
    have hhead := Chained.head_eq h
    unfold Line.enqueue
    cases L with
    | nil => simp only [htail, hhead]; rfl
    | cons a L =>
      obtain ⟨t, ht⟩ : ∃ t, (a :: L).getLast? = some t := ⟨_, List.getLast?_cons⟩
      simp only [htail, ht, hhead]; rfl
  have tail : (l.enqueue i).tail = some i := by
    unfold Line.enqueue; split <;> rfl
  have length : (l.enqueue i).length = l.length + 1 := by
    unfold Line.enqueue; split <;> rfl
  unfold Holds
  rw [head, tail, length]
  exact ends

theorem splice_turns (l : Line R) (i : Nat) (before next : Option Nat) :
    l.Turns (l.splice i before next) i Waiter.calm := by
  unfold splice
  have h1 := l.update_turns i (f := unlinked) (g := Waiter.calm) fun _ _ => rfl
  cases before with
  | none => exact ⟨h1.sound, h1.keeps, h1.blank, h1.bare?⟩
  | some b =>
    have h2 := h1.trans (relink_turns _ i b (f := fun w => { w with next }) fun _ => rfl)
    exact ⟨h2.sound, h2.keeps, h2.blank, h2.bare?⟩

theorem Holds.splice {l : Line R} {i : Nat} {A B : List Nat} (h : l.Holds (A ++ i :: B)) :
    (l.splice i A.getLast? B.head?).Holds (A ++ B) := by
  have hiA : i ∉ A := by
    have := Chained.nodup h
    rw [List.perm_middle.nodup_iff] at this
    exact fun hm => (List.nodup_cons.mp this).1 (List.mem_append_left _ hm)
  have waiter : ∀ j, (l.splice i A.getLast? B.head?).waiter? j =
      if A.getLast? = some j then (l.waiter? j).map fun w => { w with next := B.head? }
      else if j = i then (l.waiter? j).map unlinked else l.waiter? j := by
    intro j
    unfold Line.splice
    rcases hA : A.getLast? with _ | b
    · simp only [Line.waiter?, Pool.rented?_update]
      simp
    · have hb : b ≠ i := by rintro rfl; exact hiA (List.mem_of_getLast? hA)
      simp only [Line.waiter?, Pool.rented?_update]
      by_cases hj : j = b
      · subst hj; simp [hb]
      · simp [hj, Ne.symm hj]
  have ends := Chained.remove h waiter
  have head : (l.splice i A.getLast? B.head?).head = if A.isEmpty then B.head? else l.head := by
    unfold Line.splice
    rcases List.eq_nil_or_concat A with rfl | ⟨A, t, rfl⟩ <;> simp
  unfold Holds
  rw [head]
  exact ends

/-- The walk from `cursor` finds slot `i` behind the slots `A`. -/
theorem eraseFrom_eq {l : Line R} {i : Nat} {A B : List Nat} (hi : i ∉ A) {fuel : Nat}
    (hf : A.length < fuel) {before cursor : Option Nat}
    (h : Segment (fun i => (l.waiter? i).map (·.next)) cursor (A ++ i :: B) none) :
    l.eraseFrom i fuel before cursor = (l.splice i (A.getLast?.or before) B.head?, true) := by
  induction A generalizing fuel before cursor with
  | nil =>
    obtain ⟨rfl, n, hn, h⟩ := h
    obtain ⟨w, hw, rfl⟩ := Option.map_eq_some_iff.mp hn
    obtain ⟨fuel, rfl⟩ : ∃ k, fuel = k + 1 := ⟨fuel - 1, by simp at hf; omega⟩
    simp only [eraseFrom, hw, if_true, h.start, List.getLast?_nil, Option.none_or]
  | cons a A ih =>
    obtain ⟨rfl, n, hn, h⟩ := h
    obtain ⟨w, hw, rfl⟩ := Option.map_eq_some_iff.mp hn
    obtain ⟨fuel, rfl⟩ : ∃ k, fuel = k + 1 := ⟨fuel - 1, by simp at hf; omega⟩
    have hai : a ≠ i := by rintro rfl; simp at hi
    simp only [eraseFrom, hw, if_neg hai]
    rw [ih (fun hm => hi (List.mem_cons_of_mem _ hm)) (by simpa using hf) h]
    cases A <;> simp [List.getLast?_cons]

theorem erase_eq {l : Line R} {i : Nat} {A B : List Nat} (h : l.Holds (A ++ i :: B)) :
    l.erase i = (l.splice i A.getLast? B.head?, true) := by
  have hiA : i ∉ A := by
    have := Chained.nodup h
    rw [List.perm_middle.nodup_iff] at this
    exact fun hm => (List.nodup_cons.mp this).1 (List.mem_append_left _ hm)
  unfold erase
  rw [eraseFrom_eq hiA (by rw [Chained.length h]; simp) (Chained.chain h)]
  simp

theorem Holds.erase {l : Line R} {L : List Nat} (h : l.Holds L) {i : Nat} (hi : i ∈ L) :
    (l.erase i).1.Holds (L.erase i) ∧ l.Turns (l.erase i).1 i Waiter.calm := by
  obtain ⟨A, B, rfl⟩ := List.append_of_mem hi
  have hiA : i ∉ A := by
    have := Chained.nodup h
    rw [List.perm_middle.nodup_iff] at this
    exact fun hm => (List.nodup_cons.mp this).1 (List.mem_append_left _ hm)
  rw [erase_eq h, List.erase_append_right _ hiA, List.erase_cons_head]
  exact ⟨h.splice, l.splice_turns i _ _⟩

theorem dequeue_nil {l : Line R} (h : l.Holds []) : l.dequeue = (l, none) := by
  unfold dequeue
  rw [Chained.head_eq h]
  rfl

theorem dequeue_cons {l : Line R} {i : Nat} {L : List Nat} (h : l.Holds (i :: L)) :
    l.dequeue = (l.splice i none L.head?, some i) := by
  obtain ⟨hhead, n, hn, hL⟩ := Chained.chain h
  obtain ⟨w, hw, rfl⟩ := Option.map_eq_some_iff.mp hn
  have tail := Chained.tail h
  have hiL := (List.nodup_cons.mp (Chained.nodup h)).1
  unfold dequeue splice
  rw [hhead]
  simp only [Option.bind_some, hw, Option.map_some, hL.start, Option.isNone_none, if_true]
  rcases List.eq_nil_or_concat L with rfl | ⟨L, t, rfl⟩
  · simp [tail]
  · have hti : t ≠ i := by rintro rfl; simp at hiL
    have : l.tail ≠ some i := by rw [tail]; simpa [List.getLast?_cons] using hti
    rw [if_neg this]
    cases L <;> simp

theorem Holds.dequeue {l : Line R} {i : Nat} {L : List Nat} (h : l.Holds (i :: L)) :
    l.dequeue.1.Holds L ∧ l.Turns l.dequeue.1 i Waiter.calm := by
  rw [dequeue_cons h]
  exact ⟨Holds.splice (A := []) h, l.splice_turns i none L.head?⟩

end Line

end Turnstile
