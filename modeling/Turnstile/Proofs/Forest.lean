import Turnstile.Holding
import Turnstile.Proofs.Registries
import Turnstile.Proofs.Visits
import Mathlib.Logic.Relation

/-!
# The forest of tokens

A token knows its children and does not keep them alive, nor do they keep it. So a cancellation goes
from parent to child, and it is lost where a token on the way went before it was cancelled.
-/

namespace Turnstile

variable {P : Policy}

/-! ## One change of the forest -/

namespace Tokens

def handlesOf (ts : Tokens) (i : Nat) : Nat := ((ts.get? i).map (·.handles)).getD 0

def childrenOf (ts : Tokens) (i : Nat) : List Nat := ((ts.get? i).map (·.children)).getD []

/-- Subscriptions and handles have come, and subscriptions have gone. Nobody that was gone is back. -/
structure Follows (ts ts' : Tokens) : Prop where
  size : ts'.all.size = ts.all.size
  handles : ∀ i, ts.handlesOf i ≤ ts'.handlesOf i
  children : ∀ i, ts'.childrenOf i = ts.childrenOf i
  cancelled : ∀ i, ts'.isCancelled i = ts.isCancelled i
  alive : ∀ i, ts'.isAlive i = true → ts.isAlive i = true

variable {ts ts' ts'' : Tokens} {i : Nat}

theorem Follows.refl (ts : Tokens) : ts.Follows ts :=
  ⟨rfl, fun _ => Nat.le_refl _, fun _ => rfl, fun _ => rfl, fun _ h => h⟩

theorem Follows.trans (h : ts.Follows ts') (h' : ts'.Follows ts'') : ts.Follows ts'' :=
  ⟨h'.size.trans h.size, fun i => Nat.le_trans (h.handles i) (h'.handles i),
    fun i => (h'.children i).trans (h.children i), fun i => (h'.cancelled i).trans (h.cancelled i),
    fun i hi => h.alive i (h'.alive i hi)⟩

theorem lt_size_of_isAlive (h : ts.isAlive i = true) : i < ts.all.size := by
  unfold isAlive get? at h
  by_contra hi
  rw [Array.getElem?_eq_none (Nat.not_lt.mp hi)] at h
  cases h

theorem get?_of_isAlive (h : ts.isAlive i = true) : ∃ t, ts.get? i = some t ∧ t.isAlive = true := by
  unfold isAlive at h
  rcases ht : ts.get? i with _ | t
  · rw [ht] at h
    cases h
  · rw [ht] at h
    exact ⟨t, rfl, h⟩

theorem isAlive_of_handlesOf (h : 0 < ts.handlesOf i) : ts.isAlive i = true := by
  unfold handlesOf at h
  unfold isAlive
  rcases ht : ts.get? i with _ | t
  · rw [ht] at h
    simp at h
  · rw [ht] at h
    have handles : 0 < t.handles := h
    simp [Token.isAlive, handles]

theorem follows_update {f : Token → Token}
    (hf : ∀ t, ts.get? i = some t → (f t).cancelled = t.cancelled ∧ (f t).children = t.children ∧
      t.handles ≤ (f t).handles ∧ ((f t).isAlive = true → t.isAlive = true)) :
    ts.Follows (ts.update i f) := by
  have each (j : Nat) : (ts.update i f).get? j = ts.get? j ∨ ∃ t, ts.get? j = some t ∧
      (ts.update i f).get? j = some (f t) ∧ (f t).cancelled = t.cancelled ∧
      (f t).children = t.children ∧ t.handles ≤ (f t).handles ∧
      ((f t).isAlive = true → t.isAlive = true) := by
    rw [get?_update]
    split
    · subst j
      rcases ht : ts.get? i with _ | t
      · exact .inl rfl
      · exact .inr ⟨t, rfl, rfl, hf t ht⟩
    · exact .inl rfl
  refine ⟨size_update ts i f, fun j => ?_, fun j => ?_, fun j => ?_, fun j => ?_⟩ <;>
    rcases each j with same | ⟨t, ht, ht', cancelled, children, handles, alive⟩
  · simp [handlesOf, same]
  · simpa [handlesOf, ht, ht'] using handles
  · simp [childrenOf, same]
  · simp [childrenOf, ht, ht', children]
  · simp [isCancelled, same]
  · simp [isCancelled, ht, ht', cancelled]
  · simp [isAlive, same]
  · simpa [isAlive, ht, ht'] using alive

theorem anyOccupied_erase {l : Listeners} {generation : UInt32}
    (h : (l.erase i generation).anyOccupied = true) : l.anyOccupied = true := by
  unfold Listeners.erase at h
  split at h
  · split at h
    · obtain ⟨j, hj, hs⟩ := Array.any_eq_true.mp h
      rw [Array.getElem_modify] at hs
      split at hs
      · cases hs
      · exact Array.any_eq_true.mpr ⟨j, by simpa using hj, hs⟩
    · exact h
  · exact h

theorem follows_unregister (ts : Tokens) (r : Registration) : ts.Follows (ts.unregister r) := by
  refine follows_update fun t _ => ⟨rfl, rfl, Nat.le_refl _, fun h => ?_⟩
  rcases Bool.or_eq_true_iff.mp h with handles | occupied
  · exact Bool.or_eq_true_iff.mpr (.inl handles)
  · exact Bool.or_eq_true_iff.mpr (.inr (anyOccupied_erase occupied))

theorem follows_retain (h : ts.isAlive i = true) : ts.Follows (ts.retain i) := by
  refine follows_update fun t ht => ⟨rfl, rfl, Nat.le_succ _, fun _ => ?_⟩
  obtain ⟨t', ht', alive⟩ := get?_of_isAlive h
  obtain rfl := Option.some.inj (ht.symm.trans ht')
  exact alive

theorem follows_register (h : ts.isAlive i = true) {w : Waker} {r : Registration}
    (hr : ts.register? i w = some (ts', r)) : ts.Follows ts' := by
  obtain ⟨t, ht, alive⟩ := get?_of_isAlive h
  unfold register? at hr
  rw [ht] at hr
  dsimp only at hr
  split at hr
  · cases hr
  · obtain rfl := (Prod.mk.inj (Option.some.inj hr)).1
    refine follows_update fun t' ht' => ⟨rfl, rfl, Nat.le_refl _, fun _ => ?_⟩
    obtain rfl := Option.some.inj (ht.symm.trans ht')
    exact alive

theorem fire_eq {t : Token} (ht : ts.get? i = some t) :
    (ts.fire i).1 = ts.update i fun u =>
      { u with cancelled := true, listeners := t.listeners.takeWakers.1 } := by
  unfold fire
  rw [ht]

theorem size_fire (ts : Tokens) (i : Nat) : (ts.fire i).1.all.size = ts.all.size := by
  unfold fire
  split
  · rfl
  · exact size_update ts i _

theorem isCancelled_fire (alive : ts.isAlive i = true) (j : Nat) :
    (ts.fire i).1.isCancelled j = (ts.isCancelled j || decide (i = j)) := by
  obtain ⟨t, ht, -⟩ := get?_of_isAlive alive
  simp only [fire_eq ht, isCancelled, get?_update]
  split
  · subst j
    simp [ht]
  · rename_i hij
    simp [hij]

theorem isCancelled_takeChildren (ts : Tokens) (i j : Nat) :
    (ts.takeChildren i).1.isCancelled j = ts.isCancelled j := by
  simp only [takeChildren, isCancelled, get?_update]
  rcases ts.get? j with _ | t
  · simp
  · split <;> simp

end Tokens

theorem World.Works.follows {w w' : World P} {i : Nat} {ask : Option Asking}
    (h : w.Works i ask w')
    (alive : ∀ q ∈ ask, ∀ t ∈ q.token, 0 < w.tokens.handlesOf t) :
    w.tokens.Follows w'.tokens ∧ w'.tokenNames = w.tokenNames := by
  refine h.keeps (I := fun w' => w.tokens.Follows w'.tokens ∧ w'.tokenNames = w.tokenNames)
    ⟨.refl _, rfl⟩ (fun s _ t u q ih => ?_) (fun s _ t u j a q ih => ?_)
    fun s _ q hq t u j a enrols ih => ?_
  · refine ⟨ih.1.trans ?_, ih.2⟩
    show t.tokens.Follows u.tokens
    rw [q.tokens]
    exact .refl _
  · refine ⟨ih.1.trans ?_, ih.2⟩
    show t.tokens.Follows u.tokens
    rw [q.tokens]
    rcases a.registration with _ | r
    · exact .refl _
    · exact Tokens.follows_unregister _ r
  · refine ⟨ih.1.trans ?_, ih.2⟩
    show t.tokens.Follows u.tokens
    have subscribed := enrols.tokens
    rcases ht : q.token with _ | k
    · rw [ht] at subscribed
      rw [← (Prod.mk.inj (Option.some.inj subscribed)).1]
      exact .refl _
    · rw [ht] at subscribed
      obtain ⟨⟨ts', r⟩, hr, pair⟩ := Option.map_eq_some_iff.mp subscribed
      rw [← (Prod.mk.inj pair).1]
      have held : 0 < t.tokens.handlesOf k :=
        Nat.lt_of_lt_of_le (alive q hq k ht) (ih.1.handles k)
      exact Tokens.follows_register (Tokens.isAlive_of_handlesOf held) hr

/-! ## Worlds -/

namespace World

/-- The tokens that names stand for. -/
def named (w : World P) : List Nat := w.tokenNames.entries.map Prod.snd

/-- The forest with these `edges` from parents to children, in which the tokens `lit` are cancelled.
Besides the names, steps in progress hold the tokens `held`. The children of the tokens `opened` are
still to be cancelled, and so are the tokens `doomed`. -/
structure Rooted (w : World P) (lit : List Nat) (edges : List (Nat × Nat))
    (held opened doomed : List Nat) : Prop where
  handled : ∀ t, (w.named ++ held).count t ≤ w.tokens.handlesOf t
  known : ∀ p c, (p, c) ∈ edges → p < w.tokens.all.size ∧ c < w.tokens.all.size
  cancelled : ∀ t ∈ lit ++ opened, w.tokens.isCancelled t = true
  linked : ∀ p c, (p, c) ∈ edges → w.tokens.isAlive c = true → w.tokens.isCancelled p = false →
    c ∈ w.tokens.childrenOf p
  passed : ∀ p c, (p, c) ∈ edges → w.tokens.isAlive c = true → w.tokens.isCancelled p = true →
    w.tokens.isCancelled c = true ∨ p ∈ opened ∧ c ∈ w.tokens.childrenOf p ∨ c ∈ doomed

variable {w w' : World P} {lit : List Nat} {edges : List (Nat × Nat)}
  {held opened doomed : List Nat} {t : Nat}

theorem Rooted.isAlive (h : w.Rooted lit edges held opened doomed) (ht : t ∈ w.named ++ held) :
    w.tokens.isAlive t = true :=
  Tokens.isAlive_of_handlesOf (Nat.lt_of_lt_of_le (List.count_pos_iff.mpr ht) (h.handled t))

theorem Rooted.follows (h : w.Rooted lit edges held opened doomed)
    (tokens : w.tokens.Follows w'.tokens) (names : w'.tokenNames = w.tokenNames) :
    w'.Rooted lit edges held opened doomed := by
  refine ⟨fun t => ?_, fun p c he => ?_, fun t ht => ?_, fun p c he alive hp => ?_,
    fun p c he alive hp => ?_⟩
  · unfold named
    rw [names]
    exact Nat.le_trans (h.handled t) (tokens.handles t)
  · rw [tokens.size]
    exact h.known p c he
  · rw [tokens.cancelled]
    exact h.cancelled t ht
  · rw [tokens.children]
    rw [tokens.cancelled] at hp
    exact h.linked p c he (tokens.alive c alive) hp
  · rw [tokens.children, tokens.cancelled]
    rw [tokens.cancelled] at hp
    exact h.passed p c he (tokens.alive c alive) hp

theorem Rooted.still (h : w.Rooted lit edges held opened doomed) (tokens : w'.tokens = w.tokens)
    (names : w'.tokenNames = w.tokenNames) : w'.Rooted lit edges held opened doomed :=
  h.follows (tokens ▸ .refl _) names

theorem Rooted.works (h : w.Rooted lit edges held opened doomed) {i : Nat} {ask : Option Asking}
    (works : w.Works i ask w') (alive : ∀ q ∈ ask, ∀ t ∈ q.token, t ∈ w.named ++ held) :
    w'.Rooted lit edges held opened doomed := by
  obtain ⟨tokens, names⟩ := works.follows fun q hq t ht =>
    Nat.lt_of_lt_of_le (List.count_pos_iff.mpr (alive q hq t ht)) (h.handled t)
  exact h.follows tokens names

/-! ### Handles -/

theorem Rooted.release (h : w.Rooted lit edges held opened doomed) {names : Names Nat}
    {held' : List Nat}
    (gone : (t :: (names.entries.map Prod.snd ++ held')).Subperm (w.named ++ held)) :
    { w with tokens := w.tokens.release t, tokenNames := names }.Rooted lit edges held' opened
      doomed := by
  have each (j : Nat) : (w.tokens.release t).childrenOf j = w.tokens.childrenOf j ∧
      (w.tokens.release t).isCancelled j = w.tokens.isCancelled j ∧
      ((w.tokens.release t).isAlive j = true → w.tokens.isAlive j = true) ∧
      (w.tokens.release t).handlesOf j = w.tokens.handlesOf j - if t = j then 1 else 0 := by
    simp only [Tokens.release, Tokens.childrenOf, Tokens.isCancelled, Tokens.isAlive,
      Tokens.handlesOf, Tokens.get?_update]
    rcases w.tokens.get? j with _ | u
    · simp
    · split
      · simp only [Option.map_some, Option.getD_some, Option.any_some, Token.isAlive,
          Bool.or_eq_true, decide_eq_true_eq, true_and, and_true]
        exact fun h => h.imp_left fun handles => by omega
      · simp
  refine ⟨fun j => ?_, fun p c he => ?_, fun j hj => ?_, fun p c he alive hp => ?_,
    fun p c he alive hp => ?_⟩
  · have fits := Nat.le_trans (gone.count_le j) (h.handled j)
    rw [List.count_cons] at fits
    rw [(each j).2.2.2]
    show (names.entries.map Prod.snd ++ held').count j ≤ _
    simp only [beq_iff_eq] at fits
    omega
  · show p < (w.tokens.release t).all.size ∧ c < (w.tokens.release t).all.size
    rw [Tokens.release, Tokens.size_update]
    exact h.known p c he
  · exact (each j).2.1.trans (h.cancelled j hj)
  · rw [(each p).1]
    exact h.linked p c he ((each c).2.2.1 alive) ((each p).2.1 ▸ hp)
  · rw [(each p).1, (each c).2.1]
    exact h.passed p c he ((each c).2.2.1 alive) ((each p).2.1 ▸ hp)

theorem Rooted.retain (h : w.Rooted lit edges held opened doomed) (ht : t ∈ w.named ++ held) :
    { w with tokens := w.tokens.retain t }.Rooted lit edges (t :: held) opened doomed := by
  have alive := h.isAlive ht
  have rest : { w with tokens := w.tokens.retain t }.Rooted lit edges held opened doomed :=
    h.follows (Tokens.follows_retain alive) rfl
  refine ⟨fun j => ?_, rest.known, rest.cancelled, rest.linked, rest.passed⟩
  have fits := h.handled j
  obtain ⟨u, hu, -⟩ := Tokens.get?_of_isAlive alive
  show (w.named ++ t :: held).count j ≤ (w.tokens.retain t).handlesOf j
  simp only [Tokens.retain, Tokens.handlesOf, Tokens.get?_update, List.count_append,
    List.count_cons, beq_iff_eq] at fits ⊢
  split
  · subst j
    rw [hu] at fits ⊢
    simp only [Option.map_some, Option.getD_some] at fits ⊢
    omega
  · omega

theorem Rooted.forget (h : w.Rooted lit edges held opened doomed) (name : String) :
    (w.forgetToken name).Rooted lit edges held opened doomed ∧
      (w.forgetToken name).tokenNames.find? name = none := by
  unfold forgetToken
  rcases ht : w.tokenNames.find? name with _ | t
  · exact ⟨h, ht⟩
  · have gone := w.tokenNames.find?_erase_subperm name
    rw [ht] at gone
    refine ⟨h.release (gone.append (.refl held)), ?_⟩
    rw [Names.find?_erase, if_pos rfl]

theorem Rooted.name {tokens : Tokens}
    (h : { w with tokens }.Rooted lit edges (t :: held) opened doomed) (name : String) :
    (w.nameToken tokens t name).Rooted lit edges held opened doomed := by
  obtain ⟨forgotten, free⟩ := h.forget name
  refine ⟨fun j => ?_, forgotten.known, forgotten.cancelled, forgotten.linked, forgotten.passed⟩
  refine Nat.le_trans (List.Subperm.count_le ?_ j) (forgotten.handled j)
  have swapped := (forgetToken { w with tokens } name).tokenNames.find?_insert_subperm name t
  rw [free] at swapped
  exact (swapped.append (.refl held)).trans List.perm_middle.symm.subperm

/-! ### Flags and links -/

theorem Rooted.fire (h : w.Rooted lit edges held opened doomed) (alive : w.tokens.isAlive t = true) :
    { w with tokens := (w.tokens.fire t).1 }.Rooted lit edges held (t :: opened) doomed := by
  obtain ⟨u, hu, -⟩ := Tokens.get?_of_isAlive alive
  have occupied : u.listeners.takeWakers.1.anyOccupied = u.listeners.anyOccupied := by
    simp [Listeners.takeWakers, Listeners.anyOccupied]
  have flags := Tokens.isCancelled_fire alive
  have each (j : Nat) : (w.tokens.fire t).1.childrenOf j = w.tokens.childrenOf j ∧
      (w.tokens.fire t).1.isAlive j = w.tokens.isAlive j ∧
      (w.tokens.fire t).1.handlesOf j = w.tokens.handlesOf j := by
    simp only [Tokens.fire_eq hu, Tokens.childrenOf, Tokens.isAlive, Tokens.handlesOf,
      Tokens.get?_update]
    split
    · subst j
      simp [hu, Token.isAlive, occupied]
    · exact ⟨rfl, rfl, rfl⟩
  refine ⟨fun j => ?_, fun p c he => ?_, fun j hj => ?_, fun p c he hc hp => ?_,
    fun p c he hc hp => ?_⟩
  · rw [(each j).2.2]
    exact h.handled j
  · show p < (w.tokens.fire t).1.all.size ∧ c < (w.tokens.fire t).1.all.size
    rw [Tokens.size_fire]
    exact h.known p c he
  · rw [flags j]
    rcases List.mem_cons.mp (List.perm_middle.subset hj) with rfl | hj
    · simp
    · simp [h.cancelled j hj]
  · rw [(each p).1]
    rw [flags p, Bool.or_eq_false_iff] at hp
    exact h.linked p c he ((each c).2.1 ▸ hc) hp.1
  · rw [(each p).1, flags c]
    rw [(each c).2.1] at hc
    rw [flags p] at hp
    rcases hp' : w.tokens.isCancelled p with _ | _
    · -- It is `t` that has just been cancelled, and all its children are linked.
      rw [hp', Bool.false_or, decide_eq_true_eq] at hp
      subst hp
      exact .inr (.inl ⟨List.mem_cons_self, h.linked t c he hc hp'⟩)
    · rcases h.passed p c he hc hp' with done | ⟨opened, linked⟩ | doomed
      · exact .inl (by rw [done, Bool.true_or])
      · exact .inr (.inl ⟨List.mem_cons_of_mem t opened, linked⟩)
      · exact .inr (.inr doomed)

theorem mem_middle {j : Nat} (hj : j ∈ lit ++ opened) : j ∈ lit ++ t :: opened :=
  List.perm_middle.symm.subset (List.mem_cons_of_mem t hj)

theorem Rooted.close (h : w.Rooted lit edges held (t :: opened) doomed)
    (none : w.tokens.childrenOf t = []) : w.Rooted lit edges held opened doomed := by
  refine ⟨h.handled, h.known, fun j hj => h.cancelled j (mem_middle hj), h.linked,
    fun p c he hc hp => ?_⟩
  rcases h.passed p c he hc hp with done | ⟨opened, linked⟩ | doomed
  · exact .inl done
  · rcases List.mem_cons.mp opened with rfl | opened
    · rw [none] at linked
      cases linked
    · exact .inr (.inl ⟨opened, linked⟩)
  · exact .inr (.inr doomed)

theorem Rooted.takeChildren (h : w.Rooted lit edges held (t :: opened) doomed) :
    { w with tokens := (w.tokens.takeChildren t).1 }.Rooted lit edges held opened
      ((w.tokens.takeChildren t).2 ++ doomed) := by
  have flags := w.tokens.isCancelled_takeChildren t
  have each (j : Nat) : (w.tokens.takeChildren t).1.childrenOf j =
        (if t = j then [] else w.tokens.childrenOf j) ∧
      (w.tokens.takeChildren t).1.isAlive j = w.tokens.isAlive j ∧
      (w.tokens.takeChildren t).1.handlesOf j = w.tokens.handlesOf j := by
    simp only [Tokens.takeChildren, Tokens.childrenOf, Tokens.isAlive, Tokens.handlesOf,
      Tokens.get?_update]
    rcases w.tokens.get? j with _ | u
    · simp
    · split <;> simp [Token.isAlive]
  have fires := h.cancelled t (List.mem_append_right lit List.mem_cons_self)
  refine ⟨fun j => ?_, fun p c he => ?_, fun j hj => ?_, fun p c he hc hp => ?_,
    fun p c he hc hp => ?_⟩
  · rw [(each j).2.2]
    exact h.handled j
  · show p < (w.tokens.takeChildren t).1.all.size ∧ c < (w.tokens.takeChildren t).1.all.size
    rw [Tokens.takeChildren, Tokens.size_update]
    exact h.known p c he
  · exact (flags j).trans (h.cancelled j (mem_middle hj))
  · rw [flags p] at hp
    have htp : t ≠ p := by
      rintro rfl
      rw [fires] at hp
      cases hp
    rw [(each p).1, if_neg htp]
    exact h.linked p c he ((each c).2.1 ▸ hc) hp
  · rw [(each p).1, flags c]
    rcases h.passed p c he ((each c).2.1 ▸ hc) (flags p ▸ hp) with
      done | ⟨opened, linked⟩ | doomed
    · exact .inl done
    · by_cases htp : t = p
      · subst htp
        exact .inr (.inr (List.mem_append_left _ linked))
      · rw [if_neg htp]
        rcases List.mem_cons.mp opened with rfl | opened
        · exact absurd rfl htp
        · exact .inr (.inl ⟨opened, linked⟩)
    · exact .inr (.inr (List.mem_append_right _ doomed))

theorem Rooted.spare (h : w.Rooted lit edges held opened (t :: doomed))
    (done : w.tokens.isAlive t = true → w.tokens.isCancelled t = true) :
    w.Rooted lit edges held opened doomed := by
  refine ⟨h.handled, h.known, h.cancelled, h.linked, fun p c he hc hp => ?_⟩
  rcases h.passed p c he hc hp with cancelled | linked | doomed
  · exact .inl cancelled
  · exact .inr (.inl linked)
  · rcases List.mem_cons.mp doomed with rfl | doomed
    · exact .inl (done hc)
    · exact .inr (.inr doomed)

theorem Rooted.create (h : w.Rooted lit edges held opened doomed) :
    { w with tokens := w.tokens.create.1 }.Rooted lit edges (w.tokens.all.size :: held) opened
      doomed := by
  have old (j : Nat) (hj : j < w.tokens.all.size) : w.tokens.create.1.get? j = w.tokens.get? j := by
    rw [Tokens.get?_create, if_neg (Nat.ne_of_lt hj)]
  have opens (j : Nat) (hj : j ∈ lit ++ opened) : j < w.tokens.all.size := by
    have cancelled := h.cancelled j hj
    unfold Tokens.isCancelled Tokens.get? at cancelled
    by_contra hlt
    rw [Array.getElem?_eq_none (Nat.not_lt.mp hlt)] at cancelled
    cases cancelled
  refine ⟨fun j => ?_, fun p c he => ?_, fun j hj => ?_, fun p c he hc hp => ?_,
    fun p c he hc hp => ?_⟩
  · have fits := h.handled j
    show (w.named ++ w.tokens.all.size :: held).count j ≤ w.tokens.create.1.handlesOf j
    simp only [Tokens.handlesOf, Tokens.get?_create, List.count_append, List.count_cons,
      beq_iff_eq] at fits ⊢
    split
    · subst j
      rw [show w.tokens.get? w.tokens.all.size = none from
        Array.getElem?_eq_none (Nat.le_refl _)] at fits
      simp at fits ⊢
      omega
    · rename_i hj
      rw [if_neg (Ne.symm hj)]
      omega
  · obtain ⟨hp, hc⟩ := h.known p c he
    show p < (w.tokens.all.push _).size ∧ c < (w.tokens.all.push _).size
    rw [Array.size_push]
    exact ⟨Nat.lt_succ_of_lt hp, Nat.lt_succ_of_lt hc⟩
  · unfold Tokens.isCancelled
    rw [old j (opens j hj)]
    exact h.cancelled j hj
  · obtain ⟨hlp, hlc⟩ := h.known p c he
    unfold Tokens.isAlive at hc
    unfold Tokens.isCancelled at hp
    rw [old c hlc] at hc
    rw [old p hlp] at hp
    unfold Tokens.childrenOf
    rw [old p hlp]
    exact h.linked p c he hc hp
  · obtain ⟨hlp, hlc⟩ := h.known p c he
    unfold Tokens.isAlive at hc
    unfold Tokens.isCancelled at hp ⊢
    rw [old c hlc] at hc ⊢
    rw [old p hlp] at hp
    unfold Tokens.childrenOf
    rw [old p hlp]
    exact h.passed p c he hc hp

theorem Rooted.link (h : w.Rooted lit edges held opened doomed) {p c : Nat}
    (alive : w.tokens.isAlive p = true) (hc : c < w.tokens.all.size)
    (free : w.tokens.isCancelled p = false) :
    { w with tokens := w.tokens.link p c }.Rooted lit (edges ++ [(p, c)]) held opened doomed := by
  obtain ⟨u, hu, -⟩ := Tokens.get?_of_isAlive alive
  have each (j : Nat) : (w.tokens.link p c).childrenOf j =
        (if p = j then (w.tokens.childrenOf j).filter w.tokens.isAlive ++ [c]
          else w.tokens.childrenOf j) ∧
      (w.tokens.link p c).isCancelled j = w.tokens.isCancelled j ∧
      (w.tokens.link p c).isAlive j = w.tokens.isAlive j ∧
      (w.tokens.link p c).handlesOf j = w.tokens.handlesOf j := by
    simp only [Tokens.link, Tokens.childrenOf, Tokens.isCancelled, Tokens.isAlive,
      Tokens.handlesOf, Tokens.get?_update]
    split
    · subst j
      simp [hu, Token.isAlive]
    · simp
  refine ⟨fun j => ?_, fun q d he => ?_, fun j hj => ?_, fun q d he hd hq => ?_,
    fun q d he hd hq => ?_⟩
  · rw [(each j).2.2.2]
    exact h.handled j
  · show q < (w.tokens.link p c).all.size ∧ d < (w.tokens.link p c).all.size
    rw [Tokens.link, Tokens.size_update]
    rcases List.mem_append.mp he with he | he
    · exact h.known q d he
    · obtain ⟨rfl, rfl⟩ := Prod.mk.inj (List.mem_singleton.mp he)
      exact ⟨Tokens.lt_size_of_isAlive alive, hc⟩
  · exact (each j).2.1.trans (h.cancelled j hj)
  · rw [(each d).2.2.1] at hd
    rw [(each q).2.1] at hq
    rw [(each q).1]
    rcases List.mem_append.mp he with he | he
    · -- Linking leaves out the dead, and this one lives.
      have linked := h.linked q d he hd hq
      split
      · exact List.mem_append_left _ (List.mem_filter.mpr ⟨linked, hd⟩)
      · exact linked
    · obtain ⟨rfl, rfl⟩ := Prod.mk.inj (List.mem_singleton.mp he)
      rw [if_pos rfl]
      exact List.mem_append_right _ List.mem_cons_self
  · rw [(each d).2.2.1] at hd
    rw [(each q).2.1] at hq
    have hpq : p ≠ q := by
      rintro rfl
      rw [free] at hq
      cases hq
    rw [(each q).1, (each d).2.1, if_neg hpq]
    rcases List.mem_append.mp he with he | he
    · exact h.passed q d he hd hq
    · exact absurd (Prod.mk.inj (List.mem_singleton.mp he)).1.symm hpq

theorem Rooted.born (h : w.Rooted lit edges held opened doomed) {p c : Nat}
    (alive : w.tokens.isAlive p = true) (hp : w.tokens.isCancelled p = true)
    (hc : c < w.tokens.all.size) (cancelled : w.tokens.isCancelled c = true) :
    w.Rooted lit (edges ++ [(p, c)]) held opened doomed := by
  refine ⟨h.handled, fun q d he => ?_, h.cancelled, fun q d he hd hq => ?_, fun q d he hd hq => ?_⟩ <;>
    rcases List.mem_append.mp he with he | he
  · exact h.known q d he
  · obtain ⟨rfl, rfl⟩ := Prod.mk.inj (List.mem_singleton.mp he)
    exact ⟨Tokens.lt_size_of_isAlive alive, hc⟩
  · exact h.linked q d he hd hq
  · obtain ⟨rfl, rfl⟩ := Prod.mk.inj (List.mem_singleton.mp he)
    rw [hp] at hq
    cases hq
  · exact h.passed q d he hd hq
  · obtain ⟨rfl, rfl⟩ := Prod.mk.inj (List.mem_singleton.mp he)
    exact .inl cancelled

/-! ### Steps -/

/-- The parent and the child that a step makes. -/
def bears? (w : World P) : Step P → Option (Nat × Nat)
  | .child token _ => (w.tokenNames.find? token).map (·, w.tokens.all.size)
  | _ => none

theorem mem_named {name : String} (ht : w.tokenNames.find? name = some t) : t ∈ w.named := by
  have found := (w.tokenNames.find?_erase_subperm name).subset
  rw [ht] at found
  exact found List.mem_cons_self

end World

/-- The world after the first part of a step, with what the rest of the step holds and opens. -/
def Turn.Rooted (t : Turn P) (lit : List Nat) (edges : List (Nat × Nat))
    (held opened doomed : List Nat) : Prop :=
  t.world.Rooted lit edges (t.held.toList ++ held) (t.firing.toList ++ opened) doomed

namespace World

variable {w : World P} {lit : List Nat} {edges : List (Nat × Nat)}
  {held opened doomed : List Nat} {t : Nat}
  {items : List (Item P)}

theorem Rooted.reply (h : w.Rooted lit edges held opened doomed) (answer : Answer P) :
    (w.reply answer).Rooted lit edges held opened doomed := h

theorem Rooted.lookup {α : Type} {names : Names α} {name : String} {f : α → Turn P}
    (h : w.Rooted lit edges held opened doomed)
    (found : ∀ a, names.find? name = some a → (f a).Rooted lit edges held opened doomed) :
    (w.lookup names name f).Rooted lit edges held opened doomed := by
  unfold World.lookup
  rcases ha : names.find? name with _ | a
  · exact h.reply .missing
  · exact found a ha

theorem Rooted.steps (h : w.Rooted lit edges held opened doomed) {ask : Option (Nat × Asking)}
    {w' : World P} (steps : w.Steps ask w')
    (alive : ∀ q ∈ ask, ∀ t ∈ q.2.token, t ∈ w.named ++ held) :
    w'.Rooted lit edges held opened doomed := by
  obtain ⟨i, works⟩ := steps
  refine h.works works fun q hq t ht => ?_
  obtain ⟨q', hq', rfl⟩ := Option.map_eq_some_iff.mp hq
  exact alive q' (Option.filter_eq_some_iff.mp hq').1 t ht

theorem Rooted.lapses (h : w.Rooted lit edges held opened doomed) {w' : World P}
    (steps : w.Steps none w') : w'.Rooted lit edges held opened doomed :=
  h.steps steps (by simp)

theorem Rooted.discard (h : w.Rooted lit edges held opened doomed) (plays : w.Plays items)
    (item : Item P) : (w.discard item).world.Rooted lit edges held opened doomed := by
  rcases plays.discard_steps item none with ⟨r, rfl⟩ | steps
  · exact h.follows (Tokens.follows_unregister _ r) rfl
  · exact h.lapses steps

theorem asks?_token {item : Item P} {q : Nat × Asking} (hq : q ∈ item.asks?) :
    q.2.token = none := by
  unfold Item.asks? at hq
  split at hq
  · rw [← Option.some.inj hq]
  · cases hq

theorem Rooted.poll (h : w.Rooted lit edges held opened doomed) (plays : w.Plays items) (slot : String)
    (waker : Waker) : (w.poll slot waker).Rooted lit edges held opened doomed := by
  refine h.lookup fun item _ => ?_
  split
  · exact h.reply .notFuture
  · rename_i v hv
    have erased : ({ w with slots := w.slots.erase slot } : World P).Rooted lit edges held opened
        doomed := h.still rfl rfl
    have plays' : ({ w with slots := w.slots.erase slot } : World P).Plays items :=
      plays.mono rfl fun _ => .refl _
    refine erased.steps (plays'.pollItem_steps hv) fun q hq t ht => ?_
    rw [asks?_token hq] at ht
    cases ht

theorem poll_idle (w : World P) (slot : String) (waker : Waker) :
    (w.poll slot waker).held = none ∧ (w.poll slot waker).firing = none := by
  unfold World.poll World.lookup
  split
  · exact ⟨rfl, rfl⟩
  · dsimp only
    split <;> exact ⟨rfl, rfl⟩

theorem Rooted.setOnWake (h : w.Rooted lit edges held opened doomed) (waker : String)
    (steps : Option (List (Step P))) :
    (w.setOnWake waker steps).Rooted lit edges held opened doomed := by
  cases steps <;> exact h.still rfl rfl

theorem Rooted.acquire (h : w.Rooted lit edges held opened doomed) (plays : w.Plays items) (o : Object)
    (name : String) (a : Acquiring P) : (w.acquire o name a).Rooted lit edges held opened doomed := by
  have begun (w : World P) (timeout : Timeout) (token : Option Nat)
      (h : w.Rooted lit edges (token.toList ++ held) opened doomed) (plays : w.Plays items) :
      ({ w.startAcquisition o name a timeout token with held := token } : Turn P).Rooted lit edges held
        opened doomed := by
    unfold startAcquisition
    dsimp only
    split
    · exact h
    · refine h.steps (plays.visit_asks _ _ _ fun _ _ _ rests =>
        rests.acquire_works a.request timeout token a.steal) fun q hq t ht => ?_
      rw [← Option.some.inj hq] at ht
      obtain rfl : token = some t := ht
      exact List.mem_append_right _ List.mem_cons_self
  unfold World.acquire
  dsimp only
  rcases a.token with _ | token
  · dsimp only
    split
    · exact h.reply _
    · exact begun w _ none h plays
  · refine h.lookup fun t ht => ?_
    split
    · exact h.reply _
    · exact begun { w with tokens := w.tokens.retain t } _ (some t)
        (h.retain (List.mem_append_left _ (mem_named ht))) (plays.mono rfl fun _ => .refl _)

theorem Rooted.child (h : w.Rooted lit edges held opened doomed) {token : String}
    (ht : w.tokenNames.find? token = some t) (name : String) :
    (w.child t name).Rooted lit (edges ++ [(t, w.tokens.all.size)]) held opened doomed := by
  have alive := h.isAlive (List.mem_append_left _ (mem_named ht))
  have hlt := Tokens.lt_size_of_isAlive alive
  have created := h.create
  have size : w.tokens.create.1.all.size = w.tokens.all.size + 1 := Array.size_push ..
  have parent : w.tokens.create.1.get? t = w.tokens.get? t := by
    rw [Tokens.get?_create, if_neg (Nat.ne_of_lt hlt)]
  have fresh : w.tokens.create.1.get? w.tokens.all.size = some { handles := 1 } := by
    rw [Tokens.get?_create, if_pos rfl]
  have alive' : w.tokens.create.1.isAlive t = true := by
    unfold Tokens.isAlive
    rwa [parent]
  unfold World.child
  dsimp only
  split
  · rename_i hc
    -- The new token fires while nobody has subscribed to it and it has no children.
    have fired := created.fire (t := w.tokens.all.size) (by
      show w.tokens.create.1.isAlive _ = true
      unfold Tokens.isAlive
      rw [fresh]
      rfl)
    have closed := fired.close (by
      show Tokens.childrenOf (w.tokens.create.1.fire w.tokens.all.size).1 _ = []
      simp [Tokens.fire, fresh, Tokens.childrenOf, Tokens.get?_update])
    refine (closed.born (p := t) ?_ ?_ ?_ ?_).name name
    · show Tokens.isAlive (w.tokens.create.1.fire w.tokens.all.size).1 t = true
      simpa [Tokens.fire, fresh, Tokens.isAlive, Tokens.get?_update, Nat.ne_of_gt hlt] using alive'
    · show Tokens.isCancelled (w.tokens.create.1.fire w.tokens.all.size).1 t = true
      unfold Tokens.isCancelled at hc
      simp [Tokens.fire, fresh, Tokens.isCancelled, Tokens.get?_update, Nat.ne_of_gt hlt, parent, hc]
    · show w.tokens.all.size < Array.size (Tokens.fire w.tokens.create.1 w.tokens.all.size).1.all
      simp [Tokens.fire, fresh, Tokens.size_update, size]
    · show Tokens.isCancelled (w.tokens.create.1.fire w.tokens.all.size).1 w.tokens.all.size = true
      simp [Tokens.fire, fresh, Tokens.isCancelled, Tokens.get?_update]
  · rename_i hc
    have free : w.tokens.create.1.isCancelled t = false := by
      unfold Tokens.isCancelled at hc ⊢
      rw [parent]
      exact Bool.eq_false_iff.mpr hc
    exact (created.link alive' (size ▸ Nat.lt_succ_self _) free).name name

theorem Rooted.cancel (h : w.Rooted lit edges held opened doomed) {token : String}
    (ht : w.tokenNames.find? token = some t) : (w.cancel t).Rooted lit edges held opened doomed := by
  unfold World.cancel
  split
  · exact h.reply _
  · exact h.fire (h.isAlive (List.mem_append_left _ (mem_named ht)))

theorem Rooted.register (h : w.Rooted lit edges held opened doomed) {token : String}
    (ht : w.tokenNames.find? token = some t) (name waker : String) :
    (w.register t name waker).Rooted lit edges held opened doomed := by
  have alive := h.isAlive (List.mem_append_left _ (mem_named ht))
  unfold World.register
  split
  · exact h.reply _
  · rename_i hr
    exact h.follows (Tokens.follows_register alive hr) rfl

theorem setClock_tokens (w : World P) (t : Time) :
    (w.setClock t).tokens = w.tokens ∧ (w.setClock t).tokenNames = w.tokenNames := by
  unfold World.setClock
  split <;> exact ⟨rfl, rfl⟩

theorem Rooted.start_barren (h : w.Rooted lit edges held opened doomed) (plays : w.Plays items)
    {step : Step P} (barren : w.bears? step = none) :
    (w.start step).Rooted lit edges held opened doomed := by
  cases step with
  | create name raw holding settings =>
    show (w.create name raw holding settings).Rooted lit edges held opened doomed
    unfold World.create
    split
    · exact h.reply _
    · split
      · exact h.reply _
      · exact h.still rfl rfl
  | tryAcquire object request =>
    refine h.lookup fun o _ => ?_
    unfold World.tryAcquire
    split
    · exact h.reply _
    · refine h.steps (plays.visit_asks _ _ _ fun _ _ _ rests =>
        rests.acquire_works request .zero none none) fun q hq t ht => ?_
      rw [← Option.some.inj hq] at ht
      cases ht
  | acquire object name a => exact h.lookup fun o _ => h.acquire plays o name a
  | release object request =>
    refine h.lookup fun o _ => ?_
    unfold World.release
    split
    · exact h.reply _
    · exact h.lapses (plays.visit_lapses _ _ _ fun _ _ _ rests => rests.releaseBy_lapses _)
  | dispose object name =>
    refine h.lookup fun o _ => ?_
    exact h.lapses (plays.visit_lapses _ _ _ fun _ _ _ rests => rests.dispose_lapses)
  | poll slot waker onWake =>
    have plays' : (w.setOnWake waker onWake).Plays items :=
      plays.mono (setOnWake_fields w waker onWake).1 fun _ => .refl _
    exact (h.setOnWake waker onWake).poll plays' slot (.task waker)
  | drop slot =>
    refine h.lookup fun item _ => ?_
    exact Rooted.discard (w := { w with slots := w.slots.erase slot }) (h.still rfl rfl)
      (plays.mono rfl fun _ => .refl _) item
  | createToken name => exact h.create.name name
  | child token name =>
    refine h.lookup fun t ht => ?_
    rw [bears?, ht] at barren
    cases barren
  | cloneToken token name =>
    refine h.lookup fun t ht => ?_
    exact (h.retain (List.mem_append_left _ (mem_named ht))).name name
  | dropToken token => exact h.lookup fun t _ => (h.forget token).1
  | cancel token => exact h.lookup fun t ht => h.cancel ht
  | register token name waker onWake =>
    refine h.lookup fun t ht => ?_
    have named : (w.setOnWake waker onWake).tokenNames.find? token = some t := by
      rcases onWake with _ | _ <;> exact ht
    exact (h.setOnWake waker onWake).register named name waker
  | createTimer name moment waker onWake => exact (h.setOnWake waker onWake).still rfl rfl
  | advance | advanceTo | setClock =>
    obtain ⟨tokens, names⟩ := setClock_tokens w _
    exact h.still tokens names
  | sameTimer a b => exact h.lookup fun _ _ => h.lookup fun _ _ => h.reply _
  | clone | dropObject | lock | cancelTimer => exact h.lookup fun _ _ => h.still rfl rfl
  | holding | describe | isWaiting | guarded | isRegistrationCancelled | describeSlot
  | describeToken => exact h.lookup fun _ _ => h.reply _
  | process | clearTimers => exact h.still rfl rfl
  | now | describeClock | nextDeadline | timers | describeTimers | wait | waitWaker =>
    exact h.reply _

theorem Rooted.start (h : w.Rooted lit edges held opened doomed) (plays : w.Plays items)
    (step : Step P) :
    (w.start step).Rooted lit (edges ++ (w.bears? step).toList) held opened doomed := by
  rcases hb : w.bears? step with _ | ⟨p, c⟩
  · rw [Option.toList_none, List.append_nil]
    exact h.start_barren plays hb
  · cases step with
    | child token name =>
      obtain ⟨t, ht, pair⟩ := Option.map_eq_some_iff.mp hb
      rw [← pair]
      simp only [World.start, World.lookup, ht]
      exact h.child ht name
    | _ => cases hb

end World

/-! ## Machines -/

namespace Frame

/-- The token that is let go of. -/
def held? : Frame P → Option Nat
  | .letGo t => some t
  | _ => none

/-- The token whose children are to be cancelled. -/
def opened? : Frame P → Option Nat
  | .children t => some t
  | _ => none

/-- The tokens to be cancelled if they live. -/
def doomed : Frame P → List Nat
  | .cancel ts => ts
  | _ => []

end Frame

namespace Machine

def Rooted (m : Machine P) (lit : List Nat) (edges : List (Nat × Nat)) : Prop :=
  m.world.Rooted lit edges (m.agenda.filterMap Frame.held?) (m.agenda.filterMap Frame.opened?)
    (m.agenda.flatMap Frame.doomed)

/-- The parent and the child that the next step makes. -/
def bears? (m : Machine P) : Option (Nat × Nat) := m.next?.bind m.world.bears?

/-- The parents and the children that the next `n` steps make. -/
def lineage (m : Machine P) : Nat → List (Nat × Nat)
  | 0 => []
  | n + 1 => m.bears?.toList ++ m.step.lineage n

variable {m : Machine P} {lit : List Nat} {edges : List (Nat × Nat)}

theorem Rooted.push {m' : Machine P} (h : m.Rooted lit edges) (frames : List (Frame P))
    (tokens : m.world.tokens.Follows m'.world.tokens)
    (names : m'.world.tokenNames = m.world.tokenNames) (agenda : m'.agenda = frames ++ m.agenda)
    (idle : ∀ f ∈ frames, f.held? = none ∧ f.opened? = none ∧ f.doomed = []) :
    m'.Rooted lit edges := by
  have held : frames.filterMap Frame.held? = [] :=
    List.filterMap_eq_nil_iff.mpr fun f hf => (idle f hf).1
  have opened : frames.filterMap Frame.opened? = [] :=
    List.filterMap_eq_nil_iff.mpr fun f hf => (idle f hf).2.1
  have doomed : frames.flatMap Frame.doomed = [] :=
    List.flatMap_eq_nil_iff.mpr fun f hf => (idle f hf).2.2
  have same := World.Rooted.follows h tokens names
  unfold Rooted
  rw [agenda, List.filterMap_append, List.filterMap_append, List.flatMap_append, held, opened, doomed]
  exact same

theorem Rooted.still {m' : Machine P} (h : m.Rooted lit edges)
    (tokens : m'.world.tokens = m.world.tokens) (names : m'.world.tokenNames = m.world.tokenNames)
    (agenda : m'.agenda = m.agenda) : m'.Rooted lit edges :=
  h.push [] (tokens ▸ .refl _) names agenda (by simp)

theorem Rooted.take {t : Turn P} {top : Bool}
    (h : t.Rooted lit edges (m.agenda.filterMap Frame.held?) (m.agenda.filterMap Frame.opened?)
      (m.agenda.flatMap Frame.doomed)) : (m.take top t).Rooted lit edges := by
  have held : (m.take top t).agenda.filterMap Frame.held? =
      t.held.toList ++ m.agenda.filterMap Frame.held? := by
    rcases t with ⟨_, _, _, _, _ | _, _ | _, _ | _⟩ <;> rfl
  have opened : (m.take top t).agenda.filterMap Frame.opened? =
      t.firing.toList ++ m.agenda.filterMap Frame.opened? := by
    rcases t with ⟨_, _, _, _, _ | _, _ | _, _ | _⟩ <;> rfl
  have doomed : (m.take top t).agenda.flatMap Frame.doomed = m.agenda.flatMap Frame.doomed := by
    rcases t with ⟨_, _, _, _, _ | _, _ | _, _ | _⟩ <;> rfl
  unfold Rooted
  rw [held, opened, doomed]
  exact h

theorem Rooted.begin (h : m.Rooted lit edges) (plays : m.Plays) (top : Bool) (step : Step P) :
    (m.begin top step).Rooted lit (edges ++ (m.world.bears? step).toList) := by
  cases step with
  | wait slot =>
    rw [show (m.world.bears? (.wait slot)).toList = [] from rfl, List.append_nil]
    exact h.push [.await top slot] (.refl _) rfl rfl (by simp [Frame.held?,
      Frame.opened?, Frame.doomed])
  | waitWaker waker =>
    rw [show (m.world.bears? (.waitWaker waker)).toList = [] from rfl, List.append_nil]
    exact h.push [.awaitWaker top waker] (.refl _) rfl rfl (by simp [Frame.held?,
      Frame.opened?, Frame.doomed])
  | _ => exact Rooted.take (World.Rooted.start h plays _)

theorem Rooted.deliver (h : m.Rooted lit edges) (top : Bool) (answer : Answer P) :
    (m.deliver top answer).Rooted lit edges := by
  unfold Machine.deliver
  split <;> exact h.still rfl rfl rfl

theorem Rooted.elapse (h : m.Rooted lit edges) (top : Bool) (again : Frame P)
    (idle : again.held? = none ∧ again.opened? = none ∧ again.doomed = []) :
    (m.elapse top again).Rooted lit edges := by
  unfold Machine.elapse
  split
  · exact h.deliver top .pending
  · rename_i v hv
    obtain ⟨t, -, rfl⟩ := Option.map_eq_some_iff.mp hv
    refine h.push [.wake true _, again] (.refl _) rfl rfl fun f hf => ?_
    rcases List.mem_cons.mp hf with rfl | hf
    · exact ⟨rfl, rfl, rfl⟩
    · exact List.mem_singleton.mp hf ▸ idle

theorem Rooted.wake (h : m.Rooted lit edges) (plays : m.Plays) (aside : Bool) (waker : Waker) :
    (m.wake aside waker).Rooted lit edges := by
  cases waker with
  | task name =>
    unfold Machine.wake
    dsimp only
    split
    · exact h.still rfl rfl rfl
    · exact h.push [.run _] (.refl _) rfl rfl (by simp [Frame.held?, Frame.opened?,
        Frame.doomed])
  | sleeper => exact h
  | trigger sync slot =>
    obtain ⟨i, works⟩ : m.world.Steps none (m.world.touch sync fun s => s.trigger slot).world :=
      plays.visit_lapses _ _ _ fun s _ _ _ => s.trigger_lapses slot
    obtain ⟨tokens, names⟩ := works.follows (by simp)
    exact h.push [.wake aside _] tokens names rfl (by simp [Frame.held?, Frame.opened?,
      Frame.doomed])

theorem Rooted.put (h : m.Rooted lit edges) (slot : String) {item : Item P}
    (plays : m.world.Plays (item :: m.items)) : (m.put slot item).Rooted lit edges := by
  unfold Machine.put
  dsimp only
  split
  · exact h.still rfl rfl rfl
  · rename_i old _
    have filled : ({ m.world with slots := m.world.slots.insert slot item } : World P).Plays
        (item :: m.items) := plays.mono rfl fun _ => .refl _
    exact World.Rooted.discard (w := { m.world with slots := m.world.slots.insert slot item })
      (World.Rooted.still h rfl rfl) filled old

theorem Rooted.await (h : m.Rooted lit edges) (plays : m.Plays) (top : Bool) (slot : String) :
    (m.await top slot).Rooted lit edges := by
  have polled := World.Rooted.poll h plays slot .sleeper
  unfold Machine.await
  dsimp only
  split
  · rename_i name item hput _
    have quiet : (m.world.poll slot .sleeper).held = none ∧
        (m.world.poll slot .sleeper).firing = none := World.poll_idle m.world slot .sleeper
    unfold Turn.Rooted at polled
    rw [quiet.1, quiet.2] at polled
    let w := { (m.world.poll slot .sleeper).world with
      slots := (m.world.poll slot .sleeper).world.slots.insert name item }
    have kept : ({ m with world := w } : Machine P).Rooted lit edges :=
      World.Rooted.still polled rfl rfl
    exact kept.elapse top (.await top slot) ⟨rfl, rfl, rfl⟩
  · exact Rooted.take polled

theorem Rooted.perform {f : Frame P}
    (h : m.world.Rooted lit edges (f.held?.toList ++ m.agenda.filterMap Frame.held?)
      (f.opened?.toList ++ m.agenda.filterMap Frame.opened?)
      (f.doomed ++ m.agenda.flatMap Frame.doomed))
    (plays : m.world.Plays (f.item?.toList ++ m.items)) :
    (m.perform f).Rooted lit (edges ++ (f.begins?.bind m.world.bears?).toList) := by
  have rest : m.Plays := plays.mono rfl fun i =>
    World.shares_subperm_of_subperm (List.sublist_append_right _ _).subperm i
  have nothing {x : Machine P} (hx : x.Rooted lit edges) : x.Rooted lit (edges ++ []) := by
    rwa [List.append_nil]
  cases f with
  | wake aside wakers =>
    refine nothing ?_
    cases wakers with
    | nil => exact h
    | cons w ws =>
      exact Rooted.wake (m := m.push [.wake aside ws]) h (rest.still rfl rfl rfl) aside w
  | children t => exact nothing (World.Rooted.takeChildren h)
  | cancel tokens =>
    refine nothing ?_
    cases tokens with
    | nil => exact h
    | cons t ts =>
      show ((m.push [.cancel ts]).cancelChild t).Rooted lit edges
      unfold Machine.cancelChild
      split
      · rename_i lives
        obtain ⟨alive, -⟩ := Bool.and_eq_true_iff.mp lives
        refine (World.Rooted.fire h alive).spare fun _ => ?_
        obtain ⟨u, hu, -⟩ := Tokens.get?_of_isAlive alive
        have hu : m.world.tokens.get? t = some u := hu
        show (m.world.tokens.fire t).1.isCancelled t = true
        simp [Tokens.fire, hu, Tokens.isCancelled, Tokens.get?_update]
      · rename_i gone
        refine World.Rooted.spare h fun alive => ?_
        by_contra free
        exact gone (Bool.and_eq_true_iff.mpr ⟨alive, by simpa using free⟩)
  | run steps =>
    cases steps with
    | nil => exact nothing h
    | cons s ss =>
      exact Rooted.begin (m := m.push [.run ss]) h (rest.still rfl rfl rfl) false s
  | put slot item => exact nothing (Rooted.put h slot plays)
  | letGo t => exact nothing (World.Rooted.release h List.perm_middle.symm.subperm)
  | finish top answer => exact nothing (Rooted.deliver h top answer)
  | await top slot => exact nothing (Rooted.await h rest top slot)
  | awaitWaker top waker =>
    refine nothing ?_
    show (if waker ∈ m.woken then _ else _ : Machine P).Rooted lit edges
    split
    · exact Rooted.deliver h top .fired
    · exact Rooted.elapse h top (.awaitWaker top waker) ⟨rfl, rfl, rfl⟩

theorem Rooted.step (h : m.Rooted lit edges) (plays : m.Plays) :
    m.step.Rooted lit (edges ++ m.bears?.toList) := by
  obtain ⟨world, agenda, script, woken, wakes, nested, events, reports⟩ := m
  rcases agenda with _ | ⟨f, agenda⟩
  · rcases script with _ | ⟨s, script⟩
    · exact (List.append_nil edges).symm ▸ h
    · exact Rooted.begin (m := ⟨world, [], script, woken, wakes, nested, events, reports⟩) h plays
        true s
  · refine Rooted.perform (m := ⟨world, agenda, script, woken, wakes, nested, events, reports⟩)
      (f := f) ?_ ?_
    · have held : (f :: agenda).filterMap Frame.held? =
          f.held?.toList ++ agenda.filterMap Frame.held? := by
        cases f <;> rfl
      have opened : (f :: agenda).filterMap Frame.opened? =
          f.opened?.toList ++ agenda.filterMap Frame.opened? := by
        cases f <;> rfl
      unfold Rooted at h
      rwa [held, opened, List.flatMap_cons] at h
    · have item : (f :: agenda).filterMap Frame.item? =
          f.item?.toList ++ agenda.filterMap Frame.item? := by
        cases f <;> rfl
      refine plays.mono rfl fun i => World.shares_subperm_of_subperm ?_ i
      unfold items
      dsimp only
      rw [item]
      exact (List.perm_append_comm_assoc _ _ _).subperm

theorem Rooted.iterate (h : m.Rooted lit edges) (plays : ∀ n, (Machine.step^[n] m).Plays) (n : Nat) :
    (Machine.step^[n] m).Rooted lit (edges ++ m.lineage n) := by
  induction n generalizing m edges with
  | zero => exact (List.append_nil edges).symm ▸ h
  | succ n ih =>
    rw [Function.iterate_succ_apply, lineage, ← List.append_assoc]
    exact ih (h.step (plays 0)) fun k => by
      rw [← Function.iterate_succ_apply]
      exact plays (k + 1)

theorem Fresh.rooted (h : m.Fresh) (n : Nat) : (Machine.step^[n] m).Rooted [] (m.lineage n) := by
  have new : m.Rooted [] [] := by
    obtain ⟨now, ownClock, running, script, rfl⟩ := h
    exact ⟨fun t => Nat.zero_le _, by simp, by simp [ofScript], by simp, by simp⟩
  exact new.iterate h.plays n

theorem lineage_add (m : Machine P) (k n : Nat) :
    m.lineage (k + n) = m.lineage k ++ (Machine.step^[k] m).lineage n := by
  induction k generalizing m with
  | zero => rw [Nat.zero_add]; rfl
  | succ k ih =>
    rw [Nat.add_right_comm, lineage, lineage, ih, List.append_assoc, Function.iterate_succ_apply]

theorem fires_of_cancelling {t : Nat} (call : m.cancelling? = some t)
    (alive : m.world.tokens.isAlive t = true) : m.step.world.tokens.isCancelled t = true := by
  obtain ⟨idle, name, rest, script, named⟩ := cancelling?_eq_some call
  obtain ⟨u, hu, -⟩ := Tokens.get?_of_isAlive alive
  have cancels : m.step.world = (m.world.cancel t).world := by
    unfold Machine.step
    rw [idle, script]
    simp only [Machine.begin, Machine.take, Machine.push, Machine.report, World.start, World.lookup,
      named]
  rw [cancels, World.cancel]
  split
  · assumption
  · simp [Tokens.fire, hu, Tokens.isCancelled, Tokens.get?_update]

/-- From the first step of the call on, the token is among those that are known to be cancelled. -/
theorem Fresh.rooted_since {m₀ : Machine P} (fresh : m₀.Fresh) {k p : Nat}
    (call : (Machine.step^[k] m₀).cancelling? = some p) (l : Nat) :
    (Machine.step^[k + l + 1] m₀).Rooted [p] (m₀.lineage (k + l + 1)) := by
  have before := fresh.rooted (k + 1)
  obtain ⟨-, name, rest, -, named⟩ := cancelling?_eq_some call
  have lives := (fresh.rooted k).isAlive (List.mem_append_left _ (World.mem_named named))
  have fired := fires_of_cancelling call lives
  rw [← Function.iterate_succ_apply' Machine.step k m₀] at fired
  have lit : (Machine.step^[k + 1] m₀).Rooted [p] (m₀.lineage (k + 1)) := by
    refine ⟨before.handled, before.known, fun t ht => ?_, before.linked, before.passed⟩
    rcases List.mem_cons.mp ht with rfl | ht
    · exact fired
    · exact before.cancelled t ht
  have rooted := lit.iterate (fun n => by
    rw [← Function.iterate_add_apply]
    exact fresh.plays (n + (k + 1))) l
  rwa [← lineage_add, ← Function.iterate_add_apply, show l + (k + 1) = k + l + 1 by omega,
    show k + 1 + l = k + l + 1 by omega] at rooted

theorem Fresh.stays_cancelled {m₀ : Machine P} (fresh : m₀.Fresh) {k n p : Nat}
    (call : (Machine.step^[k] m₀).cancelling? = some p) (later : k < n) :
    (Machine.step^[n] m₀).world.tokens.isCancelled p = true := by
  obtain ⟨l, rfl⟩ := Nat.exists_eq_add_of_lt later
  exact (fresh.rooted_since call l).cancelled p (List.mem_append_left _ List.mem_cons_self)

theorem Rooted.passed_of_idle {p c : Nat} (h : m.Rooted lit edges) (idle : m.agenda = [])
    (edge : (p, c) ∈ edges) (alive : m.world.tokens.isAlive c = true)
    (hp : m.world.tokens.isCancelled p = true) : m.world.tokens.isCancelled c = true := by
  rcases h.passed p c edge alive hp with done | ⟨opened, -⟩ | doomed
  · exact done
  · rw [idle] at opened
    cases opened
  · rw [idle] at doomed
    cases doomed

/-- The parent `p` of `c` passes a cancellation on, unless it went before it was cancelled itself. -/
def Passes (m₀ : Machine P) (n p c : Nat) : Prop :=
  (p, c) ∈ m₀.lineage n ∧ ((Machine.step^[n] m₀).world.tokens.isAlive p = true ∨
    (Machine.step^[n] m₀).world.tokens.isCancelled p = true)

/-- When a cancellation by the script has returned, every token that still lives and descends from the
cancelled one by parents of which none went uncancelled is cancelled. -/
theorem cancelled_of_passes {m₀ : Machine P} (fresh : m₀.Fresh) {k n p c : Nat}
    (call : (Machine.step^[k] m₀).cancelling? = some p) (later : k < n)
    (returned : (Machine.step^[n] m₀).agenda = []) (descends : Relation.TransGen (m₀.Passes n) p c)
    (alive : (Machine.step^[n] m₀).world.tokens.isAlive c = true) :
    (Machine.step^[n] m₀).world.tokens.isCancelled c = true := by
  obtain ⟨l, rfl⟩ := Nat.exists_eq_add_of_lt later
  have rooted := fresh.rooted_since call l
  have first := rooted.cancelled p (List.mem_append_left _ List.mem_cons_self)
  have each {b : Nat} (h : Relation.TransGen (m₀.Passes (k + l + 1)) p b)
      (hb : (Machine.step^[k + l + 1] m₀).world.tokens.isAlive b = true ∨
        (Machine.step^[k + l + 1] m₀).world.tokens.isCancelled b = true) :
      (Machine.step^[k + l + 1] m₀).world.tokens.isCancelled b = true := by
    induction h with
    | single edge => exact hb.elim (rooted.passed_of_idle returned edge.1 · first) id
    | tail _ edge ih => exact hb.elim (rooted.passed_of_idle returned edge.1 · (ih edge.2)) id
  exact each descends (.inl alive)

/-- A child that only a registration holds still passes the cancellation on. -/
def registered : Machine Policy.standard :=
  ofScript (.blank .zero none false)
    [.createToken "parent", .child "parent" "child", .child "child" "grandchild",
      .register "child" "kept" "task" none, .dropToken "child", .cancel "parent"]

theorem cancelled_of_passes_registered :
    (Machine.step^[30] registered).world.tokens.isCancelled 2 = true :=
  cancelled_of_passes (k := 16) (n := 30) (p := 0) (c := 2) ⟨.zero, none, false, _, rfl⟩
    (by decide +kernel) (by decide) (List.isEmpty_iff.mp (by decide +kernel))
    (.tail (b := 1) (.single ⟨by decide +kernel, by decide +kernel⟩)
      ⟨by decide +kernel, by decide +kernel⟩)
    (by decide +kernel)

/-- A child that nothing holds. -/
def forsaken : Machine Policy.standard :=
  ofScript (.blank .zero none false)
    [.createToken "parent", .child "parent" "child", .child "child" "grandchild",
      .dropToken "child", .cancel "parent"]

/-- Without the condition on those in between, descent from a cancelled token is not enough. -/
theorem not_cancelled_of_forsaken :
    ¬ ∀ m₀ : Machine Policy.standard, m₀.Fresh → ∀ k n p c, (Machine.step^[k] m₀).Cancels p →
      k < n → (Machine.step^[n] m₀).agenda = [] →
      Relation.TransGen (fun a b => (a, b) ∈ m₀.lineage n) p c →
      (Machine.step^[n] m₀).world.tokens.isAlive c = true →
      (Machine.step^[n] m₀).world.tokens.isCancelled c = true := by
  intro claimed
  have reached := claimed forsaken ⟨.zero, none, false, _, rfl⟩ 12 18 0 2
    ⟨by decide +kernel, by decide +kernel⟩
    (by decide) (List.isEmpty_iff.mp (by decide +kernel))
    (.tail (b := 1) (.single (by decide +kernel)) (by decide +kernel)) (by decide +kernel)
  have spared : (Machine.step^[18] forsaken).world.tokens.isCancelled 2 = false := by
    decide +kernel
  rw [spared] at reached
  cases reached

end Machine

end Turnstile
