import Turnstile.Proofs.Ledger

/-!
# What a script does to the tokens

All that one step of a machine does to the tokens and to the subscriptions of its callers, taken
apart into single changes, whatever the synchronizers have to do with it. Whoever is linked to a token
was born of it, whoever has a waker subscribed keeps its registration, and a cancelled token stays so.
-/

namespace Turnstile

variable {P : Policy}

/-! ## Changes -/

/-- The tokens with the subscriptions that the callers keep. -/
structure Grove where
  tokens : Tokens
  kept : List Registration

namespace Grove

/-- What becomes of `x` by changes such as a step may bring about that makes the child `birth`. -/
inductive Goes (x : Grove) (birth : Option (Nat × Nat)) : Grove → Prop
  | refl : Goes x birth x
  /-- A child is made of a token that is not cancelled. -/
  | born {p : Nat} (bears : birth = some (p, x.tokens.all.size)) :
    Goes x birth { x with tokens := x.tokens.create.1.link p x.tokens.all.size }
  /-- Handles come and go, and the callers keep the same. -/
  | still {y z : Grove} (h : Goes x birth y) (size : z.tokens.all.size = y.tokens.all.size)
      (faces : z.tokens.face? = y.tokens.face?)
      (children : z.tokens.childrenOf = y.tokens.childrenOf) (kept : z.kept.Perm y.kept) :
    Goes x birth z
  | mint {y : Grove} (h : Goes x birth y) : Goes x birth { y with tokens := y.tokens.create.1 }
  | fire {y : Grove} (t : Nat) (h : Goes x birth y) :
    Goes x birth { y with tokens := (y.tokens.fire t).1 }
  | part {y : Grove} (t : Nat) (h : Goes x birth y) :
    Goes x birth { y with tokens := (y.tokens.takeChildren t).1 }
  /-- A waiter subscribes. -/
  | enrol {y : Grove} {t i j : Nat} {tokens : Tokens} {r : Registration} (h : Goes x birth y)
      (hr : y.tokens.register? t (.trigger i j) = some (tokens, r)) :
    Goes x birth { y with tokens }
  /-- The subscription of a waiter ends. -/
  | lapse {y : Grove} (r : Registration) (h : Goes x birth y) :
    Goes x birth { y with tokens := y.tokens.unregister r }
  /-- A caller subscribes. -/
  | subscribe {y : Grove} {t : Nat} {waker : String} {tokens : Tokens} {r : Registration}
      (h : Goes x birth y) (hr : y.tokens.register? t (.task waker) = some (tokens, r)) :
    Goes x birth ⟨tokens, r :: y.kept⟩
  /-- A caller ends a subscription. -/
  | unsubscribe {y : Grove} {r : Registration} {kept : List Registration} (h : Goes x birth y)
      (gone : y.kept.Perm (r :: kept)) : Goes x birth ⟨y.tokens.unregister r, kept⟩

end Grove

/-! ## Steps -/

theorem World.Steps.grove {w w' : World P} {ask : Option (Nat × Asking)} (h : w.Steps ask w')
    {x : Grove} {birth : Option (Nat × Nat)} {kept : List Registration}
    (before : x.Goes birth ⟨w.tokens, kept⟩) : x.Goes birth ⟨w'.tokens, kept⟩ := by
  obtain ⟨i, works⟩ := h
  refine works.keeps (I := fun w' => x.Goes birth ⟨w'.tokens, kept⟩) before
    (fun s _ t u q ih => ?_) (fun s _ t u j a q ih => ?_) fun s _ q _ t u j a enrols ih => ?_
  · show Grove.Goes _ _ ⟨u.tokens, kept⟩
    rw [q.tokens]
    exact ih
  · show Grove.Goes _ _ ⟨u.tokens, kept⟩
    rw [q.tokens]
    rcases a.registration with _ | r
    · exact ih
    · exact ih.lapse r
  · show Grove.Goes _ _ ⟨u.tokens, kept⟩
    have subscribed := enrols.tokens
    rcases ht : q.token with _ | k
    · rw [ht] at subscribed
      rw [← (Prod.mk.inj (Option.some.inj subscribed)).1]
      exact ih
    · rw [ht] at subscribed
      obtain ⟨⟨tokens, r⟩, hr, pair⟩ := Option.map_eq_some_iff.mp subscribed
      rw [← (Prod.mk.inj pair).1]
      exact ih.enrol hr

theorem Ledger.Goes.grove {x y : Ledger P} {birth : Option (Nat × Nat)} (h : x.Goes birth y) :
    (⟨x.tokens, x.kept⟩ : Grove).Goes birth ⟨y.tokens, y.kept⟩ := by
  induction h with
  | refl => exact .refl
  | born bears => exact .born bears
  | still _ _ size faces children kept ih => exact ih.still size faces children kept
  | visit _ q ih => exact q.grove ih
  | found _ _ ih => exact ih
  | mint _ ih => exact ih.mint
  | fire t _ ih => exact ih.fire t
  | part t _ ih => exact ih.part t
  | subscribe _ hr ih => exact ih.subscribe hr
  | unsubscribe _ gone ih => exact ih.unsubscribe gone

namespace Machine

def grove (m : Machine P) : Grove := ⟨m.world.tokens, registrations m.items⟩

/-- What one step of a machine does to the tokens, change by change. -/
theorem grove_step {m : Machine P} (plays : m.Plays) (distinct : m.world.slots.Distinct) :
    m.grove.Goes m.bears? m.step.grove := (ledger_step plays distinct).grove

end Machine

/-! ## What holds of all tokens -/

/-- The children of `p` in the order of their birth. -/
def heirs (edges : List (Nat × Nat)) (p : Nat) : List Nat := (edges.filter (·.1 = p)).map (·.2)

theorem mem_heirs {edges : List (Nat × Nat)} {p c : Nat} : c ∈ heirs edges p ↔ (p, c) ∈ edges := by
  simp [heirs]

theorem heirs_append (edges edges' : List (Nat × Nat)) (p : Nat) :
    heirs (edges ++ edges') p = heirs edges p ++ heirs edges' p := by
  simp [heirs]

namespace Tokens

variable {ts ts' : Tokens} {i : Nat} {w : Waker} {r : Registration}

theorem isCancelled_of_faces (faces : ts'.face? = ts.face?) (t : Nat) :
    ts'.isCancelled t = ts.isCancelled t := by
  rw [isCancelled_eq_face, isCancelled_eq_face, faces]

theorem childrenOf_create (ts : Tokens) : ts.create.1.childrenOf = ts.childrenOf := by
  funext j
  simp only [childrenOf, get?_create]
  split
  · rename_i hj
    rw [hj, show ts.get? ts.all.size = none from Array.getElem?_eq_none (Nat.le_refl _)]
    rfl
  · rfl

theorem childrenOf_link (ts : Tokens) (p c j : Nat) :
    ((ts.link p c).childrenOf j).Sublist (ts.childrenOf j ++ heirs [(p, c)] j) := by
  simp only [link, childrenOf, get?_update, heirs]
  split
  · subst j
    rcases ts.get? p with _ | t
    · simp
    · simp [List.filter_sublist.append_right]
  · rename_i hpj
    simp [hpj]

theorem childrenOf_fire (ts : Tokens) (i : Nat) : (ts.fire i).1.childrenOf = ts.childrenOf := by
  unfold fire
  split
  · rfl
  · exact World.childrenOf_update_same fun _ => rfl

theorem childrenOf_takeChildren (ts : Tokens) (i j : Nat) :
    (ts.takeChildren i).1.childrenOf j = if i = j then [] else ts.childrenOf j := by
  simp only [takeChildren, childrenOf, get?_update]
  split
  · rcases ts.get? j with _ | t <;> rfl
  · rfl

theorem childrenOf_unregister (ts : Tokens) (r : Registration) :
    (ts.unregister r).childrenOf = ts.childrenOf :=
  World.childrenOf_update_same fun _ => rfl

theorem childrenOf_register (h : ts.register? i w = some (ts', r)) :
    ts'.childrenOf = ts.childrenOf ∧ ts'.all.size = ts.all.size := by
  unfold register? at h
  split at h
  · cases h
  · split at h
    · cases h
    · obtain ⟨rfl, -⟩ := Prod.mk.inj (Option.some.inj h)
      exact ⟨World.childrenOf_update_same fun _ => rfl, size_update _ _ _⟩

theorem isCancelled_register (h : ts.register? i w = some (ts', r)) (t : Nat) :
    ts'.isCancelled t = ts.isCancelled t := by
  obtain ⟨l, face, -, faces⟩ := register?_face h
  rw [isCancelled_eq_face, isCancelled_eq_face, faces]
  split
  · subst t
    rw [face]
    rfl
  · rfl

theorem isCancelled_create (ts : Tokens) (t : Nat) :
    ts.create.1.isCancelled t = ts.isCancelled t := by
  simp only [isCancelled, get?_create]
  split
  · rename_i ht
    rw [ht, show ts.get? ts.all.size = none from Array.getElem?_eq_none (Nat.le_refl _)]
    rfl
  · rfl

theorem isCancelled_of_fire (h : ts.isCancelled i = true) (t : Nat) :
    (ts.fire t).1.isCancelled i = true := by
  rw [isCancelled_eq_face] at h ⊢
  rw [face?_fire]
  rcases hf : ts.face? i with _ | f
  · rw [hf] at h
    cases h
  · rw [hf] at h
    split
    · rfl
    · exact h

end Tokens

namespace Grove

variable {x y : Grove} {birth : Option (Nat × Nat)}

theorem Goes.children (h : x.Goes birth y) (p : Nat) :
    (y.tokens.childrenOf p).Sublist (x.tokens.childrenOf p ++ heirs birth.toList p) := by
  induction h with
  | refl => exact List.sublist_append_left _ _
  | born bears =>
    rw [bears]
    exact (Tokens.childrenOf_link _ _ _ p).trans (by rw [Tokens.childrenOf_create]; rfl)
  | still _ _ _ children _ ih => rwa [children]
  | mint _ ih => rwa [Tokens.childrenOf_create]
  | fire t _ ih => rwa [Tokens.childrenOf_fire]
  | part t _ ih =>
    rw [Tokens.childrenOf_takeChildren]
    split
    · exact List.nil_sublist _
    · exact ih
  | enrol _ hr ih | subscribe _ hr ih => rwa [(Tokens.childrenOf_register hr).1]
  | lapse r _ ih | unsubscribe _ _ ih => rwa [Tokens.childrenOf_unregister]

theorem Goes.cancelled (h : x.Goes birth y) {t : Nat} (ht : x.tokens.isCancelled t = true) :
    y.tokens.isCancelled t = true := by
  induction h with
  | refl => exact ht
  | born =>
    rw [Tokens.isCancelled_of_faces (World.face?_link _ _ _), Tokens.isCancelled_create]
    exact ht
  | still _ _ faces _ _ ih => rwa [Tokens.isCancelled_of_faces faces]
  | mint _ ih => rwa [Tokens.isCancelled_create]
  | fire t _ ih => exact Tokens.isCancelled_of_fire ih t
  | part t _ ih => rwa [Tokens.isCancelled_takeChildren]
  | enrol _ hr ih | subscribe _ hr ih => rwa [Tokens.isCancelled_register hr]
  | lapse r _ ih | @unsubscribe _ r _ _ _ ih =>
    rw [Tokens.isCancelled_eq_face] at ih ⊢
    rw [Tokens.face?_unregister]
    split
    · rcases hf : Tokens.face? _ t with _ | f
      · rw [hf] at ih
        cases ih
      · rw [hf] at ih
        exact ih
    · exact ih

/-- Each waker of a task has a registration that a caller keeps. -/
structure Tended (x : Grove) : Prop where
  sound : x.tokens.Sound
  owned : ∀ t n s name, x.tokens.listener? t n = some s → s.waker = some (.task name) →
    ⟨t, n, s.generation⟩ ∈ x.kept

theorem Tended.of_faces (h : x.Tended) {ts : Tokens} (faces : ts.face? = x.tokens.face?)
    {kept : List Registration} (more : x.kept ⊆ kept) : (⟨ts, kept⟩ : Grove).Tended := by
  have listener (t n : Nat) : ts.listener? t n = x.tokens.listener? t n := by
    unfold Tokens.listener?
    rw [faces]
  have cancelled := Tokens.isCancelled_of_faces faces
  refine ⟨⟨fun t c l hl => h.sound.listeners t c l (faces ▸ hl), fun t n s hc hs => ?_⟩,
    fun t n s name hs hw => more (h.owned t n s name (listener t n ▸ hs) hw)⟩
  exact h.sound.silent t n s (cancelled t ▸ hc) (listener t n ▸ hs)

theorem Tended.mint (h : x.Tended) : ({ x with tokens := x.tokens.create.1 } : Grove).Tended := by
  obtain ⟨sound, same⟩ := h.sound.create
  exact ⟨sound, fun t n s name hs => h.owned t n s name ((same t).2 n ▸ hs)⟩

theorem Tended.register (h : x.Tended) {i : Nat} {w : Waker} {ts : Tokens} {r : Registration}
    (hr : x.tokens.register? i w = some (ts, r)) {kept : List Registration}
    (more : x.kept ⊆ kept) (mine : ∀ name, w = .task name → r ∈ kept) :
    (⟨ts, kept⟩ : Grove).Tended := by
  obtain ⟨subscribes, -⟩ := h.sound.register hr
  refine ⟨subscribes.sound, fun t n s name hs hw => ?_⟩
  have hs := (subscribes.listener t n).symm.trans hs
  split at hs
  · rename_i here
    obtain rfl := Option.some.inj hs
    obtain ⟨rfl, rfl⟩ := here
    exact mine name (Option.some.inj hw)
  · exact more (h.owned t n s name hs hw)

theorem Tended.unregister (h : x.Tended) (r : Registration) {kept : List Registration}
    (rest : ∀ r' ∈ x.kept, r' = r ∨ r' ∈ kept) :
    (⟨x.tokens.unregister r, kept⟩ : Grove).Tended := by
  obtain ⟨sound, -, kept', ended⟩ := h.sound.unregister r
  refine ⟨sound, fun t n s name hs hw => ?_⟩
  have hs : (x.tokens.unregister r).listener? t n = some s := hs
  by_cases hr : x.tokens.Keeps r
  · rw [kept' hr] at hs
    split at hs
    · rw [← Option.some.inj hs] at hw
      cases hw
    · rename_i apart
      refine (rest _ (h.owned t n s name hs hw)).resolve_left ?_
      rintro rfl
      exact apart ⟨rfl, rfl⟩
  · rw [ended hr] at hs
    refine (rest _ (h.owned t n s name hs hw)).resolve_left fun same => hr ?_
    -- Only a subscriber has a waker.
    obtain ⟨⟨c, l⟩, hf, hl⟩ := Option.bind_eq_some_iff.mp hs
    have occupied := (h.sound.listeners t c l hf).occupied n s hl (by rw [hw]; simp)
    exact same ▸ ⟨s, hs, occupied, rfl⟩

theorem Goes.tended (h : x.Goes birth y) (hx : x.Tended) : y.Tended := by
  induction h with
  | refl => exact hx
  | born => exact hx.mint.of_faces (World.face?_link _ _ _) (List.Subset.refl _)
  | still _ _ faces _ kept ih => exact ih.of_faces faces kept.symm.subset
  | mint _ ih => exact ih.mint
  | @fire y t _ ih =>
    obtain ⟨sound, -, listener, -⟩ := ih.sound.fire t
    refine ⟨sound, fun t' n s name hs hw => ?_⟩
    rw [listener] at hs
    split at hs
    · obtain ⟨s', -, rfl⟩ := Option.map_eq_some_iff.mp hs
      cases hw
    · exact ih.owned t' n s name hs hw
  | part t _ ih => exact ih.of_faces (World.face?_takeChildren _ _) (List.Subset.refl _)
  | enrol _ hr ih => exact ih.register hr (List.Subset.refl _) fun name => nofun
  | lapse r _ ih => exact ih.unregister r fun _ => .inr
  | subscribe _ hr ih =>
    exact ih.register hr (List.subset_cons_self _ _) fun _ _ => List.mem_cons_self
  | unsubscribe _ gone ih => exact ih.unregister _ fun r' hr' => List.mem_cons.mp (gone.subset hr')

end Grove

namespace Machine

variable {m₀ : Machine P}

theorem Fresh.grove_step (fresh : m₀.Fresh) (n : Nat) :
    (step^[n] m₀).grove.Goes (step^[n] m₀).bears? (step^[n + 1] m₀).grove := by
  rw [Function.iterate_succ_apply']
  exact Machine.grove_step (fresh.plays n) (fresh.distinct n)

theorem Fresh.children (fresh : m₀.Fresh) (n p : Nat) :
    ((step^[n] m₀).world.tokens.childrenOf p).Sublist (heirs (m₀.lineage n) p) := by
  induction n with
  | zero =>
    obtain ⟨now, ownClock, running, script, rfl⟩ := fresh
    exact List.nil_sublist _
  | succ n ih =>
    refine ((fresh.grove_step n).children p).trans ?_
    rw [lineage_add, heirs_append, show (step^[n] m₀).lineage 1 = (step^[n] m₀).bears?.toList from
      List.append_nil _]
    exact ih.append_right _

theorem Fresh.tended (fresh : m₀.Fresh) (n : Nat) : (step^[n] m₀).grove.Tended := by
  induction n with
  | zero =>
    have sound := (fresh.serves_if (n := 0) fun c : False => c.elim).tokens.sound
    refine ⟨sound, fun t n s name hs => ?_⟩
    obtain ⟨now, ownClock, running, script, rfl⟩ := fresh
    have none : (({} : Tokens).face? t).bind (fun f => f.2.slots[n]?) = some s := hs
    simp [Tokens.face?, Tokens.get?] at none
  | succ n ih => exact (fresh.grove_step n).tended ih

theorem Fresh.cancelled_for_good (fresh : m₀.Fresh) {n n' t : Nat} (later : n ≤ n')
    (ht : (step^[n] m₀).world.tokens.isCancelled t = true) :
    (step^[n'] m₀).world.tokens.isCancelled t = true := by
  induction n', later using Nat.le_induction with
  | base => exact ht
  | succ n' _ ih => exact (fresh.grove_step n').cancelled ih

end Machine

end Turnstile
