import Turnstile.Proofs.Ledger
import Turnstile.Proofs.Slots

/-!
# The slots of the tokens and the registrations

A registration has a slot of its token from the moment it is made until it is dropped, whether the
token is cancelled meanwhile or not. Callers and waiters make registrations and drop them in any
order, also while a cancellation is waking them. All the time the occupied slots are those of the
registrations that are alive, and each other slot waits to be used again.
-/

namespace Turnstile

variable {P : Policy}

/-! ## Listeners -/

namespace Listeners

variable {l : Listeners} {fired : Bool}

/-- A slot that is not occupied is to be used again. A subscriber has a waker, unless these have been
taken. -/
structure Tight (l : Listeners) (fired : Bool) : Prop where
  listed : ∀ (i : Nat) (s : Listener), l.slots[i]? = some s → s.occupied = false → i ∈ l.free
  heard : fired = false → ∀ (i : Nat) (s : Listener), l.slots[i]? = some s → s.occupied = true →
    s.waker ≠ none

theorem tight_empty : ({} : Listeners).Tight fired := ⟨by simp, by simp⟩

theorem mem_free_insert {w : Waker} {i : Nat} (hi : i ∈ l.free) (other : i ≠ (l.insert w).2.1) :
    i ∈ (l.insert w).1.free := by
  unfold insert at other ⊢
  split
  next j free hf =>
    rw [hf] at hi other
    exact (List.mem_cons.mp hi).resolve_left other
  next => exact hi

theorem Tight.insert (h : l.Tight false) (sound : l.Sound) (w : Waker) :
    (l.insert w).1.Tight false := by
  have slots := (sound.insert w).slots
  constructor
  · intro i s hs free
    rw [slots] at hs
    split at hs
    · rw [← Option.some.inj hs] at free
      cases free
    · exact mem_free_insert (h.listed i s hs free) ‹_›
  · intro _ i s hs occupied
    rw [slots] at hs
    split at hs
    · rw [← Option.some.inj hs]
      nofun
    · exact h.heard rfl i s hs occupied

theorem erase_free {i : Nat} {g : UInt32} (h : l.Holds i g) : (l.erase i g).free = i :: l.free := by
  obtain ⟨s, hs, occupied, rfl⟩ := h
  simp [erase, hs, occupied]

theorem Tight.erase (h : l.Tight fired) (sound : l.Sound) (i : Nat) (g : UInt32) :
    (l.erase i g).Tight fired := by
  obtain ⟨-, slots, same⟩ := sound.erase i g
  by_cases holds : l.Holds i g
  · have slots := slots holds
    constructor
    · intro j s hs free
      rw [erase_free holds]
      rw [slots] at hs
      split at hs
      · subst j
        exact List.mem_cons_self
      · exact List.mem_cons_of_mem _ (h.listed j s hs free)
    · intro silent j s hs occupied
      rw [slots] at hs
      split at hs
      · rw [← Option.some.inj hs] at occupied
        cases occupied
      · exact h.heard silent j s hs occupied
  · rwa [same holds]

theorem Tight.takeWakers (h : l.Tight fired) (sound : l.Sound) : l.takeWakers.1.Tight true := by
  obtain ⟨-, slots, -⟩ := sound.takeWakers
  refine ⟨fun i s hs free => ?_, nofun⟩
  rw [slots] at hs
  obtain ⟨s', hs', rfl⟩ := Option.map_eq_some_iff.mp hs
  exact h.listed i s' hs' free

theorem Tight.mem_free_iff (h : l.Tight fired) (sound : l.Sound) {i : Nat} :
    i ∈ l.free ↔ ∃ s, l.slots[i]? = some s ∧ s.occupied = false := by
  constructor
  · intro hi
    obtain ⟨g, hg⟩ := sound.vacant i hi
    exact ⟨_, hg, rfl⟩
  · rintro ⟨s, hs, free⟩
    exact h.listed i s hs free

end Listeners

/-! ## Tokens -/

namespace Tokens

variable {ts ts' : Tokens} {t : Nat} {r : Registration} {w : Waker}

/-- The registrations under which listeners of a token that meet `p` are known, in the order of their
slots. -/
def gather (ts : Tokens) (p : Listener → Bool) (t : Nat) : List Registration :=
  (List.range ((ts.get? t).elim 0 (·.listeners.slots.size))).filterMap fun n =>
    (ts.listener? t n).bind fun s => if p s then some ⟨t, n, s.generation⟩ else none

theorem mem_gather {p : Listener → Bool} : r ∈ ts.gather p t ↔ r.token = t ∧ ∃ s,
    ts.listener? t r.slot = some s ∧ p s = true ∧ s.generation = r.generation := by
  unfold gather
  rw [List.mem_filterMap]
  constructor
  · rintro ⟨n, -, hn⟩
    obtain ⟨s, hs, hr⟩ := Option.bind_eq_some_iff.mp hn
    split at hr
    · obtain rfl := Option.some.inj hr
      exact ⟨rfl, s, hs, ‹_›, rfl⟩
    · cases hr
  · rintro ⟨rfl, s, hs, hp, generation⟩
    refine ⟨r.slot, List.mem_range.mpr ?_, by simp [hs, hp, generation]⟩
    unfold listener? face? at hs
    rcases ht : ts.get? r.token with _ | u
    · simp [ht] at hs
    · rw [ht] at hs
      exact (Array.getElem?_eq_some_iff.mp hs).1

theorem nodup_gather (ts : Tokens) (p : Listener → Bool) (t : Nat) : (ts.gather p t).Nodup := by
  refine List.Nodup.filterMap (fun n n' r hn hn' => ?_) List.nodup_range
  have slot (n : Nat) (hn : r ∈ (ts.listener? t n).bind fun s =>
      if p s then some (⟨t, n, s.generation⟩ : Registration) else none) : r.slot = n := by
    obtain ⟨s, -, hr⟩ := Option.bind_eq_some_iff.mp hn
    split at hr
    · rw [← Option.some.inj hr]
    · cases hr
  exact (slot n hn).symm.trans (slot n' hn')

theorem filterMap_range {α β : Type} (l : List α) (f : α → Option β) :
    (List.range l.length).filterMap (fun n => l[n]?.bind f) = l.filterMap f := by
  induction l using List.reverseRecOn with
  | nil => rfl
  | append_singleton l a ih =>
    rw [List.length_append, List.length_singleton, List.range_succ, List.filterMap_append,
      List.filterMap_append, ← ih]
    congr 1
    · refine List.filterMap_congr fun n hn => ?_
      rw [List.getElem?_append_left (List.mem_range.mp hn)]
    · rw [List.filterMap_cons, List.getElem?_concat_length, Option.bind_some]
      rfl

theorem length_gather (ts : Tokens) (p : Listener → Bool) (t : Nat) :
    (ts.gather p t).length = (ts.get? t).elim 0 (·.listeners.slots.countP p) := by
  have met (n : Nat) : ((ts.listener? t n).bind fun s =>
      if p s then some (⟨t, n, s.generation⟩ : Registration) else none).isSome =
        (ts.listener? t n).any p := by
    rcases ts.listener? t n with _ | s
    · rfl
    · rcases hp : p s <;> simp [hp]
  rw [gather, List.length_filterMap_eq_countP]
  simp only [met]
  rcases hu : ts.get? t with _ | u
  · rfl
  · have slots (n : Nat) : ts.listener? t n = u.listeners.slots[n]? := by
      simp [listener?, face?, hu]
    have places := congrArg List.length
      (filterMap_range u.listeners.slots.toList (Option.guard p))
    have guarded (s : Listener) : (Option.guard p s).isSome = p s := Option.isSome_guard
    rw [List.length_filterMap_eq_countP, List.length_filterMap_eq_countP] at places
    simp only [guarded, Option.isSome_bind, Array.length_toList, Array.getElem?_toList] at places
    simp only [slots, Option.elim_some]
    rw [places, Array.countP_toList]

/-- The free lists are whole, and whoever subscribes to a token that has not fired has a waker there. -/
def Tight (ts : Tokens) : Prop := ∀ t c l, ts.face? t = some (c, l) → l.Tight c

theorem Tight.same (h : ts.Tight) (faces : ts'.face? = ts.face?) : ts'.Tight :=
  fun t c l hl => h t c l (faces ▸ hl)

theorem Tight.register (h : ts.Tight) (sound : ts.Sound)
    (hr : ts.register? t w = some (ts', r)) : ts'.Tight := by
  obtain ⟨l, face, -, faces⟩ := register?_face hr
  intro j c l' hl
  rw [faces] at hl
  split at hl
  · obtain ⟨rfl, rfl⟩ := Prod.mk.inj (Option.some.inj hl)
    exact (h t false l face).insert (sound.listeners t false l face) w
  · exact h j c l' hl

theorem Tight.change (h : ts.Tight) (sound : ts.Sound) {f : Bool × Listeners → Bool × Listeners}
    (faces : ∀ j, ts'.face? j = if j = t then (ts.face? j).map f else ts.face? j)
    (tight : ∀ c l, l.Tight c → l.Sound → (f (c, l)).2.Tight (f (c, l)).1) : ts'.Tight := by
  intro j c l hl
  rw [faces] at hl
  split at hl
  · obtain ⟨⟨c', l'⟩, hl, changed⟩ := Option.map_eq_some_iff.mp hl
    have := tight c' l' (h j c' l' hl) (sound.listeners j c' l' hl)
    rwa [changed] at this
  · exact h j c l hl

theorem Tight.unregister (h : ts.Tight) (sound : ts.Sound) (r : Registration) :
    (ts.unregister r).Tight :=
  h.change sound (ts.face?_unregister r) fun _ _ tight sound => tight.erase sound _ _

theorem Tight.fire (h : ts.Tight) (sound : ts.Sound) (t : Nat) : (ts.fire t).1.Tight :=
  h.change sound (ts.face?_fire t) fun _ _ tight sound => tight.takeWakers sound

theorem Tight.create (h : ts.Tight) : ts.create.1.Tight := by
  intro j c l hl
  rw [face?_create] at hl
  split at hl
  · obtain ⟨rfl, rfl⟩ := Prod.mk.inj (Option.some.inj hl)
    exact Listeners.tight_empty
  · exact h j c l hl

/-! ### Subscriptions that have not ended -/

theorem keeps_of_faces (faces : ts'.face? = ts.face?) : ts'.Keeps r ↔ ts.Keeps r := by
  unfold Keeps listener?
  rw [faces]

theorem Subscribes.keeps (h : ts.Subscribes ts' r w) (r' : Registration) :
    ts'.Keeps r' ↔ r' = r ∨ ts.Keeps r' := by
  unfold Keeps
  rw [h.listener]
  by_cases here : r'.token = r.token ∧ r'.slot = r.slot
  · have unknown : ¬∃ s, ts.listener? r'.token r'.slot = some s ∧ s.occupied = true ∧
        s.generation = r'.generation := by
      rintro ⟨s, hs, occupied, -⟩
      rw [here.1, here.2] at hs
      rw [(h.vacant s hs).2] at occupied
      cases occupied
    rw [if_pos here, or_iff_left unknown]
    constructor
    · rintro ⟨s, hs, -, generation⟩
      obtain rfl := Option.some.inj hs
      cases r
      cases r'
      simp_all
    · rintro rfl
      exact ⟨_, rfl, rfl, rfl⟩
  · rw [if_neg here, or_iff_right]
    rintro rfl
    exact here ⟨rfl, rfl⟩

theorem Subscribes.new (h : ts.Subscribes ts' r w) : ¬ts.Keeps r := by
  rintro ⟨s, hs, occupied, -⟩
  rw [(h.vacant s hs).2] at occupied
  cases occupied

theorem Keeps.unique {r' : Registration} (h : ts.Keeps r) (h' : ts.Keeps r')
    (token : r'.token = r.token) (slot : r'.slot = r.slot) : r' = r := by
  obtain ⟨s, hs, -, generation⟩ := h
  obtain ⟨s', hs', -, generation'⟩ := h'
  rw [token, slot, hs] at hs'
  obtain rfl := Option.some.inj hs'
  cases r
  cases r'
  simp_all

theorem Sound.keeps_unregister (h : ts.Sound) (hr : ts.Keeps r) (r' : Registration) :
    (ts.unregister r).Keeps r' ↔ ts.Keeps r' ∧ r' ≠ r := by
  obtain ⟨-, -, ended, -⟩ := h.unregister r
  constructor
  · rintro ⟨s, hs, occupied, generation⟩
    rw [ended hr] at hs
    split at hs
    · rw [← Option.some.inj hs] at occupied
      cases occupied
    · rename_i apart
      refine ⟨⟨s, hs, occupied, generation⟩, ?_⟩
      rintro rfl
      exact apart ⟨rfl, rfl⟩
  · rintro ⟨stays, other⟩
    unfold Keeps
    rw [ended hr, if_neg fun here => other (hr.unique stays here.1 here.2)]
    exact stays

theorem Sound.keeps_fire (h : ts.Sound) (t : Nat) : (ts.fire t).1.Keeps r ↔ ts.Keeps r := by
  obtain ⟨-, -, listener, -⟩ := h.fire t
  unfold Keeps
  rw [listener]
  split
  · rcases ts.listener? r.token r.slot with _ | s <;> simp
  · rfl

theorem Sound.keeps_create (h : ts.Sound) : ts.create.1.Keeps r ↔ ts.Keeps r := by
  unfold Keeps
  rw [(h.create.2 r.token).2]

end Tokens

/-! ## Who has them -/

/-- The registrations in `K` are those that callers keep and those that waiters have out, and nobody
shares one. -/
structure Held (K : Registration → Prop) (out : Nat → Nat → Option Registration)
    (kept : List Registration) : Prop where
  all : ∀ r, K r ↔ r ∈ kept ∨ ∃ i j, out i j = some r
  nodup : kept.Nodup
  apart : ∀ r ∈ kept, ∀ i j, out i j ≠ some r
  unique : ∀ i j i' j' r, out i j = some r → out i' j' = some r → i = i' ∧ j = j'

namespace Held

variable {K K' : Registration → Prop} {out out' : Nat → Nat → Option Registration}
  {kept kept' : List Registration} {i j : Nat} {r : Registration}

theorem same (h : Held K out kept) (all : ∀ r, K' r ↔ K r) (perm : kept'.Perm kept) :
    Held K' out kept' :=
  ⟨fun r => by rw [all, h.all, perm.mem_iff], perm.nodup_iff.mpr h.nodup,
    fun r hr => h.apart r (perm.subset hr), h.unique⟩

theorem keep (h : Held K out kept) (new : ¬K r) (all : ∀ r', K' r' ↔ r' = r ∨ K r') :
    Held K' out (r :: kept) := by
  have mine : ¬(r ∈ kept ∨ ∃ i j, out i j = some r) := fun known => new ((h.all r).mpr known)
  refine ⟨fun r' => ?_, List.nodup_cons.mpr ⟨fun known => mine (.inl known), h.nodup⟩,
    fun r' hr i j hj => ?_, h.unique⟩
  · rw [all, h.all, List.mem_cons, or_assoc]
  · rcases List.mem_cons.mp hr with rfl | hr
    · exact mine (.inr ⟨i, j, hj⟩)
    · exact h.apart r' hr i j hj

theorem drop (h : Held K out kept) (gone : kept.Perm (r :: kept'))
    (all : ∀ r', K' r' ↔ K r' ∧ r' ≠ r) : Held K' out kept' := by
  have h : Held K out (r :: kept') := h.same (fun _ => .rfl) gone.symm
  obtain ⟨unlisted, nodup⟩ := List.nodup_cons.mp h.nodup
  refine ⟨fun r' => ?_, nodup, fun r' hr => h.apart r' (List.mem_cons_of_mem _ hr), h.unique⟩
  rw [all, h.all, List.mem_cons]
  constructor
  · rintro ⟨(rfl | known) | waits, other⟩
    · exact absurd rfl other
    · exact .inl known
    · exact .inr waits
  · rintro (known | ⟨i, j, hj⟩)
    · exact ⟨.inl (.inr known), fun here => unlisted (here ▸ known)⟩
    · exact ⟨.inr ⟨i, j, hj⟩, fun here => h.apart r List.mem_cons_self i j (here ▸ hj)⟩

theorem enrol (h : Held K out kept) (free : out i j = none) (new : ¬K r)
    (all : ∀ r', K' r' ↔ r' = r ∨ K r')
    (outs : ∀ i' j', out' i' j' = if i' = i ∧ j' = j then some r else out i' j') :
    Held K' out' kept := by
  have mine : ¬(r ∈ kept ∨ ∃ i j, out i j = some r) := fun known => new ((h.all r).mpr known)
  have cases {i' j' : Nat} {r' : Registration} (hr : out' i' j' = some r') :
      (i' = i ∧ j' = j ∧ r' = r) ∨ out i' j' = some r' := by
    rw [outs] at hr
    split at hr
    · rename_i here
      exact .inl ⟨here.1, here.2, (Option.some.inj hr).symm⟩
    · exact .inr hr
  have stays {i' j' : Nat} {r' : Registration} (hr : out i' j' = some r') : out' i' j' = some r' := by
    rw [outs, if_neg, hr]
    rintro ⟨rfl, rfl⟩
    cases free.symm.trans hr
  refine ⟨fun r' => ?_, h.nodup, fun r' hr i' j' hj => ?_, fun i' j' i'' j'' r' hj hj' => ?_⟩
  · rw [all, h.all]
    constructor
    · rintro (rfl | known | ⟨i', j', hj⟩)
      · exact .inr ⟨i, j, by rw [outs, if_pos ⟨rfl, rfl⟩]⟩
      · exact .inl known
      · exact .inr ⟨i', j', stays hj⟩
    · rintro (known | ⟨i', j', hj⟩)
      · exact .inr (.inl known)
      · exact (cases hj).imp (·.2.2) fun hj => .inr ⟨i', j', hj⟩
  · rcases cases hj with ⟨-, -, rfl⟩ | hj
    · exact mine (.inl hr)
    · exact h.apart r' hr i' j' hj
  · rcases cases hj with ⟨rfl, rfl, rfl⟩ | hj <;> rcases cases hj' with ⟨rfl, rfl, same⟩ | hj'
    · exact ⟨rfl, rfl⟩
    · exact absurd (.inr ⟨_, _, hj'⟩) mine
    · exact absurd (.inr ⟨_, _, same ▸ hj⟩) mine
    · exact h.unique i' j' i'' j'' r' hj hj'

theorem lapse (h : Held K out kept) (hr : out i j = some r) (all : ∀ r', K' r' ↔ K r' ∧ r' ≠ r)
    (outs : ∀ i' j', out' i' j' = if i' = i ∧ j' = j then none else out i' j') :
    Held K' out' kept := by
  have old {i' j' : Nat} {r' : Registration} (hj : out' i' j' = some r') :
      out i' j' = some r' ∧ ¬(i' = i ∧ j' = j) := by
    rw [outs] at hj
    split at hj
    · cases hj
    · exact ⟨hj, ‹_›⟩
  refine ⟨fun r' => ?_, h.nodup, fun r' hr i' j' hj => h.apart r' hr i' j' (old hj).1,
    fun i' j' i'' j'' r' hj hj' => h.unique i' j' i'' j'' r' (old hj).1 (old hj').1⟩
  rw [all, h.all]
  constructor
  · rintro ⟨known | ⟨i', j', hj⟩, other⟩
    · exact .inl known
    · refine .inr ⟨i', j', ?_⟩
      rw [outs, if_neg, hj]
      rintro ⟨rfl, rfl⟩
      exact other (Option.some.inj (hj.symm.trans hr))
  · rintro (known | ⟨i', j', hj⟩)
    · exact ⟨.inl known, fun here => h.apart r' known i j (here ▸ hr)⟩
    · obtain ⟨hj, apart⟩ := old hj
      exact ⟨.inr ⟨i', j', hj⟩, fun here => apart (h.unique i' j' i j r (here ▸ hj) hr)⟩

end Held

namespace Tokens

/-- The occupied slots of the tokens are those of the registrations that callers keep and that waiters
have out. -/
structure Leased (ts : Tokens) (out : Nat → Nat → Option Registration) (kept : List Registration) :
    Prop where
  sound : ts.Sound
  tight : ts.Tight
  held : Held ts.Keeps out kept

variable {ts ts' : Tokens} {out out' : Nat → Nat → Option Registration}
  {kept kept' : List Registration} {i j t : Nat} {r : Registration} {w : Waker}

theorem Leased.same (h : ts.Leased out kept) (faces : ts'.face? = ts.face?) (perm : kept'.Perm kept) :
    ts'.Leased out kept' := by
  refine ⟨⟨fun t c l hl => h.sound.listeners t c l (faces ▸ hl), fun t n s hc hs => ?_⟩,
    h.tight.same faces, h.held.same (fun r => keeps_of_faces faces) perm⟩
  have cancelled : ts'.isCancelled t = ts.isCancelled t := by
    rw [isCancelled_eq_face, isCancelled_eq_face, faces]
  have listener : ts'.listener? t n = ts.listener? t n := by
    unfold listener?
    rw [faces]
  exact h.sound.silent t n s (cancelled ▸ hc) (listener ▸ hs)

theorem Leased.create (h : ts.Leased out kept) : ts.create.1.Leased out kept :=
  ⟨h.sound.create.1, h.tight.create, h.held.same (fun _ => h.sound.keeps_create) (.refl _)⟩

theorem Leased.fire (h : ts.Leased out kept) (t : Nat) : (ts.fire t).1.Leased out kept :=
  ⟨(h.sound.fire t).1, h.tight.fire h.sound t,
    h.held.same (fun _ => h.sound.keeps_fire t) (.refl _)⟩

theorem Leased.register (h : ts.Leased out kept) (hr : ts.register? t w = some (ts', r)) :
    ts'.Leased out (r :: kept) := by
  obtain ⟨subscribes, -⟩ := h.sound.register hr
  exact ⟨subscribes.sound, h.tight.register h.sound hr,
    h.held.keep subscribes.new subscribes.keeps⟩

theorem Leased.drop (h : ts.Leased out kept) (gone : kept.Perm (r :: kept')) :
    (ts.unregister r).Leased out kept' := by
  have mine : ts.Keeps r := (h.held.all r).mpr (.inl (gone.symm.subset List.mem_cons_self))
  exact ⟨(h.sound.unregister r).1, h.tight.unregister h.sound r,
    h.held.drop gone (h.sound.keeps_unregister mine)⟩

theorem Leased.enrol (h : ts.Leased out kept) {token : Option Nat} {r? : Option Registration}
    (free : out i j = none) (subscribed : Section.subscribe? ts token w = some (ts', r?))
    (outs : ∀ i' j', out' i' j' = if i' = i ∧ j' = j then r? else out i' j') :
    ts'.Leased out' kept := by
  rcases token with _ | k
  · obtain ⟨rfl, rfl⟩ := Prod.mk.inj (Option.some.inj subscribed)
    have unchanged : out' = out := by
      funext i' j'
      rw [outs]
      split
      · rename_i here
        rw [here.1, here.2, free]
      · rfl
    rwa [unchanged]
  · obtain ⟨⟨ts'', r⟩, hr, pair⟩ := Option.map_eq_some_iff.mp subscribed
    obtain ⟨rfl, rfl⟩ := Prod.mk.inj pair
    obtain ⟨subscribes, -⟩ := h.sound.register hr
    exact ⟨subscribes.sound, h.tight.register h.sound hr,
      h.held.enrol free subscribes.new subscribes.keeps outs⟩

theorem Leased.lapse (h : ts.Leased out kept)
    (outs : ∀ i' j', out' i' j' = if i' = i ∧ j' = j then none else out i' j') :
    ((out i j).elim ts ts.unregister).Leased out' kept := by
  rcases hr : out i j with _ | r
  · have unchanged : out' = out := by
      funext i' j'
      rw [outs]
      split
      · rename_i here
        rw [here.1, here.2, hr]
      · rfl
    rwa [unchanged]
  · have mine : ts.Keeps r := (h.held.all r).mpr (.inr ⟨i, j, hr⟩)
    exact ⟨(h.sound.unregister r).1, h.tight.unregister h.sound r,
      h.held.lapse hr (h.sound.keeps_unregister mine) outs⟩

theorem leased_empty : ({} : Tokens).Leased (fun _ _ => none) [] := by
  have none (t : Nat) : ({} : Tokens).face? t = none := by simp [face?, get?]
  have nobody (t n : Nat) : ({} : Tokens).listener? t n = Option.none := by
    rw [listener?, none, Option.bind_none]
  refine ⟨⟨fun t c l hl => ?_, fun t n s _ hs => ?_⟩, fun t c l hl => ?_, fun r => ?_,
    List.nodup_nil, fun r hr => ?_, fun i j i' j' r hj => ?_⟩
  · cases (none t).symm.trans hl
  · cases (nobody t n).symm.trans hs
  · cases (none t).symm.trans hl
  · simp [Keeps, nobody]
  · cases hr
  · cases hj

/-! ### What can be told from a list of the registrations -/

/-- The registrations `live` have the slots of the tokens among them. -/
structure Matches (ts : Tokens) (live : List Registration) : Prop where
  /-- The occupied slots of a token are those of its registrations, one to one. -/
  leased : ∀ t, (live.filter (·.token = t)).Perm (ts.gather (·.occupied) t)
  free : ∀ t u, ts.get? t = some u → u.listeners.free.Nodup ∧
    ∀ n, n ∈ u.listeners.free ↔ ∃ s, u.listeners.slots[n]? = some s ∧ s.occupied = false
  count : ∀ t, ts.listenerCount t =
    if ts.isCancelled t then 0 else (live.filter (·.token = t)).length
  /-- Whoever drops a registration leaves the slots of all others alone. -/
  drop : ∀ r ∈ live, ∀ r' ∈ live, r' ≠ r →
    (ts.unregister r).listener? r'.token r'.slot = ts.listener? r'.token r'.slot ∧
      ∀ u, (ts.unregister r).get? r'.token = some u → r'.slot ∉ u.listeners.free

theorem Sound.not_mem_free (h : ts.Sound) (hr : ts.Keeps r) {u : Token}
    (hu : ts.get? r.token = some u) : r.slot ∉ u.listeners.free := by
  intro free
  have face : ts.face? r.token = some (u.cancelled, u.listeners) := by rw [face?, hu]; rfl
  obtain ⟨g, vacant⟩ := (h.listeners _ _ _ face).vacant _ free
  obtain ⟨s, hs, occupied, -⟩ := hr
  rw [listener?, face, Option.bind_some, vacant] at hs
  rw [← Option.some.inj hs] at occupied
  cases occupied

theorem Sound.listenerCount_of_cancelled (h : ts.Sound) (ht : ts.isCancelled t = true) :
    ts.listenerCount t = 0 := by
  unfold Tokens.listenerCount
  rcases hu : ts.get? t with _ | u
  · rfl
  · show u.listeners.slots.countP _ = 0
    refine Array.countP_eq_zero.mpr fun s hs => ?_
    obtain ⟨n, hn⟩ := Array.mem_iff_getElem?.mp hs
    have silent := h.silent t n s ht (by simp [listener?, face?, hu, hn])
    simp [silent]

theorem Leased.listenerCount (h : ts.Leased out kept) (free : ts.isCancelled t = false) :
    ts.listenerCount t = (ts.gather (·.occupied) t).length := by
  rw [length_gather, Tokens.listenerCount]
  rcases hu : ts.get? t with _ | u
  · rfl
  · have running : u.cancelled = false := by simpa [isCancelled, hu] using free
    have face : ts.face? t = some (false, u.listeners) := by rw [face?, hu, ← running]; rfl
    have heard := (h.tight _ _ _ face).heard rfl
    have occupied := (h.sound.listeners _ _ _ face).occupied
    refine Array.countP_congr fun s hs => ?_
    obtain ⟨n, hn⟩ := Array.mem_iff_getElem?.mp hs
    rw [Option.isSome_iff_ne_none]
    exact ⟨occupied n s hn, heard n s hn⟩

theorem Leased.matches (h : ts.Leased out kept) {live : List Registration} (nodup : live.Nodup)
    (all : ∀ r, r ∈ live ↔ ts.Keeps r) : ts.Matches live := by
  have leased (t : Nat) : (live.filter (·.token = t)).Perm (ts.gather (·.occupied) t) := by
    refine (List.perm_ext_iff_of_nodup (nodup.filter _) (ts.nodup_gather _ t)).mpr fun r => ?_
    rw [List.mem_filter, all, mem_gather, decide_eq_true_eq, and_comm]
    exact and_congr_right fun token => by rw [← token]; rfl
  refine ⟨leased, fun t u hu => ?_, fun t => ?_, fun r hr r' hr' other => ?_⟩
  · have face : ts.face? t = some (u.cancelled, u.listeners) := by rw [face?, hu]; rfl
    have sound := h.sound.listeners _ _ _ face
    exact ⟨sound.nodup, fun n => (h.tight _ _ _ face).mem_free_iff sound⟩
  · split
    · rename_i cancelled
      exact h.sound.listenerCount_of_cancelled cancelled
    · rename_i running
      rw [h.listenerCount (Bool.eq_false_iff.mpr running), (leased t).length_eq]
  · have keeps := (all r).mp hr
    have keeps' := (all r').mp hr'
    obtain ⟨sound, -, ended, -⟩ := h.sound.unregister r
    refine ⟨?_, fun u => sound.not_mem_free ((h.sound.keeps_unregister keeps r').mpr ⟨keeps', other⟩)⟩
    rw [ended keeps, if_neg fun here => other (keeps.unique keeps' here.1 here.2)]

end Tokens

/-! ## Steps -/

/-- The registration that the waiter in slot `j` of synchronizer `i` has out. -/
def outs (syncs : Array (Sync P)) (i j : Nat) : Option Registration :=
  (syncs[i]?.bind fun s => s.line.arms? j).bind (·.registration)

theorem World.Steps.leased {w w' : World P} {ask : Option (Nat × Asking)} (h : w.Steps ask w')
    {kept : List Registration} (leased : w.tokens.Leased (outs w.syncs) kept) :
    w'.tokens.Leased (outs w'.syncs) kept := by
  obtain ⟨i, works⟩ := h
  have out (w : World P) (k l : Nat) : outs w.syncs k l = (w.arms? k l).bind (·.registration) := rfl
  refine works.keeps (I := fun w => w.tokens.Leased (outs w.syncs) kept) leased
    (fun s hi t u q ih => ?_) (fun s hi t u j a q ih => ?_) fun s hi q _ t u j a enrols ih => ?_
  · have same : outs (w.outside i u).syncs = outs (w.outside i t).syncs := by
      funext k l
      rw [out, out, outside_silent hi q]
    show u.tokens.Leased _ kept
    rw [same, q.tokens]
    exact ih
  · obtain ⟨armed, lapsed⟩ := outside_lapse hi q
    have lapse : ((outs (w.outside i t).syncs i j).elim t.tokens t.tokens.unregister).Leased
        (outs (w.outside i u).syncs) kept := ih.lapse fun k l => by
      rw [out, out, lapsed]
      split <;> rfl
    rw [out, armed, Option.bind_some] at lapse
    show u.tokens.Leased _ kept
    rw [q.tokens]
    exact lapse
  · have enrolled := outside_enrols hi enrols
    refine ih.enrol (i := i) (j := j) ?_ enrols.tokens fun k l => ?_
    · rw [out, enrolled.free, Option.bind_none]
    · rw [out, out, enrolled.arms]
      split <;> rfl

namespace Ledger

/-- The occupied slots of the tokens are those of the registrations that are alive. -/
def Leased (x : Ledger P) : Prop := x.tokens.Leased (outs x.syncs) x.kept

theorem Goes.leased {x y : Ledger P} {birth : Option (Nat × Nat)} (h : x.Goes birth y)
    (hx : x.Leased) : y.Leased := by
  induction h with
  | refl => exact hx
  | born => exact hx.create.same (World.face?_link _ _ _) (.refl _)
  | still _ syncs _ faces _ kept ih =>
    unfold Leased
    rw [syncs]
    exact ih.same faces kept
  | visit _ q ih => exact q.leased ih
  | @found y s _ idle ih =>
    have same : outs (y.syncs.push s) = outs y.syncs := by
      funext i j
      have arms := congrFun (congrFun (World.arms?_push (w := { syncs := y.syncs }) idle) i) j
      exact congrArg (Option.bind · (·.registration)) arms
    unfold Leased
    rw [same]
    exact ih
  | mint _ ih => exact ih.create
  | fire t _ ih => exact ih.fire t
  | part t _ ih => exact ih.same (World.face?_takeChildren _ _) (.refl _)
  | subscribe _ hr ih => exact ih.register hr
  | unsubscribe _ gone ih => exact ih.drop gone

end Ledger

/-! ## Runs -/

namespace World

variable {w : World P} {items : List (Item P)} {i j : Nat} {r : Registration}

/-- The registrations of all waiters there are. -/
def leases (w : World P) : List Registration :=
  w.syncs.toList.flatMap fun s =>
    s.line.pool.slots.toList.filterMap fun slot => slot.waiter.bind (·.registration)

theorem Plays.pool (h : w.Plays items) {s : Sync P} (hi : w.syncs[i]? = some s) :
    s.line.pool.Sound ∧ s.line.pool.Listed := by
  obtain ⟨c, ⟨id, holding, warm, retainLimit, timers, tokens, xs, rfl⟩, rfl, -⟩ := h.scene i s hi
  obtain ⟨d, L, shows⟩ := Scene.run_shows (P := P) id holding warm retainLimit timers tokens xs
  exact ⟨shows.rests.sound, Scene.listed_of_run id holding warm retainLimit timers tokens xs⟩

theorem Plays.outs_iff (h : w.Plays items) : outs w.syncs i j = some r ↔
    ∃ s slot, w.syncs[i]? = some s ∧ s.line.pool.slots[j]? = some slot ∧
      slot.waiter.bind (·.registration) = some r := by
  constructor
  · intro hr
    obtain ⟨a, ha, registration⟩ := Option.bind_eq_some_iff.mp hr
    obtain ⟨s, hi, ha⟩ := Option.bind_eq_some_iff.mp ha
    obtain ⟨v, hv, armed⟩ := Option.bind_eq_some_iff.mp ha
    obtain rfl := Waiter.arms?_eq_some armed
    obtain ⟨slot, hj, -, waiter⟩ := Pool.rented?_eq_some.mp hv
    exact ⟨s, slot, hi, hj, by rw [waiter]; exact registration⟩
  · rintro ⟨s, slot, hi, hj, hr⟩
    obtain ⟨v, waiter, registration⟩ := Option.bind_eq_some_iff.mp hr
    obtain ⟨sound, listed⟩ := h.pool hi
    rcases sound.rented_or_idle listed hj waiter with rented | ⟨rfl, -⟩
    · rcases armed : v.arms? with _ | a
      · rw [(Waiter.arms?_eq_none armed).2] at registration
        cases registration
      · have waits : s.line.waiter? j = some v := rented
        rw [outs, hi, Option.bind_some, Line.arms?, waits, Option.bind_some, armed,
          Waiter.arms?_eq_some armed]
        exact registration
    · cases registration

theorem Plays.mem_leases (h : w.Plays items) : r ∈ w.leases ↔ ∃ i j, outs w.syncs i j = some r := by
  simp only [leases, List.mem_flatMap, List.mem_filterMap, Array.mem_toList_iff,
    Array.mem_iff_getElem?, h.outs_iff]
  constructor
  · rintro ⟨s, ⟨i, hi⟩, slot, ⟨j, hj⟩, hr⟩
    exact ⟨i, j, s, slot, hi, hj, hr⟩
  · rintro ⟨i, j, s, slot, hi, hj, hr⟩
    exact ⟨s, ⟨i, hi⟩, slot, ⟨j, hj⟩, hr⟩

theorem Plays.nodup_leases (h : w.Plays items)
    (unique : ∀ i j i' j' r, outs w.syncs i j = some r → outs w.syncs i' j' = some r →
      i = i' ∧ j = j') : w.leases.Nodup := by
  refine List.nodup_flatMap.mpr ⟨fun s hs => ?_, List.pairwise_iff_getElem.mpr ?_⟩
  · obtain ⟨i, hi⟩ := Array.mem_iff_getElem?.mp (Array.mem_toList_iff.mp hs)
    have known (j : Nat) (hj : j < s.line.pool.slots.toList.length) (r : Registration)
        (hr : s.line.pool.slots.toList[j].waiter.bind (·.registration) = some r) :
        outs w.syncs i j = some r :=
      h.outs_iff.mpr ⟨s, _, hi, by rw [← Array.getElem?_toList, List.getElem?_eq_getElem hj], hr⟩
    refine List.pairwise_filterMap.mpr (List.pairwise_iff_getElem.mpr ?_)
    rintro j j' hj hj' before r hr _ hr' rfl
    exact Nat.ne_of_lt before (unique _ _ _ _ r (known j hj r hr) (known j' hj' r hr')).2
  · have known (i : Nat) (hi : i < w.syncs.toList.length) (r : Registration)
        (hr : r ∈ w.syncs.toList[i].line.pool.slots.toList.filterMap fun slot =>
          slot.waiter.bind (·.registration)) : ∃ j, outs w.syncs i j = some r := by
      obtain ⟨slot, hj, hr⟩ := List.mem_filterMap.mp hr
      obtain ⟨j, hj⟩ := Array.mem_iff_getElem?.mp (Array.mem_toList_iff.mp hj)
      exact ⟨j, h.outs_iff.mpr
        ⟨_, slot, by rw [← Array.getElem?_toList, List.getElem?_eq_getElem hi], hj, hr⟩⟩
    rintro i i' hi hi' before r hr hr'
    obtain ⟨j, hj⟩ := known i hi r hr
    obtain ⟨j', hj'⟩ := known i' hi' r hr'
    exact Nat.ne_of_lt before (unique _ _ _ _ r hj hj').1

end World

namespace Machine

variable {m₀ : Machine P}

/-- All registrations that have not been dropped: those that callers keep, and those of waiters. -/
def live (m : Machine P) : List Registration := registrations m.items ++ m.world.leases

theorem Fresh.leased (fresh : m₀.Fresh) (n : Nat) : (step^[n] m₀).ledger.Leased := by
  induction n with
  | zero =>
    obtain ⟨now, ownClock, running, script, rfl⟩ := fresh
    have nobody : outs (#[] : Array (Sync P)) = fun _ _ => none := by
      funext i j
      simp [outs]
    show ({} : Tokens).Leased (outs #[]) []
    rw [nobody]
    exact Tokens.leased_empty
  | succ n ih =>
    rw [Function.iterate_succ_apply']
    exact (ledger_step (fresh.plays n) (fresh.distinct n)).leased ih

/-- Whatever a script does, and also while a cancellation wakes those who are subscribed, the occupied
slots of each token are those of the registrations that are alive. Each other slot is listed once to be
used again, and a token has as many listeners as registrations, or none once it has fired. -/
theorem Fresh.live_matches (fresh : m₀.Fresh) (n : Nat) :
    (step^[n] m₀).world.tokens.Matches (step^[n] m₀).live := by
  have leased := fresh.leased n
  have held := leased.held
  have plays := fresh.plays n
  refine leased.matches ?_ fun r => ?_
  · refine List.nodup_append.mpr ⟨held.nodup, plays.nodup_leases held.unique, ?_⟩
    rintro r hr _ hr' rfl
    obtain ⟨i, j, hj⟩ := plays.mem_leases.mp hr'
    exact held.apart r hr i j hj
  · rw [live, List.mem_append, plays.mem_leases]
    exact (held.all r).symm

/-- Of three who are subscribed, the first to be woken drops the registration of the second. -/
def crowd : Machine Policy.standard :=
  ofScript (.blank .zero none false)
    [.createToken "token", .create "lock" false (.exclusive true) {},
      .register "token" "first" "one" none, .register "token" "second" "two" none,
      .acquire "lock" "waiting"
        { request := .entry, timeout := .ok .forever, token := some "token" },
      .drop "first",
      .register "token" "third" "three"
        (some [.drop "second", .cancel "token", .register "token" "late" "four" none]),
      .cancel "token"]

theorem live_matches_crowd :
    (step^[29] crowd).agenda ≠ [] ∧ (step^[29] crowd).live = [⟨0, 0, 1⟩, ⟨0, 2, 0⟩] ∧
      (step^[29] crowd).world.tokens.Matches [⟨0, 0, 1⟩, ⟨0, 2, 0⟩] := by
  have waking : (step^[29] crowd).agenda.isEmpty = false := by decide +kernel
  have live : (step^[29] crowd).live = [⟨0, 0, 1⟩, ⟨0, 2, 0⟩] := by decide +kernel
  have fresh : crowd.Fresh := ⟨.zero, none, false, _, rfl⟩
  exact ⟨List.isEmpty_eq_false_iff.mp waking, live, live ▸ fresh.live_matches 29⟩

end Machine

end Turnstile
