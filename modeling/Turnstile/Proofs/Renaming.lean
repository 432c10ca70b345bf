import Turnstile.Proofs.Serving
import Mathlib.Logic.Function.Basic

/-!
# Wakes under other names

A trigger names a slot, so two runs whose waiters stand in different slots have different wakers with
the timers and the tokens. What the timers and the tokens do with a waker does not depend on which
one it is.
-/

namespace Turnstile

/-- Slot `g i j` stands for slot `j` of synchronizer `i`. -/
def Waker.rename (g : Nat → Nat → Nat) : Waker → Waker
  | .trigger i j => .trigger i (g i j)
  | .task name => .task name
  | .sleeper => .sleeper

theorem Waker.rename_of_target? {w : Waker} (h : w.target? = none) (g : Nat → Nat → Nat) :
    w.rename g = w := by
  cases w with
  | trigger i j => cases h
  | _ => rfl

theorem map_rename_of_targets {ws : List Waker} (h : targets ws = []) (g : Nat → Nat → Nat) :
    ws.map (Waker.rename g) = ws := by
  have same : ∀ w ∈ ws, w.rename g = w := fun w hw =>
    Waker.rename_of_target? (List.filterMap_eq_nil_iff.mp h w hw) g
  exact (List.map_congr_left same).trans (List.map_id' ws)

/-- Slot `j'` stands for slot `j` of synchronizer `i` from now on. -/
def renew (g : Nat → Nat → Nat) (i j j' : Nat) : Nat → Nat → Nat := fun k n =>
  if k = i ∧ n = j then j' else g k n

section

variable {g : Nat → Nat → Nat} {i j j' : Nat}

theorem renew_self : renew g i j j' i j = j' := if_pos ⟨rfl, rfl⟩

theorem renew_of_ne {k n : Nat} (h : ¬(k = i ∧ n = j)) : renew g i j j' k n = g k n := if_neg h

theorem renew_row : renew g i j j' i = Function.update (g i) j j' := by
  funext n
  simp [renew, Function.update_apply]

theorem Waker.rename_renew {w : Waker} (h : w ≠ .trigger i j) :
    w.rename (renew g i j j') = w.rename g := by
  cases w with
  | trigger k n =>
    refine congrArg (Waker.trigger k) (renew_of_ne fun here => h ?_)
    rw [here.1, here.2]
  | _ => rfl

end

/-! ## Timers -/

namespace Timers

/-- The same timers for other wakers. -/
def redirect (σ : Waker → Waker) (t : Timers) : Timers :=
  { t with pending := t.pending.map fun e => (e.1, σ e.2) }

variable {σ τ : Waker → Waker} (t : Timers)

theorem redirect_congr (h : ∀ e ∈ t.pending, σ e.2 = τ e.2) : t.redirect σ = t.redirect τ := by
  unfold redirect
  rw [List.map_congr_left fun e he => by rw [h e he]]

@[simp] theorem now_redirect : (t.redirect σ).now = t.now := rfl

@[simp] theorem clear_redirect : (t.redirect σ).clear = t.clear.redirect σ := rfl

@[simp] theorem count_redirect : (t.redirect σ).count = t.count := List.length_map _

@[simp] theorem isEmpty_redirect : (t.redirect σ).isEmpty = t.isEmpty := List.isEmpty_map

@[simp] theorem detail_redirect : (t.redirect σ).detail = t.detail := by
  unfold detail
  rw [count_redirect]

@[simp] theorem nextDeadline?_redirect : (t.redirect σ).nextDeadline? = t.nextDeadline? := by
  unfold nextDeadline? redirect
  rw [List.head?_map, Option.map_map]
  rfl

@[simp] theorem isPending_redirect (k : TimerKey) :
    (t.redirect σ).isPending k = t.isPending k := List.any_map

@[simp] theorem cancel_redirect (k : TimerKey) :
    (t.redirect σ).cancel k = (t.cancel k).redirect σ := by
  unfold cancel redirect
  rw [List.filter_map]
  rfl

theorem insert_redirect (k : TimerKey) (w : Waker) (l : List (TimerKey × Waker)) :
    insert k (σ w) (l.map fun e => (e.1, σ e.2)) = (insert k w l).map fun e => (e.1, σ e.2) := by
  induction l with
  | nil => rfl
  | cons e l ih =>
    rw [List.map_cons]
    unfold insert
    split
    · rfl
    · rw [ih]
      rfl

theorem register_redirect (d : Time) (w : Waker) :
    (t.redirect σ).register d (σ w) = ((t.register d w).1.redirect σ, (t.register d w).2) := by
  unfold register redirect
  dsimp only
  rw [insert_redirect]

theorem takeDue_redirect :
    (t.redirect σ).takeDue = (t.takeDue.1.redirect σ, t.takeDue.2.map fun e => (e.1, σ e.2)) := by
  have due : (isDue t.now ∘ fun e : TimerKey × Waker => (e.1, σ e.2)) = isDue t.now := rfl
  unfold takeDue redirect
  dsimp only
  rw [List.dropWhile_map, List.takeWhile_map, due]

theorem arm_redirect (timeout : Timeout) (w : Waker) :
    Section.arm (t.redirect σ) timeout (σ w) =
      ((Section.arm t timeout w).1.redirect σ, (Section.arm t timeout w).2) := by
  cases timeout with
  | forever => rfl
  | after d =>
    simp only [Section.arm, now_redirect, register_redirect]

end Timers

/-! ## Tokens -/

theorem modify_map {α β : Type} (as : Array α) (i : Nat) {f : α → β} {g : α → α} {g' : β → β}
    (h : ∀ a, g' (f a) = f (g a)) : (as.map f).modify i g' = (as.modify i g).map f := by
  refine Array.ext_getElem? fun j => ?_
  simp only [Array.getElem?_modify, Array.getElem?_map]
  split
  · rcases as[j]? with _ | a
    · rfl
    · exact congrArg some (h a)
  · rfl

def Listener.redirect (σ : Waker → Waker) (s : Listener) : Listener :=
  { s with waker := s.waker.map σ }

namespace Listeners

def redirect (σ : Waker → Waker) (l : Listeners) : Listeners :=
  { l with slots := l.slots.map (·.redirect σ) }

variable {σ : Waker → Waker} (l : Listeners)

theorem get?_redirect (i : Nat) :
    (l.redirect σ).slots[i]? = l.slots[i]?.map (·.redirect σ) := Array.getElem?_map

theorem count_redirect : (l.redirect σ).count = l.count := by
  unfold count redirect
  rw [Array.countP_map]
  exact Array.countP_congr fun s _ => by simp [Listener.redirect]

theorem anyOccupied_redirect : (l.redirect σ).anyOccupied = l.anyOccupied := Array.any_map

theorem insert_redirect (w : Waker) :
    (l.redirect σ).insert (σ w) = ((l.insert w).1.redirect σ, (l.insert w).2) := by
  obtain ⟨slots, free⟩ := l
  rcases free with _ | ⟨i, free⟩
  · simp [insert, redirect, Listener.redirect]
  · simp only [insert, redirect, Array.getElem?_map, Option.map_map]
    rw [modify_map slots i (f := (·.redirect σ))
      (g := fun s => { s with waker := some w, occupied := true }) fun _ => rfl]
    rfl

theorem erase_redirect (i : Nat) (g : UInt32) :
    (l.redirect σ).erase i g = (l.erase i g).redirect σ := by
  unfold erase
  rw [get?_redirect]
  rcases l.slots[i]? with _ | s
  · rfl
  · simp only [Option.map_some, Listener.redirect]
    split
    · exact congrArg (Listeners.mk · (i :: l.free))
        (modify_map l.slots i (g := fun _ => ⟨g + 1, none, false⟩) fun _ => rfl)
    · rfl

theorem takeWakers_redirect :
    (l.redirect σ).takeWakers = (l.takeWakers.1.redirect σ, l.takeWakers.2.map σ) := by
  simp only [takeWakers, redirect, Array.map_map, Array.toList_map, List.filterMap_map,
    List.map_filterMap]
  rfl

end Listeners

namespace Token

def redirect (σ : Waker → Waker) (t : Token) : Token :=
  { t with listeners := t.listeners.redirect σ }

theorem isAlive_redirect (σ : Waker → Waker) (t : Token) : (t.redirect σ).isAlive = t.isAlive := by
  unfold isAlive redirect
  rw [Listeners.anyOccupied_redirect]

end Token

namespace Tokens

/-- The same tokens with other subscribers. -/
def redirect (σ : Waker → Waker) (ts : Tokens) : Tokens := ⟨ts.all.map (·.redirect σ)⟩

variable {σ τ : Waker → Waker} (ts : Tokens)

theorem get?_redirect (i : Nat) : (ts.redirect σ).get? i = (ts.get? i).map (·.redirect σ) :=
  Array.getElem?_map

theorem redirect_congr
    (h : ∀ t n s, ts.listener? t n = some s → ∀ w, s.waker = some w → σ w = τ w) :
    ts.redirect σ = ts.redirect τ := by
  refine congrArg Tokens.mk (Array.ext_getElem? fun t => ?_)
  rw [Array.getElem?_map, Array.getElem?_map]
  rcases ht : ts.all[t]? with _ | tok
  · rfl
  refine congrArg (fun slots => some { tok with listeners := { tok.listeners with slots } })
    (Array.ext_getElem? fun n => ?_)
  rw [Array.getElem?_map, Array.getElem?_map]
  rcases hs : tok.listeners.slots[n]? with _ | s
  · rfl
  refine congrArg (fun waker => some { s with waker }) ?_
  rcases hw : s.waker with _ | w
  · rfl
  · have listed : ts.listener? t n = some s := by simp [listener?, face?, get?, ht, hs]
    exact congrArg some (h t n s listed w hw)

theorem update_redirect (i : Nat) {f f' : Token → Token}
    (h : ∀ t, f' (t.redirect σ) = (f t).redirect σ) :
    (ts.redirect σ).update i f' = (ts.update i f).redirect σ :=
  congrArg Tokens.mk (modify_map ts.all i h)

@[simp] theorem isCancelled_redirect (i : Nat) :
    (ts.redirect σ).isCancelled i = ts.isCancelled i := by
  unfold isCancelled
  rw [get?_redirect]
  exact Option.any_map

theorem refuses_redirect (i : Nat) : (ts.redirect σ).refuses i = ts.refuses i := by
  unfold refuses
  rw [get?_redirect]
  exact Option.all_map

@[simp] theorem isAlive_redirect (i : Nat) : (ts.redirect σ).isAlive i = ts.isAlive i := by
  unfold isAlive
  rw [get?_redirect, Option.any_map]
  exact congrArg (Option.any · _) (funext fun t => t.isAlive_redirect σ)

@[simp] theorem listenerCount_redirect (i : Nat) :
    (ts.redirect σ).listenerCount i = ts.listenerCount i := by
  unfold listenerCount
  rw [get?_redirect, Option.map_map]
  exact congrArg (fun f => ((ts.get? i).map f).getD 0) (funext fun t => t.listeners.count_redirect)

@[simp] theorem detail_redirect (i : Nat) : (ts.redirect σ).detail i = ts.detail i := by
  unfold detail
  rw [isCancelled_redirect]

@[simp] theorem registrationDetail_redirect (r : Registration) :
    (ts.redirect σ).registrationDetail r = ts.registrationDetail r := by
  unfold registrationDetail
  rw [isCancelled_redirect]

theorem create_redirect : (ts.redirect σ).create = (ts.create.1.redirect σ, ts.create.2) := by
  simp [create, redirect, Token.redirect, Listeners.redirect]

@[simp] theorem retain_redirect (i : Nat) : (ts.redirect σ).retain i = (ts.retain i).redirect σ :=
  ts.update_redirect i fun _ => rfl

@[simp] theorem release_redirect (i : Nat) : (ts.redirect σ).release i = (ts.release i).redirect σ :=
  ts.update_redirect i fun _ => rfl

@[simp] theorem link_redirect (parent child : Nat) :
    (ts.redirect σ).link parent child = (ts.link parent child).redirect σ := by
  refine ts.update_redirect parent fun t => ?_
  have alive : (ts.redirect σ).isAlive = ts.isAlive := funext ts.isAlive_redirect
  rw [alive]
  rfl

theorem takeChildren_redirect (i : Nat) :
    (ts.redirect σ).takeChildren i =
      ((ts.takeChildren i).1.redirect σ, (ts.takeChildren i).2) := by
  unfold takeChildren
  rw [get?_redirect, Option.map_map, ts.update_redirect i (f := fun t => { t with children := [] })
    fun _ => rfl]
  rfl

theorem fire_redirect (i : Nat) :
    (ts.redirect σ).fire i = ((ts.fire i).1.redirect σ, (ts.fire i).2.map σ) := by
  unfold fire
  rw [get?_redirect]
  rcases ts.get? i with _ | t
  · rfl
  · simp only [Option.map_some, Token.redirect, Listeners.takeWakers_redirect]
    rw [ts.update_redirect i
      (f := fun u => { u with cancelled := true, listeners := t.listeners.takeWakers.1 })
      fun _ => rfl]

theorem register?_redirect (i : Nat) (w : Waker) :
    (ts.redirect σ).register? i (σ w) =
      (ts.register? i w).map fun p => (p.1.redirect σ, p.2) := by
  unfold register?
  rw [get?_redirect]
  rcases ts.get? i with _ | t
  · rfl
  · simp only [Option.map_some, Token.redirect, Listeners.insert_redirect]
    split
    · rfl
    · rw [ts.update_redirect i (f := fun u => { u with listeners := (t.listeners.insert w).1 })
        fun _ => rfl]
      rfl

@[simp] theorem unregister_redirect (r : Registration) :
    (ts.redirect σ).unregister r = (ts.unregister r).redirect σ :=
  ts.update_redirect r.token fun t => by
    simp only [Token.redirect, Listeners.erase_redirect]

theorem subscribe?_redirect (token : Option Nat) (w : Waker) :
    Section.subscribe? (ts.redirect σ) token (σ w) =
      (Section.subscribe? ts token w).map fun p => (p.1.redirect σ, p.2) := by
  cases token with
  | none => rfl
  | some t => simp [Section.subscribe?, register?_redirect, Function.comp_def]

end Tokens

end Turnstile
