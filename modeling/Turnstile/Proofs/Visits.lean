import Turnstile.Proofs.Arming
import Turnstile.Proofs.Scripts
import Mathlib.Logic.Function.Iterate

/-!
# What a section does to a world

A section works on one synchronizer, on the timers and on the tokens, and so do polling and dropping
what a slot holds. Whatever holds of a world between two sections is shown to hold after the lapse of
a waiter and after an acquisition has joined a line, once each.
-/

namespace Turnstile

variable {P : Policy}

/-! ## Worlds -/

namespace World

/-- Nothing has happened yet. -/
def blank (now : Time) (ownClock : Option Time) (running : Bool) : World P :=
  { timers := { now }, ownClock, running }

/-- What a section of synchronizer `s` works on. -/
def inside (w : World P) (s : Sync P) : Section P :=
  { sync := s, timers := w.timers, tokens := w.tokens }

/-- The world after a section of synchronizer `i`. -/
def outside (w : World P) (i : Nat) (s : Section P) : World P :=
  { w with syncs := w.syncs.setIfInBounds i s.sync, timers := s.timers, tokens := s.tokens }

/-- What the waiter in slot `j` of synchronizer `i` has out. -/
def arms? (w : World P) (i j : Nat) : Option Arms := w.syncs[i]?.bind fun s => s.line.arms? j

/-- `w'` is what a section of synchronizer `i` makes of `w`. -/
inductive Works (w : World P) (i : Nat) (ask : Option Asking) : World P → Prop
  | nobody : Works w i ask w
  | visited {s : Sync P} {t : Section P} (hi : w.syncs[i]? = some s)
      (h : (w.inside s).Works t ask) : Works w i ask (w.outside i t)

variable {w w' : World P} {i : Nat} {ask : Option Asking} {items rest : List (Item P)}

theorem outside_inside {s : Sync P} (hi : w.syncs[i]? = some s) : w.outside i (w.inside s) = w := by
  obtain ⟨hlt, rfl⟩ := Array.getElem?_eq_some_iff.mp hi
  have same : w.syncs.setIfInBounds i w.syncs[i] = w.syncs := by
    rw [Array.setIfInBounds_def, dif_pos hlt, Array.set_getElem_self]
  show { w with syncs := w.syncs.setIfInBounds i w.syncs[i] } = w
  rw [same]

theorem outside_sync {s : Sync P} (hi : w.syncs[i]? = some s) (t : Section P) (j : Nat) :
    (w.outside i t).syncs[j]? = if j = i then some t.sync else w.syncs[j]? := by
  obtain ⟨hlt, -⟩ := Array.getElem?_eq_some_iff.mp hi
  show (w.syncs.setIfInBounds i t.sync)[j]? = _
  split
  · subst j
    rw [Array.getElem?_setIfInBounds_self_of_lt hlt]
  · rename_i hij
    rw [Array.getElem?_setIfInBounds_ne (Ne.symm hij)]

theorem touch_eq {s : Sync P} (hi : w.syncs[i]? = some s) (f : Section P → Section P) :
    w.touch i f =
      { world := w.outside i (f (w.inside s)), value := (), wakes := (f (w.inside s)).wakes
        events := (f (w.inside s)).events } := by
  unfold touch visit
  rw [hi]
  rfl

theorem touch_eq_of_none (hi : w.syncs[i]? = none) (f : Section P → Section P) :
    w.touch i f = { world := w, value := () } := by
  unfold touch visit
  rw [hi]

theorem outside_arms? {s : Sync P} (hi : w.syncs[i]? = some s) (t : Section P) (k j : Nat) :
    (w.outside i t).arms? k j = if k = i then t.sync.line.arms? j else w.arms? k j := by
  unfold arms?
  rw [outside_sync hi]
  split <;> rfl

theorem arms?_inside {s : Sync P} (hi : w.syncs[i]? = some s) (j : Nat) :
    w.arms? i j = (w.inside s).sync.line.arms? j := by
  unfold arms?
  rw [hi]
  rfl

/-- What holds of a world holds after a section, if it does after each thing that the section does. -/
theorem Works.keeps {I : World P → Prop} (h : w.Works i ask w') (hw : I w)
    (silent : ∀ s, w.syncs[i]? = some s → ∀ t u, Section.Silent t u → I (w.outside i t) →
      I (w.outside i u))
    (lapse : ∀ s, w.syncs[i]? = some s → ∀ t u j a, Section.Lapse t u j a → I (w.outside i t) →
      I (w.outside i u))
    (enrol : ∀ s, w.syncs[i]? = some s → ∀ q ∈ ask, ∀ t u j a, t.Enrols u q j a →
      I (w.outside i t) → I (w.outside i u)) : I w' := by
  cases h with
  | nobody => exact hw
  | visited hi h =>
    exact h.keeps (I := fun t => I (w.outside i t)) (by rwa [outside_inside hi]) (silent _ hi)
      (lapse _ hi) (enrol _ hi)

theorem Plays.rests (h : w.Plays items) {s : Sync P} (hi : w.syncs[i]? = some s) :
    ∃ d L, (w.inside s).Rests d L := by
  obtain ⟨c, reach, rfl, -⟩ := h.scene i s hi
  obtain ⟨d, L, shows⟩ := (reach.run [.elsewhere w.timers w.tokens]).shows
  exact ⟨d, L, shows.rests⟩

theorem Plays.visit_works {α : Type} (h : w.Plays items) (i : Nat) (otherwise : α)
    (f : Section P → Section P × α) (works : ∀ s d L, Section.Rests s d L → s.Works (f s).1 ask) :
    w.Works i ask (w.visit i otherwise f).world := by
  unfold World.visit
  rcases hi : w.syncs[i]? with _ | s
  · exact .nobody
  · obtain ⟨d, L, rests⟩ := h.rests hi
    exact .visited hi (works _ d L rests)

end World

/-! ## Items -/

/-- What the first poll of a locking future asks for. -/
def Item.asks? : Item P → Option (Nat × Asking)
  | .locking sync _ none => some (sync, ⟨.forever, none⟩)
  | _ => none

namespace World

variable {w w' : World P} {i : Nat} {ask : Option (Nat × Asking)} {items rest : List (Item P)}
  {item : Item P}

/-- `w'` is what a section of some synchronizer makes of `w`. Whoever asks, asks there. -/
def Steps (w : World P) (ask : Option (Nat × Asking)) (w' : World P) : Prop :=
  ∃ i, w.Works i ((ask.filter (·.1 = i)).map (·.2)) w'

theorem Steps.refl (w : World P) (ask : Option (Nat × Asking)) : w.Steps ask w := ⟨0, .nobody⟩

theorem Plays.visit_lapses {α : Type} (h : w.Plays items) (i : Nat) (otherwise : α)
    (f : Section P → Section P × α) (lapses : ∀ s d L, Section.Rests s d L → s.Lapses (f s).1) :
    w.Steps ask (w.visit i otherwise f).world :=
  ⟨i, h.visit_works i otherwise f fun s d L rests => (lapses s d L rests).works _⟩

theorem Plays.visit_asks {α : Type} (h : w.Plays items) (i : Nat) (otherwise : α)
    (f : Section P → Section P × α) {q : Asking}
    (works : ∀ s d L, Section.Rests s d L → s.Works (f s).1 (some q)) :
    w.Steps (some (i, q)) (w.visit i otherwise f).world :=
  ⟨i, h.visit_works i otherwise f fun s d L rests => by
    rw [Option.filter_some, if_pos (decide_eq_true rfl)]
    exact works s d L rests⟩

theorem Plays.discard_steps (h : w.Plays items) (item : Item P) (ask : Option (Nat × Asking)) :
    (∃ r, item = .registration r) ∨ w.Steps ask (w.discard item).world := by
  rcases item with ⟨sync, request, lenient, stage⟩ | ⟨sync, request, _ | stage⟩ | ⟨sync, request⟩ |
    sync | r
  · exact .inr (h.visit_lapses _ _ _ fun _ _ _ rests => rests.dropStage_lapses request stage)
  · exact .inr (.refl w ask)
  · exact .inr (h.visit_lapses _ _ _ fun _ _ _ rests => rests.dropStage_lapses request stage)
  · exact .inr (h.visit_lapses _ _ _ fun _ _ _ rests => rests.dropGuard_lapses request)
  · exact .inr (.refl w ask)
  · exact .inl ⟨r, rfl⟩

theorem Plays.pollItem_steps (h : w.Plays items) {waker : Waker} {v : Visit P (Item P × Answer P)}
    (hv : w.pollItem? waker item = some v) : w.Steps item.asks? v.world := by
  rcases item with ⟨sync, request, lenient, stage⟩ | ⟨sync, request, stage⟩ | ⟨sync, request⟩ |
    sync | r
  · have polled : w.Steps none (w.visit sync ((stage, none) : Polled) fun s =>
        s.pollStage stage waker).world :=
      h.visit_lapses _ _ _ fun _ _ _ rests => rests.pollStage_lapses stage waker
    rcases stage with r | id | _
    · obtain rfl := Option.some.inj hv
      exact polled
    · obtain rfl := Option.some.inj hv
      exact polled
    · obtain rfl := Option.some.inj hv
      exact .refl _ _
  · rcases stage with _ | stage
    · obtain rfl := Option.some.inj hv
      exact h.visit_asks _ _ _ fun _ _ _ rests => rests.lock_works request waker
    · have polled : w.Steps none (w.visit sync ((.done, none) : Polled) fun s =>
          s.pollStage stage waker).world :=
        h.visit_lapses _ _ _ fun _ _ _ rests => rests.pollStage_lapses stage waker
      rcases stage with r | id | _
      · obtain rfl := Option.some.inj hv
        exact polled
      · obtain rfl := Option.some.inj hv
        exact polled
      · obtain rfl := Option.some.inj hv
        exact .refl _ _
  · cases hv
  · obtain rfl := Option.some.inj hv
    exact h.visit_lapses _ _ _ fun s _ _ _ => (s.pollDispose_silent waker).lapses
  · cases hv

end World

/-! ## Runs -/

/-- The step that a waker runs next. -/
def Frame.begins? : Frame P → Option (Step P)
  | .run (s :: _) => some s
  | _ => none

namespace Machine

/-- The step that begins next, if nothing is left to be done before. -/
def next? (m : Machine P) : Option (Step P) :=
  match m.agenda with
  | f :: _ => f.begins?
  | [] => m.script.head?

/-- Nothing of the script has been done yet. -/
def Fresh (m : Machine P) : Prop :=
  ∃ now ownClock running script, m = ofScript (.blank now ownClock running) script

/-- The token that the script itself is about to cancel. -/
def cancelling? (m : Machine P) : Option Nat :=
  match m.agenda, m.script with
  | [], .cancel name :: _ => m.world.tokenNames.find? name
  | _, _ => none

/-- The script itself is about to cancel token `t`, and this is what fires it. -/
structure Cancels (m : Machine P) (t : Nat) : Prop where
  call : m.cancelling? = some t
  free : m.world.tokens.isCancelled t = false

variable {m : Machine P}

theorem cancelling?_eq_some {t : Nat} (h : m.cancelling? = some t) :
    m.agenda = [] ∧
      ∃ name rest, m.script = .cancel name :: rest ∧ m.world.tokenNames.find? name = some t := by
  unfold cancelling? at h
  split at h
  · exact ⟨‹_›, _, _, ‹_›, h⟩
  · cases h

/-- Between any two things that a script does, each synchronizer is that of a scene. -/
theorem Fresh.plays (h : m.Fresh) (n : Nat) : (step^[n] m).Plays := by
  obtain ⟨now, ownClock, running, script, rfl⟩ := h
  induction n with
  | zero => exact ⟨fun i s hi => by simp [ofScript, World.blank] at hi, fun i _ => rfl⟩
  | succ n ih =>
    rw [Function.iterate_succ_apply']
    exact ih.step

end Machine

end Turnstile
