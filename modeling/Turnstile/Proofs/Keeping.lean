import Mathlib.Algebra.GroupWithZero.Nat
import Turnstile.Proofs.Orders
import Turnstile.Proofs.Staging

/-!
# The wakers that a synchronizer keeps

Whoever polls leaves one waker at most. It is kept until it is replaced, until its owner leaves or until
a section gathers it.
-/

namespace Turnstile

variable {P : Policy}

namespace Docket

/-- How many wakers it keeps or has gathered. -/
def wakerCount (d : Docket P) : Nat :=
  (d.pending.filterMap (·.waker)).length + d.awaitingEnd.length + d.wakes.length

variable {d d' : Docket P}

theorem foldl_settle_wakes (o : Outcome) (es : List (Petition P.Request)) (d : Docket P) :
    (es.foldl (settle o) d).wakes = d.wakes ++ es.filterMap (·.waker) := by
  induction es generalizing d with
  | nil => exact (List.append_nil _).symm
  | cons e es ih =>
    rw [List.foldl_cons, ih]
    rcases he : e.waker with _ | w <;> simp [settle, he]

theorem wakerCount_grantRun (d : Docket P) : d.grantRun.wakerCount = d.wakerCount := by
  let es := P.admissible d.holding d.pending
  have wakes : d.grantRun.wakes = d.wakes ++ es.filterMap (·.waker) := foldl_settle_wakes ..
  have pending : d.grantRun.pending = d.pending.drop es.length := rfl
  have all : (es ++ d.pending.drop es.length).filterMap (·.waker) = d.pending.filterMap (·.waker) :=
    congrArg _ (admissible_append_drop d.holding d.pending)
  have awaiting : d.grantRun.awaitingEnd = d.awaitingEnd :=
    (foldl_settle_fields .granted es d).2.2.2.2.1
  have split := congrArg List.length all
  rw [List.filterMap_append, List.length_append] at split
  rw [wakerCount, wakerCount, wakes, pending, awaiting, List.length_append]
  omega

theorem wakerCount_resolveAll (o : Outcome) (d : Docket P) : (d.resolveAll o).wakerCount = d.wakerCount := by
  have wakes : (d.resolveAll o).wakes = d.wakes ++ d.pending.filterMap (·.waker) :=
    foldl_settle_wakes ..
  have awaiting : (d.resolveAll o).awaitingEnd = d.awaitingEnd :=
    (foldl_settle_fields o d.pending d).2.2.2.2.1
  rw [wakerCount, wakerCount, wakes, awaiting, show (d.resolveAll o).pending = [] from rfl, List.length_append]
  simp only [List.filterMap_nil, List.length_nil]
  omega

theorem wakerCount_endDisposal (d : Docket P) : d.endDisposal.wakerCount = d.wakerCount := by
  unfold endDisposal
  split
  · simp only [wakerCount, List.length_append, List.length_nil]
    omega
  · rfl

theorem wakerCount_join (e : Petition P.Request) (zero refused : Bool) (unpolled : e.waker = none) :
    (d.join e zero refused).1.wakerCount = d.wakerCount := by
  unfold join
  split
  · rfl
  · split
    · rfl
    · split
      · rfl
      · simp [wakerCount, List.filterMap_append, unpolled]

/-- Whoever is taken off the list takes its waker along. -/
theorem length_strike {es : List (Petition P.Request)} {e : Petition P.Request} (he : e ∈ es) :
    ((es.filter (·.ticket ≠ e.ticket)).filterMap (·.waker)).length + e.waker.toList.length ≤
      (es.filterMap (·.waker)).length := by
  have parts := (List.filter_append_perm (·.ticket ≠ e.ticket) es).filterMap (·.waker)
  have own : e ∈ es.filter fun x => !decide (x.ticket ≠ e.ticket) := by
    simp [he]
  have some : e.waker.toList.Sublist
      ((es.filter fun x => !decide (x.ticket ≠ e.ticket)).filterMap (·.waker)) := by
    have alone : [e].filterMap (·.waker) = e.waker.toList := by
      rcases hw : e.waker with _ | w <;> simp [hw]
    rw [← alone]
    exact (List.singleton_sublist.mpr own).filterMap _
  rw [List.filterMap_append] at parts
  rw [← parts.length_eq, List.length_append]
  exact Nat.add_le_add_left some.length_le _

theorem length_await {es : List (Petition P.Request)} (nodup : (es.map (·.ticket)).Nodup) (t : Nat)
    (waker : Waker) :
    ((es.map fun e => if e.ticket = t then { e with waker := some waker } else e).filterMap
      (·.waker)).length ≤ (es.filterMap (·.waker)).length + 1 := by
  induction es with
  | nil => simp
  | cons e es ih =>
    obtain ⟨apart, nodup⟩ := List.nodup_cons.mp nodup
    by_cases here : e.ticket = t
    · -- The ticket is on the list once, so nobody else gets the waker.
      have rest : (es.map fun e => if e.ticket = t then { e with waker := some waker } else e) = es := by
        refine (List.map_congr_left fun x hx => if_neg fun same => apart ?_).trans (List.map_id es)
        exact List.mem_map.mpr ⟨x, hx, same.trans here.symm⟩
      rw [List.map_cons, if_pos here, rest]
      exact Nat.succ_le_succ ((List.sublist_cons_self e es).filterMap _).length_le
    · rw [List.map_cons, if_neg here]
      rcases hw : e.waker with _ | w
      · rw [List.filterMap_cons_none hw, List.filterMap_cons_none hw]
        exact ih nodup
      · rw [List.filterMap_cons_some hw, List.filterMap_cons_some hw, List.length_cons,
          List.length_cons]
        exact Nat.succ_le_succ (ih nodup)

end Docket

/-- How many wakers the order leaves. -/
def Order.leaves : Order P → Nat
  | .observe .. | .awaitEnd _ => 1
  | _ => 0

namespace Docket

variable {d d' : Docket P}

theorem Loosens.wakerCount {e : Docket P} (h : d.Loosens e) : e.wakerCount ≤ d.wakerCount := by
  have fewer := (h.pending.filterMap (·.waker)).length_le
  rw [Docket.wakerCount, Docket.wakerCount, h.awaitingEnd, h.wakes]
  omega

/-- Whatever is ordered, the wakers that are neither kept nor gathered are gone. -/
theorem Becomes.wakerCount {x : Order P} (h : d.Becomes x d') (nodup : (d.pending.map (·.ticket)).Nodup) :
    d'.wakerCount ≤ d.wakerCount + x.leaves := by
  cases h with
  | same => exact Nat.le_add_right _ _
  | joined _ e zero refused steal unpolled =>
    have evicted : (d.evict steal).wakerCount = d.wakerCount := by
      rcases steal with _ | r
      · rfl
      · exact wakerCount_resolveAll _ d
    rw [wakerCount_join e zero refused unpolled, evicted]
    exact Nat.le_add_right _ _
  | fired _ e o he =>
    have struck := length_strike he
    rw [trigger, wakerCount_grantRun]
    simp only [Docket.wakerCount, settle, strike, List.length_append]
    omega
  | awaited t waker =>
    have awaits := length_await nodup t waker
    simp only [Docket.wakerCount, await, Order.leaves]
    omega
  | forgotten _ t => exact Nat.le_add_right _ _
  | regranted _ e loosens =>
    rw [wakerCount_endDisposal, wakerCount_grantRun]
    exact Nat.le_add_right_of_le loosens.wakerCount
  | disposed active =>
    rw [dispose, if_neg (by simp [active]), wakerCount_endDisposal, wakerCount_resolveAll]
    exact Nat.le_add_right _ _
  | watched waker =>
    simp only [Docket.wakerCount, List.length_append, List.length_singleton, Order.leaves]
    omega

end Docket

namespace Scene

variable {c : Scene P} {d : Docket P} {L : List Nat} {x : Deed P}

/-- How many wakers the deeds leave. -/
def leaves : List (Deed P) → Nat
  | [] => 0
  | .poll .. :: xs | .pollDispose _ :: xs => leaves xs + 1
  | _ :: xs => leaves xs

theorem order_of_errand {order : Order P} (ho : (c.errand x).order = some order) :
    (∀ t waker, order = .observe t waker → ∃ l, x = .poll l waker) ∧
      (∀ waker, order = .awaitEnd waker → x = .pollDispose waker) ∧
      (order = .dispose → x = .dispose) := by
  obtain ⟨y, hy, ho⟩ := Option.bind_eq_some_iff.mp ho
  cases x with
  | poll l w =>
    obtain ⟨id, -, rfl⟩ := Option.map_eq_some_iff.mp hy
    obtain ⟨t, -, rfl⟩ := Option.map_eq_some_iff.mp ho
    refine ⟨fun t' waker same => ⟨l, ?_⟩, by simp, by simp⟩
    cases same
    rfl
  | drop l =>
    obtain ⟨f, -, hf⟩ := Option.bind_eq_some_iff.mp hy
    rcases hs : f.stage with (r | _) | id' | _ <;> rw [hs] at hf
    · cases hf
    · cases hf
      cases ho
      exact ⟨by simp, by simp, by simp⟩
    · cases hf
      obtain ⟨t, -, rfl⟩ := Option.map_eq_some_iff.mp ho
      exact ⟨by simp, by simp, by simp⟩
    · cases hf
  | trigger slot =>
    cases hy
    obtain ⟨w, -, rfl⟩ := Option.map_eq_some_iff.mp ho
    exact ⟨by simp, by simp, by simp⟩
  | elsewhere timers tokens => cases hy
  | _ =>
    cases hy
    cases ho
    exact ⟨by simp, by simp, by simp⟩

theorem leaves_of_errand {order : Order P} (ho : (c.errand x).order = some order) :
    order.leaves ≤ leaves [x] := by
  obtain ⟨observes, awaits, -⟩ := order_of_errand ho
  cases order with
  | observe t waker =>
    obtain ⟨l, rfl⟩ := observes t waker rfl
    exact Nat.le_refl 1
  | awaitEnd waker =>
    obtain rfl := awaits waker rfl
    exact Nat.le_refl 1
  | _ => exact Nat.zero_le _

theorem leaves_cons (x : Deed P) (xs : List (Deed P)) : leaves (x :: xs) = leaves [x] + leaves xs := by
  cases x <;> simp only [leaves] <;> omega

theorem Shows.wakerCount_after (h : c.Shows d L) (x : Deed P) :
    (c.after x).sync.docket.wakerCount + (c.perform x).after.wakes.length ≤
      c.sync.docket.wakerCount + leaves [x] := by
  obtain ⟨L', rests, next⟩ := h.perform x
  obtain ⟨-, wakes, -⟩ := h.after_eq x
  have before : c.sync.docket = d.fresh := h.rests.docket_eq
  have later : (c.after x).sync.docket = (d.after c x).fresh.fresh := next.rests.docket_eq
  have ordered : (d.run (c.errand x)).1.wakerCount ≤ d.wakerCount + leaves [x] := by
    unfold Docket.run
    rcases ho : (c.errand x).order with _ | order
    · exact Nat.le_add_right _ _
    · exact Nat.le_trans ((d.obey_becomes _ _ order).wakerCount h.nodup)
        (Nat.add_le_add_left (leaves_of_errand ho) _)
  have same := congrArg Docket.wakerCount (h.after_eq x).1
  have gathered : (d.after c x).wakes = (c.perform x).after.wakes := rests.wakes
  have quiet : d.wakes = [] := h.rests.wakes
  rw [before, later, ← gathered, wakes]
  simp only [Docket.wakerCount, Docket.fresh, List.length_nil, quiet] at ordered same ⊢
  omega

/-- Along deeds, a waker that was kept is still kept or has been gathered. -/
theorem Reachable.wakerCount_run (reach : c.Reachable) (xs : List (Deed P)) :
    (c.run xs).sync.docket.wakerCount + (c.gathers xs).length ≤ c.sync.docket.wakerCount + leaves xs := by
  induction xs generalizing c with
  | nil => exact Nat.le_refl _
  | cons x xs ih =>
    obtain ⟨d, L, shows⟩ := reach.shows
    have first := shows.wakerCount_after x
    have later := ih (reach.run [x])
    rw [show c.run [x] = c.after x from rfl] at later
    rw [leaves_cons, gathers, List.length_append, show c.run (x :: xs) = (c.after x).run xs from rfl]
    omega

end Scene

/-! ## The wakers that a world keeps -/

/-- One summand changes. -/
theorem sum_modify {α : Type} (f : α → Nat) (g : α → α) {l : List α} {i : Nat} {a : α}
    (h : l[i]? = some a) : ((l.modify i g).map f).sum + f a = (l.map f).sum + f (g a) := by
  induction l generalizing i with
  | nil => cases h
  | cons b l ih =>
    rcases i with _ | i
    · obtain rfl := Option.some.inj h
      simp only [List.modify_zero_cons, List.map_cons, List.sum_cons]
      omega
    · have rest := ih (i := i) h
      simp only [List.modify_succ_cons, List.map_cons, List.sum_cons]
      omega

namespace Item

variable {item : Item P} {i : Nat} {c : Scene P} {xs : List (Deed P)}

theorem Polls.leaves {waker : Waker} (polls : item.Polls i c waker xs) : Scene.leaves xs = 1 := by
  cases polls <;> rfl

theorem Drops.leaves (drops : item.Drops i c xs) : Scene.leaves xs = 0 := by
  cases drops <;> rfl

end Item

namespace World

variable {w w' : World P} {i : Nat} {c : Scene P}

/-- How many wakers its synchronizers keep. -/
def wakerCount (w : World P) : Nat := (w.syncs.toList.map (·.docket.wakerCount)).sum

theorem Stages.leaves {s : Step P} {xs : List (Deed P)} (stages : w.Stages i c s xs) :
    Scene.leaves xs ≤ 1 := by
  cases stages with
  | poll held polls => exact Nat.le_of_eq polls.leaves
  | drop held drops => exact Nat.le_trans (Nat.le_of_eq drops.leaves) (Nat.zero_le 1)
  | _ => exact Nat.zero_le 1

theorem Hosts.wakerCount (h : w.Hosts i c) {s : Sync P}
    (same : w'.syncs = w.syncs.setIfInBounds i s) :
    w'.wakerCount + c.sync.docket.wakerCount = w.wakerCount + s.docket.wakerCount := by
  have changed := sum_modify (fun s : Sync P => s.docket.wakerCount) (fun _ => s)
    ((Array.getElem?_toList ..).trans h.sync)
  rw [World.wakerCount, World.wakerCount, same, Array.toList_setIfInBounds, List.set_eq_modify]
  exact changed

theorem Preserves.wakerCount (h : w.Preserves w') : w'.wakerCount = w.wakerCount := by
  rcases h with same | ⟨id, holding, warm, retainLimit, new⟩
  · rw [World.wakerCount, World.wakerCount, same]
  · rw [World.wakerCount, World.wakerCount, new, Array.toList_push, List.map_append,
      List.sum_append]
    rfl

end World

/-- How many wakers a step for the frame may leave with a synchronizer. -/
def Frame.leaves : Frame P → Nat
  | .run (_ :: _) | .await .. => 1
  | _ => 0

namespace Machine

variable {m : Machine P} {i : Nat} {c : Scene P} {xs : List (Deed P)}

/-- How many wakers the next step may leave with a synchronizer. -/
def leaves (m : Machine P) : Nat :=
  match m.agenda with
  | f :: _ => f.leaves
  | [] => 1

theorem Stages.leaves (stages : m.Stages i c xs) : Scene.leaves xs ≤ m.leaves := by
  cases stages with
  | @step s _ next stages =>
    have some : m.leaves = 1 := by
      rw [next?] at next
      rw [Machine.leaves]
      rcases hm : m.agenda with _ | ⟨f, agenda⟩
      · rfl
      · rw [hm] at next
        rcases f with _ | _ | _ | (_ | _) | _ | _ | _ | _ | _ <;> cases next
        rfl
    rw [some]
    exact stages.leaves
  | trigger hm => exact Nat.zero_le _
  | put hm held drops => exact Nat.le_trans (Nat.le_of_eq drops.leaves) (Nat.zero_le _)
  | await hm held polls =>
    rw [Machine.leaves, hm]
    exact Nat.le_of_eq polls.leaves

/-- Along a run, a waker that somebody left is kept until it is gathered or let go. -/
theorem Plays.step_wakerCount (h : m.Plays) :
    m.step.world.wakerCount + m.gathers.length ≤
      m.world.wakerCount + m.signals.length + m.leaves := by
  rcases h.step_finds with ⟨i, c, xs, reach, hosts, stages⟩ | ⟨gathers, preserves⟩
  · obtain ⟨gathers, syncs⟩ := stages.gathers_eq hosts reach
    have kept := reach.wakerCount_run xs
    have changed := hosts.wakerCount syncs
    have few := stages.leaves
    rw [gathers, List.length_append]
    omega
  · rw [gathers, preserves.wakerCount]
    exact Nat.le_add_right _ _

end Machine

end Turnstile
