import Turnstile.Proofs.Custody
import Turnstile.Proofs.Estate
import Turnstile.Proofs.Orders

/-!
# Locks that only guards give back

An exclusive lock of which callers know nothing but its futures and their guards. Nobody has to keep
to any rule: whatever is polled and dropped, and in whatever order, the lock is held exactly while a
guard is there or a future has been granted it and does not know yet.
-/

namespace Turnstile

/-! ## What callers may ask -/

/-- Futures and guards of a lock are all that comes of this demand. -/
def Demand.ofLock : Demand Policy.standard → Bool
  | .found (Holding.exclusive false) => true
  | .lock Request.entry => true
  | .dispose => true
  | _ => false

/-- The next step makes synchronizer `i` an exclusive lock, or asks it for futures only, or disposes of
it, or has nothing to do with it. -/
def Machine.locksOnly (m : Machine Policy.standard) (i : Nat) : Bool :=
  m.demand?.all fun q => q.1 ≠ i || q.2.ofLock

namespace Item

variable {P : Policy}

/-- A guard of synchronizer `i`. -/
def isGuard (i : Nat) : Item P → Bool
  | .guard sync _ => sync = i
  | _ => false

/-- A future that has been granted synchronizer `i`, which is `s`, and does not know it yet. -/
def isGranted (i : Nat) (s : Sync P) : Item P → Bool
  | .locking sync _ (some (.waiting id)) =>
    sync = i && (s.line.pool.get? id).any (·.outcome = some .granted)
  | _ => false

/-- Callers of the lock `i` may keep this. -/
def OfLock (i : Nat) : Item Policy.standard → Prop
  | .acquisition sync .. => sync ≠ i
  | .locking sync request stage =>
    sync = i → (request : Request) = .entry ∧ ∀ r, stage ≠ some (.ready r)
  | .guard sync request => sync = i → (request : Request) = .entry
  | .disposal _ | .registration _ => True

theorem foreign {i : Nat} {item : Item Policy.standard} (h : item.sync? ≠ some i) :
    item.OfLock i ∧ item.isGuard i = false ∧ item.shares i = [] := by
  have other (sync : Nat) (own : item.sync? = some sync) : sync ≠ i := fun same => h (same ▸ own)
  rcases item with ⟨sync, request, lenient, stage⟩ | ⟨sync, request, _ | stage⟩ | ⟨sync, request⟩ |
    sync | r
  · have := other sync rfl
    simp [OfLock, isGuard, shares, this]
  · have := other sync rfl
    simp [OfLock, isGuard, shares, this]
  · have := other sync rfl
    simp [OfLock, isGuard, shares, this]
  · have := other sync rfl
    simp [OfLock, isGuard, shares, this]
  · simp [OfLock, isGuard, shares]
  · simp [OfLock, isGuard, shares]

end Item

/-! ## Dockets of a lock -/

namespace Docket

variable {d : Docket Policy.standard} {t : Nat}

theorem Rests.pending_of_free (h : d.Rests) (holding : d.holding = Holding.exclusive false)
    (entries : ∀ e ∈ d.pending, (e.request : Request) = .entry) : d.pending = [] := by
  rcases hp : d.pending with _ | ⟨e, es⟩
  · rfl
  · have refused := h.blocked e es hp
    rw [holding, entries e (by rw [hp]; exact List.mem_cons_self)] at refused
    cases refused

theorem withdraw_granted {locked : Bool} (holding : d.holding = Holding.exclusive locked)
    (entries : ∀ e ∈ d.pending, (e.request : Request) = .entry)
    (granted : d.settled t = some (Request.entry, .granted)) :
    (d.withdraw t).pending = d.pending.drop 1 ∧
      (∀ e ∈ d.pending.head?, (d.withdraw t).settled e.ticket = some (e.request, .granted)) ∧
      (d.pending = [] → (d.withdraw t).holding = Holding.exclusive false) := by
  let free : Docket Policy.standard := { d.forget t with holding := Holding.exclusive false }
  have handed : d.withdraw t = free.grantRun.endDisposal := by
    unfold Docket.withdraw
    rw [granted]
    dsimp only
    rw [if_pos rfl, holding]
    rfl
  obtain ⟨same, pending, settled, -, -⟩ := endDisposal_fields free.grantRun
  rw [handed, same, pending, settled]
  rcases hp : d.pending with _ | ⟨e, es⟩
  · rw [grantRun_nil free hp]
    exact ⟨hp, by simp, fun _ => rfl⟩
  · have head : e ∈ d.pending := by rw [hp]; exact List.mem_cons_self
    have first : Policy.standard.allows free.holding e.request = true := by
      rw [entries e head]
      rfl
    have full : (free.grantHead e es).holding = Holding.exclusive true := by
      show Holding.enter (.exclusive false) e.request = _
      rw [entries e head]
      rfl
    -- Once the first has it, nobody else may enter.
    have stays : (free.grantHead e es).grantRun = free.grantHead e es := by
      rcases es with _ | ⟨e', es'⟩
      · exact grantRun_nil _ rfl
      · refine grantRun_blocked _ rfl ?_
        rw [full, entries e' (by rw [hp]; simp)]
        rfl
    rw [grantRun_cons free hp first, stays]
    refine ⟨rfl, fun e' he' => ?_, by simp⟩
    obtain rfl : e = e' := Option.some.inj he'
    exact Function.update_self ..

theorem withdraw_ungranted (h : d.Rests) {locked : Bool} (holding : d.holding = Holding.exclusive locked)
    (entries : ∀ e ∈ d.pending, (e.request : Request) = .entry)
    (waits : d.settled t = none → ∃ e ∈ d.pending, e.ticket = t)
    (unsettled : ∀ e ∈ d.pending, d.settled e.ticket = none)
    (ungranted : ∀ r, d.settled t ≠ some (r, .granted)) :
    (d.withdraw t).pending = d.pending.filter (·.ticket ≠ t) ∧
      (d.withdraw t).holding = d.holding := by
  unfold Docket.withdraw
  rcases hs : d.settled t with _ | ⟨r, o⟩
  · obtain ⟨e, he, -⟩ := waits hs
    have taken : locked = true := by
      rcases locked with _ | _
      · rw [h.pending_of_free holding entries] at he
        cases he
      · rfl
    have stays : (d.strike t).grantRun = d.strike t := by
      rcases hp : (d.strike t).pending with _ | ⟨e', es⟩
      · exact grantRun_nil _ hp
      · refine grantRun_blocked _ hp ?_
        have he' : e' ∈ (d.strike t).pending := by rw [hp]; exact List.mem_cons_self
        rw [entries e' (List.filter_sublist.subset he'), show (d.strike t).holding = _ from holding,
          taken]
        rfl
    dsimp only
    rw [stays, (endDisposal_fields _).1, (endDisposal_fields _).2.1]
    exact ⟨rfl, rfl⟩
  · have other : o ≠ .granted := fun same => ungranted r (same ▸ hs)
    dsimp only
    rw [if_neg other]
    refine ⟨(List.filter_eq_self.mpr fun e he => ?_).symm, rfl⟩
    have apart : e.ticket ≠ t := by
      intro same
      have := unsettled e he
      rw [same, hs] at this
      cases this
    simpa using apart

end Docket

/-! ## Scenes of a lock -/

/-- The accounts of a lock that is free at first. -/
abbrev lockAccounts : Policy.standard.Accounts := Policy.standardAccounts (.exclusive false)

theorem Section.release_of_returned {P : Policy} {s : Section P} {r : P.Request} {h : P.State}
    (running : s.sync.phase ≠ .disposed) (returned : Section.returned r s.sync.holding = .ok h) :
    s.release (some r) = ((s.setHolding h).grantRun.endDisposal, .ok ()) := by
  unfold release releaseBy
  rw [if_neg running, Option.elim_some, returned]

namespace Scene

/-- Honest callers of a new lock get there, and have `held` then. -/
def OfLock (c : Scene Policy.standard) (held : Tally) : Prop :=
  ∃ id warm retainLimit timers tokens, HonestRun lockAccounts
    (start id (Holding.exclusive false) warm retainLimit timers tokens) c held

variable {c : Scene Policy.standard} {held : Tally}

theorem OfLock.balanced (h : c.OfLock held) :
    ∃ d L, c.Shows d L ∧ d.Balanced lockAccounts (held + c.ready lockAccounts) := by
  obtain ⟨id, warm, retainLimit, timers, tokens, run⟩ := h
  exact run.balanced (balances_of_idle (h := .exclusive false) rfl)

theorem OfLock.holding (h : c.OfLock held) :
    ∃ locked, c.sync.holding = Holding.exclusive locked ∧
      (c.outstanding lockAccounts held) .entry = locked.toNat := by
  obtain ⟨id, warm, retainLimit, timers, tokens, run⟩ := h
  have balances : Holding.Balances (.exclusive false) c.sync.holding _ :=
    run.balances (balances_of_idle (h := .exclusive false) rfl)
  rcases hc : c.sync.holding with locked | _ | _ <;> rw [hc] at balances
  · exact ⟨locked, rfl, balances.1⟩
  · exact balances.elim
  · exact balances.elim

theorem OfLock.release_ok (h : c.OfLock held) (has : 1 ≤ held .entry) :
    (c.inside.release (some Request.entry)).2 = .ok () := by
  obtain ⟨locked, holding, outstanding⟩ := h.holding
  obtain ⟨d, L, shows, balanced⟩ := h.balanced
  have out : 1 ≤ locked.toNat := by
    rw [← outstanding]
    exact Nat.le_trans has (Nat.le_add_right _ _)
  have locked : locked = true := by
    rcases locked with _ | _
    · exact absurd out (by decide)
    · rfl
  have running : c.inside.sync.phase ≠ .disposed := by
    intro hp
    have nothing := congrFun (balanced.ended (shows.phase.trans hp)) .entry
    have some_out : 1 ≤ (held + c.ready lockAccounts + d.unheard lockAccounts) .entry :=
      Nat.le_trans has (Nat.le_trans (Nat.le_add_right _ _) (Nat.le_add_right _ _))
    rw [nothing] at some_out
    exact absurd some_out (by decide)
  have returned : Section.returned (P := Policy.standard) Request.entry c.inside.sync.holding =
      .ok (Holding.exclusive false) := by
    rw [show c.inside.sync.holding = Holding.exclusive true from locked ▸ holding]
    rfl
  rw [Section.release_of_returned running returned]

theorem OfLock.elsewhere (h : c.OfLock held) (timers : Timers) (tokens : Tokens) :
    (c.after (.elsewhere timers tokens)).OfLock held := by
  obtain ⟨id, warm, retainLimit, timers', tokens', run⟩ := h
  exact ⟨id, warm, retainLimit, timers', tokens', run.step (x := .elsewhere timers tokens) trivial⟩

theorem OfLock.shows (h : c.OfLock held) : ∃ d L, c.Shows d L := by
  obtain ⟨d, L, shows, -⟩ := h.balanced
  exact ⟨d, L, shows⟩

end Scene

/-! ## Worlds with a lock -/

namespace Estate

/-- Callers keep of `i` futures and guards of a lock, and nobody else has a part in it. -/
structure Locked (i : Nat) (x : Estate Policy.standard) : Prop where
  plain : ∀ item ∈ x.items, item.OfLock i
  scene : ∀ s, x.world.syncs[i]? = some s → ∃ (c : Scene Policy.standard) (held : Tally),
    c.OfLock held ∧ c.sync = s ∧ held .entry = x.items.countP (Item.isGuard i) ∧
      (x.items.flatMap (Item.shares i)).Perm c.shares
  nothing : x.world.syncs[i]? = none →
    x.items.countP (Item.isGuard i) = 0 ∧ x.items.flatMap (Item.shares i) = []

variable {i : Nat} {x y : Estate Policy.standard} {w w' : World Policy.standard}
  {old new rest : List (Item Policy.standard)}

theorem Locked.mono (h : x.Locked i) (sync : y.world.syncs[i]? = x.world.syncs[i]?)
    (plain : ∀ item ∈ y.items, item.OfLock i)
    (guards : y.items.countP (Item.isGuard i) = x.items.countP (Item.isGuard i))
    (shares : (y.items.flatMap (Item.shares i)).Perm (x.items.flatMap (Item.shares i))) :
    y.Locked i := by
  refine ⟨plain, fun s hs => ?_, fun hs => ?_⟩
  · obtain ⟨c, held, run, same, entry, keeps⟩ := h.scene s (sync ▸ hs)
    exact ⟨c, held, run, same, entry.trans guards.symm, shares.trans keeps⟩
  · obtain ⟨none_held, none_kept⟩ := h.nothing (sync ▸ hs)
    exact ⟨guards.trans none_held, List.Perm.eq_nil (none_kept ▸ shares)⟩

theorem plain_append (h : ∀ item ∈ old ++ rest, item.OfLock i) (plain : ∀ item ∈ new, item.OfLock i) :
    ∀ item ∈ new ++ rest, item.OfLock i := fun item hitem =>
  (List.mem_append.mp hitem).elim (plain item) fun hrest => h item (List.mem_append_right _ hrest)

theorem Locked.foreign (old new : List (Item Policy.standard)) (h : Locked i ⟨w, old ++ rest⟩)
    (sync : w'.syncs[i]? = w.syncs[i]?) (gone : ∀ item ∈ old, item.sync? ≠ some i)
    (come : ∀ item ∈ new, item.sync? ≠ some i) :
    Locked i ⟨w', new ++ rest⟩ := by
  have nothing {items : List (Item Policy.standard)} (others : ∀ item ∈ items, item.sync? ≠ some i) :
      items.countP (Item.isGuard i) = 0 ∧ items.flatMap (Item.shares i) = [] := by
    constructor
    · rw [List.countP_eq_zero]
      exact fun item hitem => by simp [(Item.foreign (others item hitem)).2.1]
    · rw [List.flatMap_eq_nil_iff]
      exact fun item hitem => (Item.foreign (others item hitem)).2.2
  refine h.mono sync (plain_append h.plain fun item hitem => (Item.foreign (come item hitem)).1) ?_ ?_
  · rw [List.countP_append, List.countP_append, (nothing come).1, (nothing gone).1]
  · rw [List.flatMap_append, List.flatMap_append, (nothing come).2, (nothing gone).2]

theorem Locked.visit {α : Type} (old : List (Item Policy.standard))
    (h : Locked i ⟨w, old ++ rest⟩) (otherwise : α)
    (f : Section Policy.standard → Section Policy.standard × α)
    (new : α → List (Item Policy.standard)) (plain : ∀ s, ∀ item ∈ new (f s).2, item.OfLock i)
    (idle : ∀ item ∈ new otherwise, item.OfLock i ∧ item.isGuard i = false ∧ item.shares i = [])
    (leads : ∀ (c : Scene Policy.standard) (held : Tally), c.OfLock held →
      held .entry = (old ++ rest).countP (Item.isGuard i) → ∃ held',
        c.Leads lockAccounts held (old.flatMap (Item.shares i))
          ((new (f c.inside).2).flatMap (Item.shares i)) (f c.inside).1.sync held' ∧
        held' .entry = (new (f c.inside).2 ++ rest).countP (Item.isGuard i)) :
    Locked i ⟨(w.visit i otherwise f).world, new (w.visit i otherwise f).value ++ rest⟩ := by
  have sync := World.visit_syncs w i otherwise f i
  rw [if_pos rfl] at sync
  rw [World.visit_value]
  rcases hi : w.syncs[i]? with _ | s <;> rw [hi] at sync
  · obtain ⟨none_held, none_kept⟩ := h.nothing hi
    rw [List.countP_append] at none_held
    rw [List.flatMap_append, List.append_eq_nil_iff] at none_kept
    refine ⟨plain_append h.plain fun item hitem => (idle item hitem).1, fun s hs => ?_, fun _ => ?_⟩
    · cases sync.symm.trans hs
    · refine ⟨?_, ?_⟩
      · show (new otherwise ++ rest).countP _ = 0
        rw [List.countP_append, List.countP_eq_zero.mpr fun item hitem => by
          simp [(idle item hitem).2.1]]
        omega
      · show (new otherwise ++ rest).flatMap _ = []
        rw [List.flatMap_append, none_kept.2, List.append_nil, List.flatMap_eq_nil_iff]
        exact fun item hitem => (idle item hitem).2.2
  · obtain ⟨c, held, run, rfl, entry, keeps⟩ := h.scene s hi
    have started := run.elsewhere w.timers w.tokens
    obtain ⟨held', led, entry'⟩ := leads (c.after (.elsewhere w.timers w.tokens)) held started entry
    obtain ⟨id, warm, retainLimit, timers, tokens, honest⟩ := started
    obtain ⟨c', run', same, kept⟩ := led _ (rest.flatMap (Item.shares i)) honest
      (by rw [← List.flatMap_append]; exact keeps)
    refine ⟨plain_append h.plain (plain _), fun s hs => ?_, fun hs => ?_⟩
    · refine ⟨c', held', ⟨id, warm, retainLimit, timers, tokens, run'⟩, ?_, entry', ?_⟩
      · exact same.trans (Option.some.inj (sync.symm.trans hs))
      · rw [List.flatMap_append]
        exact kept
    · cases sync.symm.trans hs

/-- What a poll makes of a locking future. -/
structure Settled (p : Polled) : Prop where
  unready : ∀ r, p.1 ≠ .ready r
  done : ∀ r, p.2 = some r → p.1 = .done

theorem pollStage_settled {P : Policy} (s : Section P) (stage : Stage) (waker : Waker) :
    Settled (s.pollStage stage waker).2 := by
  rcases stage with r | id | _
  · exact ⟨by simp [Section.pollStage], by simp [Section.pollStage]⟩
  · unfold Section.pollStage
    dsimp only
    rcases s.poll id waker with ⟨t, _ | r⟩
    · exact ⟨by simp, by simp⟩
    · exact ⟨by simp, by simp⟩
  · exact ⟨by simp [Section.pollStage], by simp [Section.pollStage]⟩

theorem Settled.locked {p : Polled} (h : Settled p) {request : Policy.standard.Request}
    (entry : (request : Request) = .entry) :
    (Item.locked i request p).1.OfLock i ∧
      [(Item.locked i request p).1].flatMap (Item.shares i) = p.1.shares request ∧
      [(Item.locked i request p).1].countP (Item.isGuard i) =
        Docket.taken lockAccounts request p.2 .entry := by
  obtain ⟨stage, answer⟩ := p
  rcases answer with _ | r | ⟨⟩
  · refine ⟨fun _ => ⟨entry, fun r same => h.unready r (Option.some.inj same)⟩, ?_, ?_⟩
    · simp [Item.locked, Item.shares]
    · simp [Item.locked, Item.isGuard, Docket.taken]
  · have done : stage = .done := h.done _ rfl
    subst done
    refine ⟨fun _ => ⟨entry, by simp⟩, ?_, ?_⟩
    · simp [Item.locked, Item.shares, Stage.shares]
    · simp [Item.locked, Item.isGuard, Docket.taken]
  · have done : stage = .done := h.done _ rfl
    subst done
    refine ⟨fun _ => entry, ?_, ?_⟩
    · simp [Item.locked, Item.shares, Stage.shares]
    · subst entry
      have one : [(.guard i Request.entry : Item Policy.standard)].countP (Item.isGuard i) = 1 := by
        simp [Item.isGuard]
      exact one

theorem Locked.locking {request : Policy.standard.Request} {stage : Option Stage}
    (h : Locked i ⟨w, .locking i request stage :: rest⟩)
    (f : Section Policy.standard → Section Policy.standard × Polled)
    (settled : ∀ s, Settled (f s).2)
    (leads : ∀ (c : Scene Policy.standard) (held : Tally), c.OfLock held →
      c.Leads lockAccounts held ([Item.locking i request stage].flatMap (Item.shares i))
        ((f c.inside).2.1.shares request) (f c.inside).1.sync
        (held + Docket.taken lockAccounts request (f c.inside).2.2)) :
    Locked i ⟨(w.visit i (.done, none) f).world,
      (Item.locked i request (w.visit i (.done, none) f).value).1 :: rest⟩ := by
  have entry : (request : Request) = .entry := (h.plain _ List.mem_cons_self rfl).1
  refine Locked.visit [.locking i request stage] h ((.done, none) : Polled) f
    (fun p => [(Item.locked i request p).1]) ?_ ?_ ?_
  · rintro s item hitem
    rw [List.mem_singleton.mp hitem]
    exact ((settled s).locked entry).1
  · rintro item hitem
    rw [List.mem_singleton.mp hitem]
    exact ⟨fun _ => ⟨entry, by simp⟩, rfl, by simp [Item.locked, Item.shares, Stage.shares]⟩
  · intro c held lock has
    obtain ⟨-, shares, guards⟩ := (settled c.inside).locked (i := i) entry
    refine ⟨held + Docket.taken lockAccounts request (f c.inside).2.2, ?_, ?_⟩
    · rw [shares]
      exact leads c held lock
    · show held .entry + Docket.taken lockAccounts request (f c.inside).2.2 .entry = _
      rw [has, List.countP_append, List.countP_append, guards]
      have none_yet : [Item.locking i request stage].countP (Item.isGuard i) = 0 := rfl
      omega

theorem Locked.polled {item : Item Policy.standard} {waker : Waker}
    {v : Visit Policy.standard (Item Policy.standard × Answer Policy.standard)}
    (h : Locked i ⟨w, item :: rest⟩) (hv : w.pollItem? waker item = some v) :
    Locked i ⟨v.world, v.value.1 :: rest⟩ := by
  by_cases own : item.sync? = some i
  · have plain := h.plain item List.mem_cons_self
    rcases item with ⟨sync, request, lenient, stage⟩ | ⟨sync, request, stage⟩ | ⟨sync, request⟩ |
      sync | r
    · exact absurd (Option.some.inj own) plain
    · obtain rfl : sync = i := Option.some.inj own
      rcases stage with _ | r | id | _
      · obtain rfl := Option.some.inj hv
        exact h.locking (fun s => (s.acquire request .forever none none).1.pollStage
          (s.acquire request .forever none none).2 waker) (fun s => pollStage_settled _ _ _)
          fun c held lock => by
            obtain ⟨d, L, shows⟩ := lock.shows
            exact Scene.leads_lock shows request waker
      · exact absurd rfl ((plain rfl).2 r)
      · obtain rfl := Option.some.inj hv
        refine h.locking (fun s => s.pollStage (.waiting id) waker)
          (fun s => pollStage_settled _ _ _) fun c held lock => ?_
        rw [List.flatMap_singleton, Item.shares, if_pos rfl]
        exact Scene.leads_poll request (.waiting id) waker
      · obtain rfl := Option.some.inj hv
        exact h
    · cases hv
    · obtain rfl : sync = i := Option.some.inj own
      obtain rfl := Option.some.inj hv
      refine Locked.visit [.disposal sync] h false (fun s => s.pollDispose waker)
        (fun _ => [.disposal sync]) ?_ ?_ fun c held _ has =>
          ⟨held, Scene.leads_alone (.pollDispose waker) trivial rfl, has⟩
      · rintro _ item hitem
        rw [List.mem_singleton.mp hitem]
        trivial
      · rintro item hitem
        rw [List.mem_singleton.mp hitem]
        exact ⟨trivial, rfl, rfl⟩
    · cases own
  · obtain ⟨same, apart⟩ := World.pollItem?_apart (j := i) hv
    refine Locked.foreign [item] [v.value.1] h (apart own) ?_ ?_
    · rintro item' hitem
      rw [List.mem_singleton.mp hitem]
      exact own
    · rintro item' hitem
      rw [List.mem_singleton.mp hitem, same]
      exact own

theorem Locked.dropped {item : Item Policy.standard} (h : Locked i ⟨w, item :: rest⟩) :
    Locked i ⟨(w.discard item).world, rest⟩ := by
  by_cases own : item.sync? = some i
  · have plain := h.plain item List.mem_cons_self
    have others : ∀ item ∈ rest, item.OfLock i := fun item hitem =>
      h.plain item (List.mem_cons_of_mem _ hitem)
    rcases item with ⟨sync, request, lenient, stage⟩ | ⟨sync, request, _ | stage⟩ | ⟨sync, request⟩ |
      sync | r
    · exact absurd (Option.some.inj own) plain
    · obtain rfl : sync = i := Option.some.inj own
      exact h.mono rfl others (by simp [Item.isGuard]) (by simp [Item.shares])
    · obtain rfl : sync = i := Option.some.inj own
      refine Locked.visit [.locking sync request (some stage)] h () _ (fun _ => [])
        (by simp) (by simp) fun c held _ has => ⟨held, ?_, ?_⟩
      · rw [List.flatMap_singleton, Item.shares, if_pos rfl]
        exact Scene.leads_drop request stage
      · rw [has]
        simp [Item.isGuard]
    · obtain rfl : sync = i := Option.some.inj own
      have entry : (request : Request) = .entry := plain rfl
      refine Locked.visit [.guard sync request] h () _ (fun _ => []) (by simp) (by simp)
        fun c held lock has => ?_
      have one : held .entry = rest.countP (Item.isGuard sync) + 1 := by
        rw [has, List.singleton_append, List.countP_cons_of_pos (by simp [Item.isGuard])]
      refine ⟨_, Scene.leads_alone (.dropGuard request) ?_ rfl, ?_⟩
      · subst entry
        rintro (_ | _ | _ | _)
        · show 1 ≤ held .entry
          omega
        all_goals exact Nat.zero_le _
      · have ok := lock.release_ok (by omega)
        rw [← entry] at ok
        rw [Scene.heldAfter_dropGuard]
        show held .entry - Docket.taken lockAccounts request (some _) .entry = _
        rw [ok, entry]
        show held .entry - 1 = rest.countP (Item.isGuard sync)
        omega
    · exact h.mono rfl others (by simp [Item.isGuard]) (by simp [Item.shares])
    · cases own
  · refine Locked.foreign [item] [] h (World.discard_apart own) ?_ (by simp)
    rintro item' hitem
    rw [List.mem_singleton.mp hitem]
    exact own

theorem Locked.alone (h : x.Locked i) (k : Nat) (f : Section Policy.standard → Section Policy.standard)
    (deed : ∀ c : Scene Policy.standard, ∃ d : Deed Policy.standard, (∀ held, c.Leads lockAccounts held
      [] [] (f c.inside).sync (c.heldAfter lockAccounts held d)) ∧
        ∀ held, c.heldAfter lockAccounts held d = held) :
    Locked i { x with world := (x.world.touch k f).world } := by
  by_cases own : i = k
  · subst own
    refine Locked.visit [] h () (fun s => (f s, ())) (fun _ => []) (by simp) (by simp)
      fun c held _ has => ⟨held, ?_, has⟩
    obtain ⟨d, leads, same⟩ := deed c
    have led := leads held
    rw [same held] at led
    exact led
  · exact Locked.foreign [] [] h (World.visit_apart _ _ own) (by simp) (by simp)

theorem Goes.locked {ask : Option (Nat × Demand Policy.standard)} (goes : x.Goes ask y)
    (h : x.Locked i) (asks : ∀ q ∈ ask, q.1 = i → q.2.ofLock = true) : y.Locked i := by
  -- The front of a lock asks for nothing but locking, so any other demand is made elsewhere.
  have never {k : Nat} {d : Demand Policy.standard} (hask : ask = some (k, d))
      (other : d.ofLock = false) : k ≠ i := by
    rintro rfl
    have := asks _ hask rfl
    rw [other] at this
    cases this
  have kept {y : Estate Policy.standard} {item : Item Policy.standard} (h : y.Locked i)
      (plain : item.OfLock i) (free : item.isGuard i = false) (closed : item.shares i = []) :
      Locked i ⟨y.world, item :: y.items⟩ := by
    refine h.mono rfl ?_ (List.countP_cons_of_neg (by simp [free])) ?_
    · rintro item' hitem
      rcases List.mem_cons.mp hitem with rfl | hitem
      · exact plain
      · exact h.plain item' hitem
    · rw [List.flatMap_cons, closed]
      exact .refl _
  induction goes with
  | refl => exact h
  | still _ syncs items ih =>
    refine ih.mono (by rw [syncs]) (fun item hitem => ih.plain item (items.subset hitem)) ?_ ?_
    · exact items.countP_eq _
    · exact items.flatMap_right _
  | @founded y holding warm retainLimit _ hask ih =>
    by_cases own : i = y.world.syncs.size
    · have absent : y.world.syncs[i]? = none := by rw [own, Array.getElem?_eq_none (Nat.le_refl _)]
      have free : holding = Holding.exclusive false := by
        have := asks _ hask own.symm
        unfold Demand.ofLock at this
        split at this
        · rename_i heq
          exact Demand.found.inj heq
        · rename_i heq
          cases heq
        · rename_i heq
          cases heq
        · cases this
      obtain ⟨none_held, none_kept⟩ := ih.nothing absent
      have new : ∀ s, (y.world.syncs.push
          (Sync.create y.world.syncs.size holding warm retainLimit))[i]? = some s →
          Sync.create y.world.syncs.size holding warm retainLimit = s := by
        intro s hs
        rw [own, Array.getElem?_push_size] at hs
        exact Option.some.inj hs
      refine ⟨ih.plain, fun s hs => ?_, fun hs => ?_⟩
      · refine ⟨Scene.start y.world.syncs.size (Holding.exclusive false) warm retainLimit {} {}, 0,
          ⟨_, _, _, _, _, .init⟩, ?_, none_held.symm, ?_⟩
        · rw [← new s hs, free]
          rfl
        · rw [none_kept]
          exact .refl _
      · have hs : (y.world.syncs.push _)[i]? = none := hs
        rw [own, Array.getElem?_push_size] at hs
        cases hs
    · refine ih.mono ?_ ih.plain rfl (.refl _)
      exact (Array.getElem?_push ..).trans (if_neg own)
  | @tried y k request _ hask ih =>
    exact Locked.foreign [] [] ih
      (World.visit_apart _ _ (never hask rfl).symm) (by simp) (by simp)
  | @acquired y k a v timeout token _ hask hv ih =>
    have other := never hask rfl
    refine Locked.foreign [] [_] ih ?_ (by simp) ?_
    · rw [hv]
      exact World.visit_apart _ _ other.symm
    · rintro item hitem
      rw [List.mem_singleton.mp hitem]
      simpa [Item.sync?] using other
  | @refused y k a r _ hask ih =>
    have other := never hask rfl
    refine Locked.foreign [] [_] ih rfl (by simp) ?_
    rintro item hitem
    rw [List.mem_singleton.mp hitem]
    simpa [Item.sync?] using other
  | @opened y k request _ hask ih =>
    refine kept ih (fun own => ⟨?_, by simp⟩) rfl rfl
    have := asks _ hask own
    unfold Demand.ofLock at this
    split at this
    · rename_i heq
      cases heq
    · rename_i heq
      exact Demand.lock.inj heq
    · rename_i heq
      cases heq
    · cases this
  | @released y k request _ hask ih =>
    exact Locked.foreign [] [] ih
      (World.visit_apart _ _ (never hask rfl).symm) (by simp) (by simp)
  | @disposed y k _ hask ih =>
    have disposed := ih.alone k Section.dispose fun c =>
      ⟨.dispose, fun held => Scene.leads_alone .dispose trivial rfl, fun _ => rfl⟩
    exact kept disposed trivial rfl rfl
  | registered r _ ih => exact kept ih trivial rfl rfl
  | triggered k j _ ih =>
    exact ih.alone k (fun s => s.trigger j) fun c =>
      ⟨.trigger j, fun held => Scene.leads_alone (.trigger j) trivial rfl, fun _ => rfl⟩
  | @polled y item rest waker v _ items _ hv ih =>
    have ih : Locked i ⟨y.world, item :: rest⟩ := items ▸ ih
    exact ih.polled hv
  | @dropped y item rest _ items ih =>
    have ih : Locked i ⟨y.world, item :: rest⟩ := items ▸ ih
    exact ih.dropped

end Estate

/-! ## Who holds the lock -/

theorem Item.unseen_eq {i : Nat} {items : List (Item Policy.standard)}
    (plain : ∀ item ∈ items, item.OfLock i) (s : Sync Policy.standard) :
    ((items.flatMap (Item.shares i)).map (Scene.unseenShare lockAccounts s)).sum .entry =
      items.countP (Item.isGranted i s) := by
  induction items with
  | nil => rfl
  | cons item items ih =>
    have each : ((item.shares i).map (Scene.unseenShare lockAccounts s)).sum .entry =
        if item.isGranted i s then 1 else 0 := by
      have plain := plain item List.mem_cons_self
      rcases item with ⟨sync, request, lenient, stage⟩ | ⟨sync, request, _ | r | id | _⟩ |
        ⟨sync, request⟩ | sync | r
      · have other : sync ≠ i := plain
        simp [Item.shares, Item.isGranted, other]
      · rfl
      · by_cases own : sync = i
        · exact absurd rfl ((plain own).2 r)
        · simp [Item.shares, Item.isGranted, own]
      · by_cases own : sync = i
        · have entry := (plain own).1
          subst own entry
          simp only [Item.shares, Stage.shares, if_true, List.map_singleton, List.sum_singleton,
            Scene.unseenShare, Item.isGranted, decide_true, Bool.true_and]
          split <;> rfl
        · simp [Item.shares, Item.isGranted, own]
      · simp [Item.shares, Item.isGranted, Stage.shares]
      · rfl
      · rfl
      · rfl
    rw [List.flatMap_cons, List.map_append, List.sum_append, List.countP_cons,
      ← ih fun item hitem => plain item (List.mem_cons_of_mem _ hitem), ← each]
    exact Nat.add_comm _ _

/-- The lock `s`, of which callers keep no more than `items`. -/
structure World.Excludes (w : World Policy.standard) (items : List (Item Policy.standard)) (i : Nat)
    (s : Sync Policy.standard) : Prop where
  /-- There is at most one guard. -/
  alone : items.countP (Item.isGuard i) ≤ 1
  /-- The lock is held exactly while a guard is there or a future has been granted it and does not
  know yet. -/
  held : ∃ locked, s.holding = Holding.exclusive locked ∧
    (locked = true ↔ (∃ r, .guard i r ∈ items) ∨
      ∃ r id v, .locking i r (some (.waiting id)) ∈ items ∧ s.line.pool.get? id = some v ∧
        v.outcome = some .granted)
  /-- Nobody waits for a free lock. -/
  wanted : s.petitions ≠ [] → s.holding = Holding.exclusive true
  /-- Dropping a guard gives the lock back. -/
  freed : ∀ r, .guard i r ∈ items → ∃ t, (w.inside s).release (some r) = (t, .ok ()) ∧
    (w.inside s).dropGuard r = t
  /-- Dropping a future changes nothing for the others, unless it has been granted the lock. Then the
  first of them is granted it, and without any it is free. -/
  passed : ∀ r id, .locking i r (some (.waiting id)) ∈ items →
    ∃ v, s.line.pool.get? id = some v ∧
      (v.outcome ≠ some .granted →
        ((w.inside s).dropStage r (.waiting id)).sync.petitions =
            s.petitions.filter (·.ticket ≠ v.ticket) ∧
          ((w.inside s).dropStage r (.waiting id)).sync.holding = s.holding) ∧
      (v.outcome = some .granted →
        ((w.inside s).dropStage r (.waiting id)).sync.petitions = s.petitions.drop 1 ∧
          (∀ e ∈ s.petitions.head?,
            ((w.inside s).dropStage r (.waiting id)).sync.verdict? e.ticket =
              some (e.request, .granted)) ∧
          (s.petitions = [] →
            ((w.inside s).dropStage r (.waiting id)).sync.holding = Holding.exclusive false))

namespace Item

variable {i : Nat} {s : Sync Policy.standard} {items : List (Item Policy.standard)}

theorem countP_isGuard_pos :
    0 < items.countP (Item.isGuard i) ↔ ∃ r, .guard i r ∈ items := by
  rw [List.countP_pos_iff]
  constructor
  · rintro ⟨item, hitem, guard⟩
    unfold Item.isGuard at guard
    split at guard
    · rename_i sync r
      rw [of_decide_eq_true guard] at hitem
      exact ⟨r, hitem⟩
    · cases guard
  · rintro ⟨r, hr⟩
    exact ⟨_, hr, by simp [Item.isGuard]⟩

theorem countP_isGranted_pos :
    0 < items.countP (Item.isGranted i s) ↔
      ∃ r id v, .locking i r (some (.waiting id)) ∈ items ∧
        s.line.pool.get? id = some v ∧ v.outcome = some .granted := by
  rw [List.countP_pos_iff]
  constructor
  · rintro ⟨item, hitem, granted⟩
    unfold Item.isGranted at granted
    split at granted
    · rename_i sync r id
      obtain ⟨own, granted⟩ := Bool.and_eq_true_iff.mp granted
      rw [of_decide_eq_true own] at hitem
      rcases hv : s.line.pool.get? id with _ | v <;> rw [hv] at granted
      · cases granted
      · exact ⟨r, id, v, hitem, hv, of_decide_eq_true granted⟩
    · cases granted
  · rintro ⟨r, id, v, hitem, hv, granted⟩
    exact ⟨_, hitem, by simp [Item.isGranted, hv, granted]⟩

end Item

namespace Estate.Locked

variable {i : Nat} {x : Estate Policy.standard} {s : Sync Policy.standard}

theorem holding (h : x.Locked i) (hs : x.world.syncs[i]? = some s) :
    ∃ locked, s.holding = Holding.exclusive locked ∧
      x.items.countP (Item.isGuard i) + x.items.countP (Item.isGranted i s) = locked.toNat := by
  obtain ⟨c, held, lock, rfl, has, keeps⟩ := h.scene s hs
  obtain ⟨locked, holding, outstanding⟩ := lock.holding
  refine ⟨locked, holding, ?_⟩
  have granted := Item.unseen_eq h.plain c.sync
  rw [(keeps.map _).sum_eq, ← Scene.unseen_eq_shares] at granted
  rw [← has, ← granted, ← outstanding]
  rfl

theorem request_of_share (h : x.Locked i) {r : Request} {stage : Stage}
    (share : (r, stage) ∈ x.items.flatMap (Item.shares i)) : r = .entry := by
  obtain ⟨item, hitem, share⟩ := List.mem_flatMap.mp share
  have plain := h.plain item hitem
  rcases item with ⟨sync, request, lenient, stage'⟩ | ⟨sync, request, _ | stage'⟩ |
    ⟨sync, request⟩ | sync | r'
  · have other : sync ≠ i := plain
    rw [Item.shares, if_neg other] at share
    cases share
  · cases share
  · rw [Item.shares] at share
    by_cases own : sync = i
    · rw [if_pos own] at share
      have same := (Scene.shares_subperm stage' request).subset share
      rw [(Prod.mk.inj (List.mem_singleton.mp same)).1]
      exact (plain own).1
    · rw [if_neg own] at share
      cases share
  · cases share
  · cases share
  · cases share

theorem entries (h : x.Locked i) (hs : x.world.syncs[i]? = some s) :
    ∀ e ∈ s.petitions, (e.request : Request) = .entry := by
  obtain ⟨c, held, lock, rfl, -, keeps⟩ := h.scene s hs
  obtain ⟨d, L, shows⟩ := lock.shows
  intro e he
  rw [shows.petitions] at he
  obtain ⟨id, share⟩ := shows.share_of_mem he
  exact h.request_of_share (keeps.symm.subset share)

theorem freed (h : x.Locked i) (hs : x.world.syncs[i]? = some s) {r : Request}
    (hr : .guard i r ∈ x.items) :
    ∃ t, (x.world.inside s).release (some r) = (t, .ok ()) ∧
      (x.world.inside s).dropGuard r = t := by
  obtain ⟨c, held, lock, rfl, has, -⟩ := h.scene s hs
  have entry : (r : Request) = .entry := h.plain _ hr rfl
  have some_guard : 0 < x.items.countP (Item.isGuard i) := Item.countP_isGuard_pos.mpr ⟨r, hr⟩
  have ok := (lock.elsewhere x.world.timers x.world.tokens).release_ok (by omega)
  have same : (c.after (.elsewhere x.world.timers x.world.tokens)).inside =
      x.world.inside c.sync := rfl
  rw [same, ← entry] at ok
  rcases hrel : (x.world.inside c.sync).release (some r) with ⟨t, answer⟩
  rw [hrel] at ok
  obtain rfl : answer = .ok () := ok
  refine ⟨t, rfl, ?_⟩
  unfold Section.dropGuard
  rw [hrel]

theorem passed (h : x.Locked i) (hs : x.world.syncs[i]? = some s) {d : Docket Policy.standard}
    {L : List Nat} (rests : (x.world.inside s).Rests d L) {r : Policy.standard.Request}
    {id : WaiterId}
    (hid : .locking i r (some (.waiting id)) ∈ x.items) :
    ∃ v, s.line.pool.get? id = some v ∧
      (v.outcome ≠ some .granted →
        ((x.world.inside s).dropStage r (.waiting id)).sync.petitions =
            s.petitions.filter (·.ticket ≠ v.ticket) ∧
          ((x.world.inside s).dropStage r (.waiting id)).sync.holding = s.holding) ∧
      (v.outcome = some .granted →
        ((x.world.inside s).dropStage r (.waiting id)).sync.petitions = s.petitions.drop 1 ∧
          (∀ e ∈ s.petitions.head?,
            ((x.world.inside s).dropStage r (.waiting id)).sync.verdict? e.ticket =
              some (e.request, .granted)) ∧
          (s.petitions = [] →
            ((x.world.inside s).dropStage r (.waiting id)).sync.holding =
              Holding.exclusive false)) := by
  obtain ⟨locked, holding, -⟩ := h.holding hs
  have held : d.holding = Holding.exclusive locked := rests.holding.trans holding
  have listed : s.petitions = d.pending := rests.petitions_eq
  have entries := h.entries hs
  rw [listed] at entries
  have share : (r, Stage.waiting id) ∈ x.items.flatMap (Item.shares i) :=
    List.mem_flatMap.mpr ⟨_, hid, by simp [Item.shares, Stage.shares]⟩
  have entry : (r : Request) = .entry := h.request_of_share share
  obtain ⟨v, hv, hr⟩ : ∃ v, s.line.pool.get? id = some v ∧ v.request = r := by
    obtain ⟨c, held, lock, rfl, -, keeps⟩ := h.scene s hs
    obtain ⟨d', L', shows⟩ := lock.shows
    exact shows.waiter_of_share (keeps.subset share)
  have settled : d.settled v.ticket = v.verdict? :=
    rests.settled_eq (Section.waiter?_of_get? hv)
  obtain ⟨L', left, -, -⟩ := Section.leave_withdraw rests hv
  have petitions : ((x.world.inside s).leave id true).sync.petitions =
    (d.withdraw v.ticket).pending := left.petitions_eq
  have verdict := left.verdict?_eq
  have after : (d.withdraw v.ticket).holding =
    ((x.world.inside s).leave id true).sync.holding := left.holding
  have before : d.holding = s.holding := rests.holding
  refine ⟨v, hv, fun ungranted => ?_, fun granted => ?_⟩
  · -- It still waits or was refused. It holds nothing, so nobody moves up.
    have waits (none_yet : d.settled v.ticket = none) : ∃ e ∈ d.pending, e.ticket = v.ticket := by
      rw [settled, Waiter.verdict?_eq_none] at none_yet
      have he : v.bare.petition? = some _ := Waiter.petition?_of_pending none_yet
      exact ⟨_, rests.roll.mem_pending (Section.bare?_of_waiter? (Section.waiter?_of_get? hv)) he,
        rfl⟩
    have other (r' : Request) : d.settled v.ticket ≠ some (r', .granted) := by
      rw [settled]
      intro granted
      obtain ⟨o, ho, pair⟩ := Option.map_eq_some_iff.mp granted
      rw [(Prod.mk.inj pair).2] at ho
      exact ungranted ho
    obtain ⟨pending, same⟩ := Docket.withdraw_ungranted rests.rests held entries waits
      (fun e he => rests.roll.unsettled he) other
    rw [listed, ← before, ← same, ← pending]
    exact ⟨petitions, after.symm⟩
  · -- It holds the lock and does not know, so the next one gets it.
    have back : d.settled v.ticket = some (Request.entry, .granted) := by
      rw [settled, Waiter.verdict?, granted, Option.map_some, hr, entry]
      rfl
    obtain ⟨pending, next, free⟩ := Docket.withdraw_granted held entries back
    rw [listed]
    refine ⟨petitions.trans pending, fun e he => ?_, fun nobody => ?_⟩
    · exact (verdict e.ticket).trans (next e he)
    · exact after.symm.trans (free nobody)

theorem excludes (h : x.Locked i) (hs : x.world.syncs[i]? = some s) {d : Docket Policy.standard}
    {L : List Nat} (rests : (x.world.inside s).Rests d L) : x.world.Excludes x.items i s := by
  obtain ⟨locked, holding, total⟩ := h.holding hs
  have most := locked.toNat_le
  refine ⟨by omega, ⟨locked, holding, ?_⟩, fun wanted => ?_, fun r hr => h.freed hs hr,
    fun r id hid => h.passed hs rests hid⟩
  · rw [← Bool.toNat_eq_one, ← total, ← Item.countP_isGuard_pos, ← Item.countP_isGranted_pos]
    omega
  · rw [holding]
    rcases locked with _ | _
    · have listed : s.petitions = d.pending := rests.petitions_eq
      have entries := h.entries hs
      rw [listed] at wanted entries
      have free : d.holding = Holding.exclusive false := rests.holding.trans holding
      exact absurd (rests.rests.pending_of_free free entries) wanted
    · rfl

end Estate.Locked

/-! ## Runs -/

namespace Machine

variable {m₀ : Machine Policy.standard} {i n : Nat}

theorem Fresh.locked (fresh : m₀.Fresh)
    (locks : ∀ k < n, (step^[k] m₀).locksOnly i = true) : (step^[n] m₀).estate.Locked i := by
  refine fresh.keeps n (fun w none_yet => ⟨by simp, fun s hs => ?_, fun _ => ⟨rfl, rfl⟩⟩)
    fun k hk y goes h => goes.locked h fun q hq own => ?_
  · rw [none_yet] at hs
    cases hs
  · have only := locks k hk
    unfold locksOnly at only
    rw [show (step^[k] m₀).demand? = some q from hq, Option.all_some, own] at only
    simpa using only

/-- As long as a lock is used through its futures, their guards and disposal only, it excludes,
whatever its callers poll, drop and dispose of, at whatever time, and from inside whatever waker. -/
theorem lock_excludes (fresh : m₀.Fresh) (locks : ∀ k < n, (step^[k] m₀).locksOnly i = true)
    {s : Sync Policy.standard} (hs : (step^[n] m₀).world.syncs[i]? = some s) :
    (step^[n] m₀).world.Excludes (step^[n] m₀).items i s := by
  obtain ⟨d, L, rests⟩ := (fresh.plays n).rests hs
  exact (fresh.locked locks).excludes hs rests

/-- The first guard is dropped while two futures wait. Then the second future is dropped, which has
been granted the lock by that, and the lock is disposed of. -/
def handover : Machine Policy.standard :=
  ofScript (.blank .zero none false)
    [.create "lock" false (Holding.exclusive false) {}, .lock "lock" "a" Request.entry,
      .lock "lock" "b" Request.entry, .lock "lock" "c" Request.entry, .poll "a" "a" none,
      .poll "b" "b" none, .poll "c" "c" (some [.poll "c" "c" none]), .drop "a", .drop "b",
      .dispose "lock" "end", .drop "c"]

theorem lock_excludes_handover :
    ∃ s, (step^[33] handover).world.syncs[0]? = some s ∧
      (step^[33] handover).world.Excludes (step^[33] handover).items 0 s := by
  obtain ⟨s, hs⟩ : ∃ s, (step^[33] handover).world.syncs[0]? = some s :=
    Option.isSome_iff_exists.mp (by decide +kernel)
  exact ⟨s, hs, lock_excludes (n := 33) ⟨.zero, none, false, _, rfl⟩ (by decide +kernel) hs⟩

end Machine

end Turnstile
