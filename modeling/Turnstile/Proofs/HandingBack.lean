import Turnstile.Proofs.Conservation
import Turnstile.Proofs.Observing

/-!
# What nobody saw is handed back

Whoever drops a future that has been admitted without looking at it leaves everything as if it had
looked and then given back what it got.
-/

namespace Turnstile

variable {P : Policy}

namespace Section

/-! ## Sections but for their reports -/

/-- What is left of a section when nobody listens to its reports. -/
def mute (s : Section P) : Section P := { s with events := [] }

@[simp] theorem mute_sync (s : Section P) : s.mute.sync = s.sync := rfl

@[simp] theorem mute_waiter? (s : Section P) (i : Nat) : s.mute.waiter? i = s.waiter? i := rfl

@[simp] theorem mute_isPending (s : Section P) (i : Nat) : s.mute.isPending i = s.isPending i := rfl

theorem setLine_mute (s : Section P) (line : Line P.Request) :
    (s.setLine line).mute = s.mute.setLine line := rfl

theorem update_mute (s : Section P) (i : Nat) (f : Waiter P.Request → Waiter P.Request) :
    (s.update i f).mute = s.mute.update i f := rfl

theorem tell_mute (s : Section P) (n : Notice P.Request) : (s.tell n).mute = s.mute := rfl

theorem disarm_mute (s : Section P) (i : Nat) : (s.disarm i).mute = s.mute.disarm i := by
  unfold disarm
  rw [mute_waiter?]
  rcases s.waiter? i with _ | w <;> rfl

theorem resolve_mute (s : Section P) (i : Nat) (o : Outcome) :
    (s.resolve i o).mute = s.mute.resolve i o := by
  unfold resolve
  rw [mute_waiter?]
  rcases s.waiter? i with _ | w
  · rfl
  · dsimp only
    rw [← update_mute, ← disarm_mute]
    rfl

theorem exposeAtMost_mute (fuel : Nat) (s : Section P) :
    (s.exposeAtMost fuel).mute = s.mute.exposeAtMost fuel := by
  induction fuel generalizing s with
  | zero => rfl
  | succ fuel ih =>
    unfold exposeAtMost
    rw [mute_sync]
    rcases s.sync.line.head with _ | i
    · rfl
    · dsimp only
      rw [mute_isPending, ← setLine_mute, ← ih]
      split <;> rfl

theorem exposeHead_mute (s : Section P) : s.exposeHead.mute = s.mute.exposeHead :=
  s.exposeAtMost_mute _

theorem grantAtMost_mute (fuel : Nat) (s : Section P) :
    (s.grantAtMost fuel).mute = (s.mute.grantAtMost fuel).mute := by
  induction fuel generalizing s with
  | zero =>
    unfold grantAtMost
    rw [← exposeHead_mute]
    rfl
  | succ fuel ih =>
    unfold grantAtMost
    dsimp only
    rw [← exposeHead_mute]
    generalize s.exposeHead = s
    simp only [mute_sync, mute_waiter?]
    rcases s.sync.line.head.bind fun i => (s.waiter? i).map (i, ·) with _ | ⟨i, w⟩
    · rfl
    · by_cases allowed : P.allows s.sync.holding w.request = true
      · simp only [allowed, if_true]
        let left (s : Section P) : Section P :=
          (s.setLine s.sync.line.dequeue.1).setHolding (P.enter s.sync.holding w.request)
        have same : ((left s).resolve i .granted).mute = ((left s.mute).resolve i .granted).mute := by
          rw [resolve_mute, resolve_mute]
          rfl
        generalize Notice.granted w.request i w.ticket = notice
        calc (grantAtMost fuel (((left s).resolve i .granted).tell notice)).mute
            = (grantAtMost fuel ((left s).resolve i .granted).mute).mute := ih _
          _ = (grantAtMost fuel ((left s.mute).resolve i .granted).mute).mute := by rw [same]
          _ = (grantAtMost fuel (((left s.mute).resolve i .granted).tell notice)).mute :=
            (ih (((left s.mute).resolve i .granted).tell notice)).symm
      · simp only [allowed]
        rfl

theorem grantRun_mute (s : Section P) : s.grantRun.mute = s.mute.grantRun.mute :=
  s.grantAtMost_mute _

theorem endDisposal_mute (s : Section P) : s.endDisposal.mute = s.mute.endDisposal.mute := by
  unfold Section.endDisposal
  rw [mute_sync]
  split <;> rfl

theorem settled_tell (s : Section P) (n : Notice P.Request) :
    (s.tell n).grantRun.endDisposal.mute = s.grantRun.endDisposal.mute := by
  rw [endDisposal_mute, grantRun_mute, tell_mute, ← grantRun_mute, ← endDisposal_mute]

/-! ## Handing back -/

variable {s : Section P} {d : Docket P} {L : List Nat} {id : WaiterId} {w : Waiter P.Request}

theorem releaseBy_of_ok {f : P.State → Except Refusal P.State} {holding : P.State}
    (unended : s.sync.phase ≠ .disposed) (given : f s.sync.holding = .ok holding) :
    s.releaseBy f = ((s.setHolding holding).grantRun.endDisposal, .ok ()) := by
  unfold releaseBy
  rw [if_neg unended]
  simp only [given]

/-- To leave with a grant is to have observed it and to give it back. -/
theorem Rests.leave_granted (h : s.Rests d L) (hw : s.sync.line.pool.get? id = some w)
    (granted : w.outcome = some .granted) :
    (s.leave id true).mute =
      ((s.leave id false).setHolding (P.release s.sync.holding w.request)).grantRun.endDisposal.mute := by
  have resolved : w.outcome ≠ none := by simp [granted]
  have holding : (s.detach id w.linked).sync.holding = s.sync.holding := by
    rw [h.detach_eq hw resolved]
    rfl
  have observed : s.leave id false = s.detach id w.linked := h.leave_of_resolved hw resolved rfl
  rw [observed, leave_eq hw]
  simp only [granted, decide_true, Bool.and_self, Bool.or_true, if_true, holding]
  exact settled_tell _ _

end Section

/-- The deed gives back what `r` got of the holding `h`. -/
inductive Deed.Gives (h : P.State) (r : P.Request) : Deed P → Prop
  | release (may : P.mayRelease h r = true) : Gives h r (.release (some r))
  | dropGuard (may : P.mayRelease h r = true) : Gives h r (.dropGuard r)
  | unnamed (stands : P.desk.standing h = some r) : Gives h r (.release none)

theorem Effect.scene_of_mute {e e' : Effect P} (settled : e.after.mute = e'.after.mute)
    (futures : e.futures = e'.futures) : e.scene = e'.scene := by
  have sync : e.after.sync = e'.after.sync := (congrArg Section.sync settled :)
  have timers : e.after.timers = e'.after.timers := (congrArg Section.timers settled :)
  have tokens : e.after.tokens = e'.after.tokens := (congrArg Section.tokens settled :)
  unfold scene
  rw [sync, timers, tokens, futures]

namespace Scene

variable {c : Scene P} {d : Docket P} {L : List Nat} {k : Nat} {f : Future P} {x : Deed P}

theorem perform_of_gives {r : P.Request} (gives : x.Gives c.sync.holding r)
    (unended : c.sync.phase ≠ .disposed) :
    c.perform x =
      { after := (c.inside.setHolding (P.release c.sync.holding r)).grantRun.endDisposal
        futures := c.futures, answer := some (.ok ()) } := by
  have given {g : P.State → Except Refusal P.State}
      (hg : g c.sync.holding = .ok (P.release c.sync.holding r)) :=
    Section.releaseBy_of_ok (s := c.inside) unended hg
  have named (may : P.mayRelease c.sync.holding r = true) :
      c.inside.release (some r) = _ := given (g := Section.returned r) (if_pos may)
  cases gives with
  | release may => rw [perform, named may]
  | dropGuard may => rw [perform, Section.dropGuard, named may]
  | unnamed stands =>
    have unnamed : c.inside.release none = _ := given (g := Section.returnedStanding) (by
      unfold Section.returnedStanding
      rw [stands])
    rw [perform, unnamed]

/-- An admission that its future has not told. -/
def Admitted (c : Scene P) (k : Nat) : Prop :=
  (∃ f, c.futures[k]? = some f ∧ f.stage = .ready (.ok ())) ∨ c.outcome? k = some .granted

/-- A poll that tells of an admission and a release after it are a drop. -/
structure HandedBack (c : Scene P) (k : Nat) (polled returned : Effect P) : Prop where
  heard : polled.answer = some (.ok ())
  quiet : polled.after.wakes = []
  given : returned.answer = some (.ok ())
  scene : returned.scene = c.after (.drop k)
  wakes : returned.after.wakes = (c.perform (.drop k)).after.wakes

theorem handedBack_of_settled (hk : c.futures[k]? = some f) {polled : Effect P}
    (unended : c.sync.phase ≠ .disposed) (gives : x.Gives c.sync.holding f.request)
    (heard : polled.answer = some (.ok ())) (quiet : polled.after.wakes = [])
    (holding : polled.after.sync.holding = c.sync.holding)
    (phase : polled.after.sync.phase = c.sync.phase)
    (futures : polled.futures = c.futures.set k { f with stage := .done })
    (settled : (c.inside.dropStage f.request f.stage).mute =
      (polled.scene.inside.setHolding
        (P.release c.sync.holding f.request)).grantRun.endDisposal.mute) :
    c.HandedBack k polled (polled.scene.perform x) := by
  have returned := perform_of_gives (c := polled.scene) (x := x) (r := f.request)
    (by rw [show polled.scene.sync.holding = _ from holding]; exact gives)
    (by rw [show polled.scene.sync.phase = _ from phase]; exact unended)
  rw [show polled.scene.sync.holding = _ from holding] at returned
  rw [returned]
  refine ⟨heard, quiet, rfl, ?_, ?_⟩
  · rw [after, drop_eq hk]
    exact Effect.scene_of_mute settled.symm futures
  · rw [drop_eq hk]
    exact (congrArg Section.wakes settled).symm

theorem Shows.handed_back (h : c.Shows d L) (hk : c.futures[k]? = some f) (admitted : c.Admitted k)
    (unended : c.sync.phase ≠ .disposed) (gives : x.Gives c.sync.holding f.request)
    (waker : Waker) :
    c.HandedBack k (c.perform (.poll k waker)) ((c.after (.poll k waker)).perform x) := by
  rcases admitted with ⟨f', hk', ready⟩ | granted
  · obtain rfl := Option.some.inj (hk.symm.trans hk')
    have polled := poll_ready hk ready waker
    refine handedBack_of_settled hk unended gives (by rw [polled]) (by rw [polled]; rfl)
      (by rw [polled]; rfl) (by rw [polled]; rfl) (by rw [polled]) ?_
    rw [polled, ready]
    have handed : c.inside.releaseBy (fun h => .ok (P.release h f.request)) = _ :=
      Section.releaseBy_of_ok unended rfl
    exact congrArg (·.1.mute) handed
  · obtain ⟨w, hw, outcome⟩ := Option.bind_eq_some_iff.mp granted
    obtain ⟨f', id, hk', waits, hget⟩ := waiter?_eq_some hw
    obtain rfl := Option.some.inj (hk.symm.trans hk')
    obtain ⟨w', hw', -, -, request⟩ := h.waiter?_eq hk waits
    obtain rfl := Option.some.inj (hw.symm.trans hw')
    have polled := poll_resolved hk waits hget outcome waker
    have looked := h.rests.poll_of_resolved hget outcome waker
    rw [looked] at polled
    refine handedBack_of_settled hk unended gives (by rw [polled]; rfl) (by rw [polled]; rfl)
      (by rw [polled]; rfl) (by rw [polled]; rfl) (by rw [polled]) ?_
    rw [polled, waits]
    have observed : c.inside.leave id false = _ :=
      h.rests.leave_of_resolved hget (by simp [outcome]) rfl
    rw [h.rests.detach_eq hget (by simp [outcome])] at observed
    have left := h.rests.leave_granted hget outcome
    rw [observed, request] at left
    exact left

end Scene

/-! ## Locks, semaphores and reader/writer locks -/

theorem Request.tally_ne_zero {r : Request} (nonempty : r ≠ .permits 0) : r.tally ≠ 0 := by
  intro none
  rcases r with _ | n | _ | _
  · exact absurd (congrFun none .entry) (by decide)
  · have nothing : n = 0 := congrFun none .permit
    exact nonempty (congrArg _ nothing)
  · exact absurd (congrFun none .read) (by decide)
  · exact absurd (congrFun none .write) (by decide)

namespace Holding

variable {start h : Holding} {t : Tally} {r : Request}

theorem Balances.mayRelease (hb : Balances start h t) (out : r.tally ≤ t) (nonempty : r ≠ .permits 0) :
    h.mayRelease r = true := by
  have entry : r.tally .entry ≤ t .entry := out .entry
  have permit : r.tally .permit ≤ t .permit := out .permit
  have read : r.tally .read ≤ t .read := out .read
  have write : r.tally .write ≤ t .write := out .write
  rcases start with s | ⟨a, c⟩ | ⟨n, w⟩ <;>
    rcases h with locked | ⟨available, capacity⟩ | ⟨readers, writer⟩ <;> try exact hb.elim
  · rcases locked with _ | _ <;> rcases r with _ | n | _ | _ <;>
      simp_all [Balances, Holding.mayRelease, Request.tally]
  · rcases r with _ | n | _ | _ <;> simp_all [Balances, Holding.mayRelease, Request.tally]
    omega
  · rcases writer with _ | _ <;> rcases r with _ | n | _ | _ <;>
      simp_all [Balances, Holding.mayRelease, Request.tally]
    omega

theorem Balances.stands (hb : Balances start h t) (out : r.tally ≤ t) (unit : ∀ n, r ≠ .permits n) :
    h.standing = some r := by
  have entry : r.tally .entry ≤ t .entry := out .entry
  have read : r.tally .read ≤ t .read := out .read
  have write : r.tally .write ≤ t .write := out .write
  rcases start with s | ⟨a, c⟩ | ⟨n, w⟩ <;>
    rcases h with locked | ⟨available, capacity⟩ | ⟨readers, writer⟩ <;> try exact hb.elim
  · rcases locked with _ | _ <;> rcases r with _ | n | _ | _ <;>
      simp_all [Balances, Holding.standing, Request.tally]
  · rcases r with _ | n | _ | _ <;> simp_all [Balances, Request.tally]
  · rcases writer with _ | _ <;> rcases r with _ | n | _ | _ <;>
      simp_all [Balances, Holding.standing, Holding.access?, Request.tally]
    omega

end Holding

/-- The deeds by which somebody gives back what a request got. A semaphore wants to be told. -/
inductive Request.GivenBy (r : Request) : Deed Policy.standard → Prop
  | release : GivenBy r (.release (some r))
  | dropGuard : GivenBy r (.dropGuard r)
  | unnamed (unit : ∀ n, r ≠ .permits n) : GivenBy r (.release none)

namespace Scene

variable {c : Scene P} {d : Docket P} {L : List Nat} {k : Nat} {f : Future P}

theorem unseenOf_admitted {A : P.Accounts} (hk : c.futures[k]? = some f)
    (admitted : c.Admitted k) : c.unseenOf A f = A.weight f.request := by
  rcases admitted with ⟨f', hk', ready⟩ | granted
  · obtain rfl := Option.some.inj (hk.symm.trans hk')
    simp [unseenOf, ready]
  · obtain ⟨w, hw, outcome⟩ := Option.bind_eq_some_iff.mp granted
    obtain ⟨f', id, hk', waits, hget⟩ := waiter?_eq_some hw
    obtain rfl := Option.some.inj (hk.symm.trans hk')
    simp [unseenOf, waits, hget, outcome]

theorem weight_le_outstanding {A : P.Accounts} (hk : c.futures[k]? = some f)
    (unseen : c.unseenOf A f = A.weight f.request) (held : Tally) :
    A.weight f.request ≤ c.outstanding A held := by
  have part : c.unseenOf A f ≤ c.unseen A :=
    List.single_le_sum (by simp) _ (List.mem_map_of_mem (List.mem_of_getElem? hk))
  rw [← unseen]
  exact part.trans le_add_self

/-- To drop what has been admitted and not looked at is to look at it and to give it back. A semaphore
lets nobody ask for no permits. -/
theorem handed_back_of_honest {h : Holding} (hi : h.isIdle = true) {id warm : Nat}
    {retainLimit : Option Nat} {timers : Timers} {tokens : Tokens} {c : Scene Policy.standard}
    {held : Tally} (run : HonestRun (Policy.standardAccounts h)
      (start id h warm retainLimit timers tokens) c held) {k : Nat} {f : Future Policy.standard}
    (hk : c.futures[k]? = some f) (admitted : c.Admitted k)
    (nonempty : (f.request : Request) ≠ .permits 0) {x : Deed Policy.standard}
    (gives : Request.GivenBy f.request x) (waker : Waker) :
    c.HandedBack k (c.perform (.poll k waker)) ((c.after (.poll k waker)).perform x) := by
  obtain ⟨d, L, shows, balanced⟩ := run.balanced (balances_of_idle hi)
  have balances : Holding.Balances h c.sync.holding _ := run.balances (balances_of_idle hi)
  have out : (f.request : Request).tally ≤ c.outstanding (Policy.standardAccounts h) held :=
    weight_le_outstanding (A := Policy.standardAccounts h) hk (unseenOf_admitted hk admitted) held
  have unended : c.sync.phase ≠ .disposed := by
    intro ended
    have nothing := balanced.ended (shows.phase.trans ended)
    rw [add_assoc, ← shows.unseen_eq] at nothing
    have none : (f.request : Request).tally = 0 := nonpos_iff_eq_zero.mp (out.trans nothing.le)
    exact Request.tally_ne_zero nonempty none
  refine shows.handed_back hk admitted unended ?_ waker
  have may : Policy.standard.mayRelease c.sync.holding f.request = true :=
    balances.mayRelease out nonempty
  cases gives with
  | release => exact .release may
  | dropGuard => exact .dropGuard may
  | unnamed unit => exact .unnamed (balances.stands out unit)

/-- A lock is released to the first in line, who has not looked. Its drop wakes the next. -/
theorem handed_back_of_honest_next :
    let c : Scene Policy.standard := (start 0 (Holding.exclusive false) 0 none {} {}).run
      [.tryAcquire Request.entry, .acquire Request.entry .forever none none,
        .acquire Request.entry .forever none none, .poll 1 (.task "next"),
        .release (some Request.entry)]
    c.Admitted 0 ∧ (c.perform (.drop 0)).after.wakes = [.task "next"] ∧
      ∀ waker, c.HandedBack 0 (c.perform (.poll 0 waker))
        ((c.after (.poll 0 waker)).perform (.release none)) := by
  intro c
  have admitted : c.Admitted 0 := .inr (by decide +kernel)
  have entered := HonestRun.step (A := Policy.standardAccounts (.exclusive false))
    (x := .tryAcquire Request.entry)
    (.init : HonestRun _ (start 0 (Holding.exclusive false) 0 none {} {}) _ _) trivial
  have first := entered.step (x := .acquire Request.entry .forever none none) trivial
  have second := first.step (x := .acquire Request.entry .forever none none) trivial
  have polled := second.step (x := .poll 1 (.task "next")) trivial
  have released := polled.step (x := .release (some Request.entry))
    fun i => by cases i <;> decide +kernel
  have asked : c.futures[0]?.map (·.request) = some Request.entry := by decide +kernel
  obtain ⟨f, hk, request⟩ := Option.map_eq_some_iff.mp asked
  refine ⟨admitted, by decide +kernel, fun waker => ?_⟩
  exact handed_back_of_honest (h := .exclusive false) rfl released hk admitted
    (by rw [request]; nofun) (.unnamed (by rw [request]; nofun)) waker

end Scene

end Turnstile
