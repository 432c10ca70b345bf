import Turnstile.Proofs.Registries
import Mathlib.Data.List.Perm.Subperm

/-!
# Who is armed is served

The timers and the tokens serve those who are armed: whoever has a deadline has one timer, whoever
has a token has one subscription, and nobody else is in either. A timer that has been taken is owed
to its waiter until the waiter is woken, and so is a subscription to a token that has fired.
-/

namespace Turnstile

/-- The slot that a wake is for. -/
def Waker.target? : Waker → Option (Nat × Nat)
  | .trigger i j => some (i, j)
  | _ => none

/-- The slots that these wakes are for. -/
def targets (ws : List Waker) : List (Nat × Nat) := ws.filterMap Waker.target?

theorem mem_targets {ws : List Waker} {i j : Nat} (h : .trigger i j ∈ ws) : (i, j) ∈ targets ws :=
  List.mem_filterMap.mpr ⟨_, h, rfl⟩

variable {A A' : Nat → Nat → Option Arms} {i j : Nat} {a : Arms}

/-- `A` without the one in slot `j` of synchronizer `i`. -/
def Lapsed (A A' : Nat → Nat → Option Arms) (i j : Nat) : Prop :=
  ∀ i' j', A' i' j' = if i' = i ∧ j' = j then none else A i' j'

/-- `A` with `a` in slot `j` of synchronizer `i`, where nobody was. -/
structure Enrolled (A A' : Nat → Nat → Option Arms) (i j : Nat) (a : Arms) : Prop where
  free : A i j = none
  arms : ∀ i' j', A' i' j' = if i' = i ∧ j' = j then some a else A i' j'

theorem Lapsed.old (h : Lapsed A A' i j) {i' j' : Nat} {b : Arms} (hb : A' i' j' = some b) :
    A i' j' = some b ∧ ¬(i' = i ∧ j' = j) := by
  rw [h] at hb
  split at hb
  · cases hb
  · exact ⟨hb, ‹_›⟩

theorem Lapsed.kept (h : Lapsed A A' i j) {i' j' : Nat} {b : Arms} (hb : A i' j' = some b)
    (other : ¬(i' = i ∧ j' = j)) : A' i' j' = some b := by
  rw [h, if_neg other, hb]

theorem Enrolled.cases (h : Enrolled A A' i j a) {i' j' : Nat} {b : Arms} (hb : A' i' j' = some b) :
    (i' = i ∧ j' = j ∧ b = a) ∨ A i' j' = some b := by
  rw [h.arms] at hb
  split at hb
  · rename_i here
    exact .inl ⟨here.1, here.2, (Option.some.inj hb).symm⟩
  · exact .inr hb

theorem Enrolled.new (h : Enrolled A A' i j a) : A' i j = some a := by
  rw [h.arms, if_pos ⟨rfl, rfl⟩]

theorem Enrolled.kept (h : Enrolled A A' i j a) {i' j' : Nat} {b : Arms} (hb : A i' j' = some b) :
    A' i' j' = some b := by
  rw [h.arms, if_neg, hb]
  rintro ⟨rfl, rfl⟩
  rw [h.free] at hb
  cases hb

/-! ## Timers -/

namespace Timers

/-- The timers serve `A`. The callers know the timers `named`, and the waiters in the slots `late`
are still to be woken by timers that have been taken. -/
structure Serves (t : Timers) (A : Nat → Nat → Option Arms) (named : List TimerKey)
    (late : List (Nat × Nat)) : Prop where
  sound : t.Sound
  named : ∀ k ∈ named, k.number < t.nextNumber ∧ ∀ i j a, A i j = some a → a.timer ≠ some k
  deadline : ∀ i j a, A i j = some a → a.timer.map (·.deadline) = a.deadline
  numbered : ∀ i j a, A i j = some a → ∀ k, a.timer = some k → k.number < t.nextNumber
  armed : ∀ i j a, A i j = some a → ∀ k, a.timer = some k →
    (k, .trigger i j) ∈ t.pending ∨ k.deadline ≤ t.now ∧ (i, j) ∈ late
  unique : ∀ i j a, A i j = some a → ∀ i' j' b, A i' j' = some b → ∀ k, a.timer = some k →
    b.timer = some k → i = i' ∧ j = j'
  owned : ∀ k i j, (k, .trigger i j) ∈ t.pending → ∃ a, A i j = some a ∧ a.timer = some k

variable {t t' : Timers} {named named' : List TimerKey} {late late' : List (Nat × Nat)}

theorem Serves.mono (h : t.Serves A named late) (keys : named' ⊆ named) (wakes : late ⊆ late') :
    t.Serves A named' late' :=
  ⟨h.sound, fun k hk => h.named k (keys hk), h.deadline, h.numbered,
    fun i j a ha k hk => (h.armed i j a ha k hk).imp_right fun due => ⟨due.1, wakes due.2⟩,
    h.unique, h.owned⟩

theorem Serves.without (h : t.Serves A named late) (gone : TimerKey → Prop)
    (sound : t'.Sound) (now : t'.now = t.now) (next : t'.nextNumber = t.nextNumber)
    (pending : ∀ e, e ∈ t'.pending ↔ e ∈ t.pending ∧ ¬gone e.1)
    (old : ∀ i j a, A' i j = some a → A i j = some a ∧ ∀ k, a.timer = some k → ¬gone k)
    (kept : ∀ i j a k, A i j = some a → a.timer = some k → ¬gone k → A' i j = some a) :
    t'.Serves A' named late := by
  constructor
  · exact sound
  · intro k hk
    rw [next]
    exact ⟨(h.named k hk).1, fun i j a ha => (h.named k hk).2 i j a (old i j a ha).1⟩
  · exact fun i j a ha => h.deadline i j a (old i j a ha).1
  · intro i j a ha k hk
    rw [next]
    exact h.numbered i j a (old i j a ha).1 k hk
  · intro i j a ha k hk
    obtain ⟨before, stays⟩ := old i j a ha
    rw [now, pending]
    exact (h.armed i j a before k hk).imp_left fun waits => ⟨waits, stays k hk⟩
  · exact fun i j a ha i' j' b hb => h.unique i j a (old i j a ha).1 i' j' b (old i' j' b hb).1
  · intro k i j hk
    obtain ⟨waits, stays⟩ := (pending _).mp hk
    obtain ⟨a, ha, timer⟩ := h.owned k i j waits
    exact ⟨a, kept i j a k ha timer stays, timer⟩

theorem Serves.lapse (h : t.Serves A named late) (ha : A i j = some a) (lapsed : Lapsed A A' i j) :
    (a.timer.elim t t.cancel).Serves A' named late := by
  have other {i' j' : Nat} {b : Arms} (hb : A' i' j' = some b) (k : TimerKey)
      (hk : b.timer = some k) : ¬a.timer = some k := by
    intro same
    obtain ⟨before, apart⟩ := lapsed.old hb
    obtain ⟨rfl, rfl⟩ := h.unique i j a ha _ _ b before k same hk
    exact apart ⟨rfl, rfl⟩
  have kept (i' j' : Nat) (b : Arms) (k : TimerKey) (hb : A i' j' = some b) (hk : b.timer = some k)
      (stays : ¬a.timer = some k) : A' i' j' = some b := by
    refine lapsed.kept hb ?_
    rintro ⟨rfl, rfl⟩
    rw [hb] at ha
    exact stays (Option.some.inj ha ▸ hk)
  have old (i' j' : Nat) (b : Arms) (hb : A' i' j' = some b) :
      A i' j' = some b ∧ ∀ k, b.timer = some k → ¬a.timer = some k :=
    ⟨(lapsed.old hb).1, other hb⟩
  rcases hk : a.timer with _ | k
  · rw [hk] at old kept
    exact h.without _ h.sound rfl rfl (by simp) old kept
  · rw [hk] at old kept
    refine h.without _ (h.sound.cancel k) rfl rfl (fun e => ?_) old kept
    rw [Option.elim_some, mem_cancel, Option.some.injEq, eq_comm (a := k)]

theorem Serves.cancel (h : t.Serves A named late) {k : TimerKey} (hk : k ∈ named) :
    (t.cancel k).Serves A named late :=
  h.without (· = k) (h.sound.cancel k) rfl rfl (fun _ => mem_cancel)
    (fun i j a ha => ⟨ha, fun _ hk' same => (h.named k hk).2 i j a ha (same ▸ hk')⟩)
    fun _ _ _ _ ha _ _ => ha

theorem Sound.arms (h : t.Sound) {timeout : Timeout} {w : Waker} {deadline : Option Time}
    {timer : Option TimerKey} (armed : Section.arm t timeout w = (t', deadline, timer)) :
    t'.Sound ∧ t'.now = t.now ∧ t.nextNumber ≤ t'.nextNumber ∧
      timer.map (·.deadline) = deadline ∧
      (∀ k, timer = some k → k.number = t.nextNumber ∧ k.number < t'.nextNumber) ∧
      ∀ e, e ∈ t'.pending ↔ (timer = some e.1 ∧ e.2 = w) ∨ e ∈ t.pending := by
  unfold Section.arm at armed
  cases timeout with
  | forever =>
    obtain ⟨rfl, rfl, rfl⟩ : t = t' ∧ none = deadline ∧ none = timer := by simpa using armed
    exact ⟨h, rfl, Nat.le_refl _, rfl, by simp, by simp⟩
  | after d =>
    obtain ⟨rfl, rfl, rfl⟩ : (t.register (t.now.add d) w).1 = t' ∧ some (t.now.add d) = deadline ∧
        some (t.register (t.now.add d) w).2 = timer := by simpa using armed
    refine ⟨h.register _ w, rfl, Nat.le_succ _, rfl, fun k hk => ?_, fun e => ?_⟩
    · rw [← Option.some.inj hk]
      exact ⟨rfl, Nat.lt_succ_self _⟩
    · rw [mem_register, Option.some.injEq]
      constructor
      · rintro (rfl | he)
        · exact .inl ⟨rfl, rfl⟩
        · exact .inr he
      · rintro (⟨key, rfl⟩ | he)
        · exact .inl (Prod.ext key.symm rfl)
        · exact .inr he

theorem Serves.enrol (h : t.Serves A named late) (enrolled : Enrolled A A' i j a)
    {timeout : Timeout}
    (armed : Section.arm t timeout (.trigger i j) = (t', a.deadline, a.timer)) :
    t'.Serves A' named late := by
  obtain ⟨sound, now, next, deadline, number, pending⟩ := h.sound.arms armed
  -- The new timer has a number that nobody had before.
  have new {k : TimerKey} (hk : a.timer = some k) (old : k.number < t.nextNumber) : False := by
    rw [(number k hk).1] at old
    exact Nat.lt_irrefl _ old
  constructor
  · exact sound
  · intro k hk
    refine ⟨Nat.lt_of_lt_of_le (h.named k hk).1 next, fun i' j' b hb timer => ?_⟩
    rcases enrolled.cases hb with ⟨-, -, rfl⟩ | hb
    · exact new timer (h.named k hk).1
    · exact (h.named k hk).2 i' j' b hb timer
  · intro i' j' b hb
    rcases enrolled.cases hb with ⟨-, -, rfl⟩ | hb
    · exact deadline
    · exact h.deadline i' j' b hb
  · intro i' j' b hb k hk
    rcases enrolled.cases hb with ⟨-, -, rfl⟩ | hb
    · exact (number k hk).2
    · exact Nat.lt_of_lt_of_le (h.numbered i' j' b hb k hk) next
  · intro i' j' b hb k hk
    rw [now, pending]
    rcases enrolled.cases hb with ⟨rfl, rfl, rfl⟩ | hb
    · exact .inl (.inl ⟨hk, rfl⟩)
    · exact (h.armed i' j' b hb k hk).imp_left .inr
  · intro i' j' b hb i'' j'' c hc k hk hk'
    rcases enrolled.cases hb with ⟨rfl, rfl, rfl⟩ | hb <;>
      rcases enrolled.cases hc with ⟨rfl, rfl, rfl⟩ | hc
    · exact ⟨rfl, rfl⟩
    · exact (new hk (h.numbered _ _ c hc k hk')).elim
    · exact (new hk' (h.numbered _ _ b hb k hk)).elim
    · exact h.unique i' j' b hb i'' j'' c hc k hk hk'
  · intro k i' j' hk
    rcases (pending _).mp hk with ⟨timer, w⟩ | hk
    · obtain ⟨rfl, rfl⟩ := Waker.trigger.inj w
      exact ⟨a, enrolled.new, timer⟩
    · obtain ⟨b, hb, timer⟩ := h.owned k i' j' hk
      exact ⟨b, enrolled.kept hb, timer⟩

theorem Serves.register (h : t.Serves A named late) (d : Time) (name : String)
    (keys : named' ⊆ ⟨d, t.nextNumber⟩ :: named) :
    (t.register d (.task name)).1.Serves A named' late := by
  have next : (t.register d (.task name)).1.nextNumber = t.nextNumber + 1 := rfl
  constructor
  · exact h.sound.register d _
  · intro k hk
    rw [next]
    rcases List.mem_cons.mp (keys hk) with rfl | hk
    · exact ⟨Nat.lt_succ_self _, fun i j a ha timer => Nat.lt_irrefl _ (h.numbered i j a ha _ timer)⟩
    · exact ⟨Nat.lt_succ_of_lt (h.named k hk).1, (h.named k hk).2⟩
  · exact h.deadline
  · exact fun i j a ha k hk => Nat.lt_succ_of_lt (h.numbered i j a ha k hk)
  · intro i j a ha k hk
    rw [mem_register]
    exact (h.armed i j a ha k hk).imp_left .inr
  · exact h.unique
  · intro k i j hk
    rcases mem_register.mp hk with same | hk
    · cases same
    · exact h.owned k i j hk

theorem Serves.takeDue (h : t.Serves A named late) :
    t.takeDue.1.Serves A named (targets (t.takeDue.2.map Prod.snd) ++ late) := by
  constructor
  · exact h.sound.takeDue
  · exact h.named
  · exact h.deadline
  · exact h.numbered
  · intro i j a ha k hk
    rcases h.armed i j a ha k hk with waits | ⟨due, late⟩
    · rcases fires_or_stays waits with ⟨due, taken⟩ | stays
      · exact .inr ⟨due, List.mem_append_left _ (mem_targets (List.mem_map_of_mem taken))⟩
      · exact .inl stays
    · exact .inr ⟨due, List.mem_append_right _ late⟩
  · exact h.unique
  · exact fun k i j hk => h.owned k i j ((List.dropWhile_sublist _).subset hk)

theorem Serves.clock (h : t.Serves A named late) {now : Time} (forward : late ≠ [] → t.now ≤ now) :
    Serves { t with now } A named late := by
  refine ⟨⟨h.sound.numbered, h.sound.distinct, h.sound.sorted⟩, h.named, h.deadline, h.numbered,
    fun i j a ha k hk => ?_, h.unique, h.owned⟩
  rcases h.armed i j a ha k hk with waits | ⟨due, late⟩
  · exact .inl waits
  · exact .inr ⟨le_trans due (forward (List.ne_nil_of_mem late)), late⟩

theorem Serves.woken (h : t.Serves A named late)
    (calm : ∀ a, A i j = some a → ∀ d, a.deadline = some d → ¬d ≤ t.now)
    (rest : ∀ p ∈ late, p = (i, j) ∨ p ∈ late') : t.Serves A named late' := by
  refine ⟨h.sound, h.named, h.deadline, h.numbered, fun i' j' a ha k hk => ?_, h.unique, h.owned⟩
  rcases h.armed i' j' a ha k hk with waits | ⟨due, late⟩
  · exact .inl waits
  · rcases rest _ late with here | late
    · obtain ⟨rfl, rfl⟩ := Prod.mk.inj here
      have deadline := h.deadline _ _ a ha
      rw [hk, Option.map_some] at deadline
      exact absurd due (calm a ha k.deadline deadline.symm)
    · exact .inr ⟨due, late⟩

end Timers

/-! ## Tokens -/

namespace Tokens

/-- The tokens serve `A`. The callers have the subscriptions `kept`, and the waiters in the slots
`early` are still to be woken by tokens that have fired. -/
structure Serves (ts : Tokens) (A : Nat → Nat → Option Arms) (kept : List Registration)
    (early : List (Nat × Nat)) : Prop where
  sound : ts.Sound
  armed : ∀ i j a, A i j = some a → ∀ r, a.registration = some r →
    (ts.isCancelled r.token = false ∧ ts.Hears r (.trigger i j)) ∨
      ts.isCancelled r.token = true ∧ (i, j) ∈ early
  owned : ∀ t n s i j, ts.listener? t n = some s → s.waker = some (.trigger i j) →
    ∃ a, A i j = some a ∧ a.registration = some ⟨t, n, s.generation⟩
  theirs : ∀ r ∈ kept, ts.isCancelled r.token = true ∨ ∃ name, ts.Hears r (.task name)
  nodup : kept.Nodup

variable {ts ts' : Tokens} {kept kept' : List Registration} {early early' : List (Nat × Nat)}
  {r r' : Registration} {w w' : Waker}

theorem Hears.keeps (h : ts.Hears r w) : ts.Keeps r := ⟨_, h, rfl, rfl⟩

theorem Hears.unique (h : ts.Hears r w) (h' : ts.Hears r' w') (token : r'.token = r.token)
    (slot : r'.slot = r.slot) : r' = r ∧ w' = w := by
  unfold Hears at h h'
  rw [token, slot, h] at h'
  obtain ⟨generation, waker, -⟩ := Listener.mk.inj (Option.some.inj h')
  cases r
  cases r'
  exact ⟨by simp_all, (Option.some.inj waker).symm⟩

theorem Serves.mono (h : ts.Serves A kept early) (fewer : kept'.Subperm kept)
    (wakes : early ⊆ early') : ts.Serves A kept' early' :=
  ⟨h.sound, fun i j a ha r hr => (h.armed i j a ha r hr).imp_right fun fired =>
    ⟨fired.1, wakes fired.2⟩, h.owned, fun r hr => h.theirs r (List.Subperm.subset fewer hr), by
      obtain ⟨l, perm, sub⟩ := fewer
      exact perm.nodup_iff.mp (h.nodup.sublist sub)⟩

theorem Serves.same (h : ts.Serves A kept early) (faces : ts'.face? = ts.face?) :
    ts'.Serves A kept early := by
  have listener (t n : Nat) : ts'.listener? t n = ts.listener? t n := by
    unfold listener?
    rw [faces]
  have cancelled (t : Nat) : ts'.isCancelled t = ts.isCancelled t := by
    rw [isCancelled_eq_face, isCancelled_eq_face, faces]
  refine ⟨⟨fun t c l hl => h.sound.listeners t c l (by rwa [← faces]), fun t n s hc hs => ?_⟩,
    fun i j a ha r hr => ?_, fun t n s i j hs hw => ?_, fun r hr => ?_, h.nodup⟩
  · exact h.sound.silent t n s (by rwa [← cancelled]) (by rwa [← listener])
  · unfold Hears
    rw [cancelled, listener]
    exact h.armed i j a ha r hr
  · exact h.owned t n s i j (by rwa [← listener]) hw
  · unfold Hears
    rw [cancelled]
    simp only [listener]
    exact h.theirs r hr

theorem Serves.unregister (h : ts.Serves A kept early)
    (ends : ts.isCancelled r.token = true ∨ ∃ w, ts.Hears r w)
    (old : ∀ i j a, A' i j = some a → A i j = some a ∧
      ∀ r', a.registration = some r' → ts.Hears r' (.trigger i j) →
        ¬(r'.token = r.token ∧ r'.slot = r.slot))
    (stays : ∀ i j a, A i j = some a → a.registration ≠ some r → A' i j = some a)
    (fewer : ∀ r' ∈ kept', r' ∈ kept ∧ (∀ w, ts.Hears r' w →
      ¬(r'.token = r.token ∧ r'.slot = r.slot)))
    (nodup : kept'.Nodup) : (ts.unregister r).Serves A' kept' early := by
  obtain ⟨sound, cancelled, ended, same⟩ := h.sound.unregister r
  have hears {r' : Registration} {w : Waker} (hr : ts.Hears r' w)
      (apart : ¬(r'.token = r.token ∧ r'.slot = r.slot)) : (ts.unregister r).Hears r' w := by
    unfold Hears
    by_cases keeps : ts.Keeps r
    · rw [ended keeps, if_neg apart]
      exact hr
    · rw [same keeps]
      exact hr
  constructor
  · exact sound
  · intro i j a ha r' hr
    obtain ⟨before, apart⟩ := old i j a ha
    rw [cancelled]
    exact (h.armed i j a before r' hr).imp_left fun hr' => ⟨hr'.1, hears hr'.2 (apart r' hr hr'.2)⟩
  · intro t n s i j hs hw
    have before : ts.listener? t n = some s ∧ ¬(t = r.token ∧ n = r.slot) := by
      by_cases here : t = r.token ∧ n = r.slot
      · obtain ⟨rfl, rfl⟩ := here
        rcases ends with fired | ⟨w, hr⟩
        · exact absurd (sound.silent _ _ s (by rwa [cancelled]) hs) (by rw [hw]; simp)
        · rw [ended hr.keeps, if_pos ⟨rfl, rfl⟩] at hs
          rw [← Option.some.inj hs] at hw
          cases hw
      · by_cases keeps : ts.Keeps r
        · rw [ended keeps, if_neg here] at hs
          exact ⟨hs, here⟩
        · rw [same keeps] at hs
          exact ⟨hs, here⟩
    obtain ⟨a, ha, registration⟩ := h.owned t n s i j before.1 hw
    refine ⟨a, stays i j a ha fun same => ?_, registration⟩
    rw [registration] at same
    rw [← Option.some.inj same] at before
    exact before.2 ⟨rfl, rfl⟩
  · intro r' hr
    obtain ⟨before, apart⟩ := fewer r' hr
    rw [cancelled]
    exact (h.theirs r' before).imp_right fun ⟨name, hr'⟩ => ⟨name, hears hr' (apart _ hr')⟩
  · exact nodup

theorem Serves.lapse (h : ts.Serves A kept early) (ha : A i j = some a) (lapsed : Lapsed A A' i j) :
    (a.registration.elim ts ts.unregister).Serves A' kept early := by
  rcases hr : a.registration with _ | r
  · refine ⟨h.sound, fun i' j' b hb => h.armed i' j' b (lapsed.old hb).1, fun t n s i' j' hs hw => ?_,
      h.theirs, h.nodup⟩
    obtain ⟨b, hb, registration⟩ := h.owned t n s i' j' hs hw
    refine ⟨b, lapsed.kept hb ?_, registration⟩
    rintro ⟨rfl, rfl⟩
    rw [ha] at hb
    rw [← Option.some.inj hb, hr] at registration
    cases registration
  · -- The subscription is that of the waiter which goes, and nobody else has its slot.
    have alone {r' : Registration} {w : Waker} (hw : w ≠ .trigger i j) (hr' : ts.Hears r' w) :
        ¬(r'.token = r.token ∧ r'.slot = r.slot) := by
      rintro ⟨token, slot⟩
      rcases h.armed i j a ha r hr with ⟨-, hears⟩ | ⟨fired, -⟩
      · exact hw (hears.unique hr' token slot).2
      · have := h.sound.silent _ _ _ (token ▸ fired) hr'
        cases this
    refine h.unregister ?_ (fun i' j' b hb => ⟨(lapsed.old hb).1, fun r' _ hr' => alone ?_ hr'⟩)
      (fun i' j' b hb apart => lapsed.kept hb ?_) (fun r' hr' => ⟨hr', fun w hw => ?_⟩) h.nodup
    · exact (h.armed i j a ha r hr).symm.imp (·.1) fun hears => ⟨_, hears.2⟩
    · intro same
      obtain ⟨rfl, rfl⟩ := Waker.trigger.inj same
      exact (lapsed.old hb).2 ⟨rfl, rfl⟩
    · rintro ⟨rfl, rfl⟩
      rw [ha] at hb
      exact apart (Option.some.inj hb ▸ hr)
    · refine alone ?_ hw
      rintro rfl
      rcases h.theirs r' hr' with fired | ⟨name, task⟩
      · have := h.sound.silent _ _ _ fired hw
        cases this
      · exact absurd (task.unique hw rfl rfl).2 (by simp)

theorem Serves.enrol (h : ts.Serves A kept early) (enrolled : Enrolled A A' i j a)
    {token : Option Nat}
    (subscribed : Section.subscribe? ts token (.trigger i j) = some (ts', a.registration)) :
    ts'.Serves A' kept early := by
  rcases token with _ | k
  · obtain ⟨rfl, none⟩ := Prod.mk.inj (Option.some.inj subscribed)
    refine ⟨h.sound, fun i' j' b hb r hr => ?_, fun t n s i' j' hs hw => ?_, h.theirs, h.nodup⟩
    · rcases enrolled.cases hb with ⟨-, -, rfl⟩ | hb
      · rw [← none] at hr
        cases hr
      · exact h.armed i' j' b hb r hr
    · obtain ⟨b, hb, registration⟩ := h.owned t n s i' j' hs hw
      exact ⟨b, enrolled.kept hb, registration⟩
  · obtain ⟨⟨ts'', r⟩, hr, pair⟩ := Option.map_eq_some_iff.mp subscribed
    obtain ⟨rfl, registration⟩ := Prod.mk.inj pair
    obtain ⟨subscribes, -⟩ := h.sound.register hr
    -- The slot had no subscriber, so it is nobody else's.
    have apart {r' : Registration} {w : Waker} (hr' : ts.Hears r' w) :
        ¬(r'.token = r.token ∧ r'.slot = r.slot) := by
      rintro ⟨token, slot⟩
      unfold Hears at hr'
      rw [token, slot] at hr'
      cases (subscribes.vacant _ hr').1
    have hears {r' : Registration} {w : Waker} (hr' : ts.Hears r' w) : ts''.Hears r' w := by
      unfold Hears
      rw [subscribes.listener, if_neg (apart hr')]
      exact hr'
    refine ⟨subscribes.sound, fun i' j' b hb r' hr' => ?_, fun t n s i' j' hs hw => ?_,
      fun r' hr' => ?_, h.nodup⟩
    · rw [subscribes.cancelled]
      rcases enrolled.cases hb with ⟨rfl, rfl, rfl⟩ | hb
      · rw [← registration] at hr'
        obtain rfl := Option.some.inj hr'
        refine .inl ⟨subscribes.free, ?_⟩
        unfold Hears
        rw [subscribes.listener, if_pos ⟨rfl, rfl⟩]
      · exact (h.armed i' j' b hb r' hr').imp_left fun old => ⟨old.1, hears old.2⟩
    · rw [subscribes.listener] at hs
      split at hs
      · rename_i here
        rw [← Option.some.inj hs] at hw ⊢
        obtain ⟨rfl, rfl⟩ := Waker.trigger.inj (Option.some.inj hw)
        obtain ⟨rfl, rfl⟩ := here
        exact ⟨a, enrolled.new, registration.symm⟩
      · obtain ⟨b, hb, old⟩ := h.owned t n s i' j' hs hw
        exact ⟨b, enrolled.kept hb, old⟩
    · rw [subscribes.cancelled]
      exact (h.theirs r' hr').imp_right fun ⟨name, old⟩ => ⟨name, hears old⟩

theorem Serves.register (h : ts.Serves A kept early) {t : Nat} {name : String}
    (hr : ts.register? t (.task name) = some (ts', r)) : ts'.Serves A (r :: kept) early := by
  obtain ⟨subscribes, -⟩ := h.sound.register hr
  have apart {r' : Registration} {w : Waker} (hr' : ts.Hears r' w) :
      ¬(r'.token = r.token ∧ r'.slot = r.slot) := by
    rintro ⟨token, slot⟩
    unfold Hears at hr'
    rw [token, slot] at hr'
    cases (subscribes.vacant _ hr').1
  have hears {r' : Registration} {w : Waker} (hr' : ts.Hears r' w) : ts'.Hears r' w := by
    unfold Hears
    rw [subscribes.listener, if_neg (apart hr')]
    exact hr'
  refine ⟨subscribes.sound, fun i j a ha r' hr' => ?_, fun t n s i j hs hw => ?_, fun r' hr' => ?_,
    List.nodup_cons.mpr ⟨fun known => ?_, h.nodup⟩⟩
  · rw [subscribes.cancelled]
    exact (h.armed i j a ha r' hr').imp_left fun old => ⟨old.1, hears old.2⟩
  · rw [subscribes.listener] at hs
    split at hs
    · rw [← Option.some.inj hs] at hw
      cases hw
    · exact h.owned t n s i j hs hw
  · rw [subscribes.cancelled]
    rcases List.mem_cons.mp hr' with rfl | hr'
    · refine .inr ⟨name, ?_⟩
      unfold Hears
      rw [subscribes.listener, if_pos ⟨rfl, rfl⟩]
    · exact (h.theirs r' hr').imp_right fun ⟨name, old⟩ => ⟨name, hears old⟩
  · rcases h.theirs r known with fired | ⟨name, old⟩
    · rw [subscribes.free] at fired
      cases fired
    · exact apart old ⟨rfl, rfl⟩

theorem Serves.drop (h : ts.Serves A kept early) (gone : (r :: kept').Subperm kept) :
    (ts.unregister r).Serves A kept' early := by
  have all := h.mono gone (List.Subset.refl early)
  have nodup := List.nodup_cons.mp all.nodup
  have mine := all.theirs r List.mem_cons_self
  have silent {r' : Registration} {w : Waker} (fired : ts.isCancelled r'.token = true)
      (hr' : ts.Hears r' w) : False := by
    have := h.sound.silent _ _ _ fired hr'
    cases this
  refine all.unregister (mine.imp_right fun ⟨name, hr⟩ => ⟨_, hr⟩)
    (fun i j a ha => ⟨ha, fun r' _ hr' same => ?_⟩) (fun i j a ha apart => ?_)
    (fun r' hr' => ⟨List.mem_cons_of_mem r hr', fun w hw same => ?_⟩) nodup.2
  · rcases mine with fired | ⟨name, hr⟩
    · exact silent (same.1 ▸ fired) hr'
    · exact absurd (hr.unique hr' same.1 same.2).2 (by simp)
  · exact ha
  · rcases mine with fired | ⟨name, hr⟩
    · exact silent (same.1 ▸ fired) hw
    · exact nodup.1 ((hr.unique hw same.1 same.2).1 ▸ hr')

theorem Serves.fire (h : ts.Serves A kept early) (t : Nat) :
    (ts.fire t).1.Serves A kept (targets (ts.fire t).2 ++ early) := by
  obtain ⟨sound, cancelled, listener, wakes⟩ := h.sound.fire t
  have hears {r : Registration} {w : Waker} (hr : ts.Hears r w) (ht : r.token ≠ t) :
      (ts.fire t).1.Hears r w := by
    unfold Hears
    rw [listener, if_neg ht]
    exact hr
  -- Whoever hears the token hears a token that is there.
  have fires {r : Registration} {w : Waker} (hr : ts.Hears r w) (ht : r.token = t) :
      (ts.fire t).1.isCancelled r.token = true := by
    rw [cancelled]
    unfold Hears listener? at hr
    rcases hf : ts.face? r.token with _ | f
    · rw [hf] at hr
      cases hr
    · simp [ht]
  refine ⟨sound, fun i j a ha r hr => ?_, fun t' n s i j hs hw => ?_, fun r hr => ?_, h.nodup⟩
  · rcases h.armed i j a ha r hr with ⟨free, old⟩ | ⟨fired, early⟩
    · by_cases ht : r.token = t
      · refine .inr ⟨fires old ht, List.mem_append_left _ (mem_targets ?_)⟩
        unfold Hears at old
        rw [ht] at old
        exact wakes _ _ old _ rfl
      · refine .inl ⟨?_, hears old ht⟩
        rw [cancelled, free]
        simp [ht]
    · exact .inr ⟨by rw [cancelled, fired, Bool.true_or], List.mem_append_right _ early⟩
  · rw [listener] at hs
    split at hs
    · obtain ⟨s', -, rfl⟩ := Option.map_eq_some_iff.mp hs
      cases hw
    · exact h.owned t' n s i j hs hw
  · rcases h.theirs r hr with fired | ⟨name, old⟩
    · exact .inl (by rw [cancelled, fired, Bool.true_or])
    · by_cases ht : r.token = t
      · exact .inl (fires old ht)
      · exact .inr ⟨name, hears old ht⟩

theorem Serves.create (h : ts.Serves A kept early) : ts.create.1.Serves A kept early := by
  obtain ⟨sound, same⟩ := h.sound.create
  refine ⟨sound, fun i j a ha r hr => ?_, fun t n s i j hs hw => ?_, fun r hr => ?_, h.nodup⟩
  · unfold Hears
    rw [(same _).1, (same _).2]
    exact h.armed i j a ha r hr
  · rw [(same _).2] at hs
    exact h.owned t n s i j hs hw
  · unfold Hears
    rw [(same _).1]
    simp only [(same _).2]
    exact h.theirs r hr

theorem Serves.woken (h : ts.Serves A kept early)
    (calm : ∀ a, A i j = some a → ∀ r, a.registration = some r → ts.isCancelled r.token = false)
    (rest : ∀ p ∈ early, p = (i, j) ∨ p ∈ early') : ts.Serves A kept early' := by
  refine ⟨h.sound, fun i' j' a ha r hr => ?_, h.owned, h.theirs, h.nodup⟩
  rcases h.armed i' j' a ha r hr with hears | ⟨fired, early⟩
  · exact .inl hears
  · rcases rest _ early with here | early
    · obtain ⟨rfl, rfl⟩ := Prod.mk.inj here
      rw [calm a ha r hr] at fired
      cases fired
    · exact .inr ⟨fired, early⟩

end Tokens

end Turnstile
