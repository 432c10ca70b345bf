import Turnstile.Proofs.Doubles

/-!
# Steps in lockstep

What one step does before anybody is woken is the same in twin worlds, and twins they are after it.
The settings of a synchronizer differ in how many waiters are made in advance and in how many are kept,
and nobody gives a waker anything to run.
-/

namespace Turnstile

variable {P : Policy}

/-- The same step, but for the settings of the pool of a new synchronizer. -/
inductive Step.Alike : Step P → Step P → Prop
  | same (s : Step P) : Alike s s
  | create (name : String) (raw : Bool) (held : P.State) {settings settings' : Settings}
      (timer : settings'.timer = settings.timer) (valid : settings'.validate = settings.validate) :
    Alike (.create name raw held settings) (.create name raw held settings')

/-- The step gives its waker nothing to run. -/
def Step.quiet : Step P → Bool
  | .poll _ _ onWake | .register _ _ _ onWake | .createTimer _ _ _ onWake => onWake.all List.isEmpty
  | _ => true

/-! ## Sections -/

theorem Pool.stock_blank {R : Type} {p : Pool R} (hp : p.Sound) (count : Nat) :
    (p.stock count).blank = p.blank := by
  induction count generalizing p with
  | zero => rfl
  | succ count ih => exact (ih (build_ready hp).stock).trans (build_alike hp).blank

theorem Sync.twin_create (f : Nat → Nat) (id : Nat) (holding : P.State) (warm warm' : Nat)
    (retainLimit retainLimit' : Option Nat) :
    (create id holding warm retainLimit).Twin f (create id holding warm' retainLimit') := by
  have new (warm : Nat) (retainLimit : Option Nat) :=
    Scene.start_shows (P := P) id holding warm retainLimit {} {}
  have nobody (i : Nat) (w : Waiter P.Request)
      (hw : (create id holding warm retainLimit).line.bare? i = some w) : False := by
    obtain ⟨k, f, _, hk, -⟩ := (new warm retainLimit).owned i w hw
    simp [Scene.start] at hk
  refine ⟨⟨⟨(new warm retainLimit).rests.sound, (new warm' retainLimit').rests.sound⟩, ?_,
    ⟨[], (new warm retainLimit).rests.line, (new warm' retainLimit').rests.line⟩,
    fun i _ w _ hw => (nobody i w hw).elim, fun i w hw => (nobody i w hw).elim,
    fun i w hw => (nobody i w hw).elim⟩, rfl, rfl, rfl, rfl, rfl, rfl⟩
  exact (Pool.stock_blank (Pool.fresh_sound _ retainLimit') warm').trans
    (Pool.stock_blank (Pool.fresh_sound _ retainLimit) warm).symm

namespace Section

theorem Begun.stands {s t : Section P} {request : P.Request} {stage : Stage}
    {answer : Option (Except Refusal Unit)} (h : Begun s t request stage answer) :
    stage.Stands t.sync.line.pool := by
  intro id waits
  rcases answer with _ | answer
  · obtain ⟨id', rfl, joined⟩ := h
    obtain rfl := Stage.waiting.inj waits
    exact joined.current
  · cases h.1.symm.trans waits

theorem Twin.lock {g : Nat → Nat → Nat} {n : Nat} {s t : Section P} (h : s.Twin g n t)
    {d d' : Docket P} {L L' : List Nat} (rests : s.Rests d L) (rests' : t.Rests d' L')
    (minded : ∀ u, s.Lapses u → u.Minded) (request : P.Request) {waker : Waker}
    (caller : waker.target? = none) :
    let begun := s.acquire request .forever none none
    let begun' := t.acquire request .forever none none
    ∃ g', (begun.1.pollStage begun.2 waker).1.Twin g' n (begun'.1.pollStage begun'.2 waker).1 ∧
      (begun.1.pollStage begun.2 waker).2.1.Twin (g' n) (begun'.1.pollStage begun'.2 waker).2.1 ∧
      (begun'.1.pollStage begun'.2 waker).2.2 = (begun.1.pollStage begun.2 waker).2.2 ∧
      ∀ i j, g' i j = g i j ∨ i = n ∧ s.waiter? j = none := by
  obtain ⟨g', acquired, stage, new⟩ := h.acquire rests minded request .forever none none
  obtain ⟨-, -, begun⟩ := acquire_rests rests request .forever none none
  obtain ⟨-, -, begun'⟩ := acquire_rests rests' request .forever none none
  obtain ⟨polled, later, answer⟩ := acquired.pollStage stage begun.stands begun'.stands caller
  exact ⟨g', polled, later, answer, new⟩

end Section

/-! ## Answers -/

namespace Sync.Twin

variable {f : Nat → Nat} {s t : Sync P}

theorem waitingCount_eq (h : s.Twin f t) : t.waitingCount = s.waitingCount :=
  h.line.countP_eq fun _ => rfl

theorem detail_eq (h : s.Twin f t) : t.detail = s.detail := by
  unfold detail
  rw [h.holding, h.line.length_eq, h.phase]

theorem frontDetail_eq (h : s.Twin f t) : t.frontDetail = s.frontDetail := by
  unfold frontDetail
  rw [h.holding, h.detail_eq]

theorem guardDetail_eq (h : s.Twin f t) : t.guardDetail = s.guardDetail := by
  unfold guardDetail
  rw [h.holding, h.frontDetail_eq]

end Sync.Twin

namespace World

variable {g g' : Nat → Nat → Nat} {w v : World P} {items items' : List (Item P)}

namespace Twin

theorem map_sync (h : w.Twin g v) (i : Nat) {α : Type} {k : Sync P → α}
    (same : ∀ s t : Sync P, s.Twin (g i) t → k t = k s) :
    v.syncs[i]?.map k = w.syncs[i]?.map k := by
  have both := h.syncs i
  generalize w.syncs[i]? = s at both ⊢
  generalize v.syncs[i]? = t at both ⊢
  cases both with
  | none => rfl
  | some twin => exact congrArg some (same _ _ twin.2)

theorem complaint?_eq (h : w.Twin g v) (o : Object) (rule : P.State → P.Request → Option String)
    (request : P.Request) : v.complaint? o rule request = w.complaint? o rule request := by
  have holding := h.map_sync o.sync (k := (·.holding)) fun _ _ twin => twin.holding
  have bound (u : World P) : (u.sync? o).bind (fun s => rule s.holding request) =
      (u.syncs[o.sync]?.map (·.holding)).bind fun holding => rule holding request := by
    rw [Option.bind_map]
    rfl
  unfold complaint?
  rw [bound v, bound w, holding]

theorem tells (h : w.Twin g v) {answer answer' : Answer P} (same : answer' = answer) :
    (w.reply answer).Twin g (v.reply answer') :=
  ⟨h, same, rfl, fun _ _ hp => (by cases hp), rfl, rfl, .none, rfl⟩

theorem fill (h : w.Twin g v) (slot : String) {item item' : Item P} (same : item.Twin g item') :
    Twin g { w with slots := w.slots.insert slot item }
      { v with slots := v.slots.insert slot item' } :=
  { h with slots := h.slots.insert slot same }

theorem reply (h : w.Twin g v) (answer : Answer P) : (w.reply answer).Twin g (v.reply answer) :=
  h.tells rfl

end Twin

end World

theorem Visit.Twin.turn {α : Type} {g : Nat → Nat → Nat} {x y : Visit P α} (h : x.Twin g y)
    {answer answer' : Answer P} (same : answer' = answer) :
    (World.ofVisit x answer).Twin g (World.ofVisit y answer') :=
  ⟨h.world, same, h.wakes, h.named, h.events, rfl, .none, rfl⟩

theorem Visit.Twin.value {α β : Type} {g : Nat → Nat → Nat} {x y : Visit P α} (h : x.Twin g y)
    (a b : β) : { x with value := a }.Twin g { y with value := b } :=
  ⟨h.world, h.wakes, h.named, h.events⟩

/-- What a section has polled on both sides. -/
structure Polled.Twin (f : Nat → Nat) (p q : Polled) : Prop where
  stage : p.1.Twin f q.1
  answer : q.2 = p.2

/-- The same has come of a poll on both sides. -/
structure Visit.Polls (g : Nat → Nat → Nat) (x y : Visit P (Item P × Answer P)) : Prop where
  twin : x.Twin g y
  item : x.value.1.Twin g y.value.1
  answer : y.value.2 = x.value.2

theorem Polled.Twin.locked {g : Nat → Nat → Nat} {i : Nat} (request : P.Request) {p q : Polled}
    (h : p.Twin (g i) q) :
    (Item.locked i request p).1.Twin g (Item.locked i request q).1 ∧
      (Item.locked i request q).2 = (Item.locked i request p).2 := by
  unfold Item.locked
  rw [h.answer]
  split
  · exact ⟨.locking i request h.stage, rfl⟩
  · exact ⟨.guard i request, rfl⟩
  · exact ⟨.locking i request .done, rfl⟩

theorem Stage.Twin.isWaiting_eq {f : Nat → Nat} {stage stage' : Stage} (h : stage.Twin f stage') :
    stage'.isWaiting = stage.isWaiting := by
  cases h <;> rfl

theorem Stage.Twin.name_eq {f : Nat → Nat} {stage stage' : Stage} (h : stage.Twin f stage') :
    stage'.name = stage.name := by
  cases h <;> rfl

namespace World

variable {g g' : Nat → Nat → Nat} {w v : World P} {items items' : List (Item P)}

theorem Follows.found {α : Type} {names names' : Names α} (h : w.Twin g v) (same : names' = names)
    (name : String) {k k' : α → Turn P}
    (found : ∀ a, names.find? name = some a → w.Follows g fun g' => (k a).Twin g' (k' a)) :
    w.Follows g fun g' => (w.lookup names name k).Twin g' (v.lookup names' name k') := by
  subst same
  unfold lookup
  rcases ha : names'.find? name with _ | a
  · exact .stay (h.reply .missing)
  · exact found a ha

namespace Abreast

/-! ## Synchronizers -/

theorem create (h : w.Abreast g v items items') (name : String) (raw : Bool) (held : P.State)
    {settings settings' : Settings} (valid : settings'.validate = settings.validate) :
    (w.create name raw held settings).Twin g (v.create name raw held settings') := by
  unfold World.create
  rw [valid]
  split
  · exact h.toTwin.reply _
  · split
    · exact h.toTwin.reply _
    · refine Twin.reply ?_ .ok
      rw [h.size]
      refine { h.toTwin with size := by simp [h.size], syncs := fun i => ?_, objects := ?_ }
      · have pushed (u : World P) (s : Sync P) (size : u.syncs.size = w.syncs.size) :
            (u.syncs.push s)[i]? = if i = w.syncs.size then some s else u.syncs[i]? := by
          rw [Array.getElem?_push, size]
        show Option.Rel _ (w.syncs.push _)[i]? (v.syncs.push _)[i]?
        rw [pushed w _ rfl, pushed v _ h.size]
        split
        · rename_i here
          exact .some ⟨here.symm, Sync.twin_create _ _ _ _ _ _ _⟩
        · exact h.syncs i
      · show v.objects.insert _ _ = w.objects.insert _ _
        rw [h.objects]

theorem acquires (h : w.Abreast g v items items') (i : Nat) (request : P.Request)
    (timeout : Timeout) (token : Option Nat) (steal : Option Reason) :
    let x := w.visit i .done fun s => s.acquire request timeout token steal
    let y := v.visit i .done fun s => s.acquire request timeout token steal
    w.Follows g fun g' => x.Twin g' y ∧ x.value.Twin (g' i) y.value := by
  refine h.visit i (R := fun g' => Stage.Twin (g' i)) .done fun s t hs ht twin => ?_
  obtain ⟨d, L, rests⟩ := h.plays.rests hs
  exact twin.acquire rests (fun u => h.minded.of_lapses hs) request timeout token steal

theorem tryAcquire (h : w.Abreast g v items items') (o : Object) (request : P.Request) :
    w.Follows g fun g' => (w.tryAcquire o request).Twin g' (v.tryAcquire o request) := by
  unfold World.tryAcquire
  rw [h.complaint?_eq]
  split
  · exact .stay (h.toTwin.reply _)
  · refine (h.acquires o.sync request .zero none none).imp fun g' _ twin => ?_
    obtain ⟨visit, stage⟩ := twin
    refine visit.turn ?_
    generalize (World.visit w _ _ _).value = stage at stage ⊢
    generalize (World.visit v _ _ _).value = stage' at stage ⊢
    cases stage with
    | _ => rfl

theorem startAcquisition (h : w.Abreast g v items items') (o : Object) (name : String)
    (a : Acquiring P) (timeout : Timeout) (token : Option Nat) :
    w.Follows g fun g' => (w.startAcquisition o name a timeout token).Twin g'
      (v.startAcquisition o name a timeout token) := by
  unfold World.startAcquisition
  rw [h.complaint?_eq]
  dsimp only
  rcases w.complaint? o P.desk.entry a.request with _ | complaint
  · refine (h.acquires o.sync a.request timeout token a.steal).imp fun g' _ twin => ?_
    obtain ⟨visit, stage⟩ := twin
    refine ⟨visit.world, ?_, visit.wakes, visit.named, visit.events, rfl,
      .some ⟨rfl, .acquisition _ _ _ stage⟩, rfl⟩
    dsimp only
    rw [stage.isWaiting_eq]
  · refine .stay { h.toTwin.reply .nothing with
      answer := rfl, put := .some ⟨rfl, .acquisition _ _ _ (.ready _)⟩ }

theorem acquire (h : w.Abreast g v items items') (o : Object) (name : String) (a : Acquiring P) :
    w.Follows g fun g' => (w.acquire o name a).Twin g' (v.acquire o name a) := by
  have begun (token : Option Nat) (timeout : Timeout) :
      w.Follows g fun g' =>
        ({ World.startAcquisition { w with tokens := token.elim w.tokens w.tokens.retain } o name a
            timeout token with held := token } : Turn P).Twin g'
          { World.startAcquisition { v with tokens := token.elim v.tokens v.tokens.retain } o name a
            timeout token with held := token } := by
    have retained : World.Abreast g { w with tokens := token.elim w.tokens w.tokens.retain }
        { v with tokens := token.elim v.tokens v.tokens.retain } items items' := by
      refine h.change { h.toTwin with tokens := ?_ } rfl rfl rfl ?_ (List.Subset.refl _)
        (List.Subset.refl _)
      · cases token <;> simp [h.tokens]
      · cases token with
        | none => rfl
        | some t => exact face?_retain _ _
    exact (retained.startAcquisition o name a timeout token).imp fun g' _ turn =>
      { turn with held := rfl }
  unfold World.acquire
  dsimp only
  rcases a.token with _ | token
  · dsimp only
    split
    · exact .stay (h.toTwin.reply _)
    · exact begun none _
  · dsimp only
    refine .found h.toTwin h.tokenNames token fun t _ => ?_
    split
    · exact .stay (h.toTwin.reply _)
    · exact begun (some t) _

theorem release (h : w.Abreast g v items items') (o : Object) (request : Option P.Request) :
    w.Follows g fun g' => (w.release o request).Twin g' (v.release o request) := by
  have complaint : request.bind (v.complaint? o P.desk.exit) =
      request.bind (w.complaint? o P.desk.exit) :=
    congrArg request.bind (funext (h.complaint?_eq o P.desk.exit))
  unfold World.release
  rw [complaint]
  split
  · exact .stay (h.toTwin.reply _)
  · refine (h.visit o.sync (R := fun _ a b => b = a) rfl fun s t _ _ twin => ?_).imp
      fun g' _ twin => twin.1.turn (by rw [twin.2])
    obtain ⟨given, answer⟩ := twin.releaseBy (request.elim Section.returnedStanding Section.returned)
    exact ⟨g, given, answer, fun _ _ => .inl rfl⟩

theorem dispose (h : w.Abreast g v items items') (o : Object) (name : String) :
    w.Follows g fun g' => (w.dispose o name).Twin g' (v.dispose o name) := by
  refine (h.visit o.sync (R := fun _ _ _ => True) trivial fun s t _ _ twin => ?_).imp
    fun g' _ twin => { twin.1.turn rfl with put := .some ⟨rfl, .disposal _⟩ }
  exact ⟨g, twin.dispose, trivial, fun _ _ => .inl rfl⟩

/-! ## Slots -/

theorem found (h : w.Abreast g v items items') (slot : String) {k k' : Item P → Turn P}
    (found : ∀ item item', item ∈ w.items → item' ∈ v.items → item.Twin g item' →
      w.Follows g fun g' => (k item).Twin g' (k' item')) :
    w.Follows g fun g' => (w.lookup w.slots slot k).Twin g' (v.lookup v.slots slot k') := by
  unfold World.lookup
  obtain ⟨hi, hi'⟩ | ⟨item, item', hi, hi', same⟩ := rel_cases (h.slots.find? slot)
  · rw [hi, hi']
    exact .stay (h.toTwin.reply .missing)
  · rw [hi, hi']
    exact found item item' (mem_items hi) (mem_items hi') same

theorem erase (h : w.Abreast g v items items') (slot : String) :
    World.Abreast g { w with slots := w.slots.erase slot } { v with slots := v.slots.erase slot }
      items items' :=
  h.change { h.toTwin with slots := h.slots.erase slot } rfl rfl rfl rfl
    (List.filter_sublist.map Prod.snd).subset (List.filter_sublist.map Prod.snd).subset

theorem insert (h : w.Abreast g v items items') (slot : String) {item item' : Item P}
    (same : item.Twin g item') (hi : item ∈ items) (hi' : item' ∈ items') :
    World.Abreast g { w with slots := w.slots.insert slot item }
      { v with slots := v.slots.insert slot item' } items items' := by
  have listed {u : World P} {a : Item P} {all : List (Item P)} (ha : a ∈ all)
      (kept : u.items ⊆ all) : (u.slots.insert slot a).entries.map Prod.snd ⊆ all := by
    refine fun b hb => ?_
    have hb := (u.slots.find?_insert_subperm slot a).subset (List.mem_append_right _ hb)
    rcases List.mem_cons.mp hb with rfl | hb
    · exact ha
    · exact kept hb
  exact ⟨h.toTwin.fill slot same, h.minded.same rfl rfl rfl,
    h.plays.mono rfl fun _ => .refl _, h.plays'.mono rfl fun _ => .refl _, listed hi h.kept,
    listed hi' h.kept'⟩

section

variable {i : Nat} {o o' : Stage} (absent : o.Twin (g i) o') (k : Polled → Item P × Answer P)
  (kept : ∀ (g' : Nat → Nat → Nat) (a b : Polled), a.Twin (g' i) b →
    (k a).1.Twin g' (k b).1 ∧ (k b).2 = (k a).2)

include absent kept

theorem polls (h : w.Abreast g v items items') (F F' : Section P → Section P × Polled)
    (works : ∀ s t, w.syncs[i]? = some s → v.syncs[i]? = some t →
      (w.inside s).Twin g i (v.inside t) →
      ∃ g', (F (w.inside s)).1.Twin g' i (F' (v.inside t)).1 ∧
        (F (w.inside s)).2.Twin (g' i) (F' (v.inside t)).2 ∧
        ∀ k j, g' k j = g k j ∨ k = i ∧ s.line.waiter? j = none) :
    w.Follows g fun g' =>
      Visit.Polls g' { w.visit i (o, none) F with value := k (w.visit i (o, none) F).value }
        { v.visit i (o', none) F' with value := k (v.visit i (o', none) F').value } := by
  have nobody : Polled.Twin (g i) (o, none) (o', none) := ⟨absent, rfl⟩
  refine (h.visit i (R := fun g' => Polled.Twin (g' i)) nobody works).imp fun g' _ twin => ?_
  obtain ⟨item, answer⟩ := kept g' _ _ twin.2
  exact ⟨twin.1.value _ _, item, answer⟩

theorem pollsStage (h : w.Abreast g v items items') {stage stage' : Stage}
    (same : stage.Twin (g i) stage') (stands : stage.StandsAt w i) (stands' : stage'.StandsAt v i)
    {waker : Waker} (caller : waker.target? = none) :
    let x := w.visit i (o, none) fun s => s.pollStage stage waker
    let y := v.visit i (o', none) fun s => s.pollStage stage' waker
    w.Follows g fun g' =>
      Visit.Polls g' { x with value := k x.value } { y with value := k y.value } := by
  refine h.polls absent k kept _ _ fun s t hs ht twin => ?_
  obtain ⟨polled, later, answer⟩ :=
    twin.pollStage same (stands.stands hs) (stands'.stands ht) caller
  exact ⟨g, polled, ⟨later, answer⟩, fun _ _ => .inl rfl⟩

end

theorem pollItem? (h : w.Abreast g v items items') {item item' : Item P} (same : item.Twin g item')
    (hi : item ∈ items) (hi' : item' ∈ items') {waker : Waker} (caller : waker.target? = none) :
    w.Follows g fun g' =>
      Option.Rel (Visit.Polls g') (w.pollItem? waker item) (v.pollItem? waker item') := by
  have stands := h.plays.stands hi
  have stands' := h.plays'.stands hi'
  have still (x : Item P × Answer P) (y : Item P × Answer P) (item : x.1.Twin g y.1)
      (answer : y.2 = x.2) :
      Visit.Polls g { world := w, value := x } { world := v, value := y } :=
    ⟨⟨h.toTwin, rfl, fun _ _ hp => (by cases hp), rfl⟩, item, answer⟩
  cases same with
  | @acquisition stage stage' i request lenient same =>
    have acquired := (h.pollsStage same
      (fun p => (.acquisition i request lenient p.1, p.2.elim .pending (outcomeAnswer lenient)))
      (fun g' a b p => ⟨.acquisition i request lenient p.stage, by rw [p.answer]⟩) same stands
      stands' caller).imp (S := fun g' => Option.Rel _ (some _) (some _)) fun g' _ => .some
    cases same with
    | ready result => exact acquired
    | waiting slot => exact acquired
    | done => exact .stay (.some (still _ _ (.acquisition i request lenient .done) rfl))
  | unopened i request =>
    let opens (s : Section P) : Section P × Polled :=
      let begun := s.acquire request .forever none none
      begun.1.pollStage begun.2 waker
    refine (h.polls .done (Item.locked i request) (fun _ _ _ => Polled.Twin.locked request) opens
      opens fun s t hs ht twin => ?_).imp fun g' _ => .some
    obtain ⟨d, L, rests⟩ := h.plays.rests hs
    obtain ⟨d', L', rests'⟩ := h.plays'.rests ht
    obtain ⟨g', polled, stage, answer, new⟩ :=
      twin.lock rests rests' (fun u => h.minded.of_lapses hs) request caller
    exact ⟨g', polled, ⟨stage, answer⟩, new⟩
  | @locking stage stage' i request same =>
    have locked := (h.pollsStage .done (Item.locked i request)
      (fun _ _ _ => Polled.Twin.locked request) same stands stands' caller).imp
      (S := fun g' => Option.Rel _ (some _) (some _)) fun g' _ => .some
    cases same with
    | ready result => exact locked
    | waiting slot => exact locked
    | done => exact .stay (.some (still _ _ (.locking i request .done) rfl))
  | guard i request => exact .stay .none
  | disposal i =>
    refine (h.visit i (R := fun _ a b => b = a) rfl fun s t _ _ twin => ?_).imp fun g' _ twin =>
      .some ⟨twin.1.value _ _, .disposal i, ?_⟩
    · obtain ⟨polled, answer⟩ := twin.pollDispose caller
      exact ⟨g, polled, answer, fun _ _ => .inl rfl⟩
    · dsimp only
      rw [twin.2]
  | registration r => exact .stay .none

theorem poll (h : w.Abreast g v items items') (slot : String) (waker : Waker)
    (caller : waker.target? = none) :
    w.Follows g fun g' => (w.poll slot waker).Twin g' (v.poll slot waker) := by
  refine h.found slot fun item item' hi hi' same => ?_
  obtain ⟨g', keeps, polled⟩ := (h.erase slot).pollItem? same (h.kept hi) (h.kept' hi') caller
  generalize World.pollItem? { w with slots := w.slots.erase slot } waker item = x at polled ⊢
  generalize World.pollItem? { v with slots := v.slots.erase slot } waker item' = y at polled ⊢
  cases polled with
  | none => exact .stay (h.toTwin.reply .notFuture)
  | some polls =>
    exact ⟨g', keeps, { polls.twin.turn polls.answer with put := .some ⟨rfl, polls.item⟩ }⟩

theorem discard (h : w.Abreast g v items items') {item item' : Item P} (same : item.Twin g item')
    (hi : item ∈ items) (hi' : item' ∈ items') :
    w.Follows g fun g' => (w.discard item).Twin g' (v.discard item') := by
  have touches {i : Nat} {F F' : Section P → Section P}
      (works : ∀ s t, w.syncs[i]? = some s → v.syncs[i]? = some t →
        (w.inside s).Twin g i (v.inside t) → (F (w.inside s)).Twin g i (F' (v.inside t))) :
      w.Follows g fun g' => (w.touch i F).Twin g' (v.touch i F') :=
    (h.visit i (R := fun _ _ _ => True) trivial fun s t hs ht twin =>
      ⟨g, works s t hs ht twin, trivial, fun _ _ => .inl rfl⟩).imp fun _ _ twin => twin.1
  have stands := h.plays.stands hi
  have stands' := h.plays'.stands hi'
  cases same with
  | acquisition i request lenient same =>
    exact touches fun s t hs ht twin =>
      twin.dropStage request same (stands.stands hs) (stands'.stands ht)
  | unopened i request => exact .stay ⟨h.toTwin, rfl, fun _ _ hp => (by cases hp), rfl⟩
  | locking i request same =>
    exact touches fun s t hs ht twin =>
      twin.dropStage request same (stands.stands hs) (stands'.stands ht)
  | guard i request => exact touches fun s t _ _ twin => twin.dropGuard request
  | disposal i => exact .stay ⟨h.toTwin, rfl, fun _ _ hp => (by cases hp), rfl⟩
  | registration r =>
    refine .stay ⟨{ h.toTwin with tokens := ?_ }, rfl, fun _ _ hp => (by cases hp), rfl⟩
    show v.tokens.unregister r = _
    rw [h.tokens, Tokens.unregister_redirect]
    rfl

theorem drop (h : w.Abreast g v items items') (slot : String) :
    w.Follows g fun g' => (w.drop slot).Twin g' (v.drop slot) :=
  h.found slot fun _ _ hi hi' same =>
    ((h.erase slot).discard same (h.kept hi) (h.kept' hi')).imp fun _ _ visit => visit.turn rfl

theorem asks (h : w.Abreast g v items items') (slot : String) {k k' : Item P → Answer P}
    (same : ∀ item item', item.Twin g item' → k' item' = k item) :
    w.Follows g fun g' => (w.lookup w.slots slot fun item => w.reply (k item)).Twin g'
      (v.lookup v.slots slot fun item => v.reply (k' item)) :=
  h.found slot fun item item' _ _ twin => .stay (h.toTwin.tells (same item item' twin))

theorem isWaiting (h : w.Abreast g v items items') (slot : String) :
    w.Follows g fun g' => (w.isWaiting slot).Twin g' (v.isWaiting slot) := by
  refine h.asks slot fun item item' twin => ?_
  cases twin with
  | acquisition i request lenient same =>
    cases lenient with
    | false => exact congrArg Answer.flag same.isWaiting_eq
    | true => rfl
  | _ => rfl

theorem guarded (h : w.Abreast g v items items') (slot : String) :
    w.Follows g fun g' => (w.guarded slot).Twin g' (v.guarded slot) := by
  refine h.asks slot fun item item' twin => ?_
  cases twin with
  | guard i request =>
    have both := h.syncs i
    dsimp only
    generalize w.syncs[i]? = s at both ⊢
    generalize v.syncs[i]? = t at both ⊢
    cases both with
    | none => rfl
    | some twin =>
      dsimp only
      rw [twin.2.holding, twin.2.guardDetail_eq]
  | _ => rfl

theorem isRegistrationCancelled (h : w.Abreast g v items items') (slot : String) :
    w.Follows g fun g' =>
      (w.isRegistrationCancelled slot).Twin g' (v.isRegistrationCancelled slot) := by
  refine h.asks slot fun item item' twin => ?_
  cases twin with
  | registration r => simp [h.tokens]
  | _ => rfl

theorem describeSlot (h : w.Abreast g v items items') (slot : String) :
    w.Follows g fun g' => (w.describeSlot slot).Twin g' (v.describeSlot slot) := by
  refine h.asks slot fun item item' twin => ?_
  refine congrArg (fun text => (Option.map Answer.text text).getD .nothing) ?_
  cases twin with
  | acquisition i request lenient same =>
    simp only [Item.detail?, Item.acquisitionDetail, same.name_eq]
  | guard i request => exact h.map_sync i fun s t twin => twin.guardDetail_eq
  | registration r => simp [Item.detail?, h.tokens]
  | _ => rfl

end Abreast

namespace Twin

/-! ## Tokens -/

theorem forgetToken (h : w.Twin g v) (name : String) :
    (w.forgetToken name).Twin g (v.forgetToken name) := by
  unfold World.forgetToken
  rw [h.tokenNames]
  split
  · exact h
  · refine { h with tokens := ?_, tokenNames := rfl }
    show v.tokens.release _ = _
    rw [h.tokens, Tokens.release_redirect]

theorem nameToken (h : w.Twin g v) {tokens tokens' : Tokens}
    (same : tokens' = tokens.redirect (Waker.rename g)) (t : Nat) (name : String) :
    (w.nameToken tokens t name).Twin g (v.nameToken tokens' t name) := by
  have changed : Twin g { w with tokens } { v with tokens := tokens' } := { h with tokens := same }
  have forgot := changed.forgetToken name
  exact { forgot with tokenNames := congrArg (·.insert name t) forgot.tokenNames }

theorem createToken (h : w.Twin g v) (name : String) :
    (w.createToken name).Twin g (v.createToken name) := by
  have created := w.tokens.create_redirect (σ := Waker.rename g)
  rw [← h.tokens] at created
  unfold World.createToken
  rw [created]
  exact (h.nameToken rfl _ name).reply .nothing

theorem child (h : w.Twin g v) (parent : Nat) (name : String) :
    (w.child parent name).Twin g (v.child parent name) := by
  have created := w.tokens.create_redirect (σ := Waker.rename g)
  rw [← h.tokens] at created
  unfold World.child
  rw [created, h.tokens]
  dsimp only
  rw [Tokens.isCancelled_redirect]
  split
  · refine { (h.nameToken ?_ _ name).reply .nothing with events := rfl }
    rw [Tokens.fire_redirect]
  · refine (h.nameToken ?_ _ name).reply .nothing
    rw [Tokens.link_redirect]

theorem register (h : w.Twin g v) (t : Nat) (name waker : String) :
    (w.register t name waker).Twin g (v.register t name waker) := by
  have registered := w.tokens.register?_redirect (σ := Waker.rename g) t (.task waker)
  rw [← h.tokens] at registered
  unfold World.register
  rw [show v.tokens.register? t (.task waker) = _ from registered]
  rcases w.tokens.register? t (.task waker) with _ | ⟨tokens, r⟩
  · exact h.reply .nothing
  · have made : Twin g { w with tokens }
        { v with tokens := tokens.redirect (Waker.rename g) } := { h with tokens := rfl }
    exact { made.reply .registered with put := .some ⟨rfl, .registration r⟩ }

theorem cancel (h : w.Twin g v) (minded : w.Minded) (t : Nat) :
    (w.cancel t).Twin g (v.cancel t) := by
  have fired := w.tokens.fire_redirect (σ := Waker.rename g) t
  rw [← h.tokens] at fired
  unfold World.cancel
  rw [fired, show v.tokens.isCancelled t = w.tokens.isCancelled t by rw [h.tokens]; simp]
  split
  · exact h.reply _
  · refine ⟨{ h with tokens := rfl }, rfl, rfl, fun i j => minded.fired, ?_, rfl, .none, rfl⟩
    simp

/-! ## Clock and timers -/

theorem clock_eq (h : w.Twin g v) : v.clock = w.clock := by
  unfold World.clock
  rw [h.ownClock, h.timers, Timers.now_redirect]

theorem moveClock (h : w.Twin g v) (t : Time) : (w.moveClock t).Twin g (v.moveClock t) := by
  refine reply ?_ (.instant t)
  unfold World.setClock
  rw [h.ownClock]
  split
  · exact { h with ownClock := rfl }
  · refine { h with timers := ?_, ownClock := rfl }
    show { v.timers with now := t } = _
    rw [h.timers]
    rfl

theorem process (h : w.Twin g v) (minded : w.Minded) : w.process.Twin g v.process := by
  have taken := w.timers.takeDue_redirect (σ := Waker.rename g)
  rw [← h.timers] at taken
  unfold World.process
  rw [taken]
  exact ⟨{ h with timers := rfl }, by simp, by simp, fun i j => minded.due, rfl, rfl, .none, rfl⟩

theorem elapse? (h : w.Twin g v) (minded : w.Minded) :
    Option.Rel (Visit.Twin g) w.elapse? v.elapse? := by
  unfold World.elapse?
  rw [show v.timers.nextDeadline? = w.timers.nextDeadline? by simp [h.timers]]
  rcases w.timers.nextDeadline? with _ | t
  · exact .none
  · let w' : World P := { w with timers := { w.timers with now := w.timers.now.advanceTo t } }
    let v' : World P := { v with timers := { v.timers with now := v.timers.now.advanceTo t } }
    have moved : w'.Twin g v' := by
      refine { h with timers := ?_ }
      show { v.timers with now := v.timers.now.advanceTo t } = _
      rw [h.timers]
      rfl
    have processed := moved.process (minded.same rfl rfl rfl)
    exact .some ⟨processed.world, processed.wakes, processed.named, rfl⟩

theorem createTimer (h : w.Twin g v) (name : String) (moment : Moment) (waker : String) :
    (w.createTimer name moment waker).Twin g (v.createTimer name moment waker) := by
  have registered (d : Time) : v.timers.register d (.task waker) =
      ((w.timers.register d (.task waker)).1.redirect (Waker.rename g),
        (w.timers.register d (.task waker)).2) := by
    rw [h.timers]
    exact w.timers.register_redirect d (.task waker)
  have now : v.timers.now = w.timers.now := congrArg (·.now) h.timers
  unfold World.createTimer
  rw [now]
  dsimp only
  rw [registered]
  dsimp only
  generalize w.timers.register _ _ = made
  obtain ⟨timers, k⟩ := made
  refine ⟨{ h with timers := rfl, timerNames := ?_ }, ?_, rfl, fun _ _ hp => (by cases hp), rfl, rfl,
    .none, rfl⟩
  · exact congrArg (·.insert name k) h.timerNames
  · show (if v.running then _ else _) = if w.running then _ else _
    rw [h.running]

theorem setOnWake (h : w.Twin g v) (waker : String) {steps : Option (List (Step P))}
    (quiet : steps.all List.isEmpty) :
    (w.setOnWake waker steps).Twin g (v.setOnWake waker steps) := by
  cases steps with
  | none => exact h
  | some steps =>
    refine { h with
      onWake := congrArg (·.insert waker steps) h.onWake, calm := fun name given hg => ?_ }
    have found := (w.onWake.find?_insert waker name steps).symm.trans hg
    split at found
    · rw [← Option.some.inj found]
      exact List.isEmpty_iff.mp quiet
    · exact h.calm name given found

end Twin

namespace Abreast

theorem setOnWake (h : w.Abreast g v items items') (waker : String) {steps : Option (List (Step P))}
    (quiet : steps.all List.isEmpty) :
    (w.setOnWake waker steps).Abreast g (v.setOnWake waker steps) items items' := by
  refine h.change (h.toTwin.setOnWake waker quiet) ?_ ?_ ?_ ?_ ?_ ?_ <;> cases steps <;>
    first | rfl | exact List.Subset.refl _

theorem start (h : w.Abreast g v items items') {s s' : Step P} (alike : s.Alike s')
    (quiet : s.quiet = true) : w.Follows g fun g' => (w.start s).Twin g' (v.start s') := by
  cases alike with
  | same s =>
    have twin := h.toTwin
    cases s with
    | create name raw held settings => exact .stay (h.create name raw held rfl)
    | tryAcquire object request =>
      exact .found twin h.objects object fun o _ => h.tryAcquire o request
    | acquire object name a => exact .found twin h.objects object fun o _ => h.acquire o name a
    | release object request => exact .found twin h.objects object fun o _ => h.release o request
    | dispose object name => exact .found twin h.objects object fun o _ => h.dispose o name
    | lock object name request =>
      exact .found twin h.objects object fun o _ =>
        .stay { twin.reply .nothing with put := .some ⟨rfl, .unopened _ _⟩ }
    | clone object name =>
      refine .found twin h.objects object fun o _ => .stay (Twin.reply ?_ .nothing)
      exact { twin with objects := congrArg (·.insert name o) h.objects }
    | dropObject object =>
      refine .found twin h.objects object fun o _ => .stay (Twin.reply ?_ .dropped)
      exact { twin with objects := congrArg (·.erase object) h.objects }
    | holding object =>
      refine .found twin h.objects object fun o _ => .stay ?_
      have shown := h.map_sync o.sync (k := fun s => (Answer.holding s.holding : Answer P))
        fun s t twin => by rw [twin.holding]
      unfold World.sync?
      rw [shown]
      exact twin.reply _
    | describe object =>
      refine .found twin h.objects object fun o _ => .stay ?_
      refine twin.tells ?_
      unfold World.sync?
      have both := h.syncs o.sync
      generalize w.syncs[o.sync]? = s at both ⊢
      generalize v.syncs[o.sync]? = t at both ⊢
      cases both with
      | none => rfl
      | some twin =>
        dsimp only
        rw [twin.2.detail_eq, twin.2.frontDetail_eq]
    | poll slot waker onWake =>
      obtain ⟨g', keeps, turn⟩ := (h.setOnWake waker quiet).poll slot (.task waker) rfl
      refine ⟨g', fun i j u hu => keeps i j u ?_, turn⟩
      cases onWake <;> exact hu
    | drop slot => exact h.drop slot
    | isWaiting slot => exact h.isWaiting slot
    | guarded slot => exact h.guarded slot
    | isRegistrationCancelled slot => exact h.isRegistrationCancelled slot
    | describeSlot slot => exact h.describeSlot slot
    | createToken name => exact .stay (twin.createToken name)
    | child token name => exact .found twin h.tokenNames token fun t _ => .stay (twin.child t name)
    | cloneToken token name =>
      exact .found twin h.tokenNames token fun t _ =>
        .stay ((twin.nameToken (by rw [h.tokens, Tokens.retain_redirect]) t name).reply .nothing)
    | dropToken token =>
      exact .found twin h.tokenNames token fun t _ => .stay ((twin.forgetToken token).reply .nothing)
    | cancel token => exact .found twin h.tokenNames token fun t _ => .stay (twin.cancel h.minded t)
    | describeToken token =>
      refine .found twin h.tokenNames token fun t _ => .stay ?_
      rw [h.tokens, Tokens.detail_redirect]
      exact twin.reply _
    | register token name waker onWake =>
      exact .found twin h.tokenNames token fun t _ =>
        .stay ((twin.setOnWake waker quiet).register t name waker)
    | advance nanos =>
      unfold World.start
      rw [twin.clock_eq]
      exact .stay (twin.moveClock _)
    | advanceTo t =>
      unfold World.start
      rw [twin.clock_eq]
      exact .stay (twin.moveClock _)
    | setClock t => exact .stay (twin.moveClock t)
    | process => exact .stay (twin.process h.minded)
    | createTimer name moment waker onWake =>
      exact .stay ((twin.setOnWake waker quiet).createTimer name moment waker)
    | cancelTimer timer =>
      refine .found twin h.timerNames timer fun k _ => .stay ?_
      rw [h.timers, Timers.cancel_redirect, Timers.isPending_redirect]
      refine Twin.reply ?_ _
      exact { twin with timers := rfl }
    | sameTimer a b =>
      exact .found twin h.timerNames a fun _ _ => .found twin h.timerNames b fun _ _ =>
        .stay (twin.reply _)
    | clearTimers =>
      refine .stay (Twin.reply ?_ .nothing)
      exact { twin with timers := by rw [h.timers, Timers.clear_redirect] }
    | now => exact .stay (twin.tells (by simp [h.timers]))
    | describeClock => exact .stay (twin.tells (by rw [twin.clock_eq]))
    | nextDeadline => exact .stay (twin.tells (by simp [h.timers]))
    | timers => exact .stay (twin.tells (by simp [h.timers]))
    | describeTimers => exact .stay (twin.tells (by simp [h.timers]))
    | wait | waitWaker => exact .stay (twin.reply .nothing)
  | create name raw held timer valid => exact .stay (h.create name raw held valid)

end Abreast

end World

end Turnstile
