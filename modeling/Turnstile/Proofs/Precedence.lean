import Turnstile.Settings.Recipe
import Mathlib.Data.List.Induction

/-!
# Who decides a setting

The last explicit instruction decides a number, then the first source that offers one. The two
numbers do not meddle with each other, and a source that comes twice in a row counts once.
-/

namespace Turnstile.Settings

/-! ## The two numbers -/

/-- A number among the settings. -/
inductive Field where
  | level
  | limit
  deriving DecidableEq, Repr

namespace Field

def get (f : Field) (s : Settings) : Option Nat :=
  match f with
  | level => s.concurrencyLevel
  | limit => s.poolRetainLimit

/-- The name of its variable. -/
def name : Field → String
  | level => levelVariable
  | limit => retainVariable

/-- The value of its variable. -/
def text? (f : Field) (env : Environment) : Option String :=
  match f with
  | level => env.concurrencyLevel
  | limit => env.poolRetainLimit

/-- The environment in which its variable has another value. -/
def assign (f : Field) (text : Option String) (env : Environment) : Environment :=
  match f with
  | level => { env with concurrencyLevel := text }
  | limit => { env with poolRetainLimit := text }

/-- What an explicit instruction sets it to. -/
def set? (f : Field) : Instruction → Option Nat
  | .concurrencyLevel n => if f = level then some n else none
  | .poolRetainLimit n => if f = limit then some n else none
  | _ => none

/-- What a source offers for it. -/
def offer? (f : Field) (env : Environment) : Instruction → Option Nat
  | .environment => (f.text? env).bind Text.unsigned?
  | .document o => if f = level then o.concurrencyLevel else o.poolRetainLimit
  | _ => none

/-- It is open, and its variable has a value that is no unsigned number. -/
def Blocked (f : Field) (env : Environment) (s : Settings) (text : String) : Prop :=
  f.get s = none ∧ f.text? env = some text ∧ Text.unsigned? text = none

end Field

namespace Instruction

def timer? : Instruction → Option Timers
  | timer t => some t
  | _ => none

/-- It only fills what is open. -/
def isSource : Instruction → Bool
  | environment | document _ => true
  | _ => false

end Instruction

variable {env : Environment} {s t : Settings} {is : List Instruction}

/-! ## One field -/

theorem fromVariable_eq_ok {name : String} {text : Option String} {field r : Option Nat}
    (h : fromVariable name text field = .ok r) : r = field.or (text.bind Text.unsigned?) := by
  unfold fromVariable at h
  split at h
  · exact (Except.ok.inj h).symm
  · exact (Except.ok.inj h).symm
  · split at h
    · rename_i n hn
      rw [Option.none_or, Option.bind_some, hn]
      exact (Except.ok.inj h).symm
    · cases h

theorem fromVariable_eq_error {name : String} {text : Option String} {field : Option Nat}
    {e : Fault} :
    fromVariable name text field = .error e ↔
      ∃ bad, (field = none ∧ text = some bad ∧ Text.unsigned? bad = none) ∧
        e = .variable name bad := by
  unfold fromVariable
  split
  · simp
  · simp
  · split
    · rename_i n hn
      simp [hn]
    · rename_i text _ hn
      constructor
      · intro h
        exact ⟨text, ⟨rfl, rfl, hn⟩, (Except.error.inj h).symm⟩
      · rintro ⟨bad, ⟨-, same, -⟩, rfl⟩
        rw [Option.some.inj same]

namespace Field

variable {f : Field}

/-- What the environment makes of the field. -/
def filled (f : Field) (env : Environment) (s : Settings) : Except Fault (Option Nat) :=
  fromVariable f.name (f.text? env) (f.get s)

theorem filled_eq_ok {r : Option Nat} (h : f.filled env s = .ok r) :
    r = (f.get s).or (f.offer? env .environment) :=
  fromVariable_eq_ok h

theorem filled_eq_error {e : Fault} :
    f.filled env s = .error e ↔ ∃ text, f.Blocked env s text ∧ e = .variable f.name text :=
  fromVariable_eq_error

theorem filled_of_get {n : Nat} (h : f.get s = some n) : f.filled env s = .ok (some n) := by
  rw [filled, h]
  rfl

theorem filled_again {r : Option Nat} (h : f.filled env s = .ok r) (same : f.get t = r) :
    f.filled env t = .ok r := by
  rcases r with _ | n
  · have unset : f.get s = none := (Option.or_eq_none_iff.mp (filled_eq_ok h).symm).1
    rw [filled, same]
    rwa [filled, unset] at h
  · exact filled_of_get same

theorem filled_assign {n : Nat} (h : f.get s = some n) (text : Option String) (g : Field) :
    g.filled (f.assign text env) s = g.filled env s := by
  by_cases hg : g = f
  · rw [hg, filled_of_get h, filled_of_get h]
  · have same : g.text? (f.assign text env) = g.text? env := by
      cases f <;> cases g <;> first | rfl | exact absurd rfl hg
    rw [filled, same, filled]

end Field

/-! ## One instruction -/

theorem fillFromEnvironment_eq (env : Environment) (s : Settings) :
    s.fillFromEnvironment env = (do
      let level ← Field.level.filled env s
      let limit ← Field.limit.filled env s
      return { s with concurrencyLevel := level, poolRetainLimit := limit }) := rfl

theorem fillFromEnvironment_eq_ok :
    s.fillFromEnvironment env = .ok t ↔
      t.timer = s.timer ∧ ∀ f : Field, f.filled env s = .ok (f.get t) := by
  rw [fillFromEnvironment_eq]
  constructor
  · intro h
    rcases hlevel : Field.level.filled env s with e | level <;> rw [hlevel] at h
    · cases h
    rcases hlimit : Field.limit.filled env s with e | limit <;> rw [hlimit] at h
    · cases h
    obtain rfl := Except.ok.inj h
    refine ⟨rfl, fun f => ?_⟩
    cases f with
    | level => exact hlevel
    | limit => exact hlimit
  · rintro ⟨timer, filled⟩
    rw [filled .level, filled .limit]
    obtain ⟨level, limit, _⟩ := t
    obtain rfl := timer
    rfl

theorem fillFromEnvironment_eq_error {e : Fault} :
    s.fillFromEnvironment env = .error e ↔
      ∃ (f : Field) (text : String), f.Blocked env s text ∧
        (f = .limit → ∀ other, ¬ Field.level.Blocked env s other) ∧ e = .variable f.name text := by
  rw [fillFromEnvironment_eq]
  rcases hlevel : Field.level.filled env s with e' | level
  · obtain ⟨text, blocked, rfl⟩ := Field.filled_eq_error.mp hlevel
    constructor
    · intro h
      exact ⟨.level, text, blocked, nofun, (Except.error.inj h).symm⟩
    · rintro ⟨f, text', blocked', first, rfl⟩
      cases f with
      | level =>
        rw [← Option.some.inj (blocked.2.1.symm.trans blocked'.2.1)]
        rfl
      | limit => exact absurd blocked (first rfl text)
  · have free : ∀ text, ¬ Field.level.Blocked env s text := fun text blocked => by
      rw [Field.filled_eq_error.mpr ⟨text, blocked, rfl⟩] at hlevel
      cases hlevel
    constructor
    · intro h
      rcases hlimit : Field.limit.filled env s with e' | limit <;> rw [hlimit] at h
      · obtain rfl := Except.error.inj h
        obtain ⟨text, blocked, rfl⟩ := Field.filled_eq_error.mp hlimit
        exact ⟨.limit, text, blocked, fun _ => free, rfl⟩
      · cases h
    · rintro ⟨f, text, blocked, -, rfl⟩
      cases f with
      | level => exact absurd blocked (free text)
      | limit =>
        rw [Field.filled_eq_error.mpr ⟨text, blocked, rfl⟩]
        rfl

theorem follow_eq_ok {i : Instruction} (h : s.follow env i = .ok t) :
    t.timer = i.timer?.or s.timer ∧
      ∀ f : Field, f.get t = (f.set? i).or ((f.get s).or (f.offer? env i)) := by
  cases i with
  | environment =>
    obtain ⟨timer, filled⟩ := fillFromEnvironment_eq_ok.mp h
    exact ⟨timer, fun f => Field.filled_eq_ok (filled f)⟩
  | document o =>
    obtain rfl := Except.ok.inj h
    exact ⟨rfl, fun f => by cases f <;> rfl⟩
  | _ =>
    obtain rfl := Except.ok.inj h
    refine ⟨rfl, fun f => ?_⟩
    cases f <;> simp [Field.get, Field.set?, Field.offer?]

theorem follow_eq_error {i : Instruction} {e : Fault} :
    s.follow env i = .error e ↔ i = .environment ∧ s.fillFromEnvironment env = .error e := by
  cases i <;> simp [follow]

theorem follow_again {i : Instruction} (source : i.isSource = true)
    (h : s.follow env i = .ok t) : t.follow env i = .ok t := by
  cases i with
  | environment =>
    obtain ⟨-, filled⟩ := fillFromEnvironment_eq_ok.mp h
    exact fillFromEnvironment_eq_ok.mpr ⟨rfl, fun f => Field.filled_again (filled f) rfl⟩
  | document o =>
    obtain rfl := Except.ok.inj h
    simp [follow, fill, Option.or_assoc]
  | _ => cases source

/-! ## Many instructions -/

theorem build_append (env : Environment) (is js : List Instruction) :
    build env (is ++ js) = (build env is).bind fun s => js.foldlM (follow env) s :=
  List.foldlM_append

theorem build_concat (env : Environment) (is : List Instruction) (i : Instruction) :
    build env (is ++ [i]) = (build env is).bind (·.follow env i) := by
  rw [build_append]
  simp only [List.foldlM_cons, List.foldlM_nil, bind_pure]

theorem build_eq_ok (h : build env is = .ok s) :
    s.timer = is.reverse.findSome? Instruction.timer? ∧
      ∀ f : Field, f.get s = (is.reverse.findSome? f.set?).or (is.findSome? (f.offer? env)) := by
  induction is using List.reverseRecOn generalizing s with
  | nil =>
    obtain rfl := Except.ok.inj h
    exact ⟨rfl, fun f => by cases f <;> rfl⟩
  | append_singleton is i ih =>
    rw [build_concat] at h
    rcases built : build env is with e | t <;> rw [built] at h
    · cases h
    obtain ⟨timer, fields⟩ := ih built
    obtain ⟨timer', fields'⟩ := follow_eq_ok h
    rw [List.reverse_concat]
    refine ⟨?_, fun f => ?_⟩
    · rw [timer', timer, List.findSome?_cons]
      cases i.timer? <;> rfl
    · rw [fields', fields, List.findSome?_cons, List.findSome?_append, Option.or_assoc]
      cases f.set? i <;> simp

theorem build_eq_error {e : Fault} :
    build env is = .error e ↔ ∃ pre post t, is = pre ++ .environment :: post ∧
      build env pre = .ok t ∧ t.fillFromEnvironment env = .error e := by
  constructor
  · induction is using List.reverseRecOn with
    | nil =>
      intro h
      cases h
    | append_singleton is i ih =>
      intro h
      rw [build_concat] at h
      rcases built : build env is with e' | t <;> rw [built] at h
      · obtain ⟨pre, post, t, rfl, reached, fault⟩ := ih (built.trans h)
        exact ⟨pre, post ++ [i], t, by simp, reached, fault⟩
      · obtain ⟨rfl, fault⟩ := follow_eq_error.mp h
        exact ⟨is, [], t, rfl, built, fault⟩
  · rintro ⟨pre, post, t, rfl, reached, fault⟩
    rw [build_append, reached]
    show ((t.fillFromEnvironment env).bind _) = _
    rw [fault]
    rfl

theorem build_twice {i : Instruction} (source : i.isSource = true) (pre post : List Instruction) :
    build env (pre ++ i :: i :: post) = build env (pre ++ i :: post) := by
  rw [build_append, build_append]
  refine congrArg _ (funext fun s => ?_)
  simp only [List.foldlM_cons]
  rcases h : s.follow env i with e | t
  · rfl
  · show (t.follow env i).bind _ = _
    rw [follow_again source h]
    rfl

/-- Who decides what, under any environment and after any instructions. A number is the one that was
last set, or else the first that a source offered, and the timers are the last ones. The only fault is
that of an environment that is reached while the variable of an open field is no number; of two such
fields the level counts. The variable of a field that is set is not looked at, and a source that comes
again right after itself changes nothing. -/
theorem precedence (env : Environment) (is : List Instruction) :
    (∀ s, build env is = .ok s →
      s.timer = is.reverse.findSome? Instruction.timer? ∧
        ∀ f : Field,
          f.get s = (is.reverse.findSome? f.set?).or (is.findSome? (f.offer? env))) ∧
    (∀ e, build env is = .error e ↔ ∃ pre post t, is = pre ++ .environment :: post ∧
      build env pre = .ok t ∧ ∃ (f : Field) (text : String), f.Blocked env t text ∧
        (f = .limit → ∀ other, ¬ Field.level.Blocked env t other) ∧
          e = .variable f.name text) ∧
    (∀ pre post t (f : Field) text, is = pre ++ .environment :: post → build env pre = .ok t →
      f.get t ≠ none →
        t.fillFromEnvironment (f.assign text env) = t.fillFromEnvironment env) ∧
    ∀ pre i post, is = pre ++ i :: post → i.isSource = true →
      build env (pre ++ i :: i :: post) = build env is := by
  refine ⟨fun s h => build_eq_ok h, fun e => ?_, ?_, ?_⟩
  · rw [build_eq_error]
    simp only [fillFromEnvironment_eq_error]
  · rintro pre post t f text - - set
    obtain ⟨n, hn⟩ := Option.ne_none_iff_exists'.mp set
    rw [fillFromEnvironment_eq, fillFromEnvironment_eq, Field.filled_assign hn,
      Field.filled_assign hn]
  · rintro pre i post rfl source
    exact build_twice source pre post

/-- An explicit instruction decides wherever it stands, but only one that came before the environment
keeps a bad variable from being looked at. -/
example :
    build { concurrencyLevel := some " 3 ", poolRetainLimit := some " -3" }
      [.poolRetainLimit 8, .environment, .concurrencyLevel 5] =
      .ok { concurrencyLevel := some 5, poolRetainLimit := some 8 } := by cbv

example :
    build { concurrencyLevel := some " 3 ", poolRetainLimit := some " -3" }
      [.environment, .poolRetainLimit 8] = .error (.variable retainVariable " -3") := by cbv

end Turnstile.Settings
