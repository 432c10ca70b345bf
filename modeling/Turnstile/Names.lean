/-!
# Things by name

A finite map from names. Each name stands for at most one thing.
-/

namespace Turnstile

structure Names (α : Type) where
  entries : List (String × α) := []
  deriving Inhabited, Repr

namespace Names

variable {α : Type}

def find? (m : Names α) (name : String) : Option α :=
  (m.entries.find? (·.1 = name)).map (·.2)

def erase (m : Names α) (name : String) : Names α :=
  ⟨m.entries.filter (·.1 ≠ name)⟩

/-- The name stands for `a` from now on. -/
def insert (m : Names α) (name : String) (a : α) : Names α :=
  ⟨(m.erase name).entries ++ [(name, a)]⟩

/-! ## Laws -/

theorem find?_erase (m : Names α) (name other : String) :
    (m.erase name).find? other = if other = name then none else m.find? other := by
  obtain ⟨es⟩ := m
  simp only [erase, find?]
  induction es with
  | nil => simp
  | cons e es ih => grind

theorem find?_insert (m : Names α) (name other : String) (a : α) :
    (m.insert name a).find? other = if other = name then some a else m.find? other := by
  have h := m.find?_erase name other
  simp only [find?, insert, List.find?_append] at h ⊢
  grind

end Names

end Turnstile
