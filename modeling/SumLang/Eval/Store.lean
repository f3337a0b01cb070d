import SumLang.Syntax.Value
import SumLang.Syntax.Name

/-!
# Stores

A store binds names to values and remembers the order in which the names were first
bound. Binding a name again changes its value and keeps its place.
-/

namespace SumLang

/-- Names with their values, in the order in which the names were first bound. -/
structure Store where
  entries : List (Name × Value) := []
  deriving DecidableEq

namespace Store

/-- The value bound to a name. -/
def get? (s : Store) (name : Name) : Option Value := s.entries.lookup name

/-- Whether a name is bound. -/
def contains (s : Store) (name : Name) : Bool := (s.get? name).isSome

/-- The bound names in order. -/
def names (s : Store) : List Name := s.entries.map Prod.fst

/-- Binds a name to a value. -/
def set (s : Store) (name : Name) (value : Value) : Store :=
  if s.contains name then
    ⟨s.entries.map fun e => if e.1 = name then (name, value) else e⟩
  else
    ⟨s.entries ++ [(name, value)]⟩

/-- A name is bound exactly when it is among the bound names. -/
theorem contains_iff {s : Store} {name : Name} : s.contains name = true ↔ name ∈ s.names := by
  obtain ⟨entries⟩ := s
  simp only [contains, get?, names]
  induction entries with
  | nil => simp
  | cons e rest ih =>
    rw [List.lookup_cons, List.map_cons, List.mem_cons]
    by_cases h : name = e.1
    · simp [h]
    · simp only [beq_eq_false_iff_ne.2 h, h, false_or]
      exact ih

/-- Binding a bound name keeps the names, and binding a new one puts it last. -/
theorem names_set (s : Store) (name : Name) (value : Value) :
    (s.set name value).names = if s.contains name then s.names else s.names ++ [name] := by
  unfold set
  split
  · simp only [names, List.map_map]
    apply List.map_congr_left
    intro e _
    simp only [Function.comp_apply]
    split
    · next h => exact h.symm
    · rfl
  · simp [names]

private theorem lookup_replace_self {entries : List (Name × Value)} {name : Name}
    (value : Value) (h : (entries.lookup name).isSome) :
    (entries.map fun e => if e.1 = name then (name, value) else e).lookup name = some value := by
  induction entries with
  | nil => simp at h
  | cons e rest ih =>
    rw [List.lookup_cons] at h
    rw [List.map_cons, List.lookup_cons]
    by_cases he : e.1 = name
    · simp [he]
    · have hb : (name == e.1) = false := beq_eq_false_iff_ne.2 (Ne.symm he)
      rw [hb] at h
      simpa [he, hb] using ih h

private theorem lookup_replace_of_ne (entries : List (Name × Value)) {name x : Name}
    (value : Value) (hx : x ≠ name) :
    (entries.map fun e => if e.1 = name then (name, value) else e).lookup x =
      entries.lookup x := by
  induction entries with
  | nil => rfl
  | cons e rest ih =>
    rw [List.map_cons, List.lookup_cons, List.lookup_cons, ih]
    by_cases he : e.1 = name
    · simp [he, beq_eq_false_iff_ne.2 hx]
    · simp [he]

/-- After binding a name, it has the new value and every other name the value it had. -/
theorem get?_set (s : Store) (name x : Name) (value : Value) :
    (s.set name value).get? x = if x = name then some value else s.get? x := by
  by_cases hx : x = name
  · rw [if_pos hx, hx, set]
    split
    · next h => exact lookup_replace_self value h
    · next h =>
      have hs : s.entries.lookup name = none := Option.not_isSome_iff_eq_none.1 h
      simp [get?, List.lookup_append, hs]
  · rw [if_neg hx, set]
    split
    · exact lookup_replace_of_ne s.entries value hx
    · simp [get?, List.lookup_append, List.lookup_cons, beq_eq_false_iff_ne.2 hx]

/-- Binds each name to the value at its place, as far as both lists reach. -/
def bind (names : List Name) (values : List Value) : Store :=
  (names.zip values).foldl (fun s e => s.set e.1 e.2) {}

end Store

end SumLang
