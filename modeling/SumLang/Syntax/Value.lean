import SumLang.Syntax.Literal
import SumLang.Syntax.Tree

/-!
# Values

A running program computes with words of 32 bits. A host can also put other values
into a frame, into a literal or into the arguments of a call: integers of any size,
truth values, texts, lists, and the null value, which in the place of a result means
that there is none.
-/

namespace SumLang

/-- A value that a variable can hold. -/
inductive Value where
  | int (n : Int)
  | bool (b : Bool)
  | text (s : Text)
  | list (elements : List Value)
  | null

namespace Value

mutual

/-- Equality of values can be decided. -/
def decEq : (a b : Value) → Decidable (a = b)
  | int m, b => match b with
    | int n => decidable_of_decidable_of_iff (p := m = n) (by simp)
    | bool _ | text _ | list _ | null => isFalse nofun
  | bool m, b => match b with
    | bool n => decidable_of_decidable_of_iff (p := m = n) (by simp)
    | int _ | text _ | list _ | null => isFalse nofun
  | text m, b => match b with
    | text n => decidable_of_decidable_of_iff (p := m = n) (by simp)
    | int _ | bool _ | list _ | null => isFalse nofun
  | list m, b => match b with
    | list n =>
      have := decEqAll m n
      decidable_of_decidable_of_iff (p := m = n) (by simp)
    | int _ | bool _ | text _ | null => isFalse nofun
  | null, b => match b with
    | null => isTrue rfl
    | int _ | bool _ | text _ | list _ => isFalse nofun

/-- Equality of lists of values can be decided. -/
def decEqAll : (as bs : List Value) → Decidable (as = bs)
  | [], [] => isTrue rfl
  | [], _ :: _ => isFalse nofun
  | _ :: _, [] => isFalse nofun
  | a :: as, b :: bs =>
    have := decEq a b
    have := decEqAll as bs
    decidable_of_decidable_of_iff (p := a = b ∧ as = bs) (by simp)

end

instance : DecidableEq Value := decEq

/-- Whether a value is the null value. -/
def isNull : Value → Bool
  | null => true
  | int _ | bool _ | text _ | list _ => false

/-- The name that reports use for the type of a value. -/
def typeName : Value → String
  | int _ => "int"
  | bool _ => "bool"
  | text _ => "str"
  | list _ => "list"
  | null => "NoneType"

mutual

/-- The raw form of a value. -/
def toTree : Value → Tree
  | int n => .num n
  | bool b => .bool b
  | text s => .text s
  | list elements => .list (toTrees elements)
  | null => .absent

/-- The raw forms of some values. -/
def toTrees : List Value → List Tree
  | [] => []
  | v :: vs => v.toTree :: toTrees vs

end

/-- A value as it is printed: a text as it is, and every other value written out. -/
def display : Value → String
  | text s => s.shown
  | v => v.toTree.display

/-- The number that a value counts as in a sum: truth values count as zero and one. -/
def toInt? : Value → Option Int
  | int n => some n
  | bool b => some (if b then 1 else 0)
  | text _ | list _ | null => none

/-- The sum of two values, reduced to a word; otherwise the first of them that is no number. -/
def add (a b : Value) : Except Value Value :=
  match a.toInt?, b.toInt? with
  | some m, some n => .ok (int ((m + n) % wordCount))
  | none, _ => .error a
  | some _, none => .error b

end Value

mutual

/-- The value that a raw form holds. A node is a list of its tag, its fields and its line. -/
def Tree.toValue : Tree → Value
  | .text s => .text s
  | .num n => .int n
  | .bool b => .bool b
  | .list elements => .list (Tree.toValues elements)
  | .node tag fields line => .list (.text tag :: (Tree.toValues fields ++ [.int line]))
  | .absent => .null

/-- The values that some raw forms hold. -/
def Tree.toValues : List Tree → List Value
  | [] => []
  | t :: ts => t.toValue :: Tree.toValues ts

end

mutual

/-- The raw form of a value holds that value. -/
theorem Value.toValue_toTree : (v : Value) → v.toTree.toValue = v
  | .int _ | .bool _ | .text _ | .null => rfl
  | .list elements => congrArg Value.list (Value.toValues_toTrees elements)

/-- The raw forms of some values hold those values. -/
theorem Value.toValues_toTrees : (vs : List Value) → Tree.toValues (Value.toTrees vs) = vs
  | [] => rfl
  | v :: vs => congr (congrArg List.cons v.toValue_toTree) (Value.toValues_toTrees vs)

end

end SumLang
