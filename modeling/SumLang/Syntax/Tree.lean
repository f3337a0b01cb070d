import SumLang.Text.Quoted

/-!
# Raw nodes

A raw node is a tag with fields and a line, where nothing is said about which fields
belong to which tag. Raw nodes are the exchange form of the abstract syntax, and the
form in which a node that belongs to no part of the language is kept and shown.
-/

namespace SumLang

/-- A raw node, or a text, number, truth value or list that can be a field of one. -/
inductive Tree where
  | text (s : Text)
  | num (n : Int)
  | bool (b : Bool)
  | list (elements : List Tree)
  | node (tag : String) (fields : List Tree) (line : Int)
  /-- The place of a field that is not there. -/
  | absent

namespace Tree

mutual

/-- Equality of trees can be decided. -/
def decEq : (a b : Tree) → Decidable (a = b)
  | text m, b => match b with
    | text n => decidable_of_decidable_of_iff (p := m = n) (by simp)
    | num _ | bool _ | list _ | node .. | absent => isFalse nofun
  | num m, b => match b with
    | num n => decidable_of_decidable_of_iff (p := m = n) (by simp)
    | text _ | bool _ | list _ | node .. | absent => isFalse nofun
  | bool m, b => match b with
    | bool n => decidable_of_decidable_of_iff (p := m = n) (by simp)
    | text _ | num _ | list _ | node .. | absent => isFalse nofun
  | list m, b => match b with
    | list n =>
      have := decEqAll m n
      decidable_of_decidable_of_iff (p := m = n) (by simp)
    | text _ | num _ | bool _ | node .. | absent => isFalse nofun
  | node s m i, b => match b with
    | node t n j =>
      have := decEqAll m n
      decidable_of_decidable_of_iff (p := s = t ∧ m = n ∧ i = j) (by simp)
    | text _ | num _ | bool _ | list _ | absent => isFalse nofun
  | absent, b => match b with
    | absent => isTrue rfl
    | text _ | num _ | bool _ | list _ | node .. => isFalse nofun

/-- Equality of lists of trees can be decided. -/
def decEqAll : (as bs : List Tree) → Decidable (as = bs)
  | [], [] => isTrue rfl
  | [], _ :: _ => isFalse nofun
  | _ :: _, [] => isFalse nofun
  | a :: as, b :: bs =>
    have := decEq a b
    have := decEqAll as bs
    decidable_of_decidable_of_iff (p := a = b ∧ as = bs) (by simp)

end

instance : DecidableEq Tree := decEq

/-- The tags of the language's own nodes. -/
def knownTags : List String :=
  ["int", "var", "add", "call", "decl", "assign", "return", "entry", "func_def"]

/-- A tag as the first component of a displayed node. -/
def displayTag (tag : String) : String :=
  if tag ∈ knownTags then "<Op." ++ tag.toUpper ++ ": " ++ quoted tag ++ ">" else quoted tag

mutual

/-- A tree written out, nodes in parentheses and lists in brackets. -/
def display : Tree → String
  | text s => quoted s
  | num n => toString n
  | bool b => if b then "True" else "False"
  | list elements => "[" ++ ", ".intercalate (displayAll elements) ++ "]"
  | node tag fields line =>
    "(" ++ ", ".intercalate (displayTag tag :: (displayAll fields ++ [toString line])) ++ ")"
  | absent => "None"

/-- The written forms of some trees. -/
def displayAll : List Tree → List String
  | [] => []
  | t :: ts => t.display :: displayAll ts

end

end Tree

end SumLang
