import SumLang.Syntax.Printer

/-!
# Gaps in formatted lists

The parameters of a function and the arguments of a call are written as lists. A name
without text can stand by itself or beside other text, but not as an element of such a
list: it leaves a gap there, and the whole text cannot be written. Lists are written
from the inside out and from left to right, and the first one with a gap is at fault.
-/

namespace SumLang

/-- An element without text in a list of names. -/
structure Gap where
  /-- The place of the element, counted from zero. -/
  index : Nat
  deriving DecidableEq, Repr

/-- The first gap in a list of texts. -/
def Gap.first? {α : Type} (texts : List (Option α)) : Option Gap :=
  (texts.findIdx? Option.isNone).map Gap.mk

/-- The text of an expression by itself, which a name without text does not have. -/
def Expr.text? : Expr → Option String
  | .var name _ => name.map Text.shown
  | e => some e.format

mutual

/-- The gap that keeps an expression from being written. -/
def Expr.gap? : Expr → Option Gap
  | .lit .. | .var .. | .alien .. => none
  | .add lhs rhs _ => lhs.gap?.or rhs.gap?
  | .call _ args _ => (Expr.innerGap? args).or (Gap.first? (args.map Expr.text?))

/-- The first gap inside some expressions. -/
def Expr.innerGap? : List Expr → Option Gap
  | [] => none
  | e :: es => e.gap?.or (Expr.innerGap? es)

end

/-- The gap that keeps a statement from being written. -/
def Stmt.gap? : Stmt → Option Gap
  | .decl _ value _ | .assign _ value _ | .ret value _ => value.gap?
  | .alien .. => none

/-- The gap that keeps an item from being written; the body of a function is written before its
parameters. -/
def Item.gap? : Item → Option Gap
  | .entry body _ => body.findSome? Stmt.gap?
  | .func _ params body _ => (body.findSome? Stmt.gap?).or (Gap.first? params)
  | .alien .. => none

/-- The text of an expression, if it can be written and is no name without text. -/
def Expr.write (e : Expr) : Except Gap (Option String) :=
  match e.gap? with
  | some g => .error g
  | none => .ok e.text?

/-- The text of a statement, if it can be written. -/
def Stmt.write (s : Stmt) : Except Gap String :=
  match s.gap? with
  | some g => .error g
  | none => .ok s.format

/-- The text of an item, if it can be written. -/
def Item.write (i : Item) : Except Gap String :=
  match i.gap? with
  | some g => .error g
  | none => .ok i.format

/-- The text of a sequence of items, if it can be written. -/
def writeItems (items : List Item) : Except Gap String :=
  match items.findSome? Item.gap? with
  | some g => .error g
  | none => .ok (formatItems items)

/-- A list of texts has no gap exactly when each of its elements is there. -/
theorem Gap.first?_eq_none_iff {α : Type} {texts : List (Option α)} :
    Gap.first? texts = none ↔ ∀ t ∈ texts, t.isSome = true := by
  simp [Gap.first?, List.findIdx?_eq_none_iff]

end SumLang
