import SumLang.Syntax.Name
import SumLang.Syntax.Value

/-!
# Abstract syntax

Expressions, statements and items of the language, each with the line it is reported
on. Where an expression, statement or item is expected, a node of another class or
with an unknown tag can stand; it is kept as an alien node, which formatting shows and
evaluation refuses. No source text has alien nodes.
-/

namespace SumLang

/-- An expression. -/
inductive Expr where
  /-- A literal. In a source text it stands for an integer. -/
  | lit (value : Value) (line : Int)
  /-- A reference to a variable. -/
  | var (name : Name) (line : Int)
  /-- A sum of two operands. -/
  | add (lhs rhs : Expr) (line : Int)
  /-- A call of a function with arguments. -/
  | call (name : Name) (args : List Expr) (line : Int)
  /-- A node that is no expression. -/
  | alien (tag : String) (fields : List Tree) (line : Int)

mutual

/-- Equality of expressions can be decided. -/
def Expr.decEq : (a b : Expr) → Decidable (a = b)
  | .lit m i, b => match b with
    | .lit n j => decidable_of_decidable_of_iff (p := m = n ∧ i = j) (by simp)
    | .var .. | .add .. | .call .. | .alien .. => isFalse nofun
  | .var s i, b => match b with
    | .var t j => decidable_of_decidable_of_iff (p := s = t ∧ i = j) (by simp)
    | .lit .. | .add .. | .call .. | .alien .. => isFalse nofun
  | .add x y i, b => match b with
    | .add x' y' j =>
      have := Expr.decEq x x'
      have := Expr.decEq y y'
      decidable_of_decidable_of_iff (p := x = x' ∧ y = y' ∧ i = j) (by simp)
    | .lit .. | .var .. | .call .. | .alien .. => isFalse nofun
  | .call s xs i, b => match b with
    | .call t ys j =>
      have := Expr.decEqAll xs ys
      decidable_of_decidable_of_iff (p := s = t ∧ xs = ys ∧ i = j) (by simp)
    | .lit .. | .var .. | .add .. | .alien .. => isFalse nofun
  | .alien s xs i, b => match b with
    | .alien t ys j => decidable_of_decidable_of_iff (p := s = t ∧ xs = ys ∧ i = j) (by simp)
    | .lit .. | .var .. | .add .. | .call .. => isFalse nofun

/-- Equality of lists of expressions can be decided. -/
def Expr.decEqAll : (as bs : List Expr) → Decidable (as = bs)
  | [], [] => isTrue rfl
  | [], _ :: _ => isFalse nofun
  | _ :: _, [] => isFalse nofun
  | a :: as, b :: bs =>
    have := Expr.decEq a b
    have := Expr.decEqAll as bs
    decidable_of_decidable_of_iff (p := a = b ∧ as = bs) (by simp)

end

instance : DecidableEq Expr := Expr.decEq

/-- A statement. -/
inductive Stmt where
  /-- Introduces a variable with its first value. -/
  | decl (name : Name) (value : Expr) (line : Int)
  /-- Gives a variable a new value. -/
  | assign (name : Name) (value : Expr) (line : Int)
  /-- Sets the result of the function. -/
  | ret (value : Expr) (line : Int)
  /-- A node that is no statement. -/
  | alien (tag : String) (fields : List Tree) (line : Int)
  deriving DecidableEq

/-- A top-level item. -/
inductive Item where
  /-- The block that a program starts with. -/
  | entry (body : List Stmt) (line : Int)
  /-- The definition of a function. -/
  | func (name : Name) (params : List Name) (body : List Stmt) (line : Int)
  /-- A node that is no item. -/
  | alien (tag : String) (fields : List Tree) (line : Int)
  deriving DecidableEq

/-- The name that a field holds. -/
def Tree.name? : Tree → Option Name
  | .text s => some (some s)
  | .absent => some none
  | .num _ | .bool _ | .list _ | .node .. => none

mutual

/-- The expression that a raw node stands for. Literals, references and sums may have more fields
than they need. -/
def Expr.ofTree? : Tree → Option Expr
  | .node "int" (value :: _) line => some (.lit value.toValue line)
  | .node "var" (name :: _) line => do return .var (← name.name?) line
  | .node "add" (lhs :: rhs :: _) line => do
    return .add (← Expr.ofTree? lhs) (← Expr.ofTree? rhs) line
  | .node "call" [name, .list args] line => do
    return .call (← name.name?) (← Expr.ofTrees? args) line
  | .node tag fields line =>
    if tag ∈ ["int", "var", "add", "call"] then none else some (.alien tag fields line)
  | .text _ | .num _ | .bool _ | .list _ | .absent => none

/-- The expressions that some raw nodes stand for. -/
def Expr.ofTrees? : List Tree → Option (List Expr)
  | [] => some []
  | t :: ts => do return (← Expr.ofTree? t) :: (← Expr.ofTrees? ts)

end

/-- The statement that a raw node stands for. -/
def Stmt.ofTree? : Tree → Option Stmt
  | .node "decl" [name, value] line => do
    return .decl (← name.name?) (← Expr.ofTree? value) line
  | .node "assign" [name, value] line => do
    return .assign (← name.name?) (← Expr.ofTree? value) line
  | .node "return" [value] line => do return .ret (← Expr.ofTree? value) line
  | .node tag fields line =>
    if tag ∈ ["decl", "assign", "return"] then none else some (.alien tag fields line)
  | .text _ | .num _ | .bool _ | .list _ | .absent => none

/-- The item that a raw node stands for. -/
def Item.ofTree? : Tree → Option Item
  | .node "entry" [.list body] line => do return .entry (← body.mapM Stmt.ofTree?) line
  | .node "func_def" [name, .list params, .list body] line => do
    return .func (← name.name?) (← params.mapM Tree.name?) (← body.mapM Stmt.ofTree?) line
  | .node tag fields line =>
    if tag ∈ ["entry", "func_def"] then none else some (.alien tag fields line)
  | .text _ | .num _ | .bool _ | .list _ | .absent => none

/-- The raw form of a name. -/
def Name.toTree : Name → Tree
  | some s => .text s
  | none => .absent

mutual

/-- The raw form of an expression. -/
def Expr.toTree : Expr → Tree
  | .lit value line => .node "int" [value.toTree] line
  | .var name line => .node "var" [name.toTree] line
  | .add lhs rhs line => .node "add" [lhs.toTree, rhs.toTree] line
  | .call name args line => .node "call" [name.toTree, .list (Expr.toTrees args)] line
  | .alien tag fields line => .node tag fields line

/-- The raw forms of some expressions. -/
def Expr.toTrees : List Expr → List Tree
  | [] => []
  | e :: es => e.toTree :: Expr.toTrees es

end

/-- The raw form of a statement. -/
def Stmt.toTree : Stmt → Tree
  | .decl name value line => .node "decl" [name.toTree, value.toTree] line
  | .assign name value line => .node "assign" [name.toTree, value.toTree] line
  | .ret value line => .node "return" [value.toTree] line
  | .alien tag fields line => .node tag fields line

/-- The raw form of an item. -/
def Item.toTree : Item → Tree
  | .entry body line => .node "entry" [.list (body.map Stmt.toTree)] line
  | .func name params body line =>
    .node "func_def"
      [name.toTree, .list (params.map Name.toTree), .list (body.map Stmt.toTree)] line
  | .alien tag fields line => .node tag fields line

end SumLang
