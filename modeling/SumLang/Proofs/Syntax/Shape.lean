import SumLang.Syntax.Basic
import SumLang.Text.Letter

/-!
# Shapes of syntax

Which syntax a source text can have: nodes of the language only, words for names, words
of 32 bits for literals, and sums that nest to the right. Formatting keeps neither lines
nor the grouping of sums, so that syntax is also compared with its lines erased and with
each chain of additions nested to the right.
-/

namespace SumLang

/-- The words that are no names. -/
def keywords : List String := ["begin", "var", "func", "return"]

/-- A name that is a word of letters and no keyword. -/
def Name.IsWord (name : Name) : Prop :=
  ∃ s : String, name = some (s : Text) ∧ s ≠ "" ∧ (∀ c ∈ s.toList, isLetter c = true) ∧ s ∉ keywords

/-- Letters that spell no keyword are a word. -/
theorem Name.isWord_some {s : String}
    (h : s ≠ "" ∧ s.toList.all isLetter = true ∧ s ∉ keywords) : Name.IsWord (some s) :=
  ⟨s, rfl, h.1, List.all_eq_true.mp h.2.1, h.2.2⟩

/-- A value that is a word of 32 bits. -/
def Value.IsWord (v : Value) : Prop := ∃ n : Nat, v = .int n ∧ n ≤ maxWord

mutual

/-- An expression with words for its names and words of 32 bits for its literals. -/
def Expr.WellWritten : Expr → Prop
  | .lit value _ => ∃ n : Nat, value = .int n ∧ n ≤ maxWord
  | .var name _ => name.IsWord
  | .add lhs rhs _ => lhs.WellWritten ∧ rhs.WellWritten
  | .call name args _ => name.IsWord ∧ Expr.WellWrittenAll args
  | .alien .. => False

/-- Expressions that are all well written. -/
def Expr.WellWrittenAll : List Expr → Prop
  | [] => True
  | e :: es => e.WellWritten ∧ Expr.WellWrittenAll es

end

/-- A statement that is well written. -/
def Stmt.WellWritten : Stmt → Prop
  | .decl name value _ => name.IsWord ∧ value.WellWritten
  | .assign name value _ => name.IsWord ∧ value.WellWritten
  | .ret value _ => value.WellWritten
  | .alien .. => False

/-- An item that is well written. -/
def Item.WellWritten : Item → Prop
  | .entry body _ => ∀ s ∈ body, s.WellWritten
  | .func name params body _ =>
    name.IsWord ∧ (∀ x ∈ params, Name.IsWord x) ∧ ∀ s ∈ body, s.WellWritten
  | .alien .. => False

/-! ### Sums that nest to the right -/

/-- Whether an expression is a sum. -/
def Expr.isSum : Expr → Bool
  | .add .. => true
  | .lit .. | .var .. | .call .. | .alien .. => false

mutual

/-- No sum has a sum as its left operand. -/
def Expr.RightNested : Expr → Prop
  | .lit .. | .var .. | .alien .. => True
  | .add lhs rhs _ => lhs.isSum = false ∧ lhs.RightNested ∧ rhs.RightNested
  | .call _ args _ => Expr.RightNestedAll args

/-- In none of the expressions a sum has a sum as its left operand. -/
def Expr.RightNestedAll : List Expr → Prop
  | [] => True
  | e :: es => e.RightNested ∧ Expr.RightNestedAll es

end

/-- A statement in which no sum has a sum as its left operand. -/
def Stmt.RightNested : Stmt → Prop
  | .decl _ value _ | .assign _ value _ | .ret value _ => value.RightNested
  | .alien .. => True

/-- An item in which no sum has a sum as its left operand. -/
def Item.RightNested : Item → Prop
  | .entry body _ | .func _ _ body _ => ∀ s ∈ body, s.RightNested
  | .alien .. => True

/-- The sum of two expressions, where the chain on the left goes on into the right. -/
def Expr.plus : Expr → Expr → Int → Expr
  | .add a b l, rhs, line => .add a (b.plus rhs line) l
  | lhs, rhs, line => .add lhs rhs line

mutual

/-- The expression with each chain of additions nested to the right. -/
def Expr.rightNest : Expr → Expr
  | .lit value line => .lit value line
  | .var name line => .var name line
  | .add lhs rhs line => lhs.rightNest.plus rhs.rightNest line
  | .call name args line => .call name (Expr.rightNestAll args) line
  | .alien tag fields line => .alien tag fields line

/-- The expressions with each chain of additions nested to the right. -/
def Expr.rightNestAll : List Expr → List Expr
  | [] => []
  | e :: es => e.rightNest :: Expr.rightNestAll es

end

/-- The statement with each chain of additions nested to the right. -/
def Stmt.rightNest : Stmt → Stmt
  | .decl name value line => .decl name value.rightNest line
  | .assign name value line => .assign name value.rightNest line
  | .ret value line => .ret value.rightNest line
  | .alien tag fields line => .alien tag fields line

/-- The item with each chain of additions nested to the right. -/
def Item.rightNest : Item → Item
  | .entry body line => .entry (body.map Stmt.rightNest) line
  | .func name params body line => .func name params (body.map Stmt.rightNest) line
  | .alien tag fields line => .alien tag fields line

/-- Adding to the end of what is no sum makes a sum of two. -/
theorem Expr.plus_of_not_isSum {lhs : Expr} (h : lhs.isSum = false) (rhs : Expr) (line : Int) :
    lhs.plus rhs line = .add lhs rhs line := by
  cases lhs with
  | add a b l => contradiction
  | lit | var | call | alien => rfl

mutual

/-- Nesting to the right changes nothing where no sum has a sum as its left operand. -/
theorem Expr.rightNest_of_rightNested : ∀ (e : Expr), e.RightNested → e.rightNest = e
  | .lit .., _ | .var .., _ | .alien .., _ => rfl
  | .add lhs rhs line, h => by
    obtain ⟨hs, hl, hr⟩ := h
    rw [Expr.rightNest, Expr.rightNest_of_rightNested lhs hl, Expr.rightNest_of_rightNested rhs hr,
      Expr.plus_of_not_isSum hs]
  | .call name args line, h => by
    rw [Expr.rightNest, Expr.rightNestAll_of_rightNested args h]

private theorem Expr.rightNestAll_of_rightNested :
    ∀ (es : List Expr), Expr.RightNestedAll es → Expr.rightNestAll es = es
  | [], _ => rfl
  | e :: es, h => by
    rw [Expr.rightNestAll, Expr.rightNest_of_rightNested e h.1,
      Expr.rightNestAll_of_rightNested es h.2]

end

/-- A statement whose sums nest to the right is kept by nesting them so. -/
theorem Stmt.rightNest_of_rightNested {s : Stmt} (h : s.RightNested) : s.rightNest = s := by
  cases s with
  | decl name value line =>
    exact congrArg (Stmt.decl name · line) (value.rightNest_of_rightNested h)
  | assign name value line =>
    exact congrArg (Stmt.assign name · line) (value.rightNest_of_rightNested h)
  | ret value line => exact congrArg (Stmt.ret · line) (value.rightNest_of_rightNested h)
  | alien tag fields line => rfl

private theorem map_rightNest_of_rightNested {body : List Stmt}
    (h : ∀ s ∈ body, s.RightNested) : body.map Stmt.rightNest = body := by
  have hb := List.map_congr_left fun s hs => Stmt.rightNest_of_rightNested (h s hs)
  exact hb.trans (List.map_id' body)

/-- An item in which no sum has a sum as its left operand keeps its form. -/
theorem Item.rightNest_of_rightNested {i : Item} (h : i.RightNested) : i.rightNest = i := by
  cases i with
  | entry body line => exact congrArg (Item.entry · line) (map_rightNest_of_rightNested h)
  | func name params body line =>
    exact congrArg (Item.func name params · line) (map_rightNest_of_rightNested h)
  | alien tag fields line => rfl

/-! ### Syntax without lines -/

mutual

/-- The expression with all lines erased. -/
def Expr.eraseLines : Expr → Expr
  | .lit value _ => .lit value 0
  | .var name _ => .var name 0
  | .add lhs rhs _ => .add lhs.eraseLines rhs.eraseLines 0
  | .call name args _ => .call name (Expr.eraseLinesAll args) 0
  | .alien tag fields _ => .alien tag fields 0

/-- The expressions with all lines erased. -/
def Expr.eraseLinesAll : List Expr → List Expr
  | [] => []
  | e :: es => e.eraseLines :: Expr.eraseLinesAll es

end

/-- The statement with all lines erased. -/
def Stmt.eraseLines : Stmt → Stmt
  | .decl name value _ => .decl name value.eraseLines 0
  | .assign name value _ => .assign name value.eraseLines 0
  | .ret value _ => .ret value.eraseLines 0
  | .alien tag fields _ => .alien tag fields 0

/-- The item with all lines erased. -/
def Item.eraseLines : Item → Item
  | .entry body _ => .entry (body.map Stmt.eraseLines) 0
  | .func name params body _ => .func name params (body.map Stmt.eraseLines) 0
  | .alien tag fields _ => .alien tag fields 0

/-- Chains of additions are joined in the same way whatever their lines are. -/
theorem Expr.eraseLines_plus : ∀ (lhs rhs : Expr) (line : Int),
    (lhs.plus rhs line).eraseLines = lhs.eraseLines.plus rhs.eraseLines 0
  | .add a b l, rhs, line => by
    rw [Expr.plus, Expr.eraseLines, Expr.eraseLines_plus b rhs line, Expr.eraseLines, Expr.plus]
  | .lit .., _, _ | .var .., _, _ | .call .., _, _ | .alien .., _, _ => rfl

end SumLang
