import SumLang.Proofs.Text.Decimal
import SumLang.Reading.Grammar

/-!
# Derivations of the grammar

One type of derivation trees for each rule of the grammar, with a token of the right
kind at every leaf:

    program   := item*
    item      := 'begin' block | 'func' ident '(' (ident (',' ident)*)? ')' block
    block     := '{' statement* '}'
    statement := 'var' ident '=' expr ';' | ident '=' expr ';' | 'return' expr ';'
    expr      := primary ('+' expr)?
    primary   := number | ident | ident '(' (expr (',' expr)*)? ')'

A derivation yields tokens and stands for abstract syntax. The tokens determine the
derivation: no token list has two, and where a derivation ends inside a longer list is
determined too, as long as what follows cannot continue it.
-/

namespace SumLang

/-- A token of a given kind. -/
abbrev Leaf (k : Kind) := { t : Token // t.kind = k }

mutual

/-- An expression: a primary, and after a plus sign another expression. -/
inductive ExprDerivation where
  | single (p : PrimaryDerivation)
  | sum (p : PrimaryDerivation) (sign : Leaf .plus) (e : ExprDerivation)

/-- A primary: a literal, a variable, or a call without or with arguments. -/
inductive PrimaryDerivation where
  | integer (t : Leaf .number)
  | name (t : Leaf .ident)
  | bareCall (t : Leaf .ident) (opening : Leaf .lparen) (closing : Leaf .rparen)
  | call (t : Leaf .ident) (opening : Leaf .lparen) (args : ArgsDerivation)
      (closing : Leaf .rparen)

/-- One argument or more, separated by commas. -/
inductive ArgsDerivation where
  | last (e : ExprDerivation)
  | more (e : ExprDerivation) (comma : Leaf .comma) (rest : ArgsDerivation)

end

/-- A statement with its semicolon. -/
inductive StmtDerivation where
  | decl (word : Leaf .varWord) (name : Leaf .ident) (sign : Leaf .assign) (e : ExprDerivation)
      (semi : Leaf .semi)
  | assign (name : Leaf .ident) (sign : Leaf .assign) (e : ExprDerivation) (semi : Leaf .semi)
  | ret (word : Leaf .returnWord) (e : ExprDerivation) (semi : Leaf .semi)

/-- Statements in braces. -/
structure BlockDerivation where
  opening : Leaf .lbrace
  body : List StmtDerivation
  closing : Leaf .rbrace

/-- One parameter or more, separated by commas. -/
structure ParamsDerivation where
  first : Leaf .ident
  more : List (Leaf .comma × Leaf .ident)

/-- An entry block or the definition of a function. -/
inductive ItemDerivation where
  | entry (word : Leaf .beginWord) (block : BlockDerivation)
  | func (word : Leaf .funcWord) (name : Leaf .ident) (opening : Leaf .lparen)
      (params : Option ParamsDerivation) (closing : Leaf .rparen) (block : BlockDerivation)

/-! ### The tokens that a derivation yields -/

mutual

/-- The tokens of an expression. -/
def ExprDerivation.tokens : ExprDerivation → List Token
  | .single p => p.tokens
  | .sum p sign e => p.tokens ++ sign.1 :: e.tokens

/-- The tokens of a primary. -/
def PrimaryDerivation.tokens : PrimaryDerivation → List Token
  | .integer t => [t.1]
  | .name t => [t.1]
  | .bareCall t opening closing => [t.1, opening.1, closing.1]
  | .call t opening args closing => t.1 :: opening.1 :: (args.tokens ++ [closing.1])

/-- The tokens of arguments. -/
def ArgsDerivation.tokens : ArgsDerivation → List Token
  | .last e => e.tokens
  | .more e comma rest => e.tokens ++ comma.1 :: rest.tokens

end

/-- The tokens of a statement. -/
def StmtDerivation.tokens : StmtDerivation → List Token
  | .decl word name sign e semi => word.1 :: name.1 :: sign.1 :: (e.tokens ++ [semi.1])
  | .assign name sign e semi => name.1 :: sign.1 :: (e.tokens ++ [semi.1])
  | .ret word e semi => word.1 :: (e.tokens ++ [semi.1])

/-- The tokens of a block. -/
def BlockDerivation.tokens (b : BlockDerivation) : List Token :=
  b.opening.1 :: (b.body.flatMap StmtDerivation.tokens ++ [b.closing.1])

/-- The tokens of a parameter after the first, with the comma in front of it. -/
def moreParamTokens (p : Leaf .comma × Leaf .ident) : List Token := [p.1.1, p.2.1]

/-- The tokens of parameters, none where there are none. -/
def paramTokens : Option ParamsDerivation → List Token
  | none => []
  | some ps => ps.first.1 :: ps.more.flatMap moreParamTokens

/-- The tokens of an item. -/
def ItemDerivation.tokens : ItemDerivation → List Token
  | .entry word block => word.1 :: block.tokens
  | .func word name opening params closing block =>
    word.1 :: name.1 :: opening.1 :: (paramTokens params ++ closing.1 :: block.tokens)

/-! ### The syntax that a derivation stands for -/

mutual

/-- The expression: sums nest to the right, and a name with parentheses is a call. -/
def ExprDerivation.toExpr : ExprDerivation → Expr
  | .single p => p.toExpr
  | .sum p sign e => .add p.toExpr e.toExpr sign.1.line

/-- The expression of a primary. -/
def PrimaryDerivation.toExpr : PrimaryDerivation → Expr
  | .integer t => .lit (.int (decimalValue t.1.word.toList)) t.1.line
  | .name t => .var t.1.text t.1.line
  | .bareCall t _ _ => .call t.1.text [] t.1.line
  | .call t _ args _ => .call t.1.text args.toExprs t.1.line

/-- The arguments in order. -/
def ArgsDerivation.toExprs : ArgsDerivation → List Expr
  | .last e => [e.toExpr]
  | .more e _ rest => e.toExpr :: rest.toExprs

end

/-- The statement. -/
def StmtDerivation.toStmt : StmtDerivation → Stmt
  | .decl _ name _ e _ => .decl name.1.text e.toExpr name.1.line
  | .assign name _ e _ => .assign name.1.text e.toExpr name.1.line
  | .ret word e _ => .ret e.toExpr word.1.line

/-- The statements of a block in order. -/
def BlockDerivation.toStmts (b : BlockDerivation) : List Stmt := b.body.map StmtDerivation.toStmt

/-- The names of parameters in order. -/
def paramNames : Option ParamsDerivation → List Name
  | none => []
  | some ps => ps.first.1.text :: ps.more.map fun p => p.2.1.text

/-- The item. -/
def ItemDerivation.toItem : ItemDerivation → Item
  | .entry word block => .entry block.toStmts word.1.line
  | .func word name _ params _ block =>
    .func name.1.text (paramNames params) block.toStmts word.1.line

/-! ### First tokens and what may follow -/

/-- What follows does not start with a token of one of these kinds. -/
def Stops (kinds : List Kind) (rest : List Token) : Prop := ∀ t ∈ rest.head?, t.kind ∉ kinds

/-- Everything stops at the end. -/
theorem stops_nil (kinds : List Kind) : Stops kinds [] := nofun

/-- A token of another kind stops. -/
theorem stops_cons {kinds : List Kind} {t : Token} {rest : List Token} (h : t.kind ∉ kinds) :
    Stops kinds (t :: rest) := by
  intro x hx
  rw [Option.mem_def, List.head?_cons] at hx
  rwa [← Option.some.inj hx]

/-- The token at which reading stops is of another kind. -/
theorem Stops.head {kinds : List Kind} {t : Token} {rest : List Token}
    (h : Stops kinds (t :: rest)) : t.kind ∉ kinds := h t rfl

/-- What stops for some kinds stops for fewer of them. -/
theorem Stops.mono {ks ls : List Kind} {rest : List Token} (h : Stops ls rest)
    (hs : ks ⊆ ls) : Stops ks rest := fun t ht hk => h t ht (hs hk)

/-- The kinds that continue an expression. -/
def exprFollow : List Kind := [.plus, .lparen]

/-- The kinds that continue an argument list. -/
def argsFollow : List Kind := [.plus, .lparen, .comma]

/-- A primary starts with a number or a name. -/
theorem PrimaryDerivation.tokens_eq_cons (p : PrimaryDerivation) :
    ∃ t ts, p.tokens = t :: ts ∧ (t.kind = .number ∨ t.kind = .ident) := by
  cases p with
  | integer t => exact ⟨t.1, [], rfl, Or.inl t.2⟩
  | name t => exact ⟨t.1, [], rfl, Or.inr t.2⟩
  | bareCall t opening closing => exact ⟨t.1, _, rfl, Or.inr t.2⟩
  | call t opening args closing => exact ⟨t.1, _, rfl, Or.inr t.2⟩

/-- An expression starts with a number or a name. -/
theorem ExprDerivation.tokens_eq_cons (d : ExprDerivation) :
    ∃ t ts, d.tokens = t :: ts ∧ (t.kind = .number ∨ t.kind = .ident) := by
  cases d with
  | single p => exact p.tokens_eq_cons
  | sum p sign e =>
    obtain ⟨t, ts, hp, ht⟩ := p.tokens_eq_cons
    exact ⟨t, ts ++ sign.1 :: e.tokens, by rw [ExprDerivation.tokens, hp, List.cons_append], ht⟩

/-- Arguments start with a number or a name. -/
theorem ArgsDerivation.tokens_eq_cons (d : ArgsDerivation) :
    ∃ t ts, d.tokens = t :: ts ∧ (t.kind = .number ∨ t.kind = .ident) := by
  cases d with
  | last e => exact e.tokens_eq_cons
  | more e comma rest =>
    obtain ⟨t, ts, he, ht⟩ := e.tokens_eq_cons
    exact ⟨t, ts ++ comma.1 :: rest.tokens, by rw [ArgsDerivation.tokens, he, List.cons_append], ht⟩

/-- A statement starts with a name or one of two keywords. -/
theorem StmtDerivation.tokens_eq_cons (d : StmtDerivation) :
    ∃ t ts, d.tokens = t :: ts ∧
      (t.kind = .varWord ∨ t.kind = .ident ∨ t.kind = .returnWord) := by
  cases d with
  | decl word name sign e semi => exact ⟨word.1, _, rfl, Or.inl word.2⟩
  | assign name sign e semi => exact ⟨name.1, _, rfl, Or.inr (Or.inl name.2)⟩
  | ret word e semi => exact ⟨word.1, _, rfl, Or.inr (Or.inr word.2)⟩

/-- An item starts with one of two keywords. -/
theorem ItemDerivation.tokens_eq_cons (d : ItemDerivation) :
    ∃ t ts, d.tokens = t :: ts ∧ (t.kind = .beginWord ∨ t.kind = .funcWord) := by
  cases d with
  | entry word block => exact ⟨word.1, _, rfl, Or.inl word.2⟩
  | func word name opening params closing block => exact ⟨word.1, _, rfl, Or.inr word.2⟩

end SumLang
