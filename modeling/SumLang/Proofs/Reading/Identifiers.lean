import SumLang.Proofs.Reading.Unambiguity

/-!
# Identifiers in tokens and in syntax

An identifier in front of an opening parenthesis names the function that is called or
defined there, and every other identifier names a variable or a parameter. The
identifiers of a derivation's tokens are the names in the syntax it stands for, in the
same order, and the parenthesis tells in which of the two roles each one stands.
-/

namespace SumLang

/-! ### Identifiers in tokens -/

/-- Whether the first token is an opening parenthesis. -/
def startsOpen : List Token → Bool
  | [] => false
  | t :: _ => t.kind == .lparen

/-- The identifiers of a token list in order, each with whether an opening parenthesis follows. -/
def identifiers : List Token → List (Name × Bool)
  | [] => []
  | t :: rest =>
    if t.kind = .ident then (t.text, startsOpen rest) :: identifiers rest else identifiers rest

private theorem identifiers_leaf {k : Kind} (t : Leaf k) (h : k ≠ .ident) (rest : List Token) :
    identifiers (t.1 :: rest) = identifiers rest := by
  rw [identifiers, t.2, if_neg h]

private theorem identifiers_opening (t : Leaf .ident) (opening : Leaf .lparen) (rest : List Token) :
    identifiers (t.1 :: opening.1 :: rest) = (t.1.text, true) :: identifiers rest := by
  rw [identifiers, if_pos t.2, startsOpen, opening.2, beq_self_eq_true,
    identifiers_leaf opening (by decide)]

private theorem identifiers_name (t : Leaf .ident) {rest : List Token} (hr : Stops [.lparen] rest) :
    identifiers (t.1 :: rest) = (t.1.text, false) :: identifiers rest := by
  have hopen : startsOpen rest = false := by
    cases rest with
    | nil => rfl
    | cons u rest =>
      rw [startsOpen, beq_eq_false_iff_ne]
      intro hu
      exact hr.head (hu ▸ List.mem_cons_self)
  rw [identifiers, if_pos t.2, hopen]

/-- Identifiers of consecutive pieces of tokens, where those of each piece are known. -/
theorem identifiers_flatMap {α : Type} {tokens : α → List Token} {names : α → List (Name × Bool)}
    (h : ∀ a rest, identifiers (tokens a ++ rest) = names a ++ identifiers rest) (xs : List α)
    (rest : List Token) :
    identifiers (xs.flatMap tokens ++ rest) = xs.flatMap names ++ identifiers rest := by
  induction xs with
  | nil => rfl
  | cons x xs ih => rw [List.flatMap_cons, List.flatMap_cons, List.append_assoc, h, ih,
      List.append_assoc]

/-! ### Names in syntax -/

mutual

/-- The names in an expression in order, each with whether it is the name of a call. -/
def Expr.names : Expr → List (Name × Bool)
  | .lit .. | .alien .. => []
  | .var name _ => [(name, false)]
  | .add lhs rhs _ => lhs.names ++ rhs.names
  | .call name args _ => (name, true) :: Expr.namesAll args

/-- The names in some expressions in order. -/
def Expr.namesAll : List Expr → List (Name × Bool)
  | [] => []
  | e :: es => e.names ++ Expr.namesAll es

end

/-- The names in a statement in order. -/
def Stmt.names : Stmt → List (Name × Bool)
  | .decl name value _ | .assign name value _ => (name, false) :: value.names
  | .ret value _ => value.names
  | .alien .. => []

/-- The names in an item in order, each with whether it is the name of a function. -/
def Item.names : Item → List (Name × Bool)
  | .entry body _ => body.flatMap Stmt.names
  | .func name params body _ =>
    (name, true) :: (params.map (fun x => (x, false)) ++ body.flatMap Stmt.names)
  | .alien .. => []

/-! ### The identifiers of a derivation -/

mutual

/-- The identifiers in the tokens of an expression are the names in it. -/
theorem ExprDerivation.identifiers_tokens : ∀ (d : ExprDerivation) {rest : List Token},
    Stops exprFollow rest → identifiers (d.tokens ++ rest) = d.toExpr.names ++ identifiers rest
  | .single p, rest, hr => by
    rw [ExprDerivation.tokens, ExprDerivation.toExpr, p.identifiers_tokens (hr.mono (by decide))]
  | .sum p sign e, rest, hr => by
    rw [ExprDerivation.tokens, ExprDerivation.toExpr, Expr.names, List.append_assoc,
      List.cons_append, p.identifiers_tokens (sign.stops _ (by decide)),
      identifiers_leaf sign (by decide), e.identifiers_tokens hr, List.append_assoc]

/-- The identifiers in the tokens of a primary are the names in it. -/
theorem PrimaryDerivation.identifiers_tokens : ∀ (d : PrimaryDerivation) {rest : List Token},
    Stops [.lparen] rest → identifiers (d.tokens ++ rest) = d.toExpr.names ++ identifiers rest
  | .integer t, rest, _ => identifiers_leaf t (by decide) rest
  | .name t, rest, hr => by
    rw [PrimaryDerivation.tokens, List.singleton_append, identifiers_name t hr]
    rfl
  | .bareCall t opening closing, rest, _ => by
    rw [PrimaryDerivation.tokens, List.cons_append, List.cons_append, identifiers_opening,
      List.singleton_append, identifiers_leaf closing (by decide)]
    rfl
  | .call t opening args closing, rest, _ => by
    rw [PrimaryDerivation.tokens, List.cons_append, List.cons_append, identifiers_opening,
      List.append_assoc, List.singleton_append,
      args.identifiers_tokens (closing.stops _ (by decide)), identifiers_leaf closing (by decide)]
    rfl

/-- The identifiers in the tokens of arguments are the names in them. -/
theorem ArgsDerivation.identifiers_tokens : ∀ (d : ArgsDerivation) {rest : List Token},
    Stops exprFollow rest →
      identifiers (d.tokens ++ rest) = Expr.namesAll d.toExprs ++ identifiers rest
  | .last e, rest, hr => by
    rw [ArgsDerivation.tokens, ArgsDerivation.toExprs, Expr.namesAll, Expr.namesAll,
      List.append_nil, e.identifiers_tokens hr]
  | .more e comma args, rest, hr => by
    rw [ArgsDerivation.tokens, ArgsDerivation.toExprs, Expr.namesAll, List.append_assoc,
      List.cons_append, e.identifiers_tokens (comma.stops _ (by decide)),
      identifiers_leaf comma (by decide), args.identifiers_tokens hr, List.append_assoc]

end

/-- The identifiers in the tokens of a statement are the names in it. -/
theorem StmtDerivation.identifiers_tokens (d : StmtDerivation) (rest : List Token) :
    identifiers (d.tokens ++ rest) = d.toStmt.names ++ identifiers rest := by
  have hvalue (e : ExprDerivation) (semi : Leaf .semi) :
      identifiers (e.tokens ++ [semi.1] ++ rest) = e.toExpr.names ++ identifiers rest := by
    rw [List.append_assoc, List.singleton_append, e.identifiers_tokens (semi.stops _ (by decide)),
      identifiers_leaf semi (by decide)]
  have htarget (name : Leaf .ident) (sign : Leaf .assign) (ts : List Token) :
      identifiers (name.1 :: sign.1 :: ts) = (name.1.text, false) :: identifiers ts := by
    rw [identifiers_name name (sign.stops _ (by decide)), identifiers_leaf sign (by decide)]
  cases d with
  | decl word name sign e semi =>
    rw [StmtDerivation.tokens, List.cons_append, List.cons_append, List.cons_append,
      identifiers_leaf word (by decide), htarget, hvalue]
    rfl
  | assign name sign e semi =>
    rw [StmtDerivation.tokens, List.cons_append, List.cons_append, htarget, hvalue]
    rfl
  | ret word e semi =>
    rw [StmtDerivation.tokens, List.cons_append, identifiers_leaf word (by decide), hvalue]
    rfl

private theorem BlockDerivation.identifiers_tokens (b : BlockDerivation) (rest : List Token) :
    identifiers (b.tokens ++ rest) = b.toStmts.flatMap Stmt.names ++ identifiers rest := by
  rw [BlockDerivation.tokens, List.cons_append, identifiers_leaf b.opening (by decide),
    List.append_assoc, identifiers_flatMap StmtDerivation.identifiers_tokens,
    List.singleton_append, identifiers_leaf b.closing (by decide), BlockDerivation.toStmts,
    List.flatMap_map]

/-- The identifiers in the tokens of parameters are the parameters. -/
theorem identifiers_paramTokens (params : Option ParamsDerivation) {rest : List Token}
    (hr : Stops [.lparen] rest) : identifiers (paramTokens params ++ rest) =
      (paramNames params).map (fun x => (x, false)) ++ identifiers rest := by
  have hnext (ps : List (Leaf .comma × Leaf .ident)) :
      Stops [.lparen] (ps.flatMap moreParamTokens ++ rest) := by
    cases ps with
    | nil => exact hr
    | cons p ps => exact p.1.stops _ (by decide)
  have hmore (ps : List (Leaf .comma × Leaf .ident)) :
      identifiers (ps.flatMap moreParamTokens ++ rest) =
        ps.map (fun p => (p.2.1.text, false)) ++ identifiers rest := by
    induction ps with
    | nil => rfl
    | cons p ps ih =>
      rw [List.flatMap_cons, moreParamTokens, List.cons_append, List.cons_append,
        List.cons_append, List.cons_append, List.nil_append, identifiers_leaf p.1 (by decide),
        identifiers_name p.2 (hnext ps), ih, List.map_cons, List.cons_append]
  cases params with
  | none => rfl
  | some ps =>
    rw [paramTokens, List.cons_append, identifiers_name ps.first (hnext ps.more), hmore,
      paramNames, List.map_cons, List.map_map, List.cons_append]
    rfl

private theorem ItemDerivation.identifiers_tokens (d : ItemDerivation) (rest : List Token) :
    identifiers (d.tokens ++ rest) = d.toItem.names ++ identifiers rest := by
  cases d with
  | entry word block =>
    rw [ItemDerivation.tokens, List.cons_append, identifiers_leaf word (by decide),
      block.identifiers_tokens]
    rfl
  | func word name opening params closing block =>
    rw [ItemDerivation.tokens, List.cons_append, List.cons_append, List.cons_append,
      identifiers_leaf word (by decide), identifiers_opening, List.append_assoc, List.cons_append,
      identifiers_paramTokens params (closing.stops _ (by decide)),
      identifiers_leaf closing (by decide), block.identifiers_tokens, ItemDerivation.toItem,
      Item.names, List.cons_append, List.append_assoc]

/-- The identifiers in the tokens of a program are the names in its items, in the same order, and
an opening parenthesis follows exactly those that name functions. -/
theorem identifiers_items (ds : List ItemDerivation) :
    identifiers (ds.flatMap ItemDerivation.tokens) =
      (ds.map ItemDerivation.toItem).flatMap Item.names := by
  have h := identifiers_flatMap ItemDerivation.identifiers_tokens ds []
  rw [List.append_nil, identifiers, List.append_nil] at h
  rw [h, List.flatMap_map]

end SumLang
