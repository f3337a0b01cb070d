import SumLang.Proofs.Program.Blame
import SumLang.Proofs.Reading.Concatenation

/-!
# Lines of nodes

Each item, statement and expression of a text is read from consecutive tokens, and one of
them gives its line. For most nodes it is the first. A declaration has the line of its name,
which stands behind a keyword, and a sum the line of its sign, which stands behind the first
operand. So the line of a node is the one that it starts on exactly when no line feed comes
in between.
-/

namespace SumLang

/-! ### Nodes -/

/-- A node of the syntax of a text. -/
inductive Node where
  | expr (e : Expr)
  | stmt (s : Stmt)
  | item (i : Item)

/-- The line of a node. -/
def Node.line : Node → Int
  | .expr (.lit _ line) | .expr (.var _ line) | .expr (.add _ _ line) | .expr (.call _ _ line)
  | .expr (.alien _ _ line) => line
  | .stmt (.decl _ _ line) | .stmt (.assign _ _ line) | .stmt (.ret _ line)
  | .stmt (.alien _ _ line) => line
  | .item (.entry _ line) | .item (.func _ _ _ line) | .item (.alien _ _ line) => line

/-- Whether a node is a declaration or a sum. -/
def Node.isDeclOrSum : Node → Bool
  | .expr (.add ..) | .stmt (.decl ..) => true
  | _ => false

/-- A statement and all nodes inside of it. -/
def Stmt.allNodes (s : Stmt) : List Node := .stmt s :: s.nodes.map .expr

/-- An item and all nodes inside of it. -/
def Item.allNodes (i : Item) : List Node :=
  .item i :: match i with
    | .entry body _ | .func _ _ body _ => body.flatMap Stmt.allNodes
    | .alien .. => []

/-! ### Parts of a derivation -/

mutual

/-- An expression and all expressions inside of it, with their derivations. -/
def ExprDerivation.parts : ExprDerivation → List ExprDerivation
  | .single p => .single p :: p.inner
  -- The first operand is an expression of its own.
  | .sum p sign e => .sum p sign e :: .single p :: (p.inner ++ e.parts)

/-- All expressions inside of a primary. -/
def PrimaryDerivation.inner : PrimaryDerivation → List ExprDerivation
  | .integer _ | .name _ | .bareCall .. => []
  | .call _ _ args _ => args.parts

/-- All expressions in arguments. -/
def ArgsDerivation.parts : ArgsDerivation → List ExprDerivation
  | .last e => e.parts
  | .more e _ rest => e.parts ++ rest.parts

end

/-- A derivation of a node. -/
inductive Part where
  | expr (d : ExprDerivation)
  | stmt (d : StmtDerivation)
  | item (d : ItemDerivation)

/-- The expression of a statement. -/
def StmtDerivation.value : StmtDerivation → ExprDerivation
  | .decl _ _ _ e _ | .assign _ _ e _ | .ret _ e _ => e

/-- The block of an item. -/
def ItemDerivation.block : ItemDerivation → BlockDerivation
  | .entry _ block | .func _ _ _ _ _ block => block

/-- The derivations of a statement and of all nodes inside of it. -/
def StmtDerivation.parts (d : StmtDerivation) : List Part := .stmt d :: d.value.parts.map .expr

/-- The derivations of an item and of all nodes inside of it. -/
def ItemDerivation.parts (d : ItemDerivation) : List Part :=
  .item d :: d.block.body.flatMap StmtDerivation.parts

namespace Part

/-- The node that is derived. -/
def node : Part → Node
  | .expr d => .expr d.toExpr
  | .stmt d => .stmt d.toStmt
  | .item d => .item d.toItem

/-- The tokens that the node is read from. -/
def tokens : Part → List Token
  | .expr d => d.tokens
  | .stmt d => d.tokens
  | .item d => d.tokens

/-- The token that gives the line: the name in a declaration, the sign in a sum, and otherwise the
first token. -/
def mark : Part → Token
  | .expr (.sum _ sign _) => sign.1
  | .expr (.single (.integer t)) => t.1
  | .expr (.single (.name t)) | .expr (.single (.bareCall t ..))
  | .expr (.single (.call t ..)) => t.1
  | .stmt (.decl _ name ..) | .stmt (.assign name ..) => name.1
  | .stmt (.ret word ..) => word.1
  | .item (.entry word _) => word.1
  | .item (.func word ..) => word.1

/-- The tokens in front of the one that gives the line. -/
def lead : Part → List Token
  | .expr (.sum p ..) => p.tokens
  | .stmt (.decl word ..) => [word.1]
  | _ => []

private theorem line_node (x : Part) : x.node.line = x.mark.line := by
  rcases x with (p | _) | d | d
  · cases p <;> rfl
  · rfl
  · cases d <;> rfl
  · cases d <;> rfl

private theorem tokens_eq_lead_append (x : Part) : ∃ rest, x.tokens = x.lead ++ x.mark :: rest := by
  rcases x with (p | _) | d | d
  · cases p <;> exact ⟨_, rfl⟩
  · exact ⟨_, rfl⟩
  · cases d <;> exact ⟨_, rfl⟩
  · cases d <;> exact ⟨_, rfl⟩

private theorem lead_eq_nil {x : Part} (h : x.node.isDeclOrSum = false) : x.lead = [] := by
  rcases x with (_ | _) | d | _
  · rfl
  · contradiction
  · cases d with
    | decl => contradiction
    | assign | ret => rfl
  · rfl

end Part

/-! ### The nodes of a text and their tokens -/

mutual

private theorem ExprDerivation.map_toExpr_parts :
    ∀ d : ExprDerivation, d.parts.map ExprDerivation.toExpr = d.toExpr.nodes
  | .single p => p.map_toExpr_inner
  | .sum p sign e => by
    rw [ExprDerivation.parts, ExprDerivation.toExpr, Expr.nodes, List.map_cons, ← List.cons_append,
      List.map_append, e.map_toExpr_parts, List.map_cons]
    exact congrArg (fun es => _ :: (es ++ _)) p.map_toExpr_inner

/-- A primary and the expressions inside of it stand for its nodes. -/
theorem PrimaryDerivation.map_toExpr_inner :
    ∀ p : PrimaryDerivation, p.toExpr :: p.inner.map ExprDerivation.toExpr = p.toExpr.nodes
  | .integer t => rfl
  | .name t => rfl
  | .bareCall t opening closing => rfl
  | .call t opening args closing => by
    rw [PrimaryDerivation.toExpr, Expr.nodes, PrimaryDerivation.inner, args.map_toExpr_parts]

private theorem ArgsDerivation.map_toExpr_parts :
    ∀ d : ArgsDerivation, d.parts.map ExprDerivation.toExpr = Expr.nodesAll d.toExprs
  | .last e => by
    rw [ArgsDerivation.parts, ArgsDerivation.toExprs, Expr.nodesAll, Expr.nodesAll, List.append_nil,
      e.map_toExpr_parts]
  | .more e comma rest => by
    rw [ArgsDerivation.parts, ArgsDerivation.toExprs, Expr.nodesAll, List.map_append,
      e.map_toExpr_parts, rest.map_toExpr_parts]

end

private theorem StmtDerivation.map_node_parts (d : StmtDerivation) :
    d.parts.map Part.node = d.toStmt.allNodes := by
  have hnodes : d.toStmt.nodes = d.value.toExpr.nodes := by cases d <;> rfl
  rw [StmtDerivation.parts, List.map_cons, Stmt.allNodes, hnodes, ← d.value.map_toExpr_parts,
    List.map_map, List.map_map]
  rfl

/-- The parts of an item are its nodes. -/
theorem ItemDerivation.map_node_parts (d : ItemDerivation) :
    d.parts.map Part.node = d.toItem.allNodes := by
  have hbody : (d.block.body.flatMap StmtDerivation.parts).map Part.node =
      d.block.toStmts.flatMap Stmt.allNodes := by
    rw [List.map_flatMap, BlockDerivation.toStmts, List.flatMap_map]
    simp only [StmtDerivation.map_node_parts]
  rw [ItemDerivation.parts, List.map_cons, hbody]
  cases d <;> rfl

mutual

private theorem ExprDerivation.infix_of_mem_parts :
    ∀ d : ExprDerivation, ∀ x ∈ d.parts, x.tokens <:+: d.tokens
  | .single p, x, h => p.infix_of_mem_inner x h
  | .sum p sign e, x, h => by
    rw [ExprDerivation.parts, List.mem_cons, ← List.cons_append, List.mem_append] at h
    rcases h with rfl | h | h
    · exact List.infix_rfl
    · exact (p.infix_of_mem_inner x h).trans (List.prefix_append _ _).isInfix
    · refine (e.infix_of_mem_parts x h).trans (List.IsSuffix.isInfix ?_)
      exact ⟨p.tokens ++ [sign.1], by rw [ExprDerivation.tokens, List.append_assoc]; rfl⟩

/-- A primary and the expressions inside of it are read from tokens of the primary. -/
theorem PrimaryDerivation.infix_of_mem_inner :
    ∀ p : PrimaryDerivation, ∀ x ∈ ExprDerivation.single p :: p.inner, x.tokens <:+: p.tokens
  | .integer t => List.forall_mem_singleton.mpr List.infix_rfl
  | .name t => List.forall_mem_singleton.mpr List.infix_rfl
  | .bareCall t opening closing => List.forall_mem_singleton.mpr List.infix_rfl
  | .call t opening args closing => by
    refine List.forall_mem_cons.mpr ⟨List.infix_rfl, fun x h => ?_⟩
    exact (args.infix_of_mem_parts x h).trans ⟨[t.1, opening.1], [closing.1], rfl⟩

private theorem ArgsDerivation.infix_of_mem_parts :
    ∀ d : ArgsDerivation, ∀ x ∈ d.parts, x.tokens <:+: d.tokens
  | .last e, x, h => e.infix_of_mem_parts x h
  | .more e comma rest, x, h => by
    rcases List.mem_append.mp h with h | h
    · exact (e.infix_of_mem_parts x h).trans (List.prefix_append _ _).isInfix
    · refine (rest.infix_of_mem_parts x h).trans (List.IsSuffix.isInfix ?_)
      exact ⟨e.tokens ++ [comma.1], by rw [ArgsDerivation.tokens, List.append_assoc]; rfl⟩

end

private theorem StmtDerivation.infix_of_mem_parts (d : StmtDerivation) :
    ∀ x ∈ d.parts, x.tokens <:+: d.tokens := by
  have hvalue : d.value.tokens <:+: d.tokens := by
    cases d with
    | decl word name sign e semi => exact ⟨[word.1, name.1, sign.1], [semi.1], rfl⟩
    | assign name sign e semi => exact ⟨[name.1, sign.1], [semi.1], rfl⟩
    | ret word e semi => exact ⟨[word.1], [semi.1], rfl⟩
  refine List.forall_mem_cons.mpr ⟨List.infix_rfl, List.forall_mem_map.mpr fun e he => ?_⟩
  exact (d.value.infix_of_mem_parts e he).trans hvalue

/-- The nodes of an item are read from consecutive tokens of the item. -/
theorem ItemDerivation.infix_of_mem_parts (d : ItemDerivation) :
    ∀ x ∈ d.parts, x.tokens <:+: d.tokens := by
  have hblock : d.block.body.flatMap StmtDerivation.tokens <:+: d.tokens := by
    have hbody : d.block.body.flatMap StmtDerivation.tokens <:+: d.block.tokens :=
      ⟨[d.block.opening.1], [d.block.closing.1], rfl⟩
    refine hbody.trans (List.IsSuffix.isInfix ?_)
    cases d with
    | entry word block => exact List.suffix_cons _ _
    | func word name opening params closing block =>
      exact ⟨word.1 :: name.1 :: opening.1 :: (paramTokens params ++ [closing.1]), by
        simp [ItemDerivation.tokens, ItemDerivation.block]⟩
  refine List.forall_mem_cons.mpr ⟨List.infix_rfl, fun x hx => ?_⟩
  obtain ⟨s, hs, hx⟩ := List.mem_flatMap.mp hx
  have hstmt : s.tokens <:+: d.block.body.flatMap StmtDerivation.tokens :=
    List.infix_of_mem_flatten (List.mem_map_of_mem hs)
  exact ((s.infix_of_mem_parts x hx).trans hstmt).trans hblock

/-! ### Places in the text -/

/-- The token stands in the text behind the characters `before`. -/
structure Token.StandsBehind (t : Token) (code : String) (before : List Char) : Prop where
  text : before ++ t.word.toList <+: code.toList
  line : t.line = 1 + lineFeeds before
  offset : t.offset = utf8Length before

/-- Behind the characters `before`, the text is laid out as some tokens. -/
def LaidOut (code : String) (before : List Char) (ts : List Token) : Prop :=
  ∃ xs : List Piece, code.toList = before ++ xs.flatMap Piece.chars ∧ Piece.tokens before xs = ts

namespace LaidOut

variable {code : String} {before : List Char} {ts : List Token}

private theorem standsBehind {t : Token} (h : LaidOut code before (t :: ts)) :
    t.StandsBehind code before := by
  obtain ⟨_ | ⟨x, xs⟩, hchars, htokens⟩ := h
  · contradiction
  · obtain ⟨rfl, -⟩ := List.cons.inj htokens
    refine ⟨⟨x.gap ++ xs.flatMap Piece.chars, ?_⟩, rfl, rfl⟩
    have hword : (x.token before).word = String.ofList x.text := Token.word_eq rfl
    rw [hchars, List.flatMap_cons, Piece.chars, hword]
    simp

/-- Behind some tokens, the others are laid out. -/
theorem drop {lead : List Token} (h : LaidOut code before (lead ++ ts)) :
    ∃ between, LaidOut code (before ++ between) ts ∧ (lead = [] → between = []) := by
  induction lead generalizing before with
  | nil => exact ⟨[], by rwa [List.append_nil], fun _ => rfl⟩
  | cons t lead ih =>
    obtain ⟨_ | ⟨x, xs⟩, hchars, htokens⟩ := h
    · contradiction
    · have hrest : LaidOut code (before ++ x.chars) (lead ++ ts) :=
        ⟨xs, by rw [hchars, List.flatMap_cons, List.append_assoc], (List.cons.inj htokens).2⟩
      obtain ⟨between, hlaid, -⟩ := ih hrest
      exact ⟨x.chars ++ between, by rwa [← List.append_assoc], nofun⟩

end LaidOut

/-- A text that is scanned to its end is laid out behind the blanks in front. -/
theorem TokenFeed.laidOut_ofText {code : String} (h : (ofText code).error = none) :
    ∃ before, LaidOut code before (ofText code).tokens := by
  have hscan : scan (({} : Position).after []) code.toList = ⟨(ofText code).tokens, none⟩ := by
    rw [← h]
    rfl
  obtain ⟨l, hchars, htokens⟩ := exists_layout [] hscan
  exact ⟨l.lead, l.pieces, hchars.symm, htokens⟩

namespace Part

/-- A node has the line that it starts on exactly when no line feed stands between its start and the
token that gives the line. -/
theorem line_iff {code : String} {start : List Char} {front back : List Token} {x : Part}
    (h : LaidOut code start (front ++ x.tokens ++ back)) :
    ∃ first before between, x.tokens.head? = some first ∧ first.StandsBehind code before ∧
      x.mark.StandsBehind code (before ++ between) ∧
      (x.node.line = first.line ↔ '\n' ∉ between) ∧
      (x.node.isDeclOrSum = false → x.node.line = first.line) := by
  obtain ⟨rest, hx⟩ := x.tokens_eq_lead_append
  obtain ⟨first, later, hfirst⟩ := List.exists_cons_of_ne_nil (l := x.tokens) (by simp [hx])
  rw [List.append_assoc] at h
  obtain ⟨mid, hlaid, -⟩ := h.drop
  have hstart : first.StandsBehind code (start ++ mid) := by
    rw [hfirst] at hlaid
    exact hlaid.standsBehind
  rw [hx, List.append_assoc] at hlaid
  obtain ⟨between, hmark, hnil⟩ := hlaid.drop
  have hline : x.node.line = first.line ↔ '\n' ∉ between := by
    rw [x.line_node, hmark.standsBehind.line, hstart.line, lineFeeds, List.count_append,
      ← List.count_eq_zero, lineFeeds]
    omega
  refine ⟨first, start ++ mid, between, by rw [hfirst]; rfl, hstart, hmark.standsBehind, hline, ?_⟩
  intro hkind
  rw [hline, hnil (lead_eq_nil hkind)]
  exact List.not_mem_nil

end Part

namespace ItemFeed

/-- The tokens of a text that is read have one derivation, and the nodes of the text, at any depth,
are the parts of it. The line of a node is that of its first token, except that a declaration has
the line of its name and a sum the line of its sign. So it is the line that the node starts on
exactly when no line feed stands in the text between the start of the node and that token. -/
theorem line_of_node_iff_no_line_feed {code : String} {items : List Item}
    (h : (ofText code).toExcept = .ok items) :
    ∃ ds : List ItemDerivation,
      (∀ ds' : List ItemDerivation,
        ds'.flatMap ItemDerivation.tokens = (TokenFeed.ofText code).tokens ↔ ds' = ds) ∧
      (ds.flatMap ItemDerivation.parts).map Part.node = items.flatMap Item.allNodes ∧
      ∀ x ∈ ds.flatMap ItemDerivation.parts,
        (∃ rest, x.tokens = x.lead ++ x.mark :: rest) ∧ x.node.line = x.mark.line ∧
        ∃ first before between, x.tokens.head? = some first ∧ first.StandsBehind code before ∧
          x.mark.StandsBehind code (before ++ between) ∧
          (x.node.line = first.line ↔ '\n' ∉ between) ∧
          (x.node.isDeclOrSum = false → x.node.line = first.line) := by
  obtain ⟨ds, hscan, -, rfl⟩ := exists_derivation_of_toExcept h
  obtain ⟨start, hlaid⟩ := @TokenFeed.laidOut_ofText code (by rw [hscan])
  refine ⟨ds, fun ds' => ?_, ?_, fun x hx => ⟨x.tokens_eq_lead_append, x.line_node, ?_⟩⟩
  · rw [hscan]
    exact ⟨items_eq_of_tokens, fun h => by rw [h]⟩
  · rw [List.map_flatMap, List.flatMap_map]
    simp only [ItemDerivation.map_node_parts]
  · obtain ⟨d, hd, hx⟩ := List.mem_flatMap.mp hx
    have hitem : d.tokens <:+: ds.flatMap ItemDerivation.tokens :=
      List.infix_of_mem_flatten (List.mem_map_of_mem hd)
    obtain ⟨front, back, htokens⟩ := (d.infix_of_mem_parts x hx).trans hitem
    rw [hscan, ← htokens] at hlaid
    exact Part.line_iff hlaid

/-- A text with a node of each kind. All nodes but the declaration and the sum have the line of
their first token; the sum starts on the second line and has the line of its sign, the third. -/
theorem line_of_each_kind :
    let code := "func f(a) \x7b return a; \x7d\nbegin \x7b var x = 1\n+ f(\n2); x = x; \x7d"
    ∃ ds : List ItemDerivation,
      ds.flatMap ItemDerivation.tokens = (TokenFeed.ofText code).tokens ∧
      (ds.flatMap ItemDerivation.parts).map (fun x => x.node.line) =
        [1, 1, 1, 2, 2, 3, 2, 3, 4, 4, 4] ∧
      ∀ x ∈ ds.flatMap ItemDerivation.parts, x.node.isDeclOrSum = false →
        x.tokens.head?.map Token.line = some x.node.line := by
  intro code
  have hread : (ofText code).toExcept =
      .ok [.func "f" ["a"] [.ret (.var "a" 1) 1] 1,
        .entry [.decl "x" (.add (.lit (.int 1) 2) (.call "f" [.lit (.int 2) 4] 3) 3) 2,
          .assign "x" (.var "x" 4) 4] 2] :=
    toExcept_eq_ok.mpr (by decide +kernel)
  obtain ⟨ds, hunique, hnodes, hlines⟩ := line_of_node_iff_no_line_feed hread
  refine ⟨ds, (hunique ds).mpr rfl, ?_, fun x hx hkind => ?_⟩
  · have hmap := congrArg (List.map Node.line) hnodes
    rw [List.map_map] at hmap
    exact hmap
  · obtain ⟨-, -, first, -, -, hfirst, -, -, -, hline⟩ := hlines x hx
    rw [hfirst, hline hkind]
    rfl

/-- A declaration whose name stands on the line after its keyword has the line of the name, and a
sum whose sign stands on the line after its first operand has the line of the sign. -/
theorem line_after_start :
    let code := "begin \x7b var\nx = 1\n+ 2; \x7d"
    ∃ d : ItemDerivation,
      (ofText code).toExcept = .ok [d.toItem] ∧
      d.tokens = (TokenFeed.ofText code).tokens ∧
      (∃ x ∈ d.parts, x.node = .stmt (.decl "x" (.add (.lit (.int 1) 2) (.lit (.int 2) 3) 3) 2) ∧
        x.tokens.head?.map Token.line = some 1) ∧
      ∃ x ∈ d.parts, x.node = .expr (.add (.lit (.int 1) 2) (.lit (.int 2) 3) 3) ∧
        x.tokens.head?.map Token.line = some 2 := by
  intro code
  refine ⟨.entry ⟨⟨.beginWord, "begin", 1, 0⟩, rfl⟩ ⟨⟨⟨.lbrace, "\x7b", 1, 6⟩, rfl⟩,
    [.decl ⟨⟨.varWord, "var", 1, 8⟩, rfl⟩ ⟨⟨.ident, "x", 2, 12⟩, rfl⟩ ⟨⟨.assign, "=", 2, 14⟩, rfl⟩
      (.sum (.integer ⟨⟨.number, "1", 2, 16⟩, rfl⟩) ⟨⟨.plus, "+", 3, 18⟩, rfl⟩
        (.single (.integer ⟨⟨.number, "2", 3, 20⟩, rfl⟩))) ⟨⟨.semi, ";", 3, 21⟩, rfl⟩],
    ⟨⟨.rbrace, "\x7d", 3, 23⟩, rfl⟩⟩, toExcept_eq_ok.mpr (by decide +kernel), by decide +kernel,
    ⟨_, List.mem_cons_of_mem _ List.mem_cons_self, rfl, rfl⟩,
    ⟨_, List.mem_cons_of_mem _ (List.mem_cons_of_mem _ List.mem_cons_self), rfl, rfl⟩⟩

end ItemFeed

end SumLang
