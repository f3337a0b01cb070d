import SumLang.Proofs.Reading.Cursor

/-!
# Readings that correspond

Much of what is said about the readers compares two readings: of tokens that have moved,
of tokens with and without an error behind them, of lists that agree for a while, with a
smaller and a larger allowance. Each of these comparisons is a relation between readers
that is closed under the few steps that readers are made of. The readers of the grammar
are walked here once, for every such relation: they are related to themselves, with
answers that are the same syntax up to what the relation does to lines. Along the way the
walk counts the tokens that are accepted.
-/

namespace SumLang

/-! ### Syntax under a change of lines -/

mutual

/-- The expression with a function applied to all of its lines. -/
def Expr.mapLines (f : Int → Int) : Expr → Expr
  | .lit value line => .lit value (f line)
  | .var name line => .var name (f line)
  | .add lhs rhs line => .add (lhs.mapLines f) (rhs.mapLines f) (f line)
  | .call name args line => .call name (Expr.mapLinesAll f args) (f line)
  | .alien tag fields line => .alien tag fields (f line)

/-- The expressions with a function applied to all of their lines. -/
def Expr.mapLinesAll (f : Int → Int) : List Expr → List Expr
  | [] => []
  | e :: es => e.mapLines f :: Expr.mapLinesAll f es

end

/-- The statement with a function applied to all of its lines. -/
def Stmt.mapLines (f : Int → Int) : Stmt → Stmt
  | .decl name value line => .decl name (value.mapLines f) (f line)
  | .assign name value line => .assign name (value.mapLines f) (f line)
  | .ret value line => .ret (value.mapLines f) (f line)
  | .alien tag fields line => .alien tag fields (f line)

/-- The item with a function applied to all of its lines. -/
def Item.mapLines (f : Int → Int) : Item → Item
  | .entry body line => .entry (body.map (Stmt.mapLines f)) (f line)
  | .func name params body line => .func name params (body.map (Stmt.mapLines f)) (f line)
  | .alien tag fields line => .alien tag fields (f line)

mutual

/-- An expression is itself when no line changes. -/
theorem Expr.mapLines_id : (e : Expr) → e.mapLines id = e
  | .lit .. | .var .. | .alien .. => rfl
  | .add lhs rhs line => by rw [Expr.mapLines, lhs.mapLines_id, rhs.mapLines_id, id]
  | .call name args line => by rw [Expr.mapLines, Expr.mapLinesAll_id args, id]

/-- Expressions are themselves when no line changes. -/
theorem Expr.mapLinesAll_id : (es : List Expr) → Expr.mapLinesAll id es = es
  | [] => rfl
  | e :: es => by rw [Expr.mapLinesAll, e.mapLines_id, Expr.mapLinesAll_id es]

end

/-- A statement is itself when no line changes. -/
theorem Stmt.mapLines_id (s : Stmt) : s.mapLines id = s := by
  cases s <;> simp only [mapLines, Expr.mapLines_id, id]

/-- Statements are themselves when no line changes. -/
theorem Stmt.map_mapLines_id (body : List Stmt) : body.map (Stmt.mapLines id) = body := by
  rw [List.map_congr_left fun s _ => s.mapLines_id, List.map_id']

/-- An item is itself when no line changes. -/
theorem Item.mapLines_id (i : Item) : i.mapLines id = i := by
  cases i <;> simp only [mapLines, Stmt.map_mapLines_id, id]

/-- Items are themselves when no line changes. -/
theorem Item.map_mapLines_id (items : List Item) : items.map (Item.mapLines id) = items := by
  rw [List.map_congr_left fun i _ => i.mapLines_id, List.map_id']

/-- Two tokens that a reader cannot tell apart but for their places, and for digits of a number that
do not change its value; `f` and `g` map their lines to the same. -/
structure Token.Matches (f g : Int → Int) (t t' : Token) : Prop where
  kind : t.kind = t'.kind
  text (h : t.kind ≠ .number) : t.text = t'.text
  value (h : t.kind = .number) : literalValue t.text = literalValue t'.text
  line : f t.line = g t'.line

/-- A token matches itself. -/
theorem Token.Matches.refl (f : Int → Int) (t : Token) : t.Matches f f t :=
  ⟨rfl, fun _ => rfl, fun _ => rfl, rfl⟩

namespace Reader

variable {α β : Type}

/-! ### Readers by their steps -/

/-- Accepting the lookahead and going on with it moves past it or fails. -/
theorem leaf_eq {k : Kind} (hk : k ≠ .eof) (f : Token → Reader β) :
    (do let t ← peek; eat k; f t) = (do
      let t ← peek
      if t.kind = k then
        advance
        f t
      else
        fail (.oneOf [k])) := by
  funext c
  change ((if c.curr.kind ≠ k then fail (.oneOf [k]) else if k = .eof then pure () else advance) >>=
      fun _ => f c.curr : Reader β) c =
    (if c.curr.kind = k then advance >>= fun _ => f c.curr else fail (.oneOf [k]) : Reader β) c
  by_cases h : c.curr.kind = k
  · rw [if_neg (not_not_intro h), if_neg hk, if_pos h]
  · rw [if_pos h, if_neg h]
    rfl

/-- The first parameter is the lookahead that was found to be no parenthesis. -/
theorem params_eq : params = (do
    if (← peek).kind = .rparen then return []
    else
      let tok ← peek
      eat .ident
      let rest ← withAllowance moreParamsWithin
      return tok.text :: rest) := by
  funext c
  change (if c.curr.kind = .rparen then _ else _ : Reader (List Name)) c =
    (if c.curr.kind = .rparen then _ else _ : Reader (List Name)) c
  split <;> rfl

/-- Reads at most `n` items up to the end mark. -/
def itemsWithin (n : Nat) : Reader (List Item) := fun c =>
  match ItemFeed.readWithin n c with
  | (⟨items, none⟩, c) => .ok items c
  | (⟨_, some e⟩, c) => .error e c

/-- All items are read with one step of allowance for each remaining token and one more. -/
theorem items_apply (c : Cursor) : items c = itemsWithin (c.remaining + 1) c := rfl

/-- At an end mark no item is read. -/
theorem itemsWithin_end (n : Nat) {c : Cursor} (hk : c.curr.kind = .eof) :
    itemsWithin (n + 1) c = .ok [] c := by
  rw [itemsWithin, ItemFeed.readWithin, if_pos hk]

/-- Items are read one by one until the lookahead is an end mark. -/
theorem itemsWithin_succ (n : Nat) : itemsWithin (n + 1) = (do
    if (← peek).kind = .eof then
      return []
    else
      let i ← item
      let rest ← itemsWithin n
      return i :: rest) := by
  funext c
  change _ = (if c.curr.kind = .eof then return [] else do
    let i ← item
    let rest ← itemsWithin n
    return i :: rest : Reader (List Item)) c
  by_cases hk : c.curr.kind = .eof
  · rw [if_pos hk, itemsWithin_end n hk]
    rfl
  · rw [if_neg hk, itemsWithin, ItemFeed.readWithin, if_neg hk, bind_apply]
    cases item c with
    | error x c' => rfl
    | ok i c' =>
      dsimp only
      rw [bind_apply, itemsWithin]
      rcases ItemFeed.readWithin n c' with ⟨⟨is, _ | x⟩, c''⟩ <;> rfl

end Reader

/-! ### Relations between readers -/

open Reader

/-- A relation between readers that their steps respect. `Rel R r r'` compares what `r` and `r'` do,
where `R a a' n` is what holds of two answers when `n` tokens have been accepted. -/
structure Correspondence where
  /-- What the relation does to the lines of the first reading. -/
  left : Int → Int
  /-- What the relation does to the lines of the second reading. -/
  right : Int → Int
  /-- The allowances with which readers are compared. -/
  Allowed : Nat → Nat → Prop
  Rel : {α : Type} → (α → α → Nat → Prop) → Reader α → Reader α → Prop
  pure {α : Type} {R : α → α → Nat → Prop} {a a' : α} (h : R a a' 0) : Rel R (pure a) (pure a')
  fail {α : Type} (R : α → α → Nat → Prop) (expected : Expectation) :
    Rel R (fail expected) (fail expected)
  illegible {α : Type} (R : α → α → Nat → Prop) (text : Option Text) :
    Rel R (throw (.illegible text)) (throw (.illegible text))
  bind {α β : Type} {R : α → α → Nat → Prop} {S : β → β → Nat → Prop} {r r' : Reader α}
    {f f' : α → Reader β} (hr : Rel R r r')
    (hf : ∀ a a' n, R a a' n → Rel (fun b b' m => S b b' (n + m)) (f a) (f' a')) :
    Rel S (r >>= f) (r' >>= f')
  peek {β : Type} {S : β → β → Nat → Prop} {f f' : Token → Reader β}
    (h : ∀ t t' : Token, t.Matches left right t' → Rel S (f t) (f' t')) :
    Rel S (peek >>= f) (peek >>= f')
  /-- After the lookahead has been accepted, its kind is known. -/
  leaf {β : Type} {S : β → β → Nat → Prop} {k : Kind} {f f' : Token → Reader β} (hk : k ≠ .eof)
    (h : ∀ t t' : Token, t.Matches left right t' → t.kind = k →
      Rel (fun b b' n => S b b' (1 + n)) (f t) (f' t')) :
    Rel S (do let t ← Reader.peek; eat k; f t) (do let t ← Reader.peek; eat k; f' t)
  allowed_pred {n m : Nat} (h : Allowed (n + 1) (m + 1)) : Allowed n m
  /-- A reader that has used up its allowance is related to what it may be compared with. -/
  depth {α : Type} {r' : Nat → Reader α} {m : Nat} (R : α → α → Nat → Prop)
    (hr' : r' 0 = throw .depth) (h : Allowed 0 m) : Rel R (throw .depth) (r' m)
  /-- It is enough to compare with readers that have an allowance left. -/
  succ {α : Type} {R : α → α → Nat → Prop} {r : Reader α} {r' : Nat → Reader α} {n m : Nat}
    (hr' : r' 0 = throw .depth) (h : ∀ l, Allowed (n + 1) (l + 1) → Rel R r (r' (l + 1)))
    (hm : Allowed (n + 1) m) : Rel R r (r' m)
  allowance {α : Type} {R : α → α → Nat → Prop} {r r' : Nat → Reader α}
    (h : ∀ n m, Allowed n m → Rel R (r n) (r' m)) : Rel R (withAllowance r) (withAllowance r')

namespace Correspondence

variable {α β γ : Type} (K : Correspondence)

/-- Two answers that are the same once their lines have been mapped, with a fact about the first of
them and the number of tokens accepted for it. -/
def Same (map : (Int → Int) → α → γ) (P : α → Nat → Prop) (a a' : α) (n : Nat) : Prop :=
  map K.left a = map K.right a' ∧ P a n

/-- The same expression, for which a token has been accepted. -/
abbrev SameExpr : Expr → Expr → Nat → Prop := K.Same Expr.mapLines fun _ n => 0 < n

/-- The same arguments, for which more tokens have been accepted than there are arguments. -/
abbrev SameArgs : List Expr → List Expr → Nat → Prop :=
  K.Same Expr.mapLinesAll fun args n => args.length < n

/-- The same statement, for which a token has been accepted. -/
abbrev SameStmt : Stmt → Stmt → Nat → Prop := K.Same Stmt.mapLines fun _ n => 0 < n

/-- The same item, for which a token has been accepted. -/
abbrev SameItem : Item → Item → Nat → Prop := K.Same Item.mapLines fun _ n => 0 < n

/-- The same names, of which there are no more than accepted tokens. -/
abbrev SameNames : List Name → List Name → Nat → Prop :=
  K.Same (fun _ names => names) fun names n => names.length ≤ n

variable {K}

/-- What holds of answers can be weakened. -/
theorem mono {R S : α → α → Nat → Prop} {r r' : Reader α} (h : K.Rel R r r')
    (hs : ∀ a a' n, R a a' n → S a a' n) : K.Rel S r r' := by
  rw [← bind_pure r, ← bind_pure r']
  exact K.bind h fun a a' n ha => K.pure (hs a a' n ha)

/-- A token is accepted, and reading goes on after it. -/
theorem eat {S : β → β → Nat → Prop} {k : Kind} (hk : k ≠ .eof) {f f' : Unit → Reader β}
    (h : K.Rel (fun b b' n => S b b' (1 + n)) (f ()) (f' ())) :
    K.Rel S (Reader.eat k >>= f) (Reader.eat k >>= f') := by
  change K.Rel S (do let _ ← Reader.peek; Reader.eat k; f ())
    (do let _ ← Reader.peek; Reader.eat k; f' ())
  exact K.leaf hk fun _ _ _ _ => h

/-- A name is accepted, and reading goes on after it with its text. -/
theorem name {S : β → β → Nat → Prop} {f f' : Token → Reader β}
    (h : ∀ t t' : Token, t.text = t'.text → K.left t.line = K.right t'.line →
      K.Rel (fun b b' n => S b b' (1 + n)) (f t) (f' t')) :
    K.Rel S (do let t ← Reader.peek; Reader.eat .ident; f t)
      (do let t ← Reader.peek; Reader.eat .ident; f' t) :=
  K.leaf (by decide) fun t t' ht hk => h t t' (ht.text (by rw [hk]; decide)) ht.line

/-! ### Expressions -/

private theorem exprWithin_succ {n m : Nat}
    (hprimary : K.Rel K.SameExpr (primaryWithin n) (primaryWithin m))
    (hexpr : K.Rel K.SameExpr (exprWithin n) (exprWithin m)) :
    K.Rel K.SameExpr (exprWithin (n + 1)) (exprWithin (m + 1)) := by
  rw [exprWithin, exprWithin]
  refine K.bind hprimary fun lhs lhs' k hlhs => K.peek fun tok tok' htok => ?_
  rw [htok.kind]
  split
  · refine eat (by decide) (K.bind hexpr fun rhs rhs' l hrhs => K.pure ⟨?_, by omega⟩)
    rw [Expr.mapLines, Expr.mapLines, hlhs.1, hrhs.1, htok.line]
  · exact K.pure hlhs

private theorem primaryWithin_succ {n m : Nat}
    (hargs : K.Rel K.SameArgs (callArgsWithin n) (callArgsWithin m)) :
    K.Rel K.SameExpr (primaryWithin (n + 1)) (primaryWithin (m + 1)) := by
  rw [primaryWithin, primaryWithin]
  refine K.peek fun tok tok' htok => ?_
  rw [← htok.kind]
  split
  · next hnumber =>
    rw [← htok.value hnumber]
    split
    · refine eat (by decide) (K.pure ⟨?_, Nat.one_pos⟩)
      rw [Expr.mapLines, Expr.mapLines, htok.line]
    · exact K.fail _ _
    · exact K.illegible _ _
  · next hnumber =>
    split
    · refine eat (by decide) (K.peek fun next next' hnext => ?_)
      rw [hnext.kind, htok.text hnumber]
      split
      · refine K.bind hargs fun args args' l hargs' => K.pure ⟨?_, by omega⟩
        rw [Expr.mapLines, Expr.mapLines, hargs'.1, htok.line]
      · refine K.pure ⟨?_, Nat.one_pos⟩
        rw [Expr.mapLines, Expr.mapLines, htok.line]
    · exact K.fail _ _

private theorem callArgsWithin_succ {n m : Nat}
    (hargs : K.Rel K.SameArgs (argsWithin n) (argsWithin m)) :
    K.Rel K.SameArgs (callArgsWithin (n + 1)) (callArgsWithin (m + 1)) := by
  rw [callArgsWithin, callArgsWithin]
  refine eat (by decide) (K.peek fun tok tok' htok => ?_)
  rw [htok.kind]
  split
  · exact eat (by decide) (K.pure ⟨rfl, Nat.two_pos⟩)
  · exact mono hargs fun args args' l h => ⟨h.1, Nat.lt_add_left 1 h.2⟩

private theorem argsWithin_succ {n m : Nat}
    (hexpr : K.Rel K.SameExpr (exprWithin n) (exprWithin m))
    (hargs : K.Rel K.SameArgs (argsWithin n) (argsWithin m)) :
    K.Rel K.SameArgs (argsWithin (n + 1)) (argsWithin (m + 1)) := by
  rw [argsWithin, argsWithin]
  refine K.bind hexpr fun arg arg' k harg => K.peek fun tok tok' htok => ?_
  have hpos : 0 < k := harg.2
  rw [htok.kind]
  split
  · refine eat (by decide) (K.bind hargs fun args args' l hargs' => K.pure ⟨?_, ?_⟩)
    · rw [Expr.mapLinesAll, Expr.mapLinesAll, harg.1, hargs'.1]
    · have hlength : args.length < l := hargs'.2
      simp only [List.length_cons]
      omega
  · split
    · refine eat (by decide) (K.pure ⟨?_, ?_⟩)
      · simp only [Expr.mapLinesAll, harg.1]
      · simp only [List.length_singleton]
        omega
    · exact K.fail _ _

/-- The readers for expressions are related under all allowances that are compared. -/
theorem within (n : Nat) {m : Nat} (h : K.Allowed n m) :
    K.Rel K.SameExpr (exprWithin n) (exprWithin m) ∧
      K.Rel K.SameExpr (primaryWithin n) (primaryWithin m) ∧
      K.Rel K.SameArgs (callArgsWithin n) (callArgsWithin m) ∧
      K.Rel K.SameArgs (argsWithin n) (argsWithin m) := by
  induction n generalizing m with
  | zero =>
    exact ⟨K.depth _ rfl h, K.depth _ rfl h, K.depth _ rfl h, K.depth _ rfl h⟩
  | succ n ih =>
    refine ⟨?_, ?_, ?_, ?_⟩
    · exact K.succ rfl (fun l hl => exprWithin_succ (ih (K.allowed_pred hl)).2.1
        (ih (K.allowed_pred hl)).1) h
    · exact K.succ rfl (fun l hl => primaryWithin_succ (ih (K.allowed_pred hl)).2.2.1) h
    · exact K.succ rfl (fun l hl => callArgsWithin_succ (ih (K.allowed_pred hl)).2.2.2) h
    · exact K.succ rfl (fun l hl => argsWithin_succ (ih (K.allowed_pred hl)).1
        (ih (K.allowed_pred hl)).2.2.2) h

variable (K)

/-- Expressions are read alike. -/
theorem expr : K.Rel K.SameExpr expr expr := K.allowance fun n _ h => (within n h).1

/-- Primaries are read alike. -/
theorem primary : K.Rel K.SameExpr primary primary := K.allowance fun n _ h => (within n h).2.1

/-- Arguments in parentheses are read alike. -/
theorem callArgs : K.Rel K.SameArgs callArgs callArgs :=
  K.allowance fun n _ h => (within n h).2.2.1

/-! ### Statements and blocks -/

/-- Declarations are read alike. -/
theorem declaration : K.Rel K.SameStmt declaration declaration := by
  refine eat (by decide) (name fun tok tok' htext hline => eat (by decide) ?_)
  refine K.bind K.expr fun value value' k hvalue => K.pure ⟨?_, by omega⟩
  rw [Stmt.mapLines, Stmt.mapLines, htext, hvalue.1, hline]

/-- Assignments are read alike. -/
theorem assignment : K.Rel K.SameStmt assignment assignment := by
  refine name fun tok tok' htext hline => eat (by decide) ?_
  refine K.bind K.expr fun value value' k hvalue => K.pure ⟨?_, by omega⟩
  rw [Stmt.mapLines, Stmt.mapLines, htext, hvalue.1, hline]

/-- Return statements are read alike. -/
theorem returnStatement : K.Rel K.SameStmt returnStatement returnStatement := by
  refine K.leaf (by decide) fun tok tok' htok _ => ?_
  refine K.bind K.expr fun value value' k hvalue => K.pure ⟨?_, by omega⟩
  rw [Stmt.mapLines, Stmt.mapLines, hvalue.1, htok.line]

/-- Statements are read alike, and a token is accepted exactly where there is one. -/
theorem statement? : K.Rel (K.Same (fun f => Option.map (Stmt.mapLines f))
    fun s n => 0 < n ↔ s.isSome) statement? statement? := by
  have hterminated {r : Reader Stmt} (hr : K.Rel K.SameStmt r r) :
      K.Rel (K.Same (fun f => Option.map (Stmt.mapLines f)) fun s n => 0 < n ↔ s.isSome)
        (do let s ← r; Reader.eat .semi; return some s)
        (do let s ← r; Reader.eat .semi; return some s) := by
    refine K.bind hr fun s s' k hs => eat (by decide) (K.pure ⟨congrArg some hs.1, ?_⟩)
    simp
  refine K.peek fun tok tok' htok => ?_
  dsimp only
  rw [htok.kind]
  split
  · exact hterminated K.declaration
  · split
    · exact hterminated K.assignment
    · split
      · exact hterminated K.returnStatement
      · exact K.pure ⟨rfl, by simp⟩

/-- Statements one after the other are read alike under all allowances that are compared. -/
theorem statementsWithin (n : Nat) {m : Nat} (h : K.Allowed n m) :
    K.Rel (K.Same (fun f => List.map (Stmt.mapLines f)) fun ss n => ss.length ≤ n)
      (statementsWithin n) (statementsWithin m) := by
  induction n generalizing m with
  | zero => exact K.depth _ rfl h
  | succ n ih =>
    refine K.succ rfl (fun m hm => ?_) h
    rw [Reader.statementsWithin, Reader.statementsWithin]
    refine K.bind K.statement? fun s s' k hs => ?_
    obtain ⟨hsame, hcount⟩ := hs
    cases s with
    | none =>
      cases s' with
      | none => exact K.pure ⟨rfl, Nat.zero_le _⟩
      | some s' => contradiction
    | some s =>
      cases s' with
      | none => contradiction
      | some s' =>
        have hpos : 0 < k := hcount.mpr rfl
        refine K.bind (ih (K.allowed_pred hm)) fun rest rest' l hrest => K.pure ⟨?_, ?_⟩
        · exact List.cons_eq_cons.mpr ⟨Option.some.inj hsame, hrest.1⟩
        · have hlength : rest.length ≤ l := hrest.2
          simp only [List.length_cons]
          omega

/-- Blocks are read alike. -/
theorem block : K.Rel (K.Same (fun f => List.map (Stmt.mapLines f)) fun body n => body.length < n)
    block block := by
  refine eat (by decide) ?_
  refine K.bind (K.allowance fun n _ => K.statementsWithin n) fun body body' k hbody => ?_
  have hlength : body.length ≤ k := hbody.2
  exact eat (by decide) (K.pure ⟨hbody.1, by omega⟩)

/-! ### Items -/

/-- Further parameters are read alike under all allowances that are compared. -/
theorem moreParamsWithin (n : Nat) {m : Nat} (h : K.Allowed n m) :
    K.Rel K.SameNames (moreParamsWithin n) (moreParamsWithin m) := by
  induction n generalizing m with
  | zero => exact K.depth _ rfl h
  | succ n ih =>
    refine K.succ rfl (fun m hm => ?_) h
    rw [Reader.moreParamsWithin, Reader.moreParamsWithin]
    refine K.peek fun tok tok' htok => ?_
    rw [htok.kind]
    split
    · refine eat (by decide) (name fun param param' htext _ => ?_)
      refine K.bind (ih (K.allowed_pred hm)) fun rest rest' k hrest => K.pure ⟨?_, ?_⟩
      · rw [htext, show rest = rest' from hrest.1]
      · have hlength : rest.length ≤ k := hrest.2
        simp only [List.length_cons]
        omega
    · exact K.pure ⟨rfl, Nat.zero_le _⟩

/-- Parameters are read alike. -/
theorem params : K.Rel K.SameNames params params := by
  rw [params_eq]
  refine K.peek fun tok tok' htok => ?_
  rw [htok.kind]
  split
  · exact K.pure ⟨rfl, Nat.zero_le _⟩
  · refine name fun param param' htext _ => ?_
    refine K.bind (K.allowance fun n _ => K.moreParamsWithin n) fun rest rest' k hrest => ?_
    refine K.pure ⟨?_, ?_⟩
    · rw [htext, show rest = rest' from hrest.1]
    · have hlength : rest.length ≤ k := hrest.2
      simp only [List.length_cons]
      omega

/-- Entry blocks are read alike. -/
theorem entryBlock : K.Rel K.SameItem entryBlock entryBlock := by
  refine K.leaf (by decide) fun tok tok' htok _ => ?_
  refine K.bind K.block fun body body' k hbody => K.pure ⟨?_, by omega⟩
  simp only [Item.mapLines, show body.map _ = body'.map _ from hbody.1, htok.line]

/-- Definitions of functions are read alike. -/
theorem functionDef : K.Rel K.SameItem functionDef functionDef := by
  refine K.leaf (by decide) fun tok tok' htok _ => ?_
  refine name fun nameTok nameTok' htext _ => eat (by decide) ?_
  refine K.bind K.params fun names names' k hnames => eat (by decide) ?_
  refine K.bind K.block fun body body' l hbody => K.pure ⟨?_, by omega⟩
  simp only [Item.mapLines, htext, show names = names' from hnames.1,
    show body.map _ = body'.map _ from hbody.1, htok.line]

/-- Items are read alike. -/
theorem item : K.Rel K.SameItem item item := by
  refine K.peek fun tok tok' htok => ?_
  dsimp only
  rw [htok.kind]
  split
  · exact K.entryBlock
  · split
    · exact K.functionDef
    · exact K.fail _ _

/-- Items up to the end mark are read alike under all allowances that are compared. -/
theorem itemsWithin (n : Nat) {m : Nat} (h : K.Allowed n m) :
    K.Rel (K.Same (fun f => List.map (Item.mapLines f)) fun is n => is.length ≤ n)
      (itemsWithin n) (itemsWithin m) := by
  induction n generalizing m with
  | zero => exact K.depth _ rfl h
  | succ n ih =>
    refine K.succ rfl (fun m hm => ?_) h
    rw [itemsWithin_succ, itemsWithin_succ]
    refine K.peek fun tok tok' htok => ?_
    rw [htok.kind]
    split
    · exact K.pure ⟨rfl, Nat.zero_le _⟩
    · refine K.bind K.item fun i i' k hi => ?_
      have hpos : 0 < k := hi.2
      refine K.bind (ih (K.allowed_pred hm)) fun rest rest' l hrest => K.pure ⟨?_, ?_⟩
      · exact List.cons_eq_cons.mpr ⟨hi.1, hrest.1⟩
      · have hlength : rest.length ≤ l := hrest.2
        simp only [List.length_cons]
        omega

end Correspondence

end SumLang
