import SumLang.Proofs.Reading.Soundness
import SumLang.Proofs.Reading.Unambiguity

/-!
# Completeness of the readers

Whatever has a derivation is accepted: in front of the tokens of a derivation whose
numbers fit into a word, a reader consumes exactly these tokens and answers with the
syntax of the derivation, provided that what follows cannot continue it. Together with
soundness and unambiguity this makes reading exact.
-/

namespace SumLang

/-- A number token can be read as a literal. -/
def Token.Readable (t : Token) : Prop := t.Legible ∧ t.Fits

private theorem Reader.Faces.not_mem {kinds : List Kind} {ts : List Token} {t : Token}
    (hf : Reader.Faces ts t) (hs : Stops kinds ts) (h : .eof ∉ kinds) :
    t.kind ∉ kinds := by
  cases ts with
  | nil =>
    rw [show t.kind = .eof from hf]
    exact h
  | cons x ts =>
    rw [show t = x from hf]
    exact hs.head

/-- The lookahead is of none of the kinds at which reading stops. -/
theorem Reader.Faces.kind_ne {k : Kind} {kinds : List Kind} {ts : List Token} {t : Token}
    (hf : Reader.Faces ts t) (hs : Stops kinds ts) (hk : k ∈ kinds)
    (h : .eof ∉ kinds) : t.kind ≠ k :=
  fun he => hf.not_mem hs h (he ▸ hk)

section

open Reader

variable {err : Option FeedError}

/-! ### Expressions -/

mutual

/-- The tokens of an expression are read as that expression. -/
theorem ExprDerivation.takes : ∀ (d : ExprDerivation) {n : Nat} {rest : List Token},
    2 * d.tokens.length + 2 ≤ n → (∀ t ∈ d.tokens, t.Readable) → Ahead err rest →
    Stops exprFollow rest → Takes err (exprWithin n) (d.tokens ++ rest) d.toExpr rest
  | .single p, n + 1, rest, hn, hl, ha, hs => by
    rw [exprWithin]
    rw [ExprDerivation.tokens] at hn hl ⊢
    refine (PrimaryDerivation.takes p (by omega) hl ha (hs.mono (by decide))).bind ?_
    refine takes_peek fun tok htok => ?_
    rw [if_neg (htok.kind_ne hs (by decide) (by decide))]
    exact takes_pure err _ rest
  | .sum p sign e, n + 1, rest, hn, hl, ha, hs => by
    rw [exprWithin]
    rw [ExprDerivation.tokens] at hn hl ⊢
    rw [List.length_append, List.length_cons] at hn
    rw [List.append_assoc, List.cons_append]
    refine (PrimaryDerivation.takes p (by omega) (fun t ht => hl t (List.mem_append_left _ ht))
      (ahead_cons err _ _) (sign.stops _ (by decide))).bind ?_
    refine takes_peek_cons ?_
    rw [if_pos sign.2]
    refine (takes_eat sign (ahead_append ha _) (by decide)).bind ?_
    refine (ExprDerivation.takes e (by omega)
      (fun t ht => hl t (List.mem_append_right _ (List.mem_cons_of_mem _ ht))) ha hs).bind ?_
    exact takes_pure err _ rest

/-- The tokens of a primary are read as that primary. -/
theorem PrimaryDerivation.takes : ∀ (p : PrimaryDerivation) {n : Nat} {rest : List Token},
    2 * p.tokens.length + 1 ≤ n → (∀ t ∈ p.tokens, t.Readable) → Ahead err rest →
    Stops [.lparen] rest → Takes err (primaryWithin n) (p.tokens ++ rest) p.toExpr rest
  | .integer t, n + 1, rest, hn, hl, ha, hs => by
    rw [primaryWithin]
    refine takes_peek_cons ?_
    have ht := hl t.1 (List.mem_singleton_self _)
    rw [if_pos t.2, Token.literalValue_text ht.1 t.2, if_pos (ht.2 t.2)]
    exact (takes_eat t ha (by decide)).bind (takes_pure err _ rest)
  | .name t, n + 1, rest, hn, hl, ha, hs => by
    rw [primaryWithin]
    refine takes_peek_cons ?_
    rw [if_neg (by rw [t.2]; decide), if_pos t.2]
    refine (takes_eat t ha (by decide)).bind ?_
    refine takes_peek fun tok htok => ?_
    rw [if_neg (htok.kind_ne hs (by decide) (by decide))]
    exact takes_pure err _ rest
  | .bareCall t opening closing, n + 2, rest, hn, hl, ha, hs => by
    rw [primaryWithin]
    refine takes_peek_cons ?_
    rw [if_neg (by rw [t.2]; decide), if_pos t.2]
    refine (takes_eat t (ahead_cons err _ _) (by decide)).bind ?_
    refine takes_peek_cons ?_
    rw [if_pos opening.2]
    have hargs : Takes err (callArgsWithin (n + 1)) (opening.1 :: closing.1 :: rest) [] rest := by
      rw [callArgsWithin]
      refine (takes_eat opening (ahead_cons err _ _) (by decide)).bind ?_
      refine takes_peek_cons ?_
      rw [if_pos closing.2]
      exact (takes_eat closing ha (by decide)).bind (takes_pure err _ rest)
    exact hargs.bind (takes_pure err _ rest)
  | .call t opening args closing, n + 2, rest, hn, hl, ha, hs => by
    rw [primaryWithin]
    rw [PrimaryDerivation.tokens] at hn hl ⊢
    simp only [List.length_cons, List.length_append, List.length_nil] at hn
    simp only [List.cons_append, List.append_assoc, List.nil_append]
    refine takes_peek_cons ?_
    rw [if_neg (by rw [t.2]; decide), if_pos t.2]
    refine (takes_eat t (ahead_cons err _ _) (by decide)).bind ?_
    refine takes_peek_cons ?_
    rw [if_pos opening.2]
    have hmem (x : Token) (hx : x ∈ args.tokens) : x.Readable :=
      hl x (List.mem_cons_of_mem _ (List.mem_cons_of_mem _ (List.mem_append_left _ hx)))
    have hargs : Takes err (callArgsWithin (n + 1))
        (opening.1 :: (args.tokens ++ closing.1 :: rest)) args.toExprs rest := by
      rw [callArgsWithin]
      refine (takes_eat opening (ahead_append (ahead_cons err _ _) _) (by decide)).bind ?_
      obtain ⟨x, xs, hx, hk⟩ := args.tokens_eq_cons
      have hfirst := ArgsDerivation.takes args closing (n := n) (by omega) hmem ha
      rw [hx, List.cons_append] at hfirst ⊢
      refine takes_peek_cons ?_
      rw [if_neg (by rcases hk with hk | hk <;> rw [hk] <;> decide)]
      exact hfirst
    exact hargs.bind (takes_pure err _ rest)

/-- The tokens of arguments are read up to the parenthesis that closes them. -/
theorem ArgsDerivation.takes : ∀ (d : ArgsDerivation) (closing : Leaf .rparen) {n : Nat}
    {rest : List Token}, 2 * d.tokens.length + 3 ≤ n → (∀ t ∈ d.tokens, t.Readable) →
    Ahead err rest → Takes err (argsWithin n) (d.tokens ++ closing.1 :: rest) d.toExprs rest
  | .last e, closing, n + 1, rest, hn, hl, ha => by
    rw [argsWithin]
    rw [ArgsDerivation.tokens] at hn hl ⊢
    refine (ExprDerivation.takes e (by omega) hl (ahead_cons err _ _)
      (closing.stops _ (by decide))).bind ?_
    refine takes_peek_cons ?_
    rw [if_neg (by rw [closing.2]; decide), if_pos closing.2]
    exact (takes_eat closing ha (by decide)).bind (takes_pure err _ rest)
  | .more e comma d, closing, n + 1, rest, hn, hl, ha => by
    rw [argsWithin]
    rw [ArgsDerivation.tokens] at hn hl ⊢
    rw [List.length_append, List.length_cons] at hn
    rw [List.append_assoc, List.cons_append]
    refine (ExprDerivation.takes e (by omega) (fun t ht => hl t (List.mem_append_left _ ht))
      (ahead_cons err _ _) (comma.stops _ (by decide))).bind ?_
    refine takes_peek_cons ?_
    rw [if_pos comma.2]
    refine (takes_eat comma (ahead_append (ahead_cons err _ _) _) (by decide)).bind ?_
    refine (ArgsDerivation.takes d closing (by omega)
      (fun t ht => hl t (List.mem_append_right _ (List.mem_cons_of_mem _ ht))) ha).bind ?_
    exact takes_pure err _ rest

end

/-- A reader with an allowance succeeds where it does with every allowance that covers `ts`. -/
theorem takes_withAllowance {α : Type} {r : Nat → Reader α} {ts rest : List Token} {a : α}
    (h : ∀ n, 2 * ts.length + 2 ≤ n → Takes err (r n) ts a rest) :
    Takes err (withAllowance r) ts a rest := by
  intro prev
  have hlen := Cursor.length_le_remaining err prev ts
  exact h _ (by omega) prev

/-- An expression in front of a semicolon is read as that expression. -/
theorem ExprDerivation.takes_expr (e : ExprDerivation) (semi : Leaf .semi) {rest : List Token}
    (hl : ∀ t ∈ e.tokens, t.Readable) :
    Takes err expr (e.tokens ++ semi.1 :: rest) e.toExpr (semi.1 :: rest) := by
  refine takes_withAllowance fun n hn => ?_
  rw [List.length_append] at hn
  exact e.takes (by omega) hl (ahead_cons err _ _) (semi.stops _ (by decide))

/-! ### Statements and blocks -/

/-- The tokens of a statement are read as that statement. -/
theorem StmtDerivation.takes (d : StmtDerivation) {rest : List Token}
    (hl : ∀ t ∈ d.tokens, t.Readable) (ha : Ahead err rest) :
    Takes err statement? (d.tokens ++ rest) (some d.toStmt) rest := by
  cases d with
  | decl word name sign e semi =>
    have he : ∀ t ∈ e.tokens, t.Readable := fun t ht =>
      hl t (by simp only [StmtDerivation.tokens, List.mem_cons, List.mem_append, ht, true_or,
        or_true])
    simp only [StmtDerivation.tokens, List.cons_append, List.append_assoc, List.nil_append]
    refine takes_peek_cons ?_
    rw [if_pos word.2]
    have hd : Takes err declaration
        (word.1 :: name.1 :: sign.1 :: (e.tokens ++ semi.1 :: rest))
        (.decl name.1.text e.toExpr name.1.line) (semi.1 :: rest) := by
      refine (takes_eat word (ahead_cons err _ _) (by decide)).bind ?_
      refine takes_peek_cons ?_
      refine (takes_eat name (ahead_cons err _ _) (by decide)).bind ?_
      refine (takes_eat sign (ahead_append (ahead_cons err _ _) _) (by decide)).bind ?_
      exact (e.takes_expr semi he).bind (takes_pure err _ _)
    exact hd.bind ((takes_eat semi ha (by decide)).bind (takes_pure err _ rest))
  | assign name sign e semi =>
    have he : ∀ t ∈ e.tokens, t.Readable := fun t ht =>
      hl t (by simp only [StmtDerivation.tokens, List.mem_cons, List.mem_append, ht, true_or,
        or_true])
    simp only [StmtDerivation.tokens, List.cons_append, List.append_assoc, List.nil_append]
    refine takes_peek_cons ?_
    rw [if_neg (by rw [name.2]; decide), if_pos name.2]
    have hd : Takes err assignment (name.1 :: sign.1 :: (e.tokens ++ semi.1 :: rest))
        (.assign name.1.text e.toExpr name.1.line) (semi.1 :: rest) := by
      refine takes_peek_cons ?_
      refine (takes_eat name (ahead_cons err _ _) (by decide)).bind ?_
      refine (takes_eat sign (ahead_append (ahead_cons err _ _) _) (by decide)).bind ?_
      exact (e.takes_expr semi he).bind (takes_pure err _ _)
    exact hd.bind ((takes_eat semi ha (by decide)).bind (takes_pure err _ rest))
  | ret word e semi =>
    have he : ∀ t ∈ e.tokens, t.Readable := fun t ht =>
      hl t (by simp only [StmtDerivation.tokens, List.mem_cons, List.mem_append, ht, true_or,
        or_true])
    simp only [StmtDerivation.tokens, List.cons_append, List.append_assoc, List.nil_append]
    refine takes_peek_cons ?_
    rw [if_neg (by rw [word.2]; decide), if_neg (by rw [word.2]; decide), if_pos word.2]
    have hd : Takes err returnStatement (word.1 :: (e.tokens ++ semi.1 :: rest))
        (.ret e.toExpr word.1.line) (semi.1 :: rest) := by
      refine takes_peek_cons ?_
      refine (takes_eat word (ahead_append (ahead_cons err _ _) _) (by decide)).bind ?_
      exact (e.takes_expr semi he).bind (takes_pure err _ _)
    exact hd.bind ((takes_eat semi ha (by decide)).bind (takes_pure err _ rest))

/-- Statements are read up to the brace that closes their block. -/
theorem statements_takes (ds : List StmtDerivation) (closing : Leaf .rbrace) {n : Nat}
    {rest : List Token} (hn : (ds.flatMap StmtDerivation.tokens).length + 1 ≤ n)
    (hl : ∀ t ∈ ds.flatMap StmtDerivation.tokens, t.Readable) :
    Takes err (statementsWithin n) (ds.flatMap StmtDerivation.tokens ++ closing.1 :: rest)
      (ds.map StmtDerivation.toStmt) (closing.1 :: rest) := by
  induction ds generalizing n with
  | nil =>
    obtain ⟨n, rfl⟩ : ∃ m, n = m + 1 := ⟨n - 1, by omega⟩
    rw [statementsWithin]
    have hnone : Takes err statement? (closing.1 :: rest) none (closing.1 :: rest) := by
      refine takes_peek_cons ?_
      rw [if_neg (by rw [closing.2]; decide), if_neg (by rw [closing.2]; decide),
        if_neg (by rw [closing.2]; decide)]
      exact takes_pure err _ _
    exact hnone.bind (takes_pure err _ _)
  | cons d ds ih =>
    obtain ⟨n, rfl⟩ : ∃ m, n = m + 1 := ⟨n - 1, by omega⟩
    rw [statementsWithin]
    rw [List.flatMap_cons] at hn hl ⊢
    rw [List.length_append] at hn
    rw [List.append_assoc]
    obtain ⟨t, ts, ht, -⟩ := d.tokens_eq_cons
    have hpos : 1 ≤ d.tokens.length := by rw [ht, List.length_cons]; omega
    refine (d.takes (fun t ht => hl t (List.mem_append_left _ ht))
      (ahead_append (ahead_cons err _ _) _)).bind ?_
    exact (ih (by omega) fun t ht => hl t (List.mem_append_right _ ht)).bind (takes_pure err _ _)

/-- The tokens of a block are read as its statements. -/
theorem BlockDerivation.takes (b : BlockDerivation) {rest : List Token}
    (hl : ∀ t ∈ b.tokens, t.Readable) (ha : Ahead err rest) :
    Takes err block (b.tokens ++ rest) b.toStmts rest := by
  have hbody : ∀ t ∈ b.body.flatMap StmtDerivation.tokens, t.Readable := fun t ht =>
    hl t (List.mem_cons_of_mem _ (List.mem_append_left _ ht))
  simp only [BlockDerivation.tokens, List.cons_append, List.append_assoc, List.nil_append]
  refine (takes_eat b.opening (ahead_append (ahead_cons err _ _) _) (by decide)).bind ?_
  have hs : Takes err (withAllowance statementsWithin)
      (b.body.flatMap StmtDerivation.tokens ++ b.closing.1 :: rest) b.toStmts
      (b.closing.1 :: rest) := by
    refine takes_withAllowance fun n hn => ?_
    rw [List.length_append] at hn
    exact statements_takes b.body b.closing (by omega) hbody
  refine hs.bind ?_
  exact (takes_eat b.closing ha (by decide)).bind (takes_pure err _ rest)

/-! ### Items -/

private theorem moreParams_takes (ps : List (Leaf .comma × Leaf .ident)) (closing : Leaf .rparen)
    {n : Nat} {rest : List Token} (hn : (ps.flatMap moreParamTokens).length + 1 ≤ n) :
    Takes err (moreParamsWithin n) (ps.flatMap moreParamTokens ++ closing.1 :: rest)
      (ps.map fun p => p.2.1.text) (closing.1 :: rest) := by
  induction ps generalizing n with
  | nil =>
    obtain ⟨n, rfl⟩ : ∃ m, n = m + 1 := ⟨n - 1, by omega⟩
    rw [moreParamsWithin]
    refine takes_peek_cons ?_
    rw [if_neg (by rw [closing.2]; decide)]
    exact takes_pure err _ _
  | cons p ps ih =>
    obtain ⟨n, rfl⟩ : ∃ m, n = m + 1 := ⟨n - 1, by omega⟩
    rw [moreParamsWithin]
    simp only [List.flatMap_cons, moreParamTokens, List.cons_append, List.nil_append,
      List.length_cons] at hn ⊢
    refine takes_peek_cons ?_
    rw [if_pos p.1.2]
    refine (takes_eat p.1 (ahead_cons err _ _) (by decide)).bind ?_
    refine takes_peek_cons ?_
    refine (takes_eat p.2 (ahead_append (ahead_cons err _ _) _) (by decide)).bind ?_
    exact (ih (by omega)).bind (takes_pure err _ _)

/-- The tokens of parameters are read up to the parenthesis that closes them. -/
theorem params_takes (ps : Option ParamsDerivation) (closing : Leaf .rparen) {rest : List Token} :
    Takes err params (paramTokens ps ++ closing.1 :: rest) (paramNames ps) (closing.1 :: rest) := by
  cases ps with
  | none =>
    refine takes_peek_cons ?_
    rw [if_pos closing.2]
    exact takes_pure err _ _
  | some ps =>
    refine takes_peek_cons ?_
    rw [if_neg (by rw [ps.first.2]; decide)]
    refine (takes_eat ps.first (ahead_append (ahead_cons err _ _) _) (by decide)).bind ?_
    have hmore : Takes err (withAllowance moreParamsWithin)
        (ps.more.flatMap moreParamTokens ++ closing.1 :: rest)
        (ps.more.map fun p => p.2.1.text) (closing.1 :: rest) := by
      refine takes_withAllowance fun n hn => ?_
      rw [List.length_append] at hn
      exact moreParams_takes ps.more closing (by omega)
    exact hmore.bind (takes_pure err _ _)

/-- The tokens of an item are read as that item. -/
theorem ItemDerivation.takes (d : ItemDerivation) {rest : List Token}
    (hl : ∀ t ∈ d.tokens, t.Readable) (ha : Ahead err rest) :
    Takes err item (d.tokens ++ rest) d.toItem rest := by
  cases d with
  | entry word block =>
    have hb : ∀ t ∈ block.tokens, t.Readable := fun t ht => hl t (List.mem_cons_of_mem _ ht)
    refine takes_peek_cons ?_
    rw [if_pos word.2]
    refine takes_peek_cons ?_
    refine (takes_eat word (ahead_append ha _) (by decide)).bind ?_
    exact (block.takes hb ha).bind (takes_pure err _ rest)
  | func word name opening ps closing block =>
    have hb : ∀ t ∈ block.tokens, t.Readable := fun t ht =>
      hl t (by simp only [ItemDerivation.tokens, List.mem_cons, List.mem_append, ht, or_true])
    simp only [ItemDerivation.tokens, List.cons_append, List.append_assoc]
    refine takes_peek_cons ?_
    rw [if_neg (by rw [word.2]; decide), if_pos word.2]
    refine takes_peek_cons ?_
    refine (takes_eat word (ahead_cons err _ _) (by decide)).bind ?_
    refine takes_peek_cons ?_
    refine (takes_eat name (ahead_cons err _ _) (by decide)).bind ?_
    refine (takes_eat opening (ahead_append (ahead_cons err _ _) _) (by decide)).bind ?_
    refine (params_takes ps closing).bind ?_
    refine (takes_eat closing (ahead_append ha _) (by decide)).bind ?_
    exact (block.takes hb ha).bind (takes_pure err _ rest)

end

/-! ### Whole feeds -/

/-- A feed with more items in front. -/
def ItemFeed.prepend (items : List Item) (f : ItemFeed) : ItemFeed := ⟨items ++ f.items, f.error⟩

/-- A list of derivations is read item by item, and reading goes on behind it. -/
theorem ItemFeed.readWithin_append {err : Option FeedError} (ds : List ItemDerivation) (n : Nat)
    (prev : Option Token) {rest : List Token} (ha : Ahead err rest)
    (hl : ∀ t ∈ ds.flatMap ItemDerivation.tokens, t.Readable) :
    ∃ prev', (readWithin (ds.length + n)
        (.over err prev (ds.flatMap ItemDerivation.tokens ++ rest))).1 =
      (readWithin n (.over err prev' rest)).1.prepend (ds.map ItemDerivation.toItem) := by
  induction ds generalizing prev with
  | nil =>
    refine ⟨prev, ?_⟩
    rw [List.length_nil, Nat.zero_add]
    rfl
  | cons d ds ih =>
    rw [List.flatMap_cons] at hl ⊢
    rw [List.append_assoc, List.length_cons, Nat.add_right_comm]
    obtain ⟨t, ts, ht, hk⟩ := d.tokens_eq_cons
    have hne : ¬ (Cursor.over err prev
        (d.tokens ++ (ds.flatMap ItemDerivation.tokens ++ rest))).curr.kind = .eof := by
      rw [ht]
      change ¬ t.kind = .eof
      rcases hk with hk | hk <;> rw [hk] <;> decide
    obtain ⟨prev₁, hr⟩ := d.takes (fun t ht => hl t (List.mem_append_left _ ht))
      (ahead_append ha (ds.flatMap ItemDerivation.tokens)) prev
    obtain ⟨prev₂, hrest⟩ := ih prev₁ fun t ht => hl t (List.mem_append_right _ ht)
    refine ⟨prev₂, ?_⟩
    rw [readWithin, if_neg hne]
    simp only [hr, hrest]
    rfl

/-- A list of derivations is read item by item to its end. -/
theorem ItemFeed.readWithin_complete (ds : List ItemDerivation) {n : Nat} (prev : Option Token)
    (hl : ∀ t ∈ ds.flatMap ItemDerivation.tokens, t.Readable) (hn : ds.length + 1 ≤ n) :
    (readWithin n (.over none prev (ds.flatMap ItemDerivation.tokens))).1 =
      ⟨ds.map ItemDerivation.toItem, none⟩ := by
  obtain ⟨n, rfl⟩ : ∃ m, n = ds.length + (m + 1) := ⟨n - ds.length - 1, by omega⟩
  obtain ⟨prev', h⟩ := readWithin_append ds (n + 1) prev (ahead_none []) hl
  have hk : (Cursor.over none prev' []).curr.kind = .eof := Token.kind_endAfter prev'
  rw [List.append_nil, readWithin, if_pos hk] at h
  simpa only [prepend, List.append_nil] using h

/-- A derivation of a program has no fewer tokens than items. -/
theorem length_le_tokens (ds : List ItemDerivation) :
    ds.length ≤ (ds.flatMap ItemDerivation.tokens).length := by
  induction ds with
  | nil => exact Nat.le_refl 0
  | cons d ds ih =>
    obtain ⟨t, ts, ht, -⟩ := d.tokens_eq_cons
    rw [List.flatMap_cons, List.length_append, List.length_cons, ht, List.length_cons]
    omega

/-- The tokens of a derivation of a program are read as its items. -/
theorem ItemFeed.ofTokenFeed_complete (ds : List ItemDerivation)
    (hl : ∀ t ∈ ds.flatMap ItemDerivation.tokens, t.Readable)
    (he : ∀ t ∈ ds.flatMap ItemDerivation.tokens, t.kind ≠ .eof) :
    ofTokenFeed ⟨ds.flatMap ItemDerivation.tokens, none⟩ =
      ⟨ds.map ItemDerivation.toItem, none⟩ := by
  rw [ofTokenFeed, Cursor.ofFeed_eq_over (ahead_none _)]
  refine readWithin_complete ds none hl ?_
  rw [Cursor.remaining_over he]
  exact Nat.succ_le_succ (length_le_tokens ds)

end SumLang
