import SumLang.Proofs.Reading.Soundness
import SumLang.Proofs.Token.Layout

/-!
# The shape of what is read

Syntax that is read from the tokens of a text has words for its names, words of 32 bits
for its literals and sums that nest to the right. It therefore has no node that the
language does not know.
-/

namespace SumLang

/-! ### Tokens of a text -/

namespace Token.Lexed

/-- No text has a token that is an end mark. -/
theorem kind_ne_eof {t : Token} (h : t.Lexed) : t.kind ≠ .eof := by
  cases h with
  | word hne hw line offset => exact (Kind.ofWord_ne _).1
  | number hne hw line offset => exact nofun
  | symbol hs line offset => exact (Kind.ofSymbol?_ne hs).1

/-- A number of a text is legible. -/
theorem legible {t : Token} (h : t.Lexed) : t.Legible := by
  intro hk
  cases h with
  | word hne hw line offset => exact absurd hk (Kind.ofWord_ne _).2
  | number hne hw line offset => exact ⟨_, rfl, hw⟩
  | symbol hs line offset => exact absurd hk (Kind.ofSymbol?_ne hs).2.1

/-- A name of a text is a word of letters and no keyword. -/
theorem isWord {t : Token} (h : t.Lexed) (hk : t.kind = .ident) : Name.IsWord t.text := by
  cases h with
  | @word w hne hw line offset =>
    refine ⟨_, rfl, ?_, ?_, Kind.ofWord_eq_ident_iff.mp hk⟩
    · intro he
      rw [← String.ofList_nil, String.ofList_inj] at he
      exact hne he
    · rwa [String.toList_ofList]
  | number hne hw line offset => contradiction
  | symbol hs line offset => exact absurd hk (Kind.ofSymbol?_ne hs).2.2

end Token.Lexed

/-! ### Sums of a derivation -/

/-- A primary is no sum. -/
theorem PrimaryDerivation.isSum_toExpr (p : PrimaryDerivation) : p.toExpr.isSum = false := by
  cases p <;> rfl

mutual

/-- The sums of a derivation nest to the right. -/
theorem ExprDerivation.rightNested : ∀ d : ExprDerivation, d.toExpr.RightNested
  | .single p => p.rightNested
  | .sum p _ e => ⟨p.isSum_toExpr, p.rightNested, e.rightNested⟩

/-- What a primary derives has sums that nest to the right. -/
theorem PrimaryDerivation.rightNested : ∀ p : PrimaryDerivation, p.toExpr.RightNested
  | .integer _ | .name _ | .bareCall .. => trivial
  | .call _ _ args _ => args.rightNested

/-- The arguments that are derived have sums that nest to the right. -/
theorem ArgsDerivation.rightNested : ∀ d : ArgsDerivation, Expr.RightNestedAll d.toExprs
  | .last e => ⟨e.rightNested, trivial⟩
  | .more e _ rest => ⟨e.rightNested, rest.rightNested⟩

end

/-- The statement that is derived has sums that nest to the right. -/
theorem StmtDerivation.rightNested (d : StmtDerivation) : d.toStmt.RightNested := by
  cases d with
  | decl word name sign e semi => exact e.rightNested
  | assign name sign e semi => exact e.rightNested
  | ret word e semi => exact e.rightNested

/-- The statements of a derived block have sums that nest to the right. -/
theorem BlockDerivation.rightNested (b : BlockDerivation) : ∀ s ∈ b.toStmts, s.RightNested := by
  intro s hs
  obtain ⟨d, -, rfl⟩ := List.mem_map.mp hs
  exact d.rightNested

/-- The sums of an item that is read nest to the right. -/
theorem ItemDerivation.rightNested (d : ItemDerivation) : d.toItem.RightNested := by
  cases d with
  | entry word block => exact block.rightNested
  | func word name opening params closing block => exact block.rightNested

/-! ### Names and literals of a derivation -/

mutual

/-- An expression that is read from the tokens of a text is well written. -/
theorem ExprDerivation.wellWritten :
    ∀ d : ExprDerivation, (∀ t ∈ d.tokens, t.Sound) → d.toExpr.WellWritten
  | .single p, h => p.wellWritten h
  | .sum p _ e, h => ⟨p.wellWritten fun t ht => h t (List.mem_append_left _ ht),
      e.wellWritten fun t ht => h t (List.mem_append_right _ (List.mem_cons_of_mem _ ht))⟩

private theorem PrimaryDerivation.wellWritten :
    ∀ p : PrimaryDerivation, (∀ t ∈ p.tokens, t.Sound) → p.toExpr.WellWritten
  | .integer t, h => ⟨_, rfl, (h t.1 List.mem_cons_self).2 t.2⟩
  | .name t, h => (h t.1 List.mem_cons_self).1.isWord t.2
  | .bareCall t _ _, h => ⟨(h t.1 List.mem_cons_self).1.isWord t.2, trivial⟩
  | .call t _ args _, h => ⟨(h t.1 List.mem_cons_self).1.isWord t.2,
      args.wellWritten fun t ht =>
        h t (List.mem_cons_of_mem _ (List.mem_cons_of_mem _ (List.mem_append_left _ ht)))⟩

private theorem ArgsDerivation.wellWritten :
    ∀ d : ArgsDerivation, (∀ t ∈ d.tokens, t.Sound) → Expr.WellWrittenAll d.toExprs
  | .last e, h => ⟨e.wellWritten h, trivial⟩
  | .more e _ rest, h => ⟨e.wellWritten fun t ht => h t (List.mem_append_left _ ht),
      rest.wellWritten fun t ht => h t (List.mem_append_right _ (List.mem_cons_of_mem _ ht))⟩

end

private theorem StmtDerivation.wellWritten (d : StmtDerivation) (h : ∀ t ∈ d.tokens, t.Sound) :
    d.toStmt.WellWritten := by
  cases d with
  | decl word name sign e semi =>
    simp only [StmtDerivation.tokens, List.forall_mem_cons, List.forall_mem_append] at h
    obtain ⟨-, hname, -, he, -⟩ := h
    exact ⟨hname.1.isWord name.2, e.wellWritten he⟩
  | assign name sign e semi =>
    simp only [StmtDerivation.tokens, List.forall_mem_cons, List.forall_mem_append] at h
    obtain ⟨hname, -, he, -⟩ := h
    exact ⟨hname.1.isWord name.2, e.wellWritten he⟩
  | ret word e semi =>
    simp only [StmtDerivation.tokens, List.forall_mem_cons, List.forall_mem_append] at h
    exact e.wellWritten h.2.1

private theorem BlockDerivation.wellWritten (b : BlockDerivation) (h : ∀ t ∈ b.tokens, t.Sound) :
    ∀ s ∈ b.toStmts, s.WellWritten := by
  intro s hs
  obtain ⟨d, hd, rfl⟩ := List.mem_map.mp hs
  simp only [BlockDerivation.tokens, List.forall_mem_cons, List.forall_mem_append] at h
  exact d.wellWritten fun t ht => h.2.1 t (List.mem_flatMap.mpr ⟨d, hd, ht⟩)

private theorem isWord_of_mem_paramNames (ps : Option ParamsDerivation)
    (h : ∀ t ∈ paramTokens ps, t.Sound) : ∀ x ∈ paramNames ps, Name.IsWord x := by
  cases ps with
  | none => nofun
  | some ps =>
    simp only [paramTokens, List.forall_mem_cons] at h
    intro x hx
    rcases List.mem_cons.mp hx with rfl | hx
    · exact h.1.1.isWord ps.first.2
    · obtain ⟨p, hp, rfl⟩ := List.mem_map.mp hx
      have hmem : p.2.1 ∈ ps.more.flatMap moreParamTokens :=
        List.mem_flatMap.mpr ⟨p, hp, List.mem_cons_of_mem _ List.mem_cons_self⟩
      exact (h.2 _ hmem).1.isWord p.2.2

/-- An item that is read from the tokens of a text is well written. -/
theorem ItemDerivation.wellWritten (d : ItemDerivation) (h : ∀ t ∈ d.tokens, t.Sound) :
    d.toItem.WellWritten := by
  cases d with
  | entry word block =>
    exact block.wellWritten fun t ht => h t (List.mem_cons_of_mem _ ht)
  | func word name opening params closing block =>
    simp only [ItemDerivation.tokens, List.forall_mem_cons, List.forall_mem_append] at h
    obtain ⟨-, hname, -, hparams, -, hblock⟩ := h
    exact ⟨hname.1.isWord name.2, isWord_of_mem_paramNames params hparams,
      block.wellWritten hblock⟩

/-! ### Items of a text -/

/-- The items of a text have derivations from its tokens, also where reading fails after them. -/
theorem ItemFeed.ofText_derived (code : Text) :
    ∃ ds : List ItemDerivation, (∀ t ∈ ds.flatMap ItemDerivation.tokens, t.Sound) ∧
      (ofText code).items = ds.map ItemDerivation.toItem := by
  have hlex := TokenFeed.lexed_ofText code
  rw [ofText]
  by_cases ha : Ahead (TokenFeed.ofText code).error (TokenFeed.ofText code).tokens
  · obtain ⟨ds, rest, x, hfeed, hds, -⟩ := ofTokenFeed_derived (fun t ht => (hlex t ht).legible)
      (fun t ht => (hlex t ht).kind_ne_eof) ha
    refine ⟨ds, fun t ht => ⟨hlex t ?_, hds.fits t ht⟩, by rw [hfeed]⟩
    rw [hds.eq]
    exact List.mem_append_left rest ht
  · -- The text starts with an illegal character or a surrogate.
    rw [Ahead, Classical.not_imp] at ha
    obtain ⟨e, he⟩ := Option.ne_none_iff_exists'.mp ha.2
    have hfeed : TokenFeed.ofText code = ⟨[], some e⟩ := by rw [← ha.1, ← he]
    rw [hfeed]
    exact ⟨[], nofun, rfl⟩

/-- The items of a text are well written. -/
theorem ItemFeed.wellWritten_items (code : Text) : ∀ i ∈ (ofText code).items, i.WellWritten := by
  obtain ⟨ds, hds, hitems⟩ := ofText_derived code
  intro i hi
  rw [hitems] at hi
  obtain ⟨d, hd, rfl⟩ := List.mem_map.mp hi
  exact d.wellWritten fun t ht => hds t (List.mem_flatMap.mpr ⟨d, hd, ht⟩)

/-- The items of a text that can be read are well written. -/
theorem ItemFeed.wellWritten_ofText {code : Text} {items : List Item}
    (h : ofText code = ⟨items, none⟩) : ∀ i ∈ items, i.WellWritten := by
  have hw := wellWritten_items code
  rwa [h] at hw

/-- The sums of a text nest to the right. -/
theorem ItemFeed.rightNested_ofText {code : Text} {items : List Item}
    (h : ofText code = ⟨items, none⟩) : ∀ i ∈ items, i.RightNested := by
  obtain ⟨ds, -, hitems⟩ := ofText_derived code
  rw [h] at hitems
  intro i hi
  rw [show items = ds.map ItemDerivation.toItem from hitems] at hi
  obtain ⟨d, -, rfl⟩ := List.mem_map.mp hi
  exact d.rightNested

end SumLang
