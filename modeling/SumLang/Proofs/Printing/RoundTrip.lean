import SumLang.Proofs.Printing.Scanned
import SumLang.Proofs.Reading.Completeness
import SumLang.Syntax.Gap

/-!
# Reading undoes formatting

The formatted text of well-written items can be read, and it is read as the same items
up to lines and up to nesting each chain of additions to the right. What was read from a
text nests to the right already, so formatting it and reading it again changes only
lines, and formatting it a second time gives the same text.
-/

namespace SumLang

/-! ### Well-written syntax can be written out -/

/-- A name that is a word has a text. -/
theorem Name.IsWord.isSome {x : Name} (h : x.IsWord) : x.isSome = true := by
  obtain ⟨s, rfl, -⟩ := h
  rfl

private theorem Expr.isSome_text?_of_wellWritten {e : Expr} (h : e.WellWritten) :
    e.text?.isSome = true := by
  cases e with
  | var x line => rw [Expr.text?, Option.isSome_map]; exact Name.IsWord.isSome h
  | lit | add | call | alien => rfl

private theorem Expr.WellWrittenAll.of_mem : ∀ {es : List Expr} {e : Expr},
    Expr.WellWrittenAll es → e ∈ es → e.WellWritten
  | _ :: _, _, h, .head _ => h.1
  | _ :: _, _, h, .tail _ he => of_mem h.2 he

mutual

private theorem Expr.gap?_of_wellWritten : ∀ (e : Expr), e.WellWritten → e.gap? = none
  | .lit .., _ | .var .., _ | .alien .., _ => rfl
  | .add lhs rhs _, h => by
    rw [Expr.gap?, lhs.gap?_of_wellWritten h.1, rhs.gap?_of_wellWritten h.2]
    rfl
  | .call _ args _, h => by
    have htexts : Gap.first? (args.map Expr.text?) = none := by
      rw [Gap.first?_eq_none_iff]
      intro t ht
      obtain ⟨e, he, rfl⟩ := List.mem_map.mp ht
      exact Expr.isSome_text?_of_wellWritten (h.2.of_mem he)
    rw [Expr.gap?, Expr.innerGap?_of_wellWritten args h.2, htexts]
    rfl

private theorem Expr.innerGap?_of_wellWritten :
    ∀ (es : List Expr), Expr.WellWrittenAll es → Expr.innerGap? es = none
  | [], _ => rfl
  | e :: es, h => by
    rw [Expr.innerGap?, e.gap?_of_wellWritten h.1, Expr.innerGap?_of_wellWritten es h.2]
    rfl

end

private theorem Stmt.gap?_of_wellWritten {s : Stmt} (h : s.WellWritten) : s.gap? = none := by
  cases s with
  | decl x value line => exact value.gap?_of_wellWritten h.2
  | assign x value line => exact value.gap?_of_wellWritten h.2
  | ret value line => exact value.gap?_of_wellWritten h
  | alien tag fields line => rfl

private theorem Item.gap?_of_wellWritten {i : Item} (h : i.WellWritten) : i.gap? = none := by
  have hbody {body : List Stmt} (hb : ∀ s ∈ body, s.WellWritten) :
      body.findSome? Stmt.gap? = none :=
    List.findSome?_eq_none_iff.mpr fun s hs => Stmt.gap?_of_wellWritten (hb s hs)
  cases i with
  | entry body line => exact hbody h
  | func x params body line =>
    have hparams : Gap.first? params = none :=
      Gap.first?_eq_none_iff.mpr fun x hx => (h.2.1 x hx).isSome
    rw [Item.gap?, hbody h.2.2, hparams]
    rfl
  | alien tag fields line => rfl

/-- Well-written items can be written out. -/
theorem writeItems_of_wellWritten {items : List Item} (h : ∀ i ∈ items, i.WellWritten) :
    writeItems items = .ok (formatItems items) := by
  have hgap : items.findSome? Item.gap? = none :=
    List.findSome?_eq_none_iff.mpr fun i hi => Item.gap?_of_wellWritten (h i hi)
  rw [writeItems, hgap]

/-! ### Formatting does not show lines -/

mutual

private theorem Expr.format_eraseLines : ∀ e : Expr, e.eraseLines.format = e.format
  | .lit .. | .var .. | .alien .. => rfl
  | .add lhs rhs _ => by
    rw [Expr.eraseLines, Expr.format, lhs.format_eraseLines, rhs.format_eraseLines, Expr.format]
  | .call _ args _ => by
    rw [Expr.eraseLines, Expr.format, Expr.formatAll_eraseLines args, Expr.format]

private theorem Expr.formatAll_eraseLines :
    ∀ es : List Expr, Expr.formatAll (Expr.eraseLinesAll es) = Expr.formatAll es
  | [] => rfl
  | e :: es => by
    rw [Expr.eraseLinesAll, Expr.formatAll, e.format_eraseLines, Expr.formatAll_eraseLines es,
      Expr.formatAll]

end

private theorem Stmt.format_eraseLines (s : Stmt) : s.eraseLines.format = s.format := by
  cases s with
  | decl x value line => rw [Stmt.eraseLines, Stmt.format, value.format_eraseLines, Stmt.format]
  | assign x value line => rw [Stmt.eraseLines, Stmt.format, value.format_eraseLines, Stmt.format]
  | ret value line => rw [Stmt.eraseLines, Stmt.format, value.format_eraseLines, Stmt.format]
  | alien tag fields line => rfl

private theorem formatBlock_eraseLines (head : String) (body : List Stmt) :
    formatBlock head (body.map Stmt.eraseLines) = formatBlock head body := by
  simp only [formatBlock, List.map_map, Function.comp_def, Stmt.format_eraseLines]

private theorem Item.format_eraseLines (i : Item) : i.eraseLines.format = i.format := by
  cases i with
  | entry body line => exact formatBlock_eraseLines _ body
  | func x params body line => exact formatBlock_eraseLines _ body
  | alien tag fields line => rfl

/-- Items that are the same up to lines have the same text. -/
theorem formatItems_eq_of_eraseLines {items items' : List Item}
    (h : items'.map Item.eraseLines = items.map Item.eraseLines) :
    formatItems items' = formatItems items := by
  have herase (is : List Item) : is.map Item.format = (is.map Item.eraseLines).map Item.format := by
    simp only [List.map_map, Function.comp_def, Item.format_eraseLines]
  rw [formatItems, formatItems, herase items', h, ← herase]

/-! ### Round trips -/

/-- The text of well-written items is read as these items up to lines and the nesting of sums. -/
theorem ItemFeed.ofText_formatItems {items : List Item} (h : ∀ i ∈ items, i.WellWritten) :
    ∃ items', ofText (formatItems items) = ⟨items', none⟩ ∧
      items'.map Item.eraseLines = (items.map Item.rightNest).map Item.eraseLines := by
  obtain ⟨ts, hscan, hfits, ds, rfl, hds⟩ := scanned_formatItems h {}
  rw [← TokenFeed.ofText_eq_scan] at hscan
  have hlexed := TokenFeed.lexed_ofText (formatItems items)
  rw [hscan] at hlexed
  have hread := ofTokenFeed_complete ds (fun t ht => ⟨(hlexed t ht).legible, hfits t ht⟩)
    fun t ht => (hlexed t ht).kind_ne_eof
  refine ⟨ds.map ItemDerivation.toItem, ?_, ?_⟩
  · rw [ofText, hscan]
    exact hread
  · rw [List.map_map, List.map_map]
    exact hds

/-- Items whose sums nest to the right are kept by nesting them so. -/
theorem map_eraseLines_rightNest {items : List Item} (h : ∀ i ∈ items, i.RightNested) :
    (items.map Item.rightNest).map Item.eraseLines = items.map Item.eraseLines := by
  rw [List.map_map]
  refine List.map_congr_left fun i hi => ?_
  rw [Function.comp_apply, Item.rightNest_of_rightNested (h i hi)]

/-- Well-written items can be written out and read back as the same items, up to lines and up to
nesting each chain of additions to the right. Everything that is read from a text nests to the
right, so that formatting it and reading it again keeps it up to lines and formatting it a second
time keeps the text. -/
theorem formatItems_reads_back :
    (∀ items : List Item, (∀ i ∈ items, i.WellWritten) →
      writeItems items = .ok (formatItems items) ∧
      ∃ items', ItemFeed.ofText (formatItems items) = ⟨items', none⟩ ∧
        items'.map Item.eraseLines = (items.map Item.rightNest).map Item.eraseLines ∧
        ((∀ i ∈ items, i.RightNested) →
          items'.map Item.eraseLines = items.map Item.eraseLines)) ∧
    ∀ (code : Text) (items : List Item), ItemFeed.ofText code = ⟨items, none⟩ →
      (∀ i ∈ items, i.RightNested) ∧
      writeItems items = .ok (formatItems items) ∧
      ∃ items', ItemFeed.ofText (formatItems items) = ⟨items', none⟩ ∧
        items'.map Item.eraseLines = items.map Item.eraseLines ∧
        formatItems items' = formatItems items := by
  constructor
  · intro items hw
    obtain ⟨items', hread, heq⟩ := ItemFeed.ofText_formatItems hw
    refine ⟨writeItems_of_wellWritten hw, items', hread, heq, fun hr => ?_⟩
    rw [heq, map_eraseLines_rightNest hr]
  · intro code items hcode
    have hw := ItemFeed.wellWritten_ofText hcode
    have hr := ItemFeed.rightNested_ofText hcode
    obtain ⟨items', hread, heq⟩ := ItemFeed.ofText_formatItems hw
    rw [map_eraseLines_rightNest hr] at heq
    exact ⟨hr, writeItems_of_wellWritten hw, items', hread, heq, formatItems_eq_of_eraseLines heq⟩

/-- A sum that nests to the left is read back as one that nests to the right. -/
theorem formatItems_reads_back_left_sum :
    let sum : Expr :=
      .add (.add (.lit (.int 7) 1) (.var "x" 2) 2) (.call "f" [.lit (.int 0) 1] 1) 1
    let items : List Item := [.func "f" ["a"] [] 3, .entry [.decl "x" sum 9] 1]
    ∃ items', ItemFeed.ofText (formatItems items) = ⟨items', none⟩ ∧
      items'.map Item.eraseLines =
        [.func "f" ["a"] [] 0, .entry [.decl "x" (.add (.lit (.int 7) 0) (.add (.var "x" 0)
          (.call "f" [.lit (.int 0) 0] 0) 0) 0) 0] 0] := by
  intro sum items
  have hf := Name.isWord_some (s := "f") (by decide +kernel)
  have ha := Name.isWord_some (s := "a") (by decide +kernel)
  have hx := Name.isWord_some (s := "x") (by decide +kernel)
  have hsum : sum.WellWritten :=
    ⟨⟨⟨7, rfl, by decide⟩, hx⟩, hf, ⟨0, rfl, by decide⟩, trivial⟩
  have hitems : ∀ i ∈ items, i.WellWritten := by
    intro i hi
    rcases List.mem_cons.mp hi with rfl | hi
    · exact ⟨hf, List.forall_mem_singleton.mpr ha, nofun⟩
    · rw [List.mem_singleton.mp hi]
      exact List.forall_mem_singleton.mpr ⟨hx, hsum⟩
  obtain ⟨-, items', hread, heq, -⟩ := formatItems_reads_back.1 items hitems
  exact ⟨items', hread, heq⟩

end SumLang
