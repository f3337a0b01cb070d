import SumLang.Proofs.Eval.NormalForm
import SumLang.Proofs.Printing.RoundTrip

/-!
# Formatting keeps the meaning of a program

Items and their normal forms make programs that end alike, up to the line of an error. The
formatted text of items is read as items of the same normal form, so running the text
ends as running the items does: with the same frame, with the same error up to its line,
or cut short by the same limit.
-/

namespace SumLang

/-- The failure with the line of an item or of an error of the run erased. Where reading fails, the
place of the failure is kept. -/
def Failure.eraseLine : Failure → Failure
  | .read e => .read e
  | .program e => .program { e with line := e.line.map fun _ => 0 }
  | .alienItem tag _ => .alienItem tag 0
  | .run e => .run e.eraseLine
  | .unwritable gap => .unwritable gap
  | .readOnly => .readOnly

/-- The item with its sums nested to the right and without lines. -/
def Item.normalForm (i : Item) : Item := i.rightNest.eraseLines

/-- The program with its sums nested to the right and without lines. -/
def Program.normalForm (p : Program) : Program :=
  ⟨p.entry.map Stmt.normalForm, p.functions.normalForm⟩

private theorem Stmt.returnLine?_normalForm (s : Stmt) :
    s.normalForm.returnLine? = s.returnLine?.map fun _ => 0 := by
  cases s <;> rfl

/-- The normal form of a program ends with the same frame or with the same error up to its line. -/
theorem Program.executeWithin_normalForm {p : Program} (h : p.WellWritten) (limit : Nat) :
    p.normalForm.executeWithin limit = (p.executeWithin limit).mapError RunError.eraseLine := by
  have hreturn : p.normalForm.entry.findSome? Stmt.returnLine? =
      (p.entry.findSome? Stmt.returnLine?).map fun _ => 0 := by
    simp only [normalForm, List.findSome?_map, List.map_findSome?, Function.comp_def,
      Stmt.returnLine?_normalForm]
  rw [executeWithin, executeWithin, hreturn]
  cases p.entry.findSome? Stmt.returnLine? with
  | some line => rfl
  | none =>
    exact Frame.run_normalForm (callersRelated_bothInt h.numeric.functions limit)
      (mirrorsCalls h.functions limit) (Frame.related_empty _) h.entry

/-! ### Assembling normal forms -/

/-- What was taken so far, with sums nested to the right and without lines. -/
def Assembly.normalForm (a : Assembly) : Assembly :=
  ⟨a.entry.map fun body => body.map Stmt.normalForm, a.functions.normalForm⟩

/-- The normal form of an item is taken as the item is. -/
theorem Assembly.take_normalForm (a : Assembly) (i : Item) : a.normalForm.take i.normalForm =
    ((a.take i).map Assembly.normalForm).mapError Failure.eraseLine := by
  cases i with
  | entry body line =>
    rw [Item.normalForm, Item.rightNest, Item.eraseLines, take, take, normalForm, Option.isSome_map]
    by_cases he : a.entry.isSome
    · rw [if_pos he, if_pos he]
      rfl
    · rw [if_neg he, if_neg he, List.map_map]
      rfl
  | func name params body line =>
    rw [Item.normalForm, Item.rightNest, Item.eraseLines, take, take, normalForm,
      FunctionTable.function?_normalForm, Option.isSome_map]
    by_cases hf : (a.functions.function? name).isSome
    · rw [if_pos hf, if_pos hf]
      rfl
    · rw [if_neg hf, if_neg hf, List.map_map, FunctionTable.normalForm]
      simp only [Except.map, Except.mapError, normalForm, FunctionTable.normalForm, List.map_append,
        List.map_singleton]
      rfl
  | alien tag fields line => rfl

/-- The normal forms of items are taken as the items are. -/
theorem Assembly.takeAll_normalForm (items : List Item) (a : Assembly) :
    (items.map Item.normalForm).foldlM Assembly.take a.normalForm =
      ((items.foldlM Assembly.take a).map Assembly.normalForm).mapError Failure.eraseLine := by
  induction items generalizing a with
  | nil => rfl
  | cons i items ih =>
    rw [List.map_cons, List.foldlM_cons, List.foldlM_cons, take_normalForm]
    cases a.take i with
    | error e => rfl
    | ok b => exact ih b

/-- Normal forms of items make the normal form of a program or fail alike up to lines. -/
theorem Program.ofItems_normalForm (items : List Item) : ofItems (items.map Item.normalForm) =
    ((ofItems items).map Program.normalForm).mapError Failure.eraseLine := by
  have htaken := Assembly.takeAll_normalForm items {}
  rw [ofItems, ofItems, ofFeed, ofFeed]
  change ((items.map Item.normalForm).foldlM Assembly.take (Assembly.normalForm {}) >>=
    Assembly.finish) = (Except.map _ (_ >>= Assembly.finish)).mapError _
  rw [htaken]
  cases items.foldlM Assembly.take {} with
  | error e => rfl
  | ok a =>
    obtain ⟨entry, functions⟩ := a
    cases entry with
    | none => rfl
    | some body => rfl

/-! ### Outcomes -/

/-- How running a program ends when it can be formed. -/
def Program.outcomeWithin (limit : Nat) (p : Except Failure Program) : Except Failure Frame := do
  let p ← p
  (p.executeWithin limit).mapError Failure.run

/-- Well-written items and their normal forms have the same outcome up to lines. -/
theorem Program.outcomeWithin_normalForm {items : List Item} (h : ∀ i ∈ items, i.WellWritten)
    (limit : Nat) : outcomeWithin limit (ofItems (items.map Item.normalForm)) =
      (outcomeWithin limit (ofItems items)).mapError Failure.eraseLine := by
  rw [ofItems_normalForm]
  cases hp : ofItems items with
  | error e => rfl
  | ok p =>
    have hw : p.WellWritten := wellWritten_ofFeed h hp
    change (p.normalForm.executeWithin limit).mapError Failure.run =
      ((p.executeWithin limit).mapError Failure.run).mapError Failure.eraseLine
    rw [executeWithin_normalForm hw]
    cases p.executeWithin limit with
    | error e => rfl
    | ok frame => rfl

/-- Under every limit, the text of well-written items has the outcome of the items up to lines. -/
theorem Program.outcomeWithin_formatItems {items : List Item} (h : ∀ i ∈ items, i.WellWritten)
    (limit : Nat) : (outcomeWithin limit (ofText (formatItems items))).mapError Failure.eraseLine =
      (outcomeWithin limit (ofItems items)).mapError Failure.eraseLine := by
  obtain ⟨items', hread, heq⟩ := ItemFeed.ofText_formatItems h
  have hw := ItemFeed.wellWritten_ofText hread
  have hr := ItemFeed.rightNested_ofText hread
  have hforms (is : List Item) :
      is.map Item.normalForm = (is.map Item.rightNest).map Item.eraseLines := by
    rw [List.map_map]
    rfl
  have hsame : items'.map Item.normalForm = items.map Item.normalForm := by
    rw [hforms, hforms, map_eraseLines_rightNest hr, heq]
  rw [← outcomeWithin_normalForm h, ← hsame, outcomeWithin_normalForm hw, ofText, hread, ofItems]

/-- Well-written items can be written out, and running their text ends as running the items does:
with the same variables and values in the same order, with the same error but for its line, or with
too deep calls in both. This holds under every limit on the calls. -/
theorem formatItems_keeps_outcome {items : List Item} (h : ∀ i ∈ items, i.WellWritten) :
    writeItems items = .ok (formatItems items) ∧
    (runText (formatItems items)).mapError Failure.eraseLine =
      (Program.ofItems items >>= fun p => p.execute.mapError Failure.run).mapError
        Failure.eraseLine ∧
    ∀ limit, (Program.outcomeWithin limit (Program.ofText (formatItems items))).mapError
        Failure.eraseLine =
      (Program.outcomeWithin limit (Program.ofItems items)).mapError Failure.eraseLine :=
  ⟨writeItems_of_wellWritten h, Program.outcomeWithin_formatItems h callLimit,
    Program.outcomeWithin_formatItems h⟩

/-- The text of a sum that nests to the left and leaves the words on its way has its value. -/
theorem runText_format_left_sum :
    let sum : Expr := .add (.add (.var "a" 1) (.lit (.int maxWord) 1) 1) (.lit (.int 2) 1) 1
    let items : List Item := [.func "f" ["a"] [.ret sum 1] 3,
      .entry [.decl "x" (.call "f" [.lit (.int 6) 1] 1) 9] 1]
    (runText (formatItems items)).mapError Failure.eraseLine =
      .ok { vars := ⟨[("x", .int 7)]⟩ } := by
  intro sum items
  have hf := Name.isWord_some (s := "f") (by decide +kernel)
  have ha := Name.isWord_some (s := "a") (by decide +kernel)
  have hx := Name.isWord_some (s := "x") (by decide +kernel)
  have hsum : sum.WellWritten := ⟨⟨ha, maxWord, rfl, Nat.le_refl _⟩, 2, rfl, by decide⟩
  have hcall : (Expr.call "f" [.lit (.int 6) 1] 1).WellWritten := ⟨hf, ⟨6, rfl, by decide⟩, trivial⟩
  have hitems : ∀ i ∈ items, i.WellWritten := by
    intro i hi
    rcases List.mem_cons.mp hi with rfl | hi
    · exact ⟨hf, List.forall_mem_singleton.mpr ha, List.forall_mem_singleton.mpr hsum⟩
    · rw [List.mem_singleton.mp hi]
      exact List.forall_mem_singleton.mpr ⟨hx, hcall⟩
  exact (formatItems_keeps_outcome hitems).2.1.trans rfl

end SumLang
