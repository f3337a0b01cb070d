import SumLang.Proofs.Printing.Meaning
import SumLang.Proofs.Reading.Agreement

/-!
# Layout decides nothing

Texts with the same tokens, whatever blanks and line breaks stand between them and
whatever zeros stand in front of their numbers, are read and run alike: they have the same
items apart from lines, or a parse error with the same expectation at the same token, and
they end with the same variables or with the same error apart from its place.
-/

namespace SumLang

/-! ### Failures without their places -/

/-- The failure to read without its place, and without leading zeros in the token that it shows. -/
def ReadError.unplaced : ReadError → ReadError
  | .feed (.illegal e) => .feed (.illegal ⟨e.char, 0, e.line.map fun _ => 0⟩)
  | .feed .unencodable => .feed .unencodable
  | .parse e => .parse ⟨e.expected, e.token.unplaced⟩
  | .illegible text => .illegible text
  | .depth => .depth

/-- The failure without its place, and without leading zeros in the token that it shows. -/
def Failure.unplaced : Failure → Failure
  | .read e => .read e.unplaced
  | e => e.eraseLine

private theorem Failure.unplaced_eraseLine (e : Failure) : e.eraseLine.unplaced = e.unplaced := by
  cases e with
  | read e => rfl
  | program e =>
    obtain ⟨fault, name, line⟩ := e
    cases line <;> rfl
  | alienItem tag line => rfl
  | run e =>
    cases e with
    | eval e =>
      obtain ⟨fault, name, line, detail⟩ := e
      cases line <;> rfl
    | alienExpr | alienStmt | depth => rfl
  | unwritable gap => rfl
  | readOnly => rfl

/-- Outcomes that are the same apart from lines are the same apart from places. -/
theorem mapError_unplaced_of_eraseLine {α : Type} {x y : Except Failure α}
    (h : x.mapError Failure.eraseLine = y.mapError Failure.eraseLine) :
    x.mapError Failure.unplaced = y.mapError Failure.unplaced := by
  have hsplit (z : Except Failure α) :
      z.mapError Failure.unplaced = (z.mapError Failure.eraseLine).mapError Failure.unplaced := by
    cases z with
    | ok a => rfl
    | error e => exact congrArg Except.error e.unplaced_eraseLine.symm
  rw [hsplit x, hsplit y, h]

/-! ### Feeds that differ in places -/

/-- Feeds with the same normal forms and the same end have the same outcome apart from places. -/
theorem Program.outcomeWithin_unplaced {items items' : List Item}
    (hw : ∀ i ∈ items, i.WellWritten) (hw' : ∀ i ∈ items', i.WellWritten)
    (h : items.map Item.normalForm = items'.map Item.normalForm) {x x' : Option ReadError}
    (hx : x.map ReadError.unplaced = x'.map ReadError.unplaced) (limit : Nat) :
    (outcomeWithin limit (ofFeed ⟨items, x⟩)).mapError Failure.unplaced =
      (outcomeWithin limit (ofFeed ⟨items', x'⟩)).mapError Failure.unplaced := by
  cases x with
  | none =>
    cases x' with
    | some e' => contradiction
    | none =>
      apply mapError_unplaced_of_eraseLine
      change (outcomeWithin limit (ofItems items)).mapError _ =
        (outcomeWithin limit (ofItems items')).mapError _
      rw [← outcomeWithin_normalForm hw, h, outcomeWithin_normalForm hw']
  | some e =>
    cases x' with
    | none => contradiction
    | some e' =>
      have htaken := Assembly.takeAll_normalForm items {}
      rw [h, Assembly.takeAll_normalForm items' {}] at htaken
      rw [ofFeed, ofFeed]
      dsimp only
      revert htaken
      generalize items.foldlM Assembly.take {} = a
      generalize items'.foldlM Assembly.take {} = a'
      intro htaken
      cases a with
      | error f =>
        cases a' with
        | ok a' => contradiction
        | error f' =>
          have hf : f.eraseLine = f'.eraseLine := (Except.error.inj htaken).symm
          exact mapError_unplaced_of_eraseLine (congrArg Except.error hf)
      | ok a =>
        cases a' with
        | error f' => contradiction
        | ok a' =>
          have he := Option.some.inj hx
          exact congrArg (fun e => Except.error (Failure.read e)) he

/-- Items of texts that are the same apart from lines have the same normal forms. -/
theorem ItemFeed.normalForm_items (code : Text) :
    (ofText code).items.map Item.normalForm = (ofText code).items.map Item.eraseLines := by
  obtain ⟨ds, -, hitems⟩ := ofText_derived code
  refine List.map_congr_left fun i hi => ?_
  rw [hitems] at hi
  obtain ⟨d, -, rfl⟩ := List.mem_map.mp hi
  rw [Item.normalForm, Item.rightNest_of_rightNested d.rightNested]

/-! ### Texts that differ in their layout -/

/-- Texts that have the same tokens, apart from their places and from leading zeros in numbers, have
the same items apart from lines, and are read to their ends or refused with the same expectation at
the token with the same index. They end with the same variables in the same order or with the same
error apart from its place and from leading zeros, or with too deep calls in both. This holds under
every limit on the calls. -/
theorem runText_ignores_layout {code code' : Text} {ts ts' : List Token}
    (h : TokenFeed.ofText code = ⟨ts, none⟩) (h' : TokenFeed.ofText code' = ⟨ts', none⟩)
    (hsame : ts.map Token.unplaced = ts'.map Token.unplaced) :
    (ItemFeed.ofText code).items.map Item.eraseLines =
      (ItemFeed.ofText code').items.map Item.eraseLines ∧
    ((ItemFeed.ofText code).error = none ∧ (ItemFeed.ofText code').error = none ∨
      ∃ k ≤ ts.length, ∃ expected,
        (ItemFeed.ofText code).error = some (.parse ⟨expected, (Cursor.atIndex ts k).curr⟩) ∧
        (ItemFeed.ofText code').error = some (.parse ⟨expected, (Cursor.atIndex ts' k).curr⟩)) ∧
    (runText code).mapError Failure.unplaced = (runText code').mapError Failure.unplaced ∧
    ∀ limit, (Program.outcomeWithin limit (Program.ofText code)).mapError Failure.unplaced =
      (Program.outcomeWithin limit (Program.ofText code')).mapError Failure.unplaced := by
  have hlexed := TokenFeed.lexed_ofText code
  have hlexed' := TokenFeed.lexed_ofText code'
  rw [h] at hlexed
  rw [h'] at hlexed'
  have hagree := ItemFeed.ofTokens_agree hlexed hlexed' hsame
  rw [← ItemFeed.ofText_eq_ofTokens h, ← ItemFeed.ofText_eq_ofTokens h'] at hagree
  obtain ⟨hitems, hend⟩ := hagree
  have hforms : (ItemFeed.ofText code).items.map Item.normalForm =
      (ItemFeed.ofText code').items.map Item.normalForm := by
    rw [ItemFeed.normalForm_items, ItemFeed.normalForm_items, hitems]
  have herror : (ItemFeed.ofText code).error.map ReadError.unplaced =
      (ItemFeed.ofText code').error.map ReadError.unplaced := by
    rcases hend with ⟨hnone, hnone'⟩ | ⟨k, -, expected, hx, hx'⟩
    · rw [hnone, hnone']
    · have htoken := Cursor.unplaced_curr_atIndex hsame k
      rw [hx, hx', Option.map_some, Option.map_some, ReadError.unplaced, ReadError.unplaced, htoken]
  have hlimit (limit : Nat) :=
    Program.outcomeWithin_unplaced (ItemFeed.wellWritten_items code)
      (ItemFeed.wellWritten_items code') hforms herror limit
  exact ⟨hitems, hend, hlimit callLimit, hlimit⟩

/-- A block on four lines and the same block on one line, with zeros in front of a number, miss the
same variable. -/
theorem runText_layouts_miss_variable :
    let spread := "begin \x7b
        var x = 7;
        y = x;
      \x7d"
    let dense := "begin\x7bvar x=007;y=x;\x7d"
    (runText spread).mapError Failure.unplaced =
      .error (.run (.eval { fault := .undeclaredAssignment, name := "y", line := some 0 })) ∧
    runText dense =
      .error (.run (.eval { fault := .undeclaredAssignment, name := "y", line := some 1 })) := by
  intro spread dense
  have hrun : runText dense =
      .error (.run (.eval { fault := .undeclaredAssignment, name := "y", line := some 1 })) := by
    decide +kernel
  have hspread : TokenFeed.ofText spread = ⟨(TokenFeed.ofText spread).tokens, none⟩ := by
    decide +kernel
  have hdense : TokenFeed.ofText dense = ⟨(TokenFeed.ofText dense).tokens, none⟩ := by
    decide +kernel
  have hsame := (runText_ignores_layout hspread hdense (by decide +kernel)).2.2.1
  rw [hrun] at hsame
  exact ⟨hsame, hrun⟩

end SumLang
