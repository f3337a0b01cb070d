import SumLang.Proofs.Token.Scan

/-!
# Seams of a text

A symbol and an illegal character form no runs. Such a character parts a text: what
stands before it is scanned as if the text ended there, and the scan goes on at the
character as if it stood first. Where the scan starts matters only for the places of the
tokens.
-/

namespace SumLang

/-! ### Lexemes on both sides of a seam -/

namespace Lexeme

/-- A lexeme that forms no runs keeps a character in front away from what follows it. -/
theorem push_append (c : Char) (xs : List Lexeme) {y : Lexeme} (hy : y.cls.runs = false)
    (ys : List Lexeme) : push c (xs ++ y :: ys) = push c xs ++ y :: ys := by
  cases xs with
  | nil => simp [push, hy]
  | cons x xs =>
    simp only [List.cons_append, push]
    split <;> rfl

/-- A character that forms no runs is a lexeme by itself and parts those before and after it. -/
theorem split_append_single {c : Char} (hc : (CharClass.ofChar c).runs = false)
    (before after : List Char) :
    split (before ++ c :: after) = split before ++ ⟨.ofChar c, [c]⟩ :: split after := by
  induction before with
  | nil => exact push_of_ne (by simp [hc])
  | cons d before ih => rw [List.cons_append, split_cons, ih, push_append d _ hc, split_cons]

/-- A text without illegal characters has no illegal lexemes. -/
theorem cls_ne_illegal_of_mem_split {s : List Char}
    (h : ∀ c ∈ s, CharClass.ofChar c ≠ .illegal) : ∀ x ∈ split s, x.cls ≠ .illegal := by
  intro x hx
  have hu := uniform_split s x hx
  obtain ⟨c, hc⟩ := List.exists_mem_of_ne_nil _ hu.ne_nil
  rw [← hu.cls c hc]
  apply h
  rw [← flatMap_text_split s]
  exact List.mem_flatMap.mpr ⟨x, hx, hc⟩

end Lexeme

/-! ### Feeds on both sides of a seam -/

namespace TokenFeed

/-- A feed with more tokens in front. -/
def prepend (ts : List Token) (f : TokenFeed) : TokenFeed := ⟨ts ++ f.tokens, f.error⟩

/-- Lexemes of which none is illegal become tokens, and those after them follow. -/
theorem ofLexemes_append (p : Position) {xs : List Lexeme} (h : ∀ x ∈ xs, x.cls ≠ .illegal)
    (ys : List Lexeme) : ofLexemes p (xs ++ ys) =
      (ofLexemes (p.after (xs.flatMap Lexeme.text)) ys).prepend (ofLexemes p xs).tokens := by
  induction xs generalizing p with
  | nil => rfl
  | cons x xs ih =>
    obtain ⟨cls, text⟩ := x
    rw [List.forall_mem_cons] at h
    have hrest := ih (p.after text) h.2
    rw [← Position.after_append] at hrest
    cases cls with
    | letter | digit | symbol | blank =>
      simp only [List.cons_append, ofLexemes, hrest, List.flatMap_cons, cons, prepend]
    | illegal => exact absurd rfl h.1

/-- What stands before a character that forms no runs is scanned by itself when none of it is
illegal, and the scan goes on at that character. -/
theorem scan_append_single (p : Position) {before : List Char}
    (hb : ∀ d ∈ before, CharClass.ofChar d ≠ .illegal) {c : Char}
    (hc : (CharClass.ofChar c).runs = false) (after : List Char) :
    scan p (before ++ c :: after) =
      (scan (p.after before) (c :: after)).prepend (scan p before).tokens := by
  have hfirst : Lexeme.split (c :: after) = ⟨.ofChar c, [c]⟩ :: Lexeme.split after :=
    Lexeme.split_append_single hc [] after
  rw [scan, Lexeme.split_append_single hc,
    ofLexemes_append p (Lexeme.cls_ne_illegal_of_mem_split hb), Lexeme.flatMap_text_split, ← hfirst]
  rfl

/-- A text without illegal characters is scanned to its end. -/
theorem error_scan_of_legal (p : Position) {s : List Char}
    (h : ∀ d ∈ s, CharClass.ofChar d ≠ .illegal) : (scan p s).error = none := by
  have happend := ofLexemes_append p (Lexeme.cls_ne_illegal_of_mem_split h) []
  rw [List.append_nil] at happend
  rw [scan, happend]
  rfl

end TokenFeed

end SumLang
