import Mathlib.Data.List.Chain
import Mathlib.Tactic.SplitIfs
import SumLang.Proofs.Syntax.Shape
import SumLang.Proofs.Token.Scan

/-!
# Layouts of tokens

A layout writes tokens out as a text: blanks in front, then the spelling of each token
with the blanks after it. Two words, or two runs of digits, have a blank between them,
and nothing else is required. Scanning a text is exactly the inverse: the text is
scanned to its end with given tokens if and only if it is laid out as these tokens, each
with its kind, its spelling and the place that the characters before it determine.
-/

namespace SumLang

/-! ### Spellings -/

/-- The spellings of a kind: its one spelling for a keyword or symbol, a word of letters that is no
keyword for a name, and a run of digits for a number. -/
inductive Kind.Spells : Kind → List Char → Prop
  | fixed {k : Kind} {s : String} (h : k.spelling? = some s) : Spells k s.toList
  | name {w : List Char} (hne : w ≠ []) (hw : ∀ c ∈ w, isLetter c = true)
      (hk : String.ofList w ∉ keywords) : Spells .ident w
  | digits {w : List Char} (hne : w ≠ []) (hw : ∀ c ∈ w, c.isDigit = true) : Spells .number w

namespace Kind

/-- A word is a name exactly when it is none of the keywords. -/
theorem ofWord_eq_ident_iff {w : List Char} : ofWord w = .ident ↔ String.ofList w ∉ keywords := by
  have hof {s : String} : String.ofList w = s ↔ w = s.toList := by
    rw [← String.toList_inj, String.toList_ofList]
  simp only [keywords, List.mem_cons, List.not_mem_nil, or_false, hof, ofWord]
  split_ifs <;> simp_all

/-- What is spelled is a word of its kind, a run of digits, or a single symbol of its kind. -/
theorem Spells.cases {k : Kind} {w : List Char} (h : k.Spells w) :
    (w ≠ [] ∧ (∀ c ∈ w, isLetter c = true) ∧ k = ofWord w) ∨
      (w ≠ [] ∧ (∀ c ∈ w, c.isDigit = true) ∧ k = .number) ∨
      ∃ c, w = [c] ∧ ofSymbol? c = some k := by
  cases h with
  | @fixed _ s h =>
    cases k with
    | beginWord | varWord | funcWord | returnWord =>
      obtain rfl := Option.some.inj h
      exact Or.inl ⟨by decide, List.all_eq_true.mp (by decide +kernel), rfl⟩
    | lbrace | rbrace | lparen | rparen | comma | semi | assign | plus =>
      obtain rfl := Option.some.inj h
      exact Or.inr (Or.inr ⟨_, rfl, rfl⟩)
    | ident | number | eof | other => contradiction
  | name hne hw hk => exact Or.inl ⟨hne, hw, (ofWord_eq_ident_iff.mpr hk).symm⟩
  | digits hne hw => exact Or.inr (Or.inl ⟨hne, hw, rfl⟩)

/-- A word is a spelling of its kind. -/
theorem spells_ofWord {w : List Char} (hne : w ≠ []) (hw : ∀ c ∈ w, isLetter c = true) :
    (ofWord w).Spells w := by
  by_cases hk : String.ofList w ∈ keywords
  · have hword {s : String} {k : Kind} (hs : k.spelling? = some s ∧ ofWord s.toList = k)
        (he : String.ofList w = s) : (ofWord w).Spells w := by
      obtain rfl : w = s.toList := by rw [← he, String.toList_ofList]
      rw [hs.2]
      exact .fixed hs.1
    simp only [keywords, List.mem_cons, List.not_mem_nil, or_false] at hk
    rcases hk with he | he | he | he
    · exact hword (k := .beginWord) (by decide) he
    · exact hword (k := .varWord) (by decide) he
    · exact hword (k := .funcWord) (by decide) he
    · exact hword (k := .returnWord) (by decide) he
  · rw [ofWord_eq_ident_iff.mpr hk]
    exact .name hne hw hk

/-- A symbol is a spelling of its kind. -/
theorem spells_ofSymbol? {c : Char} {k : Kind} (h : ofSymbol? c = some k) : k.Spells [c] := by
  have hs : k.spelling? = some (String.ofList [c]) := by
    unfold ofSymbol? at h
    split at h <;> cases h <;> rfl
  have hspells := Spells.fixed hs
  rwa [String.toList_ofList] at hspells

end Kind

/-! ### Layouts -/

/-- Two texts that are read as one when they stand together: both of letters or both of digits. -/
def Fuses (v w : List Char) : Prop :=
  (∀ c ∈ v ++ w, isLetter c = true) ∨ ∀ c ∈ v ++ w, c.isDigit = true

/-- A spelled token and the blanks that follow it. -/
structure Piece where
  kind : Kind
  text : List Char
  gap : List Char
  spells : kind.Spells text
  blank : ∀ c ∈ gap, isBlank c = true

/-- The characters of a piece. -/
def Piece.chars (x : Piece) : List Char := x.text ++ x.gap

/-- The token of a piece that stands after the characters `before`. -/
def Piece.token (before : List Char) (x : Piece) : Token where
  kind := x.kind
  text := some (String.ofList x.text)
  line := 1 + lineFeeds before
  offset := utf8Length before

/-- The tokens of pieces that stand after the characters `before`. -/
def Piece.tokens (before : List Char) : List Piece → List Token
  | [] => []
  | x :: xs => x.token before :: tokens (before ++ x.chars) xs

/-- Blanks, and then pieces of which none fuses with the next. -/
structure Layout where
  lead : List Char
  pieces : List Piece
  blank : ∀ c ∈ lead, isBlank c = true
  apart : pieces.IsChain fun x y => Fuses x.text y.text → x.gap ≠ []

namespace Layout

/-- The text of a layout. -/
def chars (l : Layout) : List Char := l.lead ++ l.pieces.flatMap Piece.chars

/-- The tokens of a layout. -/
def tokens (l : Layout) : List Token := Piece.tokens l.lead l.pieces

end Layout

/-! ### Texts that stand together -/

private theorem not_isDigit_of_isLetter {c : Char} (h : isLetter c = true) :
    ¬ c.isDigit = true := by
  intro hd
  have hc := CharClass.ofChar_of_isDigit hd
  rw [CharClass.ofChar_of_isLetter h] at hc
  contradiction

/-- A blank fuses with nothing. -/
theorem not_fuses_blank {c : Char} (h : isBlank c = true) (w : List Char) : ¬ Fuses w [c] := by
  have hc := CharClass.ofChar_of_isBlank h
  have hmem : c ∈ w ++ [c] := List.mem_append_right w List.mem_cons_self
  rintro (hl | hd)
  · rw [CharClass.ofChar_of_isLetter (hl c hmem)] at hc
    contradiction
  · rw [CharClass.ofChar_of_isDigit (hd c hmem)] at hc
    contradiction

namespace Kind.Spells

variable {k : Kind} {w : List Char}

/-- No kind of token is spelled without characters. -/
theorem ne_nil (h : k.Spells w) : w ≠ [] := by
  rcases h.cases with ⟨hne, -⟩ | ⟨hne, -⟩ | ⟨c, rfl, -⟩
  · exact hne
  · exact hne
  · exact List.cons_ne_nil c []

/-- A text fuses with a spelled one exactly when it fuses with its first character. -/
theorem fuses_cons_iff {d : Char} (h : k.Spells (d :: w)) {v : List Char} :
    Fuses v (d :: w) ↔ Fuses v [d] := by
  have hfirst {P : Char → Prop} (hp : ∀ c ∈ v ++ d :: w, P c) : ∀ c ∈ v ++ [d], P c := by
    rw [List.forall_mem_append, List.forall_mem_cons] at hp
    exact List.forall_mem_append.mpr ⟨hp.1, List.forall_mem_singleton.mpr hp.2.1⟩
  have hrest {P : Char → Prop} (hw : ∀ c ∈ d :: w, P c) (hp : ∀ c ∈ v ++ [d], P c) :
      ∀ c ∈ v ++ d :: w, P c :=
    List.forall_mem_append.mpr ⟨(List.forall_mem_append.mp hp).1, hw⟩
  have hlast : d ∈ v ++ [d] := List.mem_append_right v List.mem_cons_self
  refine ⟨Or.imp hfirst hfirst, fun hf => ?_⟩
  rcases h.cases with ⟨-, hw, -⟩ | ⟨-, hw, -⟩ | ⟨c, hc, -⟩
  · have hn := not_isDigit_of_isLetter (hw d List.mem_cons_self)
    exact hf.imp (hrest hw) fun hd => absurd (hd d hlast) hn
  · have hd := hw d List.mem_cons_self
    exact hf.imp (fun hl => absurd hd (not_isDigit_of_isLetter (hl d hlast))) (hrest hw)
  · rwa [(List.cons.inj hc).2]

end Kind.Spells

/-! ### Layouts are scanned as their tokens -/

namespace TokenFeed

/-- Blanks only move the place. -/
theorem scan_blanks (p : Position) {g : List Char} (h : ∀ c ∈ g, isBlank c = true)
    (s : List Char) : scan p (g ++ s) = scan (p.after g) s := by
  induction g generalizing p with
  | nil => rfl
  | cons c g ih =>
    rw [List.forall_mem_cons] at h
    rw [List.cons_append, scan_blank p h.1, ih _ h.2, ← Position.after_append,
      List.singleton_append]

/-- A spelled text is scanned as one token when it does not fuse with what follows. -/
theorem scan_spelled (p : Position) {k : Kind} {w s : List Char} (h : k.Spells w)
    (hs : ∀ d ∈ s.head?, ¬ Fuses w [d]) : scan p (w ++ s) =
      (scan (p.after w) s).cons ⟨k, some (String.ofList w), p.line, p.offset⟩ := by
  rcases h.cases with ⟨hne, hw, rfl⟩ | ⟨hne, hw, rfl⟩ | ⟨c, rfl, hc⟩
  · refine scan_word p hne hw fun d hd hl => hs d hd (Or.inl ?_)
    exact List.forall_mem_append.mpr
      ⟨hw, List.forall_mem_singleton.mpr (CharClass.isLetter_of_ofChar hl)⟩
  · refine scan_number p hne hw fun d hd hl => hs d hd (Or.inr ?_)
    exact List.forall_mem_append.mpr
      ⟨hw, List.forall_mem_singleton.mpr (CharClass.isDigit_of_ofChar hl)⟩
  · exact scan_symbol p hc s

/-- An illegal character ends the scan. -/
theorem scan_illegal (p : Position) {c : Char} (h : CharClass.ofChar c = .illegal)
    (s : List Char) : scan p (c :: s) =
      ⟨[], some (.illegal ⟨String.ofList [c], p.offset, some p.line⟩)⟩ := by
  have hp := Lexeme.push_of_ne (c := c) (s := s) (by rw [h]; exact nofun)
  rw [h] at hp
  rw [scan, Lexeme.split_cons, hp]
  rfl

private theorem eq_cons_of_cons {f : TokenFeed} {t : Token} {ts : List Token}
    (h : f.cons t = ⟨ts, none⟩) : ∃ ts', f = ⟨ts', none⟩ ∧ t :: ts' = ts := by
  obtain ⟨ts', error⟩ := f
  simp only [cons, mk.injEq] at h
  obtain ⟨rfl, rfl⟩ := h
  exact ⟨ts', rfl, rfl⟩

end TokenFeed

/-- In a layout, the text of a piece does not fuse with the character after it. -/
theorem Piece.not_fuses_next {x : Piece} {xs : List Piece}
    (h : ∀ y ∈ xs.head?, Fuses x.text y.text → x.gap ≠ []) :
    ∀ d ∈ (x.gap ++ xs.flatMap Piece.chars).head?, ¬ Fuses x.text [d] := by
  intro d hd
  cases hg : x.gap with
  | cons c g =>
    rw [hg, List.cons_append, List.head?_cons, Option.mem_some_iff] at hd
    have hc := x.blank c (by rw [hg]; exact List.mem_cons_self)
    rw [← hd]
    exact not_fuses_blank hc x.text
  | nil =>
    rw [hg, List.nil_append] at hd
    cases xs with
    | nil => contradiction
    | cons y ys =>
      obtain ⟨d', w, hy⟩ := List.exists_cons_of_ne_nil y.spells.ne_nil
      rw [List.flatMap_cons, Piece.chars, hy, List.cons_append, List.cons_append, List.head?_cons,
        Option.mem_some_iff] at hd
      have hspells := y.spells
      rw [hy] at hspells
      rw [← hd, ← hspells.fuses_cons_iff, ← hy]
      exact fun hf => h y rfl hf hg

private theorem Piece.token_eq (before : List Char) (x : Piece) :
    (⟨x.kind, some (String.ofList x.text), (({} : Position).after before).line,
      (({} : Position).after before).offset⟩ : Token) = x.token before := by
  simp [Piece.token, Position.after]

/-- Pieces that stand apart are scanned as their tokens. -/
theorem Piece.scan_pieces {xs : List Piece}
    (h : xs.IsChain fun x y => Fuses x.text y.text → x.gap ≠ []) (before : List Char) :
    TokenFeed.scan (({} : Position).after before) (xs.flatMap Piece.chars) =
      ⟨Piece.tokens before xs, none⟩ := by
  induction xs generalizing before with
  | nil => exact TokenFeed.scan_nil _
  | cons x xs ih =>
    rw [List.isChain_cons] at h
    rw [List.flatMap_cons, Piece.chars, List.append_assoc,
      TokenFeed.scan_spelled _ x.spells (Piece.not_fuses_next h.1), TokenFeed.scan_blanks _ x.blank,
      ← Position.after_append, ← Position.after_append, ih h.2, Piece.token_eq]
    rfl

/-! ### Texts are laid out as their tokens -/

namespace Layout

/-- A layout with one more blank in front. -/
def consBlank {c : Char} (h : isBlank c = true) (l : Layout) : Layout where
  lead := c :: l.lead
  pieces := l.pieces
  blank := List.forall_mem_cons.mpr ⟨h, l.blank⟩
  apart := l.apart

/-- A layout with one more piece in front, which does not fuse with it. -/
def cons {k : Kind} {w : List Char} (h : k.Spells w) (l : Layout)
    (hl : ∀ d ∈ l.chars.head?, ¬ Fuses w [d]) : Layout where
  lead := []
  pieces := ⟨k, w, l.lead, h, l.blank⟩ :: l.pieces
  blank := nofun
  apart := by
    refine List.isChain_cons.mpr ⟨fun y hy hf hlead => ?_, l.apart⟩
    obtain ⟨d, w', hw⟩ := List.exists_cons_of_ne_nil y.spells.ne_nil
    obtain ⟨ys, hys⟩ := List.head?_eq_some_iff.mp hy
    have hspells := y.spells
    rw [hw] at hspells
    refine hl d ?_ (hspells.fuses_cons_iff.mp (hw ▸ hf))
    have hlead : l.lead = [] := hlead
    rw [chars, hlead, hys, List.nil_append, List.flatMap_cons, Piece.chars, hw]
    rfl

end Layout

/-- A run of characters with a property reaches up to the first one without it. -/
theorem exists_run {p : Char → Bool} {c : Char} (hc : p c = true) (s : List Char) :
    ∃ w rest, c :: s = w ++ rest ∧ c ∈ w ∧ (∀ x ∈ w, p x = true) ∧
      ∀ d ∈ rest.head?, ¬ p d = true := by
  refine ⟨(c :: s).takeWhile p, (c :: s).dropWhile p, List.takeWhile_append_dropWhile.symm, ?_,
    List.all_eq_true.mp List.all_takeWhile, fun d hd => ?_⟩
  · rw [List.takeWhile_cons_of_pos hc]
    exact List.mem_cons_self
  · have hnot := List.head?_dropWhile_not p (c :: s)
    rw [Option.mem_def.mp hd] at hnot
    exact Bool.eq_false_iff.mp hnot

/-- A text that starts neither with a blank nor with something illegal starts with a spelled text
that does not fuse with what follows. -/
theorem exists_spelled {c : Char} (hb : CharClass.ofChar c ≠ .blank)
    (hi : CharClass.ofChar c ≠ .illegal) (s : List Char) :
    ∃ k w rest, c :: s = w ++ rest ∧ Kind.Spells k w ∧ ∀ d ∈ rest.head?, ¬ Fuses w [d] := by
  have hlast (d : Char) (w : List Char) : d ∈ w ++ [d] := List.mem_append_right w List.mem_cons_self
  rcases CharClass.ofChar_cases c with ⟨-, hc⟩ | ⟨-, hc⟩ | ⟨hc, -⟩ | ⟨k, hcls, hc⟩ | hc
  · obtain ⟨w, rest, hs, hmem, hw, hrest⟩ := exists_run hc s
    refine ⟨_, w, rest, hs, Kind.spells_ofWord (List.ne_nil_of_mem hmem) hw, ?_⟩
    rintro d hd (hl | hdig)
    · exact hrest d hd (hl d (hlast d w))
    · exact not_isDigit_of_isLetter hc (hdig c (List.mem_append_left _ hmem))
  · obtain ⟨w, rest, hs, hmem, hw, hrest⟩ := exists_run hc s
    refine ⟨_, w, rest, hs, .digits (List.ne_nil_of_mem hmem) hw, ?_⟩
    rintro d hd (hl | hdig)
    · exact not_isDigit_of_isLetter (hl c (List.mem_append_left _ hmem)) hc
    · exact hrest d hd (hdig d (hlast d w))
  · contradiction
  · refine ⟨k, [c], s, rfl, Kind.spells_ofSymbol? hc, ?_⟩
    rintro d - (hl | hdig)
    · rw [CharClass.ofChar_of_isLetter (hl c List.mem_cons_self)] at hcls
      contradiction
    · rw [CharClass.ofChar_of_isDigit (hdig c List.mem_cons_self)] at hcls
      contradiction
  · contradiction

/-- A text that is scanned to its end is laid out as its tokens. -/
theorem exists_layout (before : List Char) {s : List Char} {ts : List Token}
    (h : TokenFeed.scan (({} : Position).after before) s = ⟨ts, none⟩) :
    ∃ l : Layout, l.chars = s ∧ Piece.tokens (before ++ l.lead) l.pieces = ts := by
  -- The text gets shorter by a blank or by a spelled text at each step.
  induction hn : s.length using Nat.strong_induction_on generalizing s before ts with
  | _ n ih =>
    subst hn
    cases s with
    | nil =>
      rw [TokenFeed.scan_nil, TokenFeed.mk.injEq] at h
      exact ⟨⟨[], [], nofun, .nil⟩, rfl, h.1⟩
    | cons c s =>
      by_cases hi : CharClass.ofChar c = .illegal
      · rw [TokenFeed.scan_illegal _ hi, TokenFeed.mk.injEq] at h
        exact absurd h.2 nofun
      by_cases hb : CharClass.ofChar c = .blank
      · have hblank : isBlank c = true := by simpa [hb] using CharClass.ofChar_cases c
        rw [TokenFeed.scan_blank _ hblank, ← Position.after_append] at h
        obtain ⟨l, rfl, hts⟩ := ih _ (Nat.lt_succ_self _) _ h rfl
        refine ⟨l.consBlank hblank, rfl, ?_⟩
        rw [List.append_assoc] at hts
        exact hts
      · obtain ⟨k, w, rest, hs, hspells, hfuses⟩ := exists_spelled hb hi s
        rw [hs] at h ih ⊢
        rw [TokenFeed.scan_spelled _ hspells hfuses, ← Position.after_append] at h
        obtain ⟨ts', hrest, rfl⟩ := TokenFeed.eq_cons_of_cons h
        have hlen : rest.length < (w ++ rest).length := by
          rw [List.length_append]
          exact Nat.lt_add_of_pos_left (List.length_pos_iff.mpr hspells.ne_nil)
        obtain ⟨l, rfl, rfl⟩ := ih _ hlen _ hrest rfl
        refine ⟨l.cons hspells hfuses, ?_, ?_⟩
        · simp only [Layout.chars, Layout.cons, List.flatMap_cons, Piece.chars, List.nil_append,
            List.append_assoc]
        · rw [Layout.cons, Piece.tokens, List.append_nil, ← Piece.token_eq, Piece.chars,
            ← List.append_assoc]

/-- A text is scanned to its end with given tokens exactly when it is laid out as these tokens:
blanks and spelled tokens in turn, with a blank at least between two words and between two runs of
digits, and with each token at the line and offset that the characters before it determine. -/
theorem TokenFeed.ofText_eq_iff_layout (code : String) (ts : List Token) :
    ofText code = ⟨ts, none⟩ ↔ ∃ l : Layout, l.chars = code.toList ∧ l.tokens = ts := by
  rw [ofText_eq_scan]
  constructor
  · intro h
    exact exists_layout [] h
  · rintro ⟨l, hchars, rfl⟩
    rw [← hchars, Layout.chars, scan_blanks _ l.blank]
    exact Piece.scan_pieces l.apart l.lead

end SumLang
