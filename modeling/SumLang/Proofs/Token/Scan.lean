import SumLang.Token.Feed

/-!
# Scanning a text from left to right

Splitting a text into lexemes and turning them into tokens proceeds from the front of
the text: a blank only moves the place, a symbol is a token by itself, and a run of
letters or digits is a token when what follows does not prolong it. Every token of a
text is well formed: a word of letters, a run of digits or a single symbol.
-/

namespace SumLang

/-! ### Classes of characters -/

namespace CharClass

/-- Letters are classified as such. -/
theorem ofChar_of_isLetter {c : Char} (h : isLetter c = true) : ofChar c = .letter := by
  rw [ofChar, if_pos h]

/-- What the class of a character says about the character. -/
theorem ofChar_cases (c : Char) :
    (ofChar c = .letter ∧ isLetter c = true) ∨ (ofChar c = .digit ∧ c.isDigit = true) ∨
      (ofChar c = .blank ∧ isBlank c = true) ∨
      (∃ k, ofChar c = .symbol k ∧ Kind.ofSymbol? c = some k) ∨ ofChar c = .illegal := by
  rw [ofChar]
  split
  · exact .inl ⟨rfl, ‹_›⟩
  · split
    · exact .inr (.inl ⟨rfl, ‹_›⟩)
    · split
      · exact .inr (.inr (.inl ⟨rfl, ‹_›⟩))
      · split
        · next k hk => exact .inr (.inr (.inr (.inl ⟨k, rfl, hk⟩)))
        · exact .inr (.inr (.inr (.inr rfl)))

/-- What is classified as a letter is one. -/
theorem isLetter_of_ofChar {c : Char} (h : ofChar c = .letter) : isLetter c = true := by
  simpa [h] using ofChar_cases c

/-- What is classified as a digit is one. -/
theorem isDigit_of_ofChar {c : Char} (h : ofChar c = .digit) : c.isDigit = true := by
  simpa [h] using ofChar_cases c

private theorem ofSymbol?_of_ofChar {c : Char} {k : Kind} (h : ofChar c = .symbol k) :
    Kind.ofSymbol? c = some k := by
  simpa [h] using ofChar_cases c

private theorem isLetter_of_lt {c : Char} (h : c.toNat < 0x41) : isLetter c = false := by
  rw [isLetter, letterRanges, Ranges.covers, if_pos h]

/-- Digits are classified as such. -/
theorem ofChar_of_isDigit {c : Char} (h : c.isDigit = true) : ofChar c = .digit := by
  have hlt : c.toNat < 0x41 := Nat.lt_of_le_of_lt (Char.isDigit_iff_toNat.mp h).2 (by decide)
  rw [ofChar, isLetter_of_lt hlt, if_neg Bool.false_ne_true, if_pos h]

/-- Blanks are classified as such. -/
theorem ofChar_of_isBlank {c : Char} (h : isBlank c = true) : ofChar c = .blank := by
  simp only [isBlank, Bool.or_eq_true, beq_iff_eq] at h
  rcases h with (((rfl | rfl) | rfl) | rfl) | rfl <;> decide +kernel

/-- Symbols are classified with the kind of their token. -/
theorem ofChar_of_ofSymbol? {c : Char} {k : Kind} (h : Kind.ofSymbol? c = some k) :
    ofChar c = .symbol k := by
  have hs : c = '\x7b' ∨ c = '\x7d' ∨ c = '(' ∨ c = ')' ∨ c = ',' ∨ c = ';' ∨ c = '=' ∨
      c = '+' := by
    unfold Kind.ofSymbol? at h
    split at h <;> simp_all
  rcases hs with rfl | rfl | rfl | rfl | rfl | rfl | rfl | rfl <;> cases h <;> decide +kernel

end CharClass

/-! ### Lexemes at the front of a text -/

namespace Lexeme

/-- Characters are split from the last to the first. -/
theorem split_cons (c : Char) (s : List Char) : split (c :: s) = push c (split s) := rfl

/-- Pushing a character in front gives a lexeme of its class in front. -/
theorem push_eq_cons (c : Char) (xs : List Lexeme) :
    ∃ text rest, push c xs = ⟨.ofChar c, text⟩ :: rest := by
  unfold push
  split
  · exact ⟨[c], [], rfl⟩
  · split
    · next x rest h => exact ⟨c :: x.text, rest, by rw [h.1]⟩
    · next x rest h => exact ⟨[c], x :: rest, rfl⟩

/-- A character that forms no run with the next one is a lexeme by itself. -/
theorem push_of_ne {c : Char} {s : List Char}
    (h : (CharClass.ofChar c).runs = true → ∀ d ∈ s.head?, CharClass.ofChar d ≠ .ofChar c) :
    push c (split s) = ⟨.ofChar c, [c]⟩ :: split s := by
  cases s with
  | nil => rfl
  | cons d s =>
    obtain ⟨text, rest, hd⟩ := push_eq_cons d (split s)
    have hn : ¬ (CharClass.ofChar d = .ofChar c ∧ (CharClass.ofChar d).runs = true) := by
      rintro ⟨he, hr⟩
      rw [he] at hr
      exact h hr d rfl he
    rw [split_cons, hd, push, if_neg hn]

/-- A run of characters of one class is a lexeme when the next character does not prolong it. -/
theorem split_append {k : CharClass} (hk : k.runs = true) {w s : List Char} (hne : w ≠ [])
    (hw : ∀ c ∈ w, CharClass.ofChar c = k) (hs : ∀ d ∈ s.head?, CharClass.ofChar d ≠ k) :
    split (w ++ s) = ⟨k, w⟩ :: split s := by
  induction w with
  | nil => contradiction
  | cons c w ih =>
    have hc := hw c List.mem_cons_self
    cases w with
    | nil =>
      rw [List.singleton_append, split_cons, push_of_ne (by rw [hc]; exact fun _ => hs), hc]
    | cons d w =>
      have hrest := ih (List.cons_ne_nil d w) fun x hx => hw x (List.mem_cons_of_mem c hx)
      rw [List.cons_append, split_cons, hrest, push, if_pos ⟨hc.symm, hk⟩]

/-- All characters of a lexeme are of its class, and a class without runs has single ones. -/
structure Uniform (x : Lexeme) : Prop where
  ne_nil : x.text ≠ []
  cls : ∀ c ∈ x.text, CharClass.ofChar c = x.cls
  single : x.cls.runs = false → ∃ c, x.text = [c]

private theorem uniform_singleton (c : Char) : Uniform ⟨.ofChar c, [c]⟩ :=
  ⟨List.cons_ne_nil c [], fun d hd => by rw [List.mem_singleton.mp hd], fun _ => ⟨c, rfl⟩⟩

private theorem uniform_push {c : Char} {xs : List Lexeme} (h : ∀ x ∈ xs, x.Uniform) :
    ∀ x ∈ push c xs, x.Uniform := by
  unfold push
  split
  · intro x hx
    rw [List.mem_singleton.mp hx]
    exact uniform_singleton c
  · next y rest =>
    split
    · next he =>
      intro x hx
      rcases List.mem_cons.mp hx with rfl | hx
      · have hy := h y List.mem_cons_self
        refine ⟨List.cons_ne_nil _ _, ?_, fun hr => ?_⟩
        · intro d hd
          rcases List.mem_cons.mp hd with rfl | hd
          · exact he.1.symm
          · exact hy.cls d hd
        · rw [he.2] at hr
          contradiction
      · exact h x (List.mem_cons_of_mem y hx)
    · intro x hx
      rcases List.mem_cons.mp hx with rfl | hx
      · exact uniform_singleton c
      · exact h x hx

/-- The lexemes of a text are uniform. -/
theorem uniform_split (s : List Char) : ∀ x ∈ split s, x.Uniform := by
  induction s with
  | nil => nofun
  | cons c s ih => exact uniform_push ih

end Lexeme

/-! ### Places -/

/-- Lengths in bytes add up. -/
theorem utf8Length_append (s t : List Char) :
    utf8Length (s ++ t) = utf8Length s + utf8Length t := by
  induction s with
  | nil => rw [List.nil_append, utf8Length, Nat.zero_add]
  | cons c s ih => rw [List.cons_append, utf8Length, utf8Length, ih, Nat.add_assoc]

/-- The place after two texts is the place after the second from that after the first. -/
theorem Position.after_append (p : Position) (s t : List Char) :
    p.after (s ++ t) = (p.after s).after t := by
  simp only [Position.after, utf8Length_append, lineFeeds, List.count_append, Nat.add_assoc]

/-! ### Tokens at the front of a text -/

namespace TokenFeed

/-- The tokens of a text that starts at a given place. -/
def scan (p : Position) (s : List Char) : TokenFeed := ofLexemes p (Lexeme.split s)

/-- The tokens of a text of characters are scanned from its start. -/
theorem ofText_eq_scan (code : String) : ofText code = scan {} code.toList := rfl

/-- No characters have no tokens. -/
theorem scan_nil (p : Position) : scan p [] = ⟨[], none⟩ := rfl

private theorem ofLexemes_blank (p : Position) (text : List Char) (xs : List Lexeme) :
    ofLexemes p (⟨.blank, text⟩ :: xs) = ofLexemes (p.after text) xs := rfl

/-- A blank only moves the place. -/
theorem scan_blank (p : Position) {c : Char} (h : isBlank c = true) (s : List Char) :
    scan p (c :: s) = scan (p.after [c]) s := by
  have hc := CharClass.ofChar_of_isBlank h
  rw [scan, scan, Lexeme.split_cons]
  cases hx : Lexeme.split s with
  | nil =>
    rw [Lexeme.push, hc]
    rfl
  | cons x xs =>
    rw [Lexeme.push, hc]
    split
    · next he =>
      obtain ⟨cls, text⟩ := x
      obtain rfl : cls = .blank := he.1
      rw [ofLexemes_blank, ofLexemes_blank, ← Position.after_append, List.singleton_append]
    · rw [ofLexemes_blank]

/-- A symbol is a token by itself. -/
theorem scan_symbol (p : Position) {c : Char} {k : Kind} (h : Kind.ofSymbol? c = some k)
    (s : List Char) : scan p (c :: s) =
      (scan (p.after [c]) s).cons ⟨k, some (String.ofList [c]), p.line, p.offset⟩ := by
  have hc := CharClass.ofChar_of_ofSymbol? h
  have hp := Lexeme.push_of_ne (c := c) (s := s) (by rw [hc]; exact nofun)
  rw [hc] at hp
  rw [scan, Lexeme.split_cons, hp]
  rfl

/-- A run of letters is a word when no letter follows. -/
theorem scan_word (p : Position) {w s : List Char} (hne : w ≠ [])
    (hw : ∀ c ∈ w, isLetter c = true) (hs : ∀ d ∈ s.head?, CharClass.ofChar d ≠ .letter) :
    scan p (w ++ s) =
      (scan (p.after w) s).cons ⟨.ofWord w, some (String.ofList w), p.line, p.offset⟩ := by
  rw [scan, Lexeme.split_append rfl hne (fun c hc => CharClass.ofChar_of_isLetter (hw c hc)) hs]
  rfl

/-- A run of digits is a number when no digit follows. -/
theorem scan_number (p : Position) {w s : List Char} (hne : w ≠ [])
    (hw : ∀ c ∈ w, c.isDigit = true) (hs : ∀ d ∈ s.head?, CharClass.ofChar d ≠ .digit) :
    scan p (w ++ s) =
      (scan (p.after w) s).cons ⟨.number, some (String.ofList w), p.line, p.offset⟩ := by
  rw [scan, Lexeme.split_append rfl hne (fun c hc => CharClass.ofChar_of_isDigit (hw c hc)) hs]
  rfl

end TokenFeed

/-! ### Tokens that a text can have -/

/-- A word of letters, a run of digits or a single symbol, with the kind that belongs to it. -/
inductive Token.Lexed : Token → Prop
  | word {w : List Char} (hne : w ≠ []) (hw : ∀ c ∈ w, isLetter c = true) (line offset : Int) :
      Lexed ⟨.ofWord w, some (String.ofList w), line, offset⟩
  | number {w : List Char} (hne : w ≠ []) (hw : ∀ c ∈ w, c.isDigit = true) (line offset : Int) :
      Lexed ⟨.number, some (String.ofList w), line, offset⟩
  | symbol {c : Char} {k : Kind} (h : Kind.ofSymbol? c = some k) (line offset : Int) :
      Lexed ⟨k, some (String.ofList [c]), line, offset⟩

/-- Each token of uniform lexemes is spelled as its kind demands. -/
theorem TokenFeed.lexed_ofLexemes {xs : List Lexeme} (h : ∀ x ∈ xs, x.Uniform) (p : Position) :
    ∀ t ∈ (ofLexemes p xs).tokens, t.Lexed := by
  induction xs generalizing p with
  | nil => nofun
  | cons x xs ih =>
    obtain ⟨cls, text⟩ := x
    have hx := h _ List.mem_cons_self
    have hrest := ih (fun y hy => h y (List.mem_cons_of_mem _ hy)) (p.after text)
    have hcons {t : Token} (ht : t.Lexed) :
        ∀ u ∈ ((ofLexemes (p.after text) xs).cons t).tokens, u.Lexed := by
      intro u hu
      rcases List.mem_cons.mp hu with rfl | hu
      · exact ht
      · exact hrest u hu
    cases cls with
    | letter =>
      exact hcons (.word hx.ne_nil (fun c hc => CharClass.isLetter_of_ofChar (hx.cls c hc)) _ _)
    | digit =>
      exact hcons (.number hx.ne_nil (fun c hc => CharClass.isDigit_of_ofChar (hx.cls c hc)) _ _)
    | blank => exact hrest
    | symbol k =>
      obtain ⟨c, rfl⟩ : ∃ c, text = [c] := hx.single rfl
      exact hcons (.symbol (CharClass.ofSymbol?_of_ofChar (hx.cls c List.mem_cons_self)) _ _)
    | illegal => nofun

/-- A text with a lone surrogate ends with an error in front of it. -/
theorem TokenFeed.ofText_surrogate (front : String) (x : Surrogate × String)
    (later : List (Surrogate × String)) : ofText ⟨front, x :: later⟩ =
      ⟨(ofText front).tokens, (ofText front).error.or (some .unencodable)⟩ := rfl

/-- A lone surrogate adds no token. -/
theorem TokenFeed.tokens_ofText (code : Text) :
    (ofText code).tokens = (ofText code.front).tokens := by
  change (if code.encodable then _ else _ : TokenFeed).tokens = _
  split <;> rfl

/-- Every token of a text is well formed. -/
theorem TokenFeed.lexed_ofText (code : Text) : ∀ t ∈ (ofText code).tokens, t.Lexed := by
  rw [tokens_ofText]
  exact lexed_ofLexemes (Lexeme.uniform_split code.front.toList) {}

/-- UTF-8 has a form for the texts of well-formed tokens. -/
theorem Token.Lexed.encodable {t : Token} (h : t.Lexed) : t.encodable = true := by
  cases h <;> rfl

/-- An end mark follows well-formed tokens. -/
theorem TokenFeed.ofTokens_of_lexed {ts : List Token} (h : ∀ t ∈ ts, t.Lexed) :
    ofTokens ts = ⟨ts, none⟩ :=
  ofTokens_eq fun t ht => (h t (List.mem_of_getLast? ht)).encodable

/-- The only error of lexemes is an illegal character. -/
theorem TokenFeed.exists_error_ofLexemes (p : Position) (xs : List Lexeme) :
    ∃ err : Option LexError, (ofLexemes p xs).error = err.map .illegal := by
  induction xs generalizing p with
  | nil => exact ⟨none, rfl⟩
  | cons x xs ih =>
    obtain ⟨cls, text⟩ := x
    cases cls with
    | letter | digit | symbol | blank => exact ih (p.after text)
    | illegal => exact ⟨some _, rfl⟩

/-- Some characters take at least one byte. -/
theorem utf8Length_pos {s : List Char} (h : s ≠ []) : 0 < utf8Length s := by
  obtain ⟨c, s, rfl⟩ := List.exists_cons_of_ne_nil h
  rw [utf8Length]
  have hc := c.utf8Size_pos
  omega

/-- The tokens of lexemes stand at increasing offsets, none of them before the first lexeme. -/
theorem TokenFeed.offsets_ofLexemes {xs : List Lexeme} (h : ∀ x ∈ xs, x.Uniform) (p : Position) :
    (∀ t ∈ (ofLexemes p xs).tokens, (p.offset : Int) ≤ t.offset) ∧
      (ofLexemes p xs).tokens.Pairwise (·.offset < ·.offset) := by
  induction xs generalizing p with
  | nil => exact ⟨nofun, .nil⟩
  | cons x xs ih =>
    obtain ⟨cls, text⟩ := x
    rw [List.forall_mem_cons] at h
    obtain ⟨hle, hpair⟩ := ih h.2 (p.after text)
    have hlt : ∀ t ∈ (ofLexemes (p.after text) xs).tokens, (p.offset : Int) < t.offset := by
      intro t ht
      have hpos := utf8Length_pos h.1.ne_nil
      have hafter : ((p.offset + utf8Length text : Nat) : Int) ≤ t.offset := hle t ht
      simp only at hpos
      omega
    have hcons {t : Token} (ht : t.offset = p.offset) :
        (∀ u ∈ ((ofLexemes (p.after text) xs).cons t).tokens, (p.offset : Int) ≤ u.offset) ∧
          ((ofLexemes (p.after text) xs).cons t).tokens.Pairwise (·.offset < ·.offset) := by
      constructor
      · intro u hu
        rcases List.mem_cons.mp hu with rfl | hu
        · exact Int.le_of_eq ht.symm
        · exact Int.le_of_lt (hlt u hu)
      · refine List.pairwise_cons.mpr ⟨fun u hu => ?_, hpair⟩
        rw [ht]
        exact hlt u hu
    cases cls with
    | letter | digit | symbol => exact hcons rfl
    | blank => exact ⟨fun t ht => Int.le_of_lt (hlt t ht), hpair⟩
    | illegal => exact ⟨nofun, .nil⟩

/-- No two tokens of a text are the same, since they stand at different offsets. -/
theorem TokenFeed.nodup_ofText (code : Text) : (ofText code).tokens.Nodup := by
  have hpair := (offsets_ofLexemes (Lexeme.uniform_split code.front.toList) {}).2
  rw [tokens_ofText]
  refine hpair.imp fun hlt heq => ?_
  rw [heq] at hlt
  exact Int.lt_irrefl _ hlt

end SumLang
