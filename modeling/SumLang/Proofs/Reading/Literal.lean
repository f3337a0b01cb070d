import SumLang.Proofs.Reading.Cursor
import SumLang.Proofs.Text.Decimal
import SumLang.Proofs.Token.Scan
import SumLang.Syntax.Printer

/-!
# Integer literals are exact

A number token is read as the decimal value of its digits, however many of them there
are, or it is refused in its place because that value is no word. A word that is written
out in decimal is scanned as one number token and read back.
-/

namespace SumLang

/-- The decimal digits of a number are digits of ASCII. -/
theorem isDigit_toDigits (n : Nat) : ∀ c ∈ Nat.toDigits 10 n, c.isDigit = true :=
  fun _ hc => Nat.isDigit_of_mem_toDigits (by decide) (Nat.le_refl 10) hc

namespace TokenFeed

/-- A text of digits is scanned as one number token. -/
theorem ofText_digits {d : List Char} (hne : d ≠ []) (hd : ∀ c ∈ d, c.isDigit = true) :
    ofText (String.ofList d) = .ofTokens [⟨.number, some (String.ofList d), 1, 0⟩] := by
  have hscan := scan_number {} hne hd (s := []) nofun
  rw [List.append_nil, scan_nil] at hscan
  rw [ofText_eq_scan, String.toList_ofList, hscan]
  rfl

end TokenFeed

namespace Reader

section

variable {d : List Char} {t : Token} (hk : t.kind = .number)
  (ht : t.text = some (String.ofList d : Text)) (hd : ∀ c ∈ d, c.isDigit = true)
  {err : Option FeedError} {prev : Option Token} {rest : List Token}

include hk ht hd

/-- A number token whose digits spell a word is accepted with every allowance. -/
theorem primaryWithin_word (hfits : decimalValue d ≤ maxWord) (h : Ahead err rest) (n : Nat) :
    primaryWithin (n + 1) (.over err prev (t :: rest)) =
      .ok (.lit (.int (decimalValue d)) t.line) (.over err (some t) rest) := by
  have hvalue : literalValue (Cursor.over err prev (t :: rest)).curr.text =
      .ok (decimalValue d : Int) := by
    change literalValue t.text = _
    rw [ht, literalValue_digits hd, if_pos hfits]
  rw [primaryWithin]
  change (if t.kind = .number then _ else _ : Reader Expr) (.over err prev (t :: rest)) = _
  rw [if_pos hk, hvalue]
  dsimp only
  rw [bind_apply, eat_over t hk (by decide) h]
  rfl

/-- A number token whose digits spell no word is refused and stays. -/
theorem primaryWithin_tooLarge (hlarge : maxWord < decimalValue d) (n : Nat) :
    primaryWithin (n + 1) (.over err prev (t :: rest)) =
      .error (.parse ⟨.wordLiteral, t⟩) (.over err prev (t :: rest)) := by
  have hvalue : literalValue (Cursor.over err prev (t :: rest)).curr.text = .error .tooLarge := by
    change literalValue t.text = _
    rw [ht, literalValue_digits hd, if_neg (Nat.not_le.mpr hlarge)]
  rw [primaryWithin]
  change (if t.kind = .number then _ else _ : Reader Expr) (.over err prev (t :: rest)) = _
  rw [if_pos hk, hvalue]
  rfl

/-- A number token behind which the input ends is read as a whole expression. -/
theorem expr_word (hfits : decimalValue d ≤ maxWord) :
    expr (.over none prev [t]) =
      .ok (.lit (.int (decimalValue d)) t.line) (.over none (some t) []) := by
  change exprWithin (2 * (Cursor.over none prev [t]).remaining + 4) _ = _
  rw [exprWithin, bind_apply, primaryWithin_word hk ht hd hfits (ahead_none [])]
  rfl

end

/-- The text of a word is scanned as one number token that spells it. -/
theorem ofText_format_word (n : Nat) (line : Int) :
    TokenFeed.ofText (Expr.lit (.int n) line).format =
      .ofTokens [⟨.number, some (String.ofList (Nat.toDigits 10 n)), 1, 0⟩] := by
  have hformat : (Expr.lit (.int n) line).format = String.ofList (Nat.toDigits 10 n) := by
    rw [Expr.format]
    exact String.toList_inj.mp (Nat.toList_repr.trans String.toList_ofList.symm)
  rw [hformat]
  exact TokenFeed.ofText_digits Nat.toDigits_ne_nil (isDigit_toDigits n)

/-- A word is read back from its text, which is one number token and ends behind it. -/
theorem word_reads_back {n : Nat} (hn : n ≤ maxWord) (line : Int) :
    ∃ t : Token, t.kind = .number ∧
      TokenFeed.ofText (Expr.lit (.int n) line).format = .ofTokens [t] ∧
      Cursor.ofFeed (.ofTokens [t]) = .ok (.over none none [t]) ∧
      primary (.over none none [t]) = .ok (.lit (.int n) 1) (.over none (some t) []) ∧
      expr (.over none none [t]) = .ok (.lit (.int n) 1) (.over none (some t) []) := by
  have hd := isDigit_toDigits n
  have hvalue : decimalValue (Nat.toDigits 10 n) = n := Nat.ofDigitChars_ten_toDigits
  have hfits : decimalValue (Nat.toDigits 10 n) ≤ maxWord := by rwa [hvalue]
  let t : Token := ⟨.number, some (String.ofList (Nat.toDigits 10 n)), 1, 0⟩
  have hprimary : primary (.over none none [t]) = _ :=
    primaryWithin_word rfl rfl hd hfits (ahead_none []) _
  have hexpr : expr (.over none none [t]) = _ := expr_word rfl rfl hd hfits
  rw [hvalue] at hprimary hexpr
  exact ⟨t, rfl, ofText_format_word n line, rfl, hprimary, hexpr⟩

/-- The largest word is that of 32 bits. Every non-empty run of digits is read as its decimal value
where that is a word, and is refused in its place otherwise, so that the number of digits behind the
leading zeros decides nothing that the value does not. (Accepting the token asks for the next one;
`Ahead` says that no illegal character stands in its place.) Every word is read back from its
text. -/
theorem literals_exact_up_to_word_limit :
    maxWord = 4294967295 ∧
    (∀ d : List Char, d ≠ [] → (∀ c ∈ d, c.isDigit = true) →
      (∀ (t : Token) (err : Option FeedError) (prev : Option Token) (rest : List Token),
        t.kind = .number → t.text = some (String.ofList d : Text) →
        (decimalValue d ≤ maxWord → Ahead err rest →
          primary (.over err prev (t :: rest)) =
            .ok (.lit (.int (decimalValue d)) t.line) (.over err (some t) rest)) ∧
        (maxWord < decimalValue d →
          primary (.over err prev (t :: rest)) =
            .error (.parse ⟨.wordLiteral, t⟩) (.over err prev (t :: rest)))) ∧
      ((toString maxWord).length < (d.dropWhile (· == '0')).length ∨
        maxWord < decimalValue (d.dropWhile (· == '0')) ↔ maxWord < decimalValue d)) ∧
    ∀ (n : Nat) (line : Int), n ≤ maxWord →
      ∃ t : Token, t.kind = .number ∧
        TokenFeed.ofText (Expr.lit (.int n) line).format = .ofTokens [t] ∧
        Cursor.ofFeed (.ofTokens [t]) = .ok (.over none none [t]) ∧
        primary (.over none none [t]) = .ok (.lit (.int n) 1) (.over none (some t) []) ∧
        expr (.over none none [t]) = .ok (.lit (.int n) 1) (.over none (some t) []) := by
  have hdigits : (toString maxWord).length = maxWordDigits := by decide
  refine ⟨rfl, fun d _ hd => ⟨?_, ?_⟩, ?_⟩
  · intro t err prev rest hk ht
    exact ⟨fun hfits hahead => primaryWithin_word hk ht hd hfits hahead _,
      fun hlarge => primaryWithin_tooLarge hk ht hd hlarge _⟩
  · rw [decimalValue_dropWhile_zero, hdigits]
    exact ⟨fun h => h.elim (maxWord_lt_of_length hd) id, Or.inr⟩
  · exact fun n line hn => word_reads_back hn line

/-- Leading zeros do not count against the largest word, its successor is refused in its place, and
the largest word is read back from its text. -/
theorem literals_around_word_limit :
    primary (.over none none [⟨.number, "0004294967295", 3, 7⟩]) =
        .ok (.lit (.int 4294967295) 3) (.over none (some ⟨.number, "0004294967295", 3, 7⟩) []) ∧
      primary (.over none none [⟨.number, "4294967296", 3, 7⟩]) =
        .error (.parse ⟨.wordLiteral, ⟨.number, "4294967296", 3, 7⟩⟩)
          (.over none none [⟨.number, "4294967296", 3, 7⟩]) ∧
      ∃ t : Token, TokenFeed.ofText (Expr.lit (.int 4294967295) 9).format = .ofTokens [t] ∧
        expr (.over none none [t]) = .ok (.lit (.int 4294967295) 1) (.over none (some t) []) := by
  obtain ⟨-, hread, hback⟩ := literals_exact_up_to_word_limit
  refine ⟨?_, ?_, ?_⟩
  · have hd : ∀ c ∈ "0004294967295".toList, c.isDigit = true :=
      List.all_eq_true.mp (by decide)
    exact (((hread "0004294967295".toList (by decide) hd).1 _ none none [] rfl rfl).1
      (by decide) (ahead_none [])).trans rfl
  · have hd : ∀ c ∈ "4294967296".toList, c.isDigit = true :=
      List.all_eq_true.mp (by decide)
    exact ((hread "4294967296".toList (by decide) hd).1 _ none none [] rfl rfl).2 (by decide)
  · obtain ⟨t, -, htext, -, -, hexpr⟩ := hback 4294967295 9 (by decide)
    exact ⟨t, htext, hexpr⟩

end Reader

end SumLang
