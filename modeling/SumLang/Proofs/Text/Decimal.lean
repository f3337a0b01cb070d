import SumLang.Syntax.Literal

/-!
# Literals in plain digits

A text of ASCII digits spells the number that its digits have in base ten. Leading
zeros do not count, and more significant digits than the largest word has make a number
that is too large, so that refusing a literal by its length never refuses a word.
-/

namespace SumLang

/-- The number that a text of digits spells in base ten. -/
def decimalValue (s : List Char) : Nat := Nat.ofDigitChars 10 s 0

/-- The ten digits of ASCII are the first ones of the digit table. -/
theorem digitValue?_of_isDigit {c : Char} (h : c.isDigit = true) :
    digitValue? c = some (c.toNat - '0'.toNat) := by
  obtain ⟨hlo, hhi⟩ := Char.isDigit_iff_toNat.mp h
  have hz : (decide (0x30 ≤ c.toNat) && decide (c.toNat ≤ 0x30 + 9)) = true := by
    rw [Bool.and_eq_true, decide_eq_true_eq, decide_eq_true_eq]
    exact ⟨hlo, hhi⟩
  simp only [digitValue?, zeroDigits, List.find?_cons, hz, Option.map_some]
  rfl

private theorem ne_underscore_of_isDigit {c : Char} (h : c.isDigit = true) : c ≠ '_' := by
  intro he
  rw [he] at h
  contradiction

private theorem not_isWhiteSpace_of_isDigit {c : Char} (h : c.isDigit = true) :
    isWhiteSpace c = false := by
  obtain ⟨hlo, hhi⟩ := Char.isDigit_iff_toNat.mp h
  change 48 ≤ c.toNat at hlo
  change c.toNat ≤ 57 at hhi
  have h9 : ¬ c.toNat < 0x9 := by omega
  have hd : ¬ c.toNat ≤ 0xD := by omega
  have h20 : ¬ c.toNat < 0x20 := by omega
  have hs : ¬ c.toNat ≤ 0x20 := by omega
  have h85 : c.toNat < 0x85 := by omega
  simp only [isWhiteSpace, whiteSpaceRanges, Ranges.covers, h9, hd, h20, hs, h85, if_true, if_false]

/-- Digits that follow digits of a known value are read to the end. -/
theorem digitsValueFrom_digits {s : List Char} (h : ∀ c ∈ s, c.isDigit = true) (acc : Nat) :
    digitsValueFrom acc s = some (Nat.ofDigitChars 10 s acc) := by
  induction s generalizing acc with
  | nil => rfl
  | cons c s ih =>
    have hc := h c List.mem_cons_self
    have hs := ih fun x hx => h x (List.mem_cons_of_mem c hx)
    rw [digitsValueFrom.eq_3 acc c s fun x rest he => absurd he (ne_underscore_of_isDigit hc),
      digitValue?_of_isDigit hc, Nat.ofDigitChars_cons]
    exact hs _

/-- A text that consists of digits has no white space to lose. -/
theorem trimSpace_digits {s : List Char} (h : ∀ c ∈ s, c.isDigit = true) : trimSpace s = s := by
  have hkeep {t : List Char} (ht : ∀ c ∈ t, c.isDigit = true) : t.dropWhile isWhiteSpace = t := by
    cases t with
    | nil => rfl
    | cons c t =>
      exact List.dropWhile_cons_of_neg
        (by simp [not_isWhiteSpace_of_isDigit (ht c List.mem_cons_self)])
  rw [trimSpace, hkeep h, hkeep fun c hc => h c (List.mem_reverse.mp hc), List.reverse_reverse]

/-- A text of digits spells its value in base ten. -/
theorem integerValue?_digits {s : List Char} (hne : s ≠ []) (h : ∀ c ∈ s, c.isDigit = true) :
    integerValue? s = some (decimalValue s : Int) := by
  cases s with
  | nil => contradiction
  | cons c s =>
    have hc := h c List.mem_cons_self
    have hs : ∀ x ∈ s, x.isDigit = true := fun x hx => h x (List.mem_cons_of_mem c hx)
    have hv : digitsValue? (c :: s) = some (decimalValue (c :: s)) := by
      simp only [digitsValue?, digitValue?_of_isDigit hc, decimalValue, Nat.ofDigitChars_cons,
        Nat.mul_zero, Nat.zero_add]
      exact digitsValueFrom_digits hs _
    have hminus : c ≠ '-' := by rintro rfl; contradiction
    have hplus : c ≠ '+' := by rintro rfl; contradiction
    rw [integerValue?, trimSpace_digits h]
    split
    · next he => exact absurd (List.cons.inj he).1 hminus
    · next he => exact absurd (List.cons.inj he).1 hplus
    · rw [hv]
      rfl

/-- Leading zeros do not change the value. -/
theorem decimalValue_dropWhile_zero (s : List Char) :
    decimalValue (s.dropWhile (· == '0')) = decimalValue s := by
  induction s with
  | nil => rfl
  | cons c s ih =>
    rw [List.dropWhile_cons]
    split
    · next hc =>
      rw [ih, eq_of_beq hc, decimalValue, decimalValue, Nat.ofDigitChars_cons]
      rfl
    · rfl

/-- A number with more significant digits than the largest word has is larger than it. -/
theorem maxWord_lt_decimalValue {c : Char} {s : List Char} (hc : c.isDigit = true) (h0 : c ≠ '0')
    (hl : maxWordDigits ≤ s.length) : maxWord < decimalValue (c :: s) := by
  have hpos : 1 ≤ c.toNat - '0'.toNat := by
    have hlo := (Char.isDigit_iff_toNat.mp hc).1
    have hne : c.toNat ≠ '0'.toNat := fun he => h0 (Char.toNat_inj.mp he)
    omega
  rw [decimalValue, Nat.ofDigitChars_cons, Nat.mul_zero, Nat.zero_add,
    Nat.ofDigitChars_eq_ofDigitChars_zero]
  calc maxWord < 10 ^ maxWordDigits := by decide
    _ ≤ 10 ^ s.length := Nat.pow_le_pow_right (by decide) hl
    _ = 10 ^ s.length * 1 := (Nat.mul_one _).symm
    _ ≤ 10 ^ s.length * (c.toNat - '0'.toNat) := Nat.mul_le_mul_left _ hpos
    _ ≤ _ := Nat.le_add_right _ _

/-- So a text of digits is too large when more of them than the largest word has follow its leading
zeros. -/
theorem maxWord_lt_of_length {s : List Char} (h : ∀ c ∈ s, c.isDigit = true)
    (hl : maxWordDigits < (s.dropWhile (· == '0')).length) : maxWord < decimalValue s := by
  have hne : s.dropWhile (· == '0') ≠ [] := List.ne_nil_of_length_pos (Nat.zero_lt_of_lt hl)
  have hhead := List.head_dropWhile_not (· == '0') hne
  obtain ⟨c, t, ht⟩ := List.exists_cons_of_ne_nil hne
  have hc : c ∈ s := (List.dropWhile_sublist _).subset (ht ▸ List.mem_cons_self)
  have h0 : c ≠ '0' := by simpa only [ht, List.head_cons, beq_eq_false_iff_ne] using hhead
  rw [← decimalValue_dropWhile_zero s, ht]
  rw [ht, List.length_cons] at hl
  exact maxWord_lt_decimalValue (h c hc) h0 (Nat.lt_succ_iff.mp hl)

/-- Dropping the zeros of a text without surrogates drops them from its characters. -/
theorem Text.dropZeros_ofList (s : List Char) :
    (String.ofList s : Text).dropZeros = (String.ofList (s.dropWhile (· == '0')) : Text) := by
  rw [Text.dropZeros, String.toList_ofList]

/-- The length of a text without surrogates. -/
theorem Text.length_ofList (s : List Char) : (String.ofList s : Text).length = s.length := by
  simp [Text.length]

/-- What a text without surrogates spells. -/
theorem Text.spelledValue?_ofList (s : List Char) :
    (String.ofList s : Text).spelledValue? = if s = [] then some 0 else integerValue? s := by
  simp [Text.spelledValue?, Text.encodable]

/-- A literal of digits stands for their value, and is too large exactly when that is no word. -/
theorem literalValue_digits {s : List Char} (h : ∀ c ∈ s, c.isDigit = true) :
    literalValue (some (String.ofList s)) =
      if decimalValue s ≤ maxWord then .ok (decimalValue s : Int) else .error .tooLarge := by
  simp only [literalValue, Text.dropZeros_ofList, Text.length_ofList, Text.spelledValue?_ofList]
  by_cases hl : (s.dropWhile (· == '0')).length > maxWordDigits
  · rw [if_pos hl, if_neg (Nat.not_le.mpr (maxWord_lt_of_length h hl))]
  · rw [if_neg hl, ← decimalValue_dropWhile_zero s]
    have hsig : ∀ c ∈ s.dropWhile (· == '0'), c.isDigit = true :=
      fun c hc => h c ((List.dropWhile_sublist _).subset hc)
    cases ht : s.dropWhile (· == '0') with
    | nil => rfl
    | cons c t =>
      rw [ht] at hsig
      simp only [reduceCtorEq, if_false, integerValue?_digits (List.cons_ne_nil c t) hsig]
      by_cases hw : decimalValue (c :: t) ≤ maxWord
      · rw [if_pos hw, if_neg (by omega)]
      · rw [if_neg hw, if_pos (by omega)]

end SumLang
