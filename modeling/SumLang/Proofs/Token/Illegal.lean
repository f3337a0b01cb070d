import Mathlib.Data.List.TakeWhile
import SumLang.Proofs.Token.Layout
import SumLang.Proofs.Token.Seam

/-!
# The first illegal character

Letters, the ten digits of ASCII, eight symbols and five blanks are legal. A text of
legal characters is scanned to its end; every other text is scanned as the part in front
of its first illegal character, and the error has that character and its place. Words
may also be matched from a wider class of characters and cut at the first one that is no
letter: the tokens and the error are the same, whatever else the class admits.
-/

namespace SumLang

/-! ### Legal characters -/

/-- The characters that are tokens by themselves. -/
def symbolChars : List Char := ['\x7b', '\x7d', '(', ')', ',', ';', '=', '+']

/-- The characters that only separate tokens. -/
def blankChars : List Char := [' ', '\t', '\n', '\r', '\x0c']

/-- A character that can be part of a token or stand between tokens. -/
def IsLegal (c : Char) : Prop :=
  isLetter c = true ∨ c.isDigit = true ∨ c ∈ symbolChars ∨ c ∈ blankChars

instance : DecidablePred IsLegal := fun c =>
  inferInstanceAs (Decidable (isLetter c = true ∨ c.isDigit = true ∨ c ∈ symbolChars ∨
    c ∈ blankChars))

private theorem mem_blankChars_iff {c : Char} : c ∈ blankChars ↔ isBlank c = true := by
  simp [blankChars, isBlank, or_assoc]

private theorem mem_symbolChars_iff {c : Char} :
    c ∈ symbolChars ↔ ∃ k, Kind.ofSymbol? c = some k := by
  constructor
  · intro h
    simp only [symbolChars, List.mem_cons, List.not_mem_nil, or_false] at h
    rcases h with rfl | rfl | rfl | rfl | rfl | rfl | rfl | rfl <;> exact ⟨_, rfl⟩
  · rintro ⟨k, hk⟩
    unfold Kind.ofSymbol? at hk
    split at hk <;> simp_all [symbolChars]

/-- The legal characters are those whose class is not the illegal one. -/
theorem isLegal_iff {c : Char} : IsLegal c ↔ CharClass.ofChar c ≠ .illegal := by
  unfold IsLegal
  rw [mem_symbolChars_iff, mem_blankChars_iff]
  constructor
  · rintro (h | h | ⟨k, h⟩ | h)
    · simp [CharClass.ofChar_of_isLetter h]
    · simp [CharClass.ofChar_of_isDigit h]
    · simp [CharClass.ofChar_of_ofSymbol? h]
    · simp [CharClass.ofChar_of_isBlank h]
  · intro h
    rcases CharClass.ofChar_cases c with ⟨-, hc⟩ | ⟨-, hc⟩ | ⟨-, hc⟩ | ⟨k, -, hc⟩ | hc
    · exact Or.inl hc
    · exact Or.inr (Or.inl hc)
    · exact Or.inr (Or.inr (Or.inr hc))
    · exact Or.inr (Or.inr (Or.inl ⟨k, hc⟩))
    · exact absurd hc h

/-- A text with an illegal character has a first one. -/
theorem exists_first_illegal {s : List Char} (h : ∃ c ∈ s, ¬ IsLegal c) :
    ∃ before c after, s = before ++ c :: after ∧ (∀ x ∈ before, IsLegal x) ∧ ¬ IsLegal c := by
  have hfound : (s.find? fun c => decide (¬ IsLegal c)).isSome = true := by
    simpa using h
  obtain ⟨c, hc⟩ := Option.isSome_iff_exists.mp hfound
  obtain ⟨hbad, before, after, hs, hlegal⟩ := List.find?_eq_some_iff_append.mp hc
  exact ⟨before, c, after, hs, by simpa using hlegal, by simpa using hbad⟩

/-! ### Scanning up to an illegal character -/

namespace TokenFeed

/-- The scan of a text ends at its first illegal character, with the tokens of what is before. -/
theorem scan_append_illegal (p : Position) {before : List Char} (hb : ∀ x ∈ before, IsLegal x)
    {c : Char} (hc : ¬ IsLegal c) (after : List Char) : scan p (before ++ c :: after) =
      ⟨(scan p before).tokens, some (.illegal ⟨String.ofList [c], (p.after before).offset,
        some (p.after before).line⟩)⟩ := by
  have hcls : CharClass.ofChar c = .illegal := not_not.mp (mt isLegal_iff.mpr hc)
  have hruns : (CharClass.ofChar c).runs = false := by rw [hcls]; rfl
  rw [scan_append_single p (fun x hx => isLegal_iff.mp (hb x hx)) hruns, scan_illegal _ hcls,
    prepend, List.append_nil]

/-- A text is scanned to its end exactly when all of its characters are legal. -/
theorem error_scan_eq_none_iff (p : Position) (s : List Char) :
    (scan p s).error = none ↔ ∀ c ∈ s, IsLegal c := by
  constructor
  · intro h c hc
    by_contra hbad
    obtain ⟨before, d, after, rfl, hb, hd⟩ := exists_first_illegal ⟨c, hc, hbad⟩
    rw [scan_append_illegal p hb hd] at h
    contradiction
  · intro h
    exact error_scan_of_legal p fun c hc => isLegal_iff.mp (h c hc)

end TokenFeed

/-! ### Words from a wider class -/

/-- A class of characters that has all letters and no other legal character. -/
structure WordClass (wide : Char → Bool) : Prop where
  letter {c : Char} (h : isLetter c = true) : wide c = true
  isLetter_of_legal {c : Char} (h : wide c = true) (hl : IsLegal c) : isLetter c = true

private theorem forall_mem_run {q : Char → Bool} {c : Char} (hc : q c = true) (s : List Char) :
    ∀ x ∈ c :: s.takeWhile q, q x = true :=
  List.forall_mem_cons.mpr ⟨hc, List.all_eq_true.mp List.all_takeWhile⟩

private theorem not_of_head_dropWhile {q : Char → Bool} {s : List Char} {d : Char}
    (hd : d ∈ (s.dropWhile q).head?) : ¬ q d = true := by
  have hnot := List.head?_dropWhile_not q s
  rw [Option.mem_def.mp hd] at hnot
  exact Bool.eq_false_iff.mp hnot

/-- In a run from a word class, the first character that is no letter is illegal. -/
theorem WordClass.not_isLegal {wide : Char → Bool} (hwide : WordClass wide) {run rest : List Char}
    {d : Char} (hrun : ∀ x ∈ run, wide x = true) (hd : run.dropWhile isLetter = d :: rest) :
    ¬ IsLegal d := by
  have hmem : d ∈ run := (List.dropWhile_sublist isLetter).mem (hd ▸ List.mem_cons_self)
  have hfirst : d ∈ (run.dropWhile isLetter).head? := by simp [hd]
  intro hlegal
  exact not_of_head_dropWhile hfirst (hwide.isLetter_of_legal (hrun d hmem) hlegal)

namespace TokenFeed

/-- Scans a text by longest matches, each tried where the one before is over: a word from a class of
characters, which is cut at the first one that is no letter, a symbol, a run of digits, or a run of
blanks. Where none of them matches, the next character is illegal. -/
def matchFrom (wide : Char → Bool) (p : Position) (s : List Char) : TokenFeed :=
  match s with
  | [] => ⟨[], none⟩
  | c :: s =>
    let token (kind : Kind) (text : List Char) : Token :=
      ⟨kind, some (String.ofList text), p.line, p.offset⟩
    if wide c then
      let run := c :: s.takeWhile wide
      let word := run.takeWhile isLetter
      match run.dropWhile isLetter with
      | [] => (matchFrom wide (p.after run) (s.dropWhile wide)).cons (token (.ofWord run) run)
      | d :: _ => ⟨if word = [] then [] else [token (.ofWord word) word],
          some (.illegal ⟨String.ofList [d], (p.after word).offset, some p.line⟩)⟩
    else match Kind.ofSymbol? c with
      | some k => (matchFrom wide (p.after [c]) s).cons (token k [c])
      | none =>
        if c.isDigit then
          let run := c :: s.takeWhile Char.isDigit
          (matchFrom wide (p.after run) (s.dropWhile Char.isDigit)).cons (token .number run)
        else if isBlank c then
          matchFrom wide (p.after (c :: s.takeWhile isBlank)) (s.dropWhile isBlank)
        else
          ⟨[], some (.illegal ⟨String.ofList [c], p.offset, some p.line⟩)⟩
termination_by s.length
decreasing_by
  · exact Nat.lt_succ_of_le (List.dropWhile_suffix _).length_le
  · exact Nat.lt_succ_self _
  · exact Nat.lt_succ_of_le (List.dropWhile_suffix _).length_le
  · exact Nat.lt_succ_of_le (List.dropWhile_suffix _).length_le

private theorem lineFeeds_of_letters {w : List Char} (h : ∀ c ∈ w, isLetter c = true) :
    lineFeeds w = 0 := by
  apply List.count_eq_zero_of_not_mem
  intro hmem
  have hn := CharClass.ofChar_of_isLetter (h _ hmem)
  rw [CharClass.ofChar_of_isBlank (by decide)] at hn
  contradiction

/-- A run of letters alone is scanned as one word, or as nothing when it is empty. -/
theorem tokens_scan_letters (p : Position) {w : List Char} (h : ∀ c ∈ w, isLetter c = true) :
    (scan p w).tokens =
      if w = [] then [] else [⟨.ofWord w, some (String.ofList w), p.line, p.offset⟩] := by
  by_cases hw : w = []
  · simp [hw, scan_nil]
  · have hscan := scan_word p (s := []) hw h nofun
    rw [List.append_nil] at hscan
    simp [hscan, hw, scan_nil, cons]

/-- Words from a wider class make no difference: the part of a run behind its letters is never
reached, since it starts with an illegal character. -/
theorem matchFrom_eq_scan {wide : Char → Bool} (hwide : WordClass wide) (p : Position)
    (s : List Char) : matchFrom wide p s = scan p s := by
  fun_induction matchFrom wide p s with
  | case1 p => rfl
  | case2 p c s token hc run hrun ih =>
    have hletters : ∀ x ∈ run, isLetter x = true := List.dropWhile_eq_nil_iff.mp hrun
    have hs : c :: s = run ++ s.dropWhile wide := by simp [run]
    rw [hs, ih, scan_word p (List.cons_ne_nil _ _) hletters]
    intro d hd hl
    exact not_of_head_dropWhile hd (hwide.letter (CharClass.isLetter_of_ofChar hl))
  | case3 p c s token hc run word d rest hrun =>
    have hword : ∀ x ∈ word, isLetter x = true := List.all_eq_true.mp List.all_takeWhile
    have hs : c :: s = word ++ d :: (rest ++ s.dropWhile wide) := by
      rw [← List.cons_append, ← hrun, ← List.append_assoc, List.takeWhile_append_dropWhile]
      simp [run]
    have hbad := hwide.not_isLegal (forall_mem_run hc s) hrun
    rw [hs, scan_append_illegal p (fun x hx => Or.inl (hword x hx)) hbad,
      tokens_scan_letters p hword]
    simp [Position.after, lineFeeds_of_letters hword, token]
  | case4 p c s token hc k hk ih => rw [ih, scan_symbol p hk]
  | case5 p c s token hc hk hd run ih =>
    have hs : c :: s = run ++ s.dropWhile Char.isDigit := by simp [run]
    rw [hs, ih, scan_number p (List.cons_ne_nil _ _) (forall_mem_run hd s)]
    intro d hdrop hl
    exact not_of_head_dropWhile hdrop (CharClass.isDigit_of_ofChar hl)
  | case6 p c s hc hk hd hb ih =>
    have hs : c :: s = (c :: s.takeWhile isBlank) ++ s.dropWhile isBlank := by simp
    rw [hs, ih, scan_blanks p (forall_mem_run hb s)]
  | case7 p c s hc hk hd hb =>
    have hbad : ¬ IsLegal c := by
      unfold IsLegal
      rw [mem_symbolChars_iff, mem_blankChars_iff]
      rintro (h | h | ⟨k, h⟩ | h)
      · exact hc (hwide.letter h)
      · exact hd h
      · simp [hk] at h
      · exact hb h
    exact (scan_append_illegal p (List.forall_mem_nil IsLegal) hbad s).symm

/-- The tokens of a text by longest matches, with words from a class of characters. -/
def ofMatches (wide : Char → Bool) (code : String) : TokenFeed := matchFrom wide {} code.toList

/-- Scanning fails exactly on texts with an illegal character. The error then has the first of them,
the number of bytes and one more than the number of line feeds before it, and the tokens are those
of the text in front of it. The same comes out when words are matched from any class of characters
that has the letters and no other legal character, and are cut afterwards. -/
theorem ofText_error_at_first_illegal (code : String) :
    ((∃ e, (ofText code).error = some (.illegal e)) ↔ ∃ c ∈ code.toList, ¬ IsLegal c) ∧
    (∀ before c after, code.toList = before ++ c :: after → (∀ x ∈ before, IsLegal x) →
      ¬ IsLegal c → (ofText (String.ofList before)).error = none ∧
        ofText code = ⟨(ofText (String.ofList before)).tokens,
          some (.illegal ⟨String.ofList [c], utf8Length before, some (1 + lineFeeds before)⟩)⟩) ∧
    ∀ wide, WordClass wide → ofMatches wide code = ofText code := by
  refine ⟨?_, ?_, fun wide hwide => matchFrom_eq_scan hwide {} code.toList⟩
  · obtain ⟨err, herr⟩ := exists_error_ofLexemes {} (Lexeme.split code.toList)
    have hlegal := error_scan_eq_none_iff {} code.toList
    rw [scan, herr] at hlegal
    rw [ofText_eq_scan, scan, herr]
    cases err with
    | none => simpa using hlegal
    | some e => simpa using hlegal
  · intro before c after hcode hb hc
    rw [ofText_eq_scan, ofText_eq_scan, String.toList_ofList, hcode, error_scan_eq_none_iff,
      scan_append_illegal {} hb hc]
    refine ⟨hb, ?_⟩
    simp [Position.after]

/-- A raised two after letters is illegal, whether or not words are matched over it. -/
theorem ofMatches_raised_two :
    let code := "é = ab²c #"
    ofMatches (fun c => isLetter c || c == '²') code =
        ⟨[⟨.ident, some "é", 1, 0⟩, ⟨.assign, some "=", 1, 3⟩, ⟨.ident, some "ab", 1, 5⟩],
          some (.illegal ⟨"²", 7, some 1⟩)⟩ ∧
      ∃ e, (ofText code).error = some (.illegal e) := by
  intro code
  have hlegal : ¬ IsLegal '²' := by decide +kernel
  have hwide : WordClass fun c => isLetter c || c == '²' := by
    constructor
    · intro c h
      simp [h]
    · intro c h hl
      by_contra hn
      obtain rfl : c = '²' := by simpa [hn] using h
      exact hlegal hl
  have hall : ("é = ab".toList.all fun c => decide (IsLegal c)) = true := by decide +kernel
  have hbefore : ∀ c ∈ "é = ab".toList, IsLegal c := fun c hc =>
    of_decide_eq_true (List.all_eq_true.mp hall c hc)
  obtain ⟨hiff, hfirst, hsame⟩ := ofText_error_at_first_illegal code
  rw [hsame _ hwide]
  refine ⟨?_, hiff.mpr ⟨'²', by decide, hlegal⟩⟩
  rw [(hfirst "é = ab".toList '²' "c #".toList (by decide) hbefore hlegal).2]
  decide +kernel

end TokenFeed

end SumLang
