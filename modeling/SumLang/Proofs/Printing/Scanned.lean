import SumLang.Proofs.Reading.SourceShape
import SumLang.Syntax.Printer

/-!
# Scanning formatted text

The text of well-written syntax is scanned as the tokens of a derivation, and the
derivation stands for that syntax up to lines and up to nesting each chain of additions
to the right. The facts are stated for a text in front of a further text, so that they
compose in the order in which the formatted text is laid out.
-/

namespace SumLang

/-! ### Texts in front of a further text -/

/-- The text does not start with a character that can prolong a word or a number. -/
def Separate (s : List Char) : Prop :=
  ∀ c ∈ s.head?, CharClass.ofChar c ≠ .letter ∧ CharClass.ofChar c ≠ .digit

private theorem separate_cons {c : Char} {s : List Char} (hl : CharClass.ofChar c ≠ .letter)
    (hd : CharClass.ofChar c ≠ .digit) : Separate (c :: s) := by
  intro d h
  rw [List.head?_cons, Option.mem_def] at h
  rw [← Option.some.inj h]
  exact ⟨hl, hd⟩

private theorem separate_blank {c : Char} {s : List Char} (h : isBlank c = true) :
    Separate (c :: s) := by
  have hc := CharClass.ofChar_of_isBlank h
  exact separate_cons (by rw [hc]; nofun) (by rw [hc]; nofun)

private theorem separate_symbol {c : Char} {k : Kind} {s : List Char}
    (h : Kind.ofSymbol? c = some k) : Separate (c :: s) := by
  have hc := CharClass.ofChar_of_ofSymbol? h
  exact separate_cons (by rw [hc]; nofun) (by rw [hc]; nofun)

/-- From every place on, the text is scanned to its end, its numbers fit, and its tokens satisfy
`Q`. -/
def Scanned (s : List Char) (Q : List Token → Prop) : Prop :=
  ∀ p, ∃ ts, TokenFeed.scan p s = ⟨ts, none⟩ ∧ (∀ t ∈ ts, t.Fits) ∧ Q ts

namespace Scanned

variable {s : List Char} {Q : List Token → Prop}

/-- No characters scan as no tokens. -/
theorem nil (h : Q []) : Scanned [] Q := fun p => ⟨[], TokenFeed.scan_nil p, nofun, h⟩

/-- What holds of the scanned tokens can be weakened. -/
theorem mono {R : List Token → Prop} (h : Scanned s R) (hq : ∀ ts, R ts → Q ts) : Scanned s Q := by
  intro p
  obtain ⟨ts, hs, hf, hr⟩ := h p
  exact ⟨ts, hs, hf, hq ts hr⟩

/-- A blank in front adds no token. -/
theorem blank {c : Char} (hc : isBlank c = true) (h : Scanned s Q) : Scanned (c :: s) Q := by
  intro p
  rw [TokenFeed.scan_blank p hc]
  exact h _

/-- A piece of text that is scanned as one token. -/
theorem token {w : List Char} {R : Token → Prop}
    (hw : ∀ p, ∃ t, TokenFeed.scan p (w ++ s) = (TokenFeed.scan (p.after w) s).cons t ∧
      t.Fits ∧ R t)
    (h : Scanned s fun ts => ∀ t, R t → Q (t :: ts)) : Scanned (w ++ s) Q := by
  intro p
  obtain ⟨t, ht, hfit, hr⟩ := hw p
  obtain ⟨ts, hs, hf, hq⟩ := h (p.after w)
  refine ⟨t :: ts, ?_, List.forall_mem_cons.mpr ⟨hfit, hf⟩, hq t hr⟩
  rw [ht, hs, TokenFeed.cons]

/-- A symbol in front adds its token. -/
theorem symbol {c : Char} {k : Kind} (hk : Kind.ofSymbol? c = some k)
    (h : Scanned s fun ts => ∀ t : Leaf k, Q (t.1 :: ts)) : Scanned (c :: s) Q := by
  have hn := (Kind.ofSymbol?_ne hk).2.1
  refine token (w := [c]) (R := fun t => t.kind = k) (fun p => ?_)
    (h.mono fun ts hq t ht => hq ⟨t, ht⟩)
  exact ⟨_, TokenFeed.scan_symbol p hk s, fun hk => absurd hk hn, rfl⟩

/-- A word is scanned as one token with its text. -/
theorem word {w : List Char} (hne : w ≠ []) (hw : ∀ c ∈ w, isLetter c = true) (hs : Separate s)
    (h : Scanned s fun ts => ∀ t : Leaf (.ofWord w), t.1.text = some (String.ofList w : Text) →
      Q (t.1 :: ts)) : Scanned (w ++ s) Q := by
  refine token (R := fun t => t.kind = .ofWord w ∧ t.text = some (String.ofList w : Text))
    (fun p => ?_)
    (h.mono fun ts hq t ht => hq ⟨t, ht.1⟩ ht.2)
  exact ⟨_, TokenFeed.scan_word p hne hw fun c hc => (hs c hc).1,
    fun hk => absurd hk (Kind.ofWord_ne w).2, rfl, rfl⟩

/-- A name is scanned as one token with its text. -/
theorem name {x : Name} (hx : x.IsWord) (hs : Separate s)
    (h : Scanned s fun ts => ∀ t : Leaf .ident, t.1.text = x → Q (t.1 :: ts)) :
    Scanned (x.shown.toList ++ s) Q := by
  obtain ⟨w, rfl, hne, hw, hk⟩ := hx
  have hident : Kind.ofWord w.toList = .ident := by
    rwa [Kind.ofWord_eq_ident_iff, String.ofList_toList]
  have hne' : w.toList ≠ [] := fun hnil => hne (String.toList_eq_nil_iff.mp hnil)
  refine word hne' hw hs (h.mono fun ts hq t ht => ?_)
  rw [String.ofList_toList] at ht
  exact hq ⟨t.1, t.2.trans hident⟩ ht

/-- The decimal digits of a word of 32 bits are scanned as one token with its value. -/
theorem number {n : Nat} (hn : n ≤ maxWord) (hs : Separate s)
    (h : Scanned s fun ts => ∀ t : Leaf .number, decimalValue t.1.word.toList = n →
      Q (t.1 :: ts)) : Scanned ((Value.int n).display.toList ++ s) Q := by
  have hdigits : (Value.int n).display.toList = Nat.toDigits 10 n := Nat.toList_repr
  have hvalue : decimalValue (Nat.toDigits 10 n) = n := Nat.ofDigitChars_ten_toDigits
  rw [hdigits]
  refine token (R := fun t => t.kind = .number ∧ decimalValue t.word.toList = n) (fun p => ?_)
    (h.mono fun ts hq t ht => hq ⟨t, ht.1⟩ ht.2)
  have hd : ∀ c ∈ Nat.toDigits 10 n, c.isDigit = true := fun c hc =>
    Nat.isDigit_of_mem_toDigits (by decide) (Nat.le_refl 10) hc
  have hscan := TokenFeed.scan_number p Nat.toDigits_ne_nil hd fun c hc => (hs c hc).2
  refine ⟨_, hscan, fun _ => ?_, rfl, ?_⟩
  · rw [Token.word_eq rfl, String.toList_ofList, hvalue]
    exact hn
  · rw [Token.word_eq rfl, String.toList_ofList, hvalue]

/-- A keyword is scanned as one token of its kind. -/
theorem keyword {w : List Char} {k : Kind}
    (hw : w ≠ [] ∧ w.all isLetter = true ∧ Kind.ofWord w = k) (hs : Separate s)
    (h : Scanned s fun ts => ∀ t : Leaf k, Q (t.1 :: ts)) : Scanned (w ++ s) Q := by
  obtain ⟨hne, hl, rfl⟩ := hw
  exact word hne (List.all_eq_true.mp hl) hs (h.mono fun ts hq t _ => hq t)

end Scanned

/-! ### Derivations of chains -/

/-- Continues an expression by a plus sign and a further expression. -/
def ExprDerivation.join : ExprDerivation → Leaf .plus → ExprDerivation → ExprDerivation
  | .single p, sign, e => .sum p sign e
  | .sum p first e, sign, e' => .sum p first (e.join sign e')

private theorem ExprDerivation.tokens_join : ∀ (d : ExprDerivation) (sign : Leaf .plus)
    (e : ExprDerivation), (d.join sign e).tokens = d.tokens ++ sign.1 :: e.tokens
  | .single p, sign, e => by rw [join, tokens, tokens]
  | .sum p first d, sign, e => by
    rw [join, tokens, tokens_join d sign e, tokens, List.append_assoc, List.cons_append]

/-- Joining derivations joins the chains of additions they stand for. -/
theorem ExprDerivation.toExpr_join : ∀ (d : ExprDerivation) (sign : Leaf .plus)
    (e : ExprDerivation), (d.join sign e).toExpr = d.toExpr.plus e.toExpr sign.1.line
  | .single p, sign, e => by rw [join, toExpr, toExpr, Expr.plus_of_not_isSum p.isSum_toExpr]
  | .sum p first d, sign, e => by
    rw [join, toExpr, toExpr_join d sign e, toExpr, Expr.plus]

/-! ### Expressions -/

/-- The derivation stands for the expression up to lines and the nesting of sums. -/
def ExprDerivation.StandsFor (d : ExprDerivation) (e : Expr) : Prop :=
  d.toExpr.eraseLines = e.rightNest.eraseLines

/-- The derivation stands for the arguments up to lines and the nesting of sums. -/
def ArgsDerivation.StandsFor (d : ArgsDerivation) (es : List Expr) : Prop :=
  Expr.eraseLinesAll d.toExprs = Expr.eraseLinesAll (Expr.rightNestAll es)

/-- Derivations joined by a sign stand for the sum. -/
theorem ExprDerivation.StandsFor.join {d d' : ExprDerivation} {lhs rhs : Expr}
    (h : d.StandsFor lhs) (h' : d'.StandsFor rhs) (sign : Leaf .plus) (line : Int) :
    (d.join sign d').StandsFor (.add lhs rhs line) := by
  rw [StandsFor, toExpr_join, Expr.eraseLines_plus, h, h', Expr.rightNest, Expr.eraseLines_plus]

mutual

/-- The text of an expression is scanned as a derivation that stands for it. -/
theorem Expr.scanned_format : ∀ (e : Expr), e.WellWritten → ∀ {s : List Char}
    {Q : List Token → Prop}, Separate s →
    (Scanned s fun ts => ∀ d : ExprDerivation, d.StandsFor e → Q (d.tokens ++ ts)) →
    Scanned (e.format.toList ++ s) Q
  | .lit value line, ⟨n, hv, hn⟩, s, Q, hs, h => by
    subst hv
    refine Scanned.number hn hs (h.mono fun ts hq t ht => hq (.single (.integer t)) ?_)
    rw [ExprDerivation.StandsFor, ExprDerivation.toExpr, PrimaryDerivation.toExpr, ht]
    rfl
  | .var x line, hx, s, Q, hs, h => by
    refine Scanned.name hx hs (h.mono fun ts hq t ht => hq (.single (.name t)) ?_)
    rw [ExprDerivation.StandsFor, ExprDerivation.toExpr, PrimaryDerivation.toExpr, ht]
    rfl
  | .add lhs rhs line, ⟨hl, hr⟩, s, Q, hs, h => by
    have htext : (Expr.add lhs rhs line).format.toList ++ s =
        lhs.format.toList ++ ' ' :: '+' :: ' ' :: (rhs.format.toList ++ s) := by
      simp [Expr.format]
    rw [htext]
    refine lhs.scanned_format hl (separate_blank rfl) (Scanned.blank rfl ?_)
    refine Scanned.symbol rfl (Scanned.blank rfl (rhs.scanned_format hr hs ?_))
    refine h.mono fun ts hq d' hd' sign d hd => ?_
    have hjoin := hq (d.join sign d') (hd.join hd' sign line)
    rwa [ExprDerivation.tokens_join, List.append_assoc, List.cons_append] at hjoin
  | .call x [] line, ⟨hx, _⟩, s, Q, hs, h => by
    have htext : (Expr.call x [] line).format.toList ++ s =
        x.shown.toList ++ '(' :: ')' :: s := by
      simp [Expr.format, Expr.formatAll]
    rw [htext]
    refine Scanned.name hx (separate_symbol rfl) (Scanned.symbol rfl (Scanned.symbol rfl ?_))
    refine h.mono fun ts hq closing opening t ht => hq (.single (.bareCall t opening closing)) ?_
    rw [ExprDerivation.StandsFor, ExprDerivation.toExpr, PrimaryDerivation.toExpr, ht]
    rfl
  | .call x (e :: es) line, ⟨hx, hes⟩, s, Q, hs, h => by
    have htext : (Expr.call x (e :: es) line).format.toList ++ s = x.shown.toList ++
        '(' :: ((", ".intercalate (Expr.formatAll (e :: es))).toList ++ ')' :: s) := by
      simp [Expr.format]
    rw [htext]
    refine Scanned.name hx (separate_symbol rfl) (Scanned.symbol rfl ?_)
    refine Expr.scanned_formatAll (e :: es) hes (List.cons_ne_nil e es) (separate_symbol rfl) ?_
    refine Scanned.symbol rfl ?_
    refine h.mono fun ts hq closing args hargs opening t ht => ?_
    have hcall := hq (.single (.call t opening args closing)) (by
      rw [ExprDerivation.StandsFor, ExprDerivation.toExpr, PrimaryDerivation.toExpr, ht,
        Expr.eraseLines, hargs]
      rfl)
    simpa [ExprDerivation.tokens, PrimaryDerivation.tokens] using hcall

/-- The text of arguments, separated by commas, is scanned as a derivation that stands for them. -/
theorem Expr.scanned_formatAll : ∀ (es : List Expr), Expr.WellWrittenAll es → es ≠ [] →
    ∀ {s : List Char} {Q : List Token → Prop}, Separate s →
    (Scanned s fun ts => ∀ d : ArgsDerivation, d.StandsFor es → Q (d.tokens ++ ts)) →
    Scanned ((", ".intercalate (Expr.formatAll es)).toList ++ s) Q
  | [e], ⟨he, _⟩, _, s, Q, hs, h => by
    have htext : (", ".intercalate (Expr.formatAll [e])).toList = e.format.toList := by
      simp [Expr.formatAll]
    rw [htext]
    refine e.scanned_format he hs (h.mono fun ts hq d hd => hq (.last d) ?_)
    exact congrArg (· :: []) hd
  | e :: e' :: es, ⟨he, hes⟩, _, s, Q, hs, h => by
    have htext : (", ".intercalate (Expr.formatAll (e :: e' :: es))).toList ++ s =
        e.format.toList ++ ',' :: ' ' ::
          ((", ".intercalate (Expr.formatAll (e' :: es))).toList ++ s) := by
      simp [Expr.formatAll]
    rw [htext]
    refine e.scanned_format he (separate_symbol rfl) (Scanned.symbol rfl (Scanned.blank rfl ?_))
    refine Expr.scanned_formatAll (e' :: es) hes (List.cons_ne_nil e' es) hs ?_
    refine h.mono fun ts hq rest hrest comma d hd => ?_
    have hmore : (ArgsDerivation.more d comma rest).StandsFor (e :: e' :: es) := by
      rw [ArgsDerivation.StandsFor] at hrest
      rw [ArgsDerivation.StandsFor, ArgsDerivation.toExprs, Expr.eraseLinesAll, hd, hrest]
      rfl
    have hq' := hq _ hmore
    rwa [ArgsDerivation.tokens, List.append_assoc, List.cons_append] at hq'

end

/-! ### Statements and blocks -/

/-- The text of a statement is scanned as a derivation that stands for it. -/
theorem Stmt.scanned_format {stmt : Stmt} (hw : stmt.WellWritten) {s : List Char}
    {Q : List Token → Prop} (h : Scanned s fun ts => ∀ d : StmtDerivation,
      d.toStmt.eraseLines = stmt.rightNest.eraseLines → Q (d.tokens ++ ts)) :
    Scanned (stmt.format.toList ++ s) Q := by
  cases stmt with
  | decl x value line =>
    have htext : (Stmt.decl x value line).format.toList ++ s = "var".toList ++ ' ' ::
        (x.shown.toList ++ ' ' :: '=' :: ' ' :: (value.format.toList ++ ';' :: s)) := by
      simp [Stmt.format]
    rw [htext]
    refine Scanned.keyword (k := .varWord) (by decide +kernel) (separate_blank rfl) ?_
    refine Scanned.blank rfl (Scanned.name hw.1 (separate_blank rfl) ?_)
    refine Scanned.blank rfl (Scanned.symbol rfl ?_)
    refine Scanned.blank rfl (value.scanned_format hw.2 (separate_symbol rfl) ?_)
    refine Scanned.symbol rfl ?_
    refine h.mono fun ts hq semi d hd sign t ht word => ?_
    have hq' := hq (.decl word t sign d semi) (by
      rw [StmtDerivation.toStmt, Stmt.eraseLines, hd, ht]
      rfl)
    simpa [StmtDerivation.tokens] using hq'
  | assign x value line =>
    have htext : (Stmt.assign x value line).format.toList ++ s =
        x.shown.toList ++ ' ' :: '=' :: ' ' :: (value.format.toList ++ ';' :: s) := by
      simp [Stmt.format]
    rw [htext]
    refine Scanned.name hw.1 (separate_blank rfl) (Scanned.blank rfl (Scanned.symbol rfl ?_))
    refine Scanned.blank rfl (value.scanned_format hw.2 (separate_symbol rfl) ?_)
    refine Scanned.symbol rfl ?_
    refine h.mono fun ts hq semi d hd sign t ht => ?_
    have hq' := hq (.assign t sign d semi) (by
      rw [StmtDerivation.toStmt, Stmt.eraseLines, hd, ht]
      rfl)
    simpa [StmtDerivation.tokens] using hq'
  | ret value line =>
    have htext : (Stmt.ret value line).format.toList ++ s =
        "return".toList ++ ' ' :: (value.format.toList ++ ';' :: s) := by
      simp [Stmt.format]
    rw [htext]
    refine Scanned.keyword (k := .returnWord) (by decide +kernel) (separate_blank rfl) ?_
    refine Scanned.blank rfl (value.scanned_format hw (separate_symbol rfl) ?_)
    refine Scanned.symbol rfl ?_
    refine h.mono fun ts hq semi d hd word => ?_
    have hq' := hq (.ret word d semi) (by
      rw [StmtDerivation.toStmt, Stmt.eraseLines, hd]
      rfl)
    simpa [StmtDerivation.tokens] using hq'
  | alien tag fields line => exact hw.elim

/-- The characters of a statement on a line of its own. -/
def Stmt.lineText (stmt : Stmt) : List Char :=
  '\n' :: ' ' :: ' ' :: ' ' :: ' ' :: stmt.format.toList

/-- The lines of a block are scanned as derivations that stand for its statements. -/
theorem Stmt.scanned_lines {body : List Stmt} (hw : ∀ stmt ∈ body, stmt.WellWritten)
    {s : List Char} {Q : List Token → Prop} (h : Scanned s fun ts => ∀ ds : List StmtDerivation,
      ds.map (·.toStmt.eraseLines) = body.map (·.rightNest.eraseLines) →
        Q (ds.flatMap StmtDerivation.tokens ++ ts)) :
    Scanned (body.flatMap Stmt.lineText ++ s) Q := by
  induction body generalizing Q with
  | nil => exact h.mono fun ts hq => hq [] rfl
  | cons stmt body ih =>
    rw [List.forall_mem_cons] at hw
    have htext : (stmt :: body).flatMap Stmt.lineText ++ s =
        '\n' :: ' ' :: ' ' :: ' ' :: ' ' ::
          (stmt.format.toList ++ (body.flatMap Stmt.lineText ++ s)) := by
      simp [Stmt.lineText]
    rw [htext]
    refine Scanned.blank rfl (Scanned.blank rfl (Scanned.blank rfl ?_))
    refine Scanned.blank rfl (Scanned.blank rfl ?_)
    refine Stmt.scanned_format hw.1 (ih hw.2 ?_)
    refine h.mono fun ts hq ds hds d hd => ?_
    have hq' := hq (d :: ds) (by rw [List.map_cons, List.map_cons, hd, hds])
    rwa [List.flatMap_cons, List.append_assoc] at hq'

/-- Texts that are joined: the first, and each further one after the separator. -/
theorem toList_intercalate_cons (sep x : String) (xs : List String) :
    (sep.intercalate (x :: xs)).toList =
      x.toList ++ xs.flatMap fun y => sep.toList ++ y.toList := by
  induction xs generalizing x with
  | nil => simp
  | cons y ys ih =>
    rw [String.intercalate_cons_cons, String.toList_append, String.toList_append, ih,
      List.flatMap_cons, List.append_assoc, List.append_assoc]

/-- A block is laid out line by line. -/
theorem toList_formatBlock (head : String) (body : List Stmt) :
    (formatBlock head body).toList =
      head.toList ++ ' ' :: '\x7b' :: (body.flatMap Stmt.lineText ++ ['\n', '\x7d']) := by
  have hline (stmt : Stmt) :
      "\n".toList ++ ("    " ++ stmt.format).toList = stmt.lineText := by
    simp [Stmt.lineText]
  rw [formatBlock, toList_intercalate_cons, List.flatMap_append, List.flatMap_map]
  simp only [hline]
  simp

/-- The braces of a block and the lines between them are scanned as a derivation. -/
theorem scanned_block {body : List Stmt} (hw : ∀ stmt ∈ body, stmt.WellWritten) {s : List Char}
    {Q : List Token → Prop} (h : Scanned s fun ts => ∀ b : BlockDerivation,
      b.toStmts.map Stmt.eraseLines = (body.map Stmt.rightNest).map Stmt.eraseLines →
        Q (b.tokens ++ ts)) :
    Scanned (' ' :: '\x7b' :: (body.flatMap Stmt.lineText ++ '\n' :: '\x7d' :: s)) Q := by
  refine Scanned.blank rfl (Scanned.symbol rfl ?_)
  refine Stmt.scanned_lines hw (Scanned.blank rfl (Scanned.symbol rfl ?_))
  refine h.mono fun ts hq closing ds hds opening => ?_
  have hq' := hq ⟨opening, ds, closing⟩ (by
    rw [BlockDerivation.toStmts, List.map_map, List.map_map]
    exact hds)
  simpa [BlockDerivation.tokens] using hq'

/-! ### Items -/

/-- The parameters after the first, each with a comma in front, are scanned as a derivation. -/
theorem Name.scanned_more {xs : List Name} (hw : ∀ x ∈ xs, Name.IsWord x) {s : List Char}
    {Q : List Token → Prop} (hs : Separate s)
    (h : Scanned s fun ts => ∀ ps : List (Leaf .comma × Leaf .ident),
      ps.map (·.2.1.text) = xs → Q (ps.flatMap moreParamTokens ++ ts)) :
    Scanned (xs.flatMap (fun x => ',' :: ' ' :: x.shown.toList) ++ s) Q := by
  induction xs generalizing Q with
  | nil => exact h.mono fun ts hq => hq [] rfl
  | cons x xs ih =>
    rw [List.forall_mem_cons] at hw
    have hnext : Separate (xs.flatMap (fun x => ',' :: ' ' :: x.shown.toList) ++ s) := by
      cases xs with
      | nil => exact hs
      | cons y ys => exact separate_symbol rfl
    rw [List.flatMap_cons, List.cons_append, List.cons_append, List.cons_append, List.cons_append,
      List.append_assoc]
    refine Scanned.symbol rfl (Scanned.blank rfl (Scanned.name hw.1 hnext (ih hw.2 ?_)))
    refine h.mono fun ts hq ps hps t ht comma => ?_
    exact hq ((comma, t) :: ps) (by rw [List.map_cons, hps, ht])

/-- The parameters of a function are scanned as a derivation. -/
theorem Name.scanned_params {xs : List Name} (hw : ∀ x ∈ xs, Name.IsWord x) {s : List Char}
    {Q : List Token → Prop} (hs : Separate s)
    (h : Scanned s fun ts => ∀ ps : Option ParamsDerivation,
      paramNames ps = xs → Q (paramTokens ps ++ ts)) :
    Scanned ((", ".intercalate (xs.map Name.shown)).toList ++ s) Q := by
  cases xs with
  | nil => exact h.mono fun ts hq => hq none rfl
  | cons x xs =>
    rw [List.forall_mem_cons] at hw
    rw [List.map_cons, toList_intercalate_cons, List.flatMap_map, List.append_assoc]
    refine Scanned.name hw.1 ?_ (Name.scanned_more hw.2 hs ?_)
    · cases xs with
      | nil => exact hs
      | cons y ys => exact separate_symbol rfl
    · refine h.mono fun ts hq ps hps t ht => ?_
      exact hq (some ⟨t, ps⟩) (by rw [paramNames, hps, ht])

/-- The text of an item is scanned as a derivation that stands for it. -/
theorem Item.scanned_format {i : Item} (hw : i.WellWritten) {s : List Char}
    {Q : List Token → Prop} (h : Scanned s fun ts => ∀ d : ItemDerivation,
      d.toItem.eraseLines = i.rightNest.eraseLines → Q (d.tokens ++ ts)) :
    Scanned (i.format.toList ++ s) Q := by
  cases i with
  | entry body line =>
    have htext : (Item.entry body line).format.toList ++ s = "begin".toList ++
        ' ' :: '\x7b' :: (body.flatMap Stmt.lineText ++ '\n' :: '\x7d' :: s) := by
      simp [Item.format, toList_formatBlock]
    rw [htext]
    refine Scanned.keyword (k := .beginWord) (by decide +kernel) (separate_blank rfl) ?_
    refine scanned_block hw (h.mono fun ts hq b hb word => ?_)
    exact hq (.entry word b) (by
      rw [ItemDerivation.toItem, Item.eraseLines, hb]
      rfl)
  | func x params body line =>
    have htext : (Item.func x params body line).format.toList ++ s = "func".toList ++ ' ' ::
        (x.shown.toList ++ '(' :: ((", ".intercalate (params.map Name.shown)).toList ++ ')' ::
          ' ' :: '\x7b' :: (body.flatMap Stmt.lineText ++ '\n' :: '\x7d' :: s))) := by
      simp [Item.format, toList_formatBlock]
    rw [htext]
    refine Scanned.keyword (k := .funcWord) (by decide +kernel) (separate_blank rfl) ?_
    refine Scanned.blank rfl (Scanned.name hw.1 (separate_symbol rfl) ?_)
    refine Scanned.symbol rfl ?_
    refine Name.scanned_params hw.2.1 (separate_symbol rfl) (Scanned.symbol rfl ?_)
    refine scanned_block hw.2.2 (h.mono fun ts hq b hb closing ps hps opening t ht word => ?_)
    have hq' := hq (.func word t opening ps closing b) (by
      rw [ItemDerivation.toItem, Item.eraseLines, hb, hps, ht]
      rfl)
    simpa [ItemDerivation.tokens] using hq'
  | alien tag fields line => exact hw.elim

/-- The items after the first, each after a blank line, are scanned as derivations. -/
theorem Item.scanned_more {items : List Item} (hw : ∀ i ∈ items, i.WellWritten) :
    Scanned (items.flatMap fun i => '\n' :: '\n' :: i.format.toList) fun ts =>
      ∃ ds : List ItemDerivation, ds.flatMap ItemDerivation.tokens = ts ∧
        ds.map (·.toItem.eraseLines) = items.map (·.rightNest.eraseLines) := by
  induction items with
  | nil => exact Scanned.nil ⟨[], rfl, rfl⟩
  | cons i items ih =>
    rw [List.forall_mem_cons] at hw
    rw [List.flatMap_cons, List.cons_append, List.cons_append]
    refine Scanned.blank rfl (Scanned.blank rfl (Item.scanned_format hw.1 ((ih hw.2).mono ?_)))
    rintro ts ⟨ds, rfl, hds⟩ d hd
    exact ⟨d :: ds, List.flatMap_cons, by rw [List.map_cons, List.map_cons, hd, hds]⟩

/-- The text of some items is scanned as derivations that stand for them. -/
theorem scanned_formatItems {items : List Item} (hw : ∀ i ∈ items, i.WellWritten) :
    Scanned (formatItems items).toList fun ts =>
      ∃ ds : List ItemDerivation, ds.flatMap ItemDerivation.tokens = ts ∧
        ds.map (·.toItem.eraseLines) = items.map (·.rightNest.eraseLines) := by
  cases items with
  | nil => exact Scanned.nil ⟨[], rfl, rfl⟩
  | cons i items =>
    rw [List.forall_mem_cons] at hw
    rw [formatItems, List.map_cons, toList_intercalate_cons, List.flatMap_map]
    refine Item.scanned_format hw.1 ((Item.scanned_more hw.2).mono ?_)
    rintro ts ⟨ds, rfl, hds⟩ d hd
    exact ⟨d :: ds, List.flatMap_cons, by rw [List.map_cons, List.map_cons, hd, hds]⟩

end SumLang
