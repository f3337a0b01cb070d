import Mathlib.Tactic.SplitIfs
import SumLang.Proofs.Reading.Derivation
import SumLang.Proofs.Token.Scan

/-!
# What can be completed

Tokens begin a derivation when further tokens of a text complete them to one. Every rule
of the grammar is completed in the simplest way: a zero for an expression, nothing for
arguments, parameters and statements. So each place of a rule can be completed behind any
token that the rule allows there.
-/

namespace SumLang

/-! ### Tokens of a text -/

namespace Kind

/-- A symbol is no end mark, no number and no name. -/
theorem ofSymbol?_ne {c : Char} {k : Kind} (h : ofSymbol? c = some k) :
    k ≠ .eof ∧ k ≠ .number ∧ k ≠ .ident := by
  unfold ofSymbol? at h
  split at h <;> simp_all <;> simp [← h]

/-- A word is no end mark and no number. -/
theorem ofWord_ne (w : List Char) : ofWord w ≠ .eof ∧ ofWord w ≠ .number := by
  unfold ofWord
  split_ifs <;> simp

end Kind

/-- The value of a number token fits into a word. -/
def Token.Fits (t : Token) : Prop := t.kind = .number → decimalValue t.word.toList ≤ maxWord

/-- A token of a text whose number, if it is one, fits into a word. -/
def Token.Sound (t : Token) : Prop := t.Lexed ∧ t.Fits

/-- The error asks for this token: it is a token of a text, of a kind that is named, and a number
fits into a word. -/
def Expectation.Admits : Expectation → Token → Prop
  | .oneOf kinds, u => u.kind ∈ kinds ∧ u.Sound
  | .wordLiteral, u => u.kind = .number ∧ u.Sound
  | .text _, _ => False

/-- What an error asks for is a token of a text. -/
theorem Expectation.Admits.sound {e : Expectation} {u : Token} (h : e.Admits u) : u.Sound := by
  cases e with
  | oneOf kinds => exact h.2
  | wordLiteral => exact h.2
  | text s => exact h.elim

/-- There is a token of a text for each kind that a text can have, with a number that fits. -/
theorem exists_sound_leaf (k : Kind) (hk : k ∈ Kind.proper ∧ k ≠ .eof) :
    ∃ t : Leaf k, t.1.Sound := by
  have hfits {t : Token} (h : t.kind ≠ .number) : t.Fits := fun hn => absurd hn h
  have hword {w : List Char} (hne : w ≠ []) (hw : w.all isLetter = true) :
      ∃ t : Leaf (.ofWord w), t.1.Sound :=
    ⟨⟨⟨.ofWord w, some (String.ofList w), 0, 0⟩, rfl⟩,
      .word hne (List.all_eq_true.mp hw) 0 0, hfits (Kind.ofWord_ne w).2⟩
  have hsymbol {c : Char} {k : Kind} (h : Kind.ofSymbol? c = some k) : ∃ t : Leaf k, t.1.Sound :=
    ⟨⟨⟨k, some (String.ofList [c]), 0, 0⟩, rfl⟩, .symbol h 0 0, hfits (Kind.ofSymbol?_ne h).2.1⟩
  cases k with
  | beginWord => exact hword (w := "begin".toList) (by decide) (by decide +kernel)
  | varWord => exact hword (w := "var".toList) (by decide) (by decide +kernel)
  | funcWord => exact hword (w := "func".toList) (by decide) (by decide +kernel)
  | returnWord => exact hword (w := "return".toList) (by decide) (by decide +kernel)
  | ident => exact hword (w := ['x']) (by decide) (by decide +kernel)
  | number =>
    exact ⟨⟨⟨.number, some (String.ofList ['0']), 0, 0⟩, rfl⟩,
      .number (List.cons_ne_nil _ _) (by simp) 0 0, fun _ => by decide⟩
  | lbrace => exact hsymbol (c := '\x7b') rfl
  | rbrace => exact hsymbol (c := '\x7d') rfl
  | lparen => exact hsymbol (c := '(') rfl
  | rparen => exact hsymbol (c := ')') rfl
  | comma => exact hsymbol (c := ',') rfl
  | semi => exact hsymbol (c := ';') rfl
  | assign => exact hsymbol (c := '=') rfl
  | plus => exact hsymbol (c := '+') rfl
  | eof => exact absurd rfl hk.2
  | other => simp [Kind.proper] at hk

/-! ### Beginnings -/

/-- Some derivation yields the tokens `front` and, after them, tokens of a text. -/
def Begins {δ : Type} (tokens : δ → List Token) (front : List Token) : Prop :=
  ∃ d more, tokens d = front ++ more ∧ ∀ t ∈ more, t.Sound

namespace Begins

variable {δ δ' : Type} {tokens : δ → List Token} {tokens' : δ' → List Token}

/-- All tokens of a derivation begin it. -/
theorem of_eq (d : δ) {front : List Token} (h : tokens d = front) : Begins tokens front :=
  ⟨d, [], by rw [h, List.append_nil], nofun⟩

/-- What begins a part of a larger derivation begins the larger one, with the tokens `post` behind
the part. -/
theorem extend {front front' : List Token} (h : Begins tokens front) (post : List Token)
    (hpost : ∀ t ∈ post, t.Sound) (hd : ∀ d more, tokens d = front ++ more →
      ∃ d', tokens' d' = front' ++ (more ++ post)) : Begins tokens' front' := by
  obtain ⟨d, more, heq, hmore⟩ := h
  obtain ⟨d', hd'⟩ := hd d more heq
  exact ⟨d', more ++ post, hd', List.forall_mem_append.mpr ⟨hmore, hpost⟩⟩

/-- What begins the last part of a larger derivation begins the larger one after the other parts. -/
theorem embed {front front' : List Token} (h : Begins tokens front)
    (hd : ∀ d more, tokens d = front ++ more → ∃ d', tokens' d' = front' ++ more) :
    Begins tokens' front' := by
  obtain ⟨d, more, heq, hmore⟩ := h
  obtain ⟨d', hd'⟩ := hd d more heq
  exact ⟨d', more, hd', hmore⟩

/-- What can be completed after some tokens of a text can be completed before them. -/
theorem drop (front : List Token) {more : List Token} (h : Begins tokens (front ++ more))
    (hmore : ∀ t ∈ more, t.Sound) : Begins tokens front := by
  obtain ⟨d, more', heq, hmore'⟩ := h
  exact ⟨d, more ++ more', by rw [heq, List.append_assoc],
    List.forall_mem_append.mpr ⟨hmore, hmore'⟩⟩

/-- What begins a part begins a list of such parts. -/
theorem head {front : List Token} (h : Begins tokens front) :
    Begins (fun ds : List δ => ds.flatMap tokens) front :=
  h.embed fun d more hd => ⟨[d], by simp [hd]⟩

/-- What begins a list of parts begins it after one more part. -/
theorem cons (d : δ) {front : List Token}
    (h : Begins (fun ds : List δ => ds.flatMap tokens) front) :
    Begins (fun ds : List δ => ds.flatMap tokens) (tokens d ++ front) :=
  h.embed fun ds more hds => ⟨d :: ds, by simp [hds]⟩

end Begins

/-! ### Expressions -/

/-- The tokens of arguments and of the parenthesis that closes them. -/
def closedTokens (d : ArgsDerivation × Leaf .rparen) : List Token := d.1.tokens ++ [d.2.1]

/-- An expression can be completed from nothing. -/
theorem begins_expr : Begins ExprDerivation.tokens [] := by
  obtain ⟨t, ht⟩ := exists_sound_leaf .number (by decide)
  exact ⟨.single (.integer t), [t.1], rfl, List.forall_mem_singleton.mpr ht⟩

/-- An expression can be completed wherever its first primary can be. -/
theorem begins_single {l : List Token} (h : Begins PrimaryDerivation.tokens l) :
    Begins ExprDerivation.tokens l :=
  h.embed fun d more hd => ⟨.single d, by simp [ExprDerivation.tokens, hd]⟩

/-- A sum can be completed wherever its right side can be. -/
theorem begins_sum (p : PrimaryDerivation) (sign : Leaf .plus) {l : List Token}
    (h : Begins ExprDerivation.tokens l) :
    Begins ExprDerivation.tokens (p.tokens ++ sign.1 :: l) :=
  h.embed fun d more hd => ⟨.sum p sign d, by simp [ExprDerivation.tokens, hd]⟩

/-- A call can be completed behind its opening parenthesis. -/
theorem begins_call_opening (name : Leaf .ident) (opening : Leaf .lparen) :
    Begins PrimaryDerivation.tokens [name.1, opening.1] := by
  obtain ⟨closing, hclosing⟩ := exists_sound_leaf .rparen (by decide)
  exact ⟨.bareCall name opening closing, [closing.1], rfl, List.forall_mem_singleton.mpr hclosing⟩

/-- A call can be completed wherever its arguments can be. -/
theorem begins_call (name : Leaf .ident) (opening : Leaf .lparen) {l : List Token}
    (h : Begins closedTokens l) : Begins PrimaryDerivation.tokens (name.1 :: opening.1 :: l) :=
  h.embed fun d more hd => ⟨.call name opening d.1 d.2, by
    rw [PrimaryDerivation.tokens, ← closedTokens, hd]; simp⟩

/-- Arguments can be completed wherever the first of them can be. -/
theorem begins_arg {l : List Token} (h : Begins ExprDerivation.tokens l) :
    Begins closedTokens l := by
  obtain ⟨closing, hclosing⟩ := exists_sound_leaf .rparen (by decide)
  exact h.extend _ (List.forall_mem_singleton.mpr hclosing) fun d more hd =>
    ⟨(.last d, closing), by simp [closedTokens, ArgsDerivation.tokens, hd]⟩

/-- Arguments can be completed wherever those after the first can be. -/
theorem begins_more_args (e : ExprDerivation) (comma : Leaf .comma) {l : List Token}
    (h : Begins closedTokens l) : Begins closedTokens (e.tokens ++ comma.1 :: l) :=
  h.embed fun d more hd => ⟨(.more e comma d.1, d.2), by
    rw [closedTokens] at hd
    simp [closedTokens, ArgsDerivation.tokens, hd]⟩

/-! ### Statements and blocks -/

/-- A declaration can be completed wherever its value can be. -/
theorem begins_decl (word : Leaf .varWord) (name : Leaf .ident) (sign : Leaf .assign)
    {l : List Token} (h : Begins ExprDerivation.tokens l) :
    Begins StmtDerivation.tokens (word.1 :: name.1 :: sign.1 :: l) := by
  obtain ⟨semi, hsemi⟩ := exists_sound_leaf .semi (by decide)
  exact h.extend _ (List.forall_mem_singleton.mpr hsemi) fun d more hd =>
    ⟨.decl word name sign d semi, by simp [StmtDerivation.tokens, hd]⟩

/-- A declaration can be completed behind its name. -/
theorem begins_decl_name (word : Leaf .varWord) (name : Leaf .ident) :
    Begins StmtDerivation.tokens [word.1, name.1] := by
  obtain ⟨sign, hsign⟩ := exists_sound_leaf .assign (by decide)
  exact .drop [word.1, name.1] (begins_decl word name sign begins_expr)
    (List.forall_mem_singleton.mpr hsign)

/-- A declaration can be completed behind its keyword. -/
theorem begins_decl_word (word : Leaf .varWord) : Begins StmtDerivation.tokens [word.1] := by
  obtain ⟨name, hname⟩ := exists_sound_leaf .ident (by decide)
  exact .drop [word.1] (begins_decl_name word name) (List.forall_mem_singleton.mpr hname)

/-- An assignment can be completed wherever its value can be. -/
theorem begins_assign (name : Leaf .ident) (sign : Leaf .assign) {l : List Token}
    (h : Begins ExprDerivation.tokens l) :
    Begins StmtDerivation.tokens (name.1 :: sign.1 :: l) := by
  obtain ⟨semi, hsemi⟩ := exists_sound_leaf .semi (by decide)
  exact h.extend _ (List.forall_mem_singleton.mpr hsemi) fun d more hd =>
    ⟨.assign name sign d semi, by simp [StmtDerivation.tokens, hd]⟩

/-- An assignment can be completed behind its name. -/
theorem begins_assign_name (name : Leaf .ident) : Begins StmtDerivation.tokens [name.1] := by
  obtain ⟨sign, hsign⟩ := exists_sound_leaf .assign (by decide)
  exact .drop [name.1] (begins_assign name sign begins_expr) (List.forall_mem_singleton.mpr hsign)

/-- A return statement can be completed wherever its value can be. -/
theorem begins_return (word : Leaf .returnWord) {l : List Token}
    (h : Begins ExprDerivation.tokens l) : Begins StmtDerivation.tokens (word.1 :: l) := by
  obtain ⟨semi, hsemi⟩ := exists_sound_leaf .semi (by decide)
  exact h.extend _ (List.forall_mem_singleton.mpr hsemi) fun d more hd =>
    ⟨.ret word d semi, by simp [StmtDerivation.tokens, hd]⟩

/-- A block can be completed wherever its statements can be. -/
theorem begins_body (opening : Leaf .lbrace) {l : List Token}
    (h : Begins (fun ds : List StmtDerivation => ds.flatMap StmtDerivation.tokens) l) :
    Begins BlockDerivation.tokens (opening.1 :: l) := by
  obtain ⟨closing, hclosing⟩ := exists_sound_leaf .rbrace (by decide)
  exact h.extend _ (List.forall_mem_singleton.mpr hclosing) fun ds more hds =>
    ⟨⟨opening, ds, closing⟩, by simp [BlockDerivation.tokens, hds]⟩

/-- A block can be completed from nothing. -/
theorem begins_block : Begins BlockDerivation.tokens [] := by
  obtain ⟨opening, hopening⟩ := exists_sound_leaf .lbrace (by decide)
  exact .drop [] (begins_body opening (.of_eq [] rfl)) (List.forall_mem_singleton.mpr hopening)

/-! ### Items -/

/-- Further parameters can be completed behind a comma. -/
theorem begins_comma (comma : Leaf .comma) :
    Begins (fun ps : List (Leaf .comma × Leaf .ident) => ps.flatMap moreParamTokens) [comma.1] := by
  obtain ⟨name, hname⟩ := exists_sound_leaf .ident (by decide)
  exact ⟨[(comma, name)], [name.1], rfl, List.forall_mem_singleton.mpr hname⟩

/-- Parameters can be completed wherever those after the first can be. -/
theorem begins_params (first : Leaf .ident) {l : List Token}
    (h : Begins (fun ps : List (Leaf .comma × Leaf .ident) => ps.flatMap moreParamTokens) l) :
    Begins paramTokens (first.1 :: l) :=
  h.embed fun ps more hps => ⟨some ⟨first, ps⟩, by simp [paramTokens, hps]⟩

/-- An entry block can be completed wherever its block can be. -/
theorem begins_entry (word : Leaf .beginWord) {l : List Token}
    (h : Begins BlockDerivation.tokens l) : Begins ItemDerivation.tokens (word.1 :: l) :=
  h.embed fun b more hb => ⟨.entry word b, by simp [ItemDerivation.tokens, hb]⟩

/-- The definition of a function can be completed wherever its block can be. -/
theorem begins_func_block (word : Leaf .funcWord) (name : Leaf .ident) (opening : Leaf .lparen)
    (ps : Option ParamsDerivation) (closing : Leaf .rparen) {l : List Token}
    (h : Begins BlockDerivation.tokens l) : Begins ItemDerivation.tokens
      (word.1 :: name.1 :: opening.1 :: (paramTokens ps ++ closing.1 :: l)) :=
  h.embed fun b more hb => ⟨.func word name opening ps closing b, by
    simp [ItemDerivation.tokens, hb]⟩

/-- The definition of a function can be completed wherever its parameters can be. -/
theorem begins_func (word : Leaf .funcWord) (name : Leaf .ident) (opening : Leaf .lparen)
    {l : List Token} (h : Begins paramTokens l) :
    Begins ItemDerivation.tokens (word.1 :: name.1 :: opening.1 :: l) := by
  obtain ⟨closing, hclosing⟩ := exists_sound_leaf .rparen (by decide)
  obtain ⟨b, rest, hb, hrest⟩ := begins_block
  exact h.extend (closing.1 :: rest) (List.forall_mem_cons.mpr ⟨hclosing, hrest⟩)
    fun ps more hps => ⟨.func word name opening ps closing b, by
      simp [ItemDerivation.tokens, hps, hb]⟩

/-- The definition of a function can be completed behind its name. -/
theorem begins_func_name (word : Leaf .funcWord) (name : Leaf .ident) :
    Begins ItemDerivation.tokens [word.1, name.1] := by
  obtain ⟨opening, hopening⟩ := exists_sound_leaf .lparen (by decide)
  exact .drop [word.1, name.1] (begins_func word name opening (.of_eq none rfl))
    (List.forall_mem_singleton.mpr hopening)

/-- The definition of a function can be completed behind its keyword. -/
theorem begins_func_word (word : Leaf .funcWord) : Begins ItemDerivation.tokens [word.1] := by
  obtain ⟨name, hname⟩ := exists_sound_leaf .ident (by decide)
  exact .drop [word.1] (begins_func_name word name) (List.forall_mem_singleton.mpr hname)

end SumLang
