import SumLang.Proofs.Reading.Completion
import SumLang.Proofs.Reading.Cursor

/-!
# Soundness of the readers

Whatever a reader accepts has a derivation: the tokens that it consumes are those of a
derivation for its rule, every number among them fits into a word, and the answer is
the syntax of that derivation. The allowance of a reader is never used up, so that its
only failures are parse errors and the error of the feed. A parse error comes as late as
the grammar allows: what has been consumed by then begins a derivation, together with any
token that the error asks for.
-/

namespace SumLang

/-- A number token is spelled in the ten digits of ASCII. -/
def Token.Legible (t : Token) : Prop :=
  t.kind = .number → ∃ s, t.text = some (String.ofList s : Text) ∧ ∀ c ∈ s, c.isDigit = true

/-- A legible number is read as its value, or refused exactly when that is no word. -/
theorem Token.literalValue_text {t : Token} (h : t.Legible) (hk : t.kind = .number) :
    literalValue t.text =
      if decimalValue t.word.toList ≤ maxWord then .ok (decimalValue t.word.toList : Int)
      else .error .tooLarge := by
  obtain ⟨s, hs, hd⟩ := h hk
  have hw : t.word.toList = s := by
    rw [Token.word_eq hs, String.toList_ofList]
  rw [hs, hw, literalValue_digits hd]

/-- The tokens `toks`, whose numbers all fit, stand between `ts` and `rest`. -/
structure Consumes (toks ts rest : List Token) : Prop where
  eq : ts = toks ++ rest
  fits : ∀ t ∈ toks, t.Fits

/-- Nothing stands between a list and itself. -/
theorem consumes_nil (ts : List Token) : Consumes [] ts ts := ⟨rfl, nofun⟩

/-- What is consumed in two steps is consumed. -/
theorem Consumes.append {a b ts mid rest : List Token} (h : Consumes a ts mid)
    (h' : Consumes b mid rest) : Consumes (a ++ b) ts rest := by
  refine ⟨by rw [h.eq, h'.eq, List.append_assoc], ?_⟩
  intro t ht
  rcases List.mem_append.mp ht with ht | ht
  · exact h.fits t ht
  · exact h'.fits t ht

/-- Consumed tokens are no longer in front. -/
theorem Consumes.length {toks ts rest : List Token} (h : Consumes toks ts rest) :
    ts.length = toks.length + rest.length := by rw [h.eq, List.length_append]

/-- What remains legible is what was. -/
theorem Consumes.legible {toks ts rest : List Token} (h : Consumes toks ts rest)
    (hl : ∀ t ∈ ts, t.Legible) : ∀ t ∈ rest, t.Legible :=
  fun t ht => hl t (by rw [h.eq]; exact List.mem_append_right toks ht)

/-- The first consumed token is the one that was faced. -/
theorem Consumes.eq_of_faces {t u : Token} {toks ts rest : List Token}
    (h : Consumes (t :: toks) ts rest) (hf : Reader.Faces ts u) : u = t := by
  rw [h.eq] at hf
  exact hf

namespace Reader

variable {α β δ : Type} {err : Option FeedError} {ts : List Token}

/-! ### Readers that succeed or report a failure -/

/-- The failures that reading a feed with legible numbers can have. -/
inductive Reported (err : Option FeedError) : ReadError → Prop
  | parse (e : ParseError) : Reported err (.parse e)
  | feed {e : FeedError} (h : err = some e) : Reported err (.feed e)

/-- Reading fails in front of `ts` with a parse error at the lookahead or with the error of the
feed. What has been consumed in front of the lookahead has the property `P` together with every
token that the parse error asks for, and it does ask for one. -/
inductive FailsAt (err : Option FeedError) (ts : List Token) (P : List Token → Prop) :
    ReadError → Cursor → Prop
  | parse {toks rest : List Token} {expected : Expectation} (hc : Consumes toks ts rest)
      (prev : Option Token) (hex : ∃ u, expected.Admits u)
      (hP : ∀ u, expected.Admits u → P (toks ++ [u])) :
      FailsAt err ts P (.parse ⟨expected, (Cursor.over err prev rest).curr⟩) (.over err prev rest)
  | feed {e : FeedError} (h : err = some e) (c : Cursor) : FailsAt err ts P (.feed e) c

section

variable {P P' : List Token → Prop} {x : ReadError} {c : Cursor}

/-- Where reading fails, the failure is one of the two. -/
theorem FailsAt.reported (h : FailsAt err ts P x c) : Reported err x := by
  cases h with
  | parse => exact .parse _
  | feed he => exact .feed he

/-- What holds of the consumed tokens can be weakened. -/
theorem FailsAt.mono (h : FailsAt err ts P x c) (hp : ∀ l, P l → P' l) : FailsAt err ts P' x c := by
  cases h with
  | parse hc prev hex hP => exact .parse hc prev hex fun u hu => hp _ (hP u hu)
  | feed he => exact .feed he _

/-- A failure after some tokens have been consumed counts these tokens in. -/
theorem FailsAt.append {toks rest : List Token} (hc : Consumes toks ts rest)
    (h : FailsAt err rest (fun l => P (toks ++ l)) x c) : FailsAt err ts P x c := by
  cases h with
  | parse hc' prev hex hP =>
    refine .parse (hc.append hc') prev hex fun u hu => ?_
    rw [List.append_assoc]
    exact hP u hu
  | feed he => exact .feed he _

end

/-- In front of `ts` the reader consumes some tokens and answers so that `Q` holds of the answer and
these tokens, or it fails as `P` says. -/
def Reads (err : Option FeedError) (r : Reader α) (ts : List Token) (Q : α → List Token → Prop)
    (P : List Token → Prop) : Prop :=
  ∀ prev, (∃ a prev' toks rest, r (.over err prev ts) = .ok a (.over err prev' rest) ∧
      Consumes toks ts rest ∧ Ahead err rest ∧ Q a toks) ∨
    ∃ x c, r (.over err prev ts) = .error x c ∧ FailsAt err ts P x c

/-- What the reader answers is the value of a derivation from the tokens that it consumes, and where
it fails, it has consumed the beginning of one. -/
abbrev ReadsAs (err : Option FeedError) (r : Reader α) (ts : List Token)
    (tokens : δ → List Token) (value : δ → α) : Prop :=
  Reads err r ts (fun a toks => ∃ d, tokens d = toks ∧ a = value d) (Begins tokens)

section

variable {Q Q' : α → List Token → Prop} {P P' : List Token → Prop} {R : β → List Token → Prop}
  {r : Reader α}

/-- What holds of the outcome can be weakened. -/
theorem Reads.mono (h : Reads err r ts Q P) (hq : ∀ a toks, Q a toks → Q' a toks)
    (hp : ∀ l, P l → P' l) : Reads err r ts Q' P' := by
  intro prev
  rcases h prev with ⟨a, prev', toks, rest, hr, hc, ha, hQ⟩ | ⟨x, c, hr, hfails⟩
  · exact Or.inl ⟨a, prev', toks, rest, hr, hc, ha, hq a toks hQ⟩
  · exact Or.inr ⟨x, c, hr, hfails.mono hp⟩

/-- An answer is given at once. -/
theorem reads_pure {a : α} (h : Ahead err ts) (hq : Q a []) : Reads err (pure a) ts Q P :=
  fun prev => Or.inl ⟨a, prev, [], ts, rfl, consumes_nil ts, h, hq⟩

private theorem reads_fail {expected : Expectation} (hex : ∃ u, expected.Admits u)
    (hP : ∀ u, expected.Admits u → P [u]) : Reads err (fail expected) ts Q P :=
  fun prev => Or.inr ⟨_, _, rfl, .parse (consumes_nil ts) prev hex hP⟩

/-- Reading goes on behind the tokens that have been consumed. -/
theorem Reads.bind {f : α → Reader β} (hr : Reads err r ts Q P)
    (hf : ∀ a toks rest, Consumes toks ts rest → Ahead err rest → Q a toks →
      Reads err (f a) rest (fun b l => R b (toks ++ l)) fun l => P (toks ++ l)) :
    Reads err (r >>= f) ts R P := by
  intro prev
  rcases hr prev with ⟨a, prev', toks, rest, h, hc, ha, hq⟩ | ⟨x, c, h, hfails⟩
  · rw [bind_apply, h]
    rcases hf a toks rest hc ha hq prev' with
      ⟨b, prev'', toks', rest', h', hc', ha', hR⟩ | ⟨x, c, h', hfails⟩
    · exact Or.inl ⟨b, prev'', toks ++ toks', rest', h', hc.append hc', ha', hR⟩
    · exact Or.inr ⟨x, c, h', hfails.append hc⟩
  · exact Or.inr ⟨x, c, by rw [bind_apply, h], hfails⟩

/-- The lookahead is one that the tokens face. -/
theorem reads_peek {f : Token → Reader α} (h : ∀ t, Faces ts t → Reads err (f t) ts Q P) :
    Reads err (peek >>= f) ts Q P := by
  intro prev
  obtain ⟨t, ht, hf⟩ := peek_over err prev ts
  rw [bind_apply, ht]
  exact h t hf prev

private theorem reads_eat {k : Kind} (hk : k ∈ Kind.proper ∧ k ≠ .eof)
    (hfits : ∀ t : Token, Faces ts t → t.kind = k → t.Fits)
    (hP : ∀ t : Leaf k, t.1.Sound → P [t.1]) :
    Reads err (eat k) ts (fun _ toks => ∃ t : Leaf k, toks = [t.1]) P := by
  intro prev
  obtain ⟨t, ht, hf⟩ := peek_over err prev ts
  by_cases hkind : t.kind = k
  · obtain ⟨rest, rfl⟩ := hf.eq_cons (hkind ▸ hk.2)
    by_cases ha : Ahead err rest
    · exact Or.inl ⟨(), some t, [t], rest, eat_over t hkind hk.2 ha,
        ⟨rfl, List.forall_mem_singleton.mpr (hfits t hf hkind)⟩, ha, ⟨t, hkind⟩, rfl⟩
    · cases err with
      | none => exact absurd (ahead_none rest) ha
      | some e =>
        cases rest with
        | nil =>
          obtain ⟨c, hc⟩ := eat_last e prev t hkind hk.2
          exact Or.inr ⟨_, c, hc, .feed rfl c⟩
        | cons x rest => exact absurd (ahead_cons _ x rest) ha
  · obtain ⟨u, hu⟩ := exists_sound_leaf k hk
    have hcurr : (Cursor.over err prev ts).curr.kind ≠ k := by
      rw [← EStateM.Result.ok.inj ht |>.1] at hkind
      exact hkind
    refine Or.inr ⟨_, _, eat_refused_at hcurr, .parse (consumes_nil ts) prev ⟨u.1, ?_, hu⟩ ?_⟩
    · exact List.mem_singleton.mpr u.2
    · rintro v ⟨hv, hs⟩
      exact hP ⟨v, List.mem_singleton.mp hv⟩ hs

/-- A token other than a number is accepted, and reading goes on after it. -/
private theorem reads_eat_bind {k : Kind} (hk : (k ∈ Kind.proper ∧ k ≠ .eof) ∧ k ≠ .number)
    {f : Unit → Reader α} (hP : ∀ t : Leaf k, t.1.Sound → P [t.1])
    (hf : ∀ (t : Leaf k) rest, Consumes [t.1] ts rest → Ahead err rest →
      Reads err (f ()) rest (fun a l => Q a (t.1 :: l)) fun l => P (t.1 :: l)) :
    Reads err (eat k >>= f) ts Q P := by
  refine (reads_eat hk.1 (fun t _ hkind hn => absurd (hkind.symm.trans hn) hk.2) hP).bind ?_
  rintro - toks rest hc ha ⟨t, rfl⟩
  exact hf t rest hc ha

/-- The lookahead is accepted, and reading goes on with it. -/
private theorem reads_leaf_bind {k : Kind} (hk : (k ∈ Kind.proper ∧ k ≠ .eof) ∧ k ≠ .number)
    {f : Token → Reader α} (hP : ∀ t : Leaf k, t.1.Sound → P [t.1])
    (hf : ∀ (t : Leaf k) rest, Consumes [t.1] ts rest → Ahead err rest →
      Reads err (f t.1) rest (fun a l => Q a (t.1 :: l)) fun l => P (t.1 :: l)) :
    Reads err (do let t ← peek; eat k; f t) ts Q P := by
  refine reads_peek fun tok htok => reads_eat_bind hk hP fun t rest hc ha => ?_
  rw [hc.eq_of_faces htok]
  exact hf t rest hc ha

/-- A reader that takes its allowance from the cursor can be judged by every allowance of this
size. -/
theorem reads_withAllowance {r : Nat → Reader α}
    (h : ∀ n, 2 * ts.length + 2 ≤ n → Reads err (r n) ts Q P) :
    Reads err (withAllowance r) ts Q P := by
  intro prev
  have hlen := Cursor.length_le_remaining err prev ts
  exact h _ (by omega) prev

end

/-! ### Expressions -/

/-- With the allowance `n`, expressions are read from every token list that it covers. -/
def ExprReads (err : Option FeedError) (n : Nat) : Prop :=
  ∀ ts, Ahead err ts → (∀ t ∈ ts, t.Legible) → 2 * ts.length + 2 ≤ n →
    ReadsAs err (exprWithin n) ts ExprDerivation.tokens ExprDerivation.toExpr

/-- With the allowance `n`, primaries are read from every token list that it covers. -/
def PrimaryReads (err : Option FeedError) (n : Nat) : Prop :=
  ∀ ts, Ahead err ts → (∀ t ∈ ts, t.Legible) → 2 * ts.length + 1 ≤ n →
    ReadsAs err (primaryWithin n) ts PrimaryDerivation.tokens PrimaryDerivation.toExpr

/-- With the allowance `n`, arguments in parentheses are read after the name of a function. -/
def CallArgsReads (err : Option FeedError) (n : Nat) : Prop :=
  ∀ ts, Ahead err ts → (∀ t ∈ ts, t.Legible) → 2 * ts.length + 2 ≤ n →
    Reads err (callArgsWithin n) ts
      (fun es toks => ∀ name : Leaf .ident, ∃ p : PrimaryDerivation,
        p.tokens = name.1 :: toks ∧ .call name.1.text es name.1.line = p.toExpr)
      fun l => ∀ name : Leaf .ident, Begins PrimaryDerivation.tokens (name.1 :: l)

/-- With the allowance `n`, arguments are read up to the parenthesis that closes them. -/
def ArgsReads (err : Option FeedError) (n : Nat) : Prop :=
  ∀ ts, Ahead err ts → (∀ t ∈ ts, t.Legible) → 2 * ts.length + 3 ≤ n →
    ReadsAs err (argsWithin n) ts closedTokens fun d => d.1.toExprs

private theorem exprReads_succ {n : Nat} (hp : PrimaryReads err n) (he : ExprReads err n) :
    ExprReads err (n + 1) := by
  intro ts ha hl hn
  rw [ReadsAs, exprWithin]
  refine ((hp ts ha hl (by omega)).mono (fun _ _ => id) fun _ => begins_single).bind ?_
  rintro - - mid hc hmid ⟨p, rfl, rfl⟩
  refine reads_peek fun tok htok => ?_
  split
  · refine reads_eat_bind (by decide) (fun sign _ => begins_sum p sign begins_expr) ?_
    intro sign rest hsign hrest
    have hlen := (hc.append hsign).length
    rw [List.length_append, List.length_singleton] at hlen
    have hexpr := he rest hrest (hsign.legible (hc.legible hl)) (by omega)
    refine (hexpr.mono (fun _ _ => id) fun _ => begins_sum p sign).bind ?_
    rintro - - last - hlast ⟨e, rfl, rfl⟩
    refine reads_pure hlast ⟨.sum p sign e, ?_, ?_⟩
    · simp [ExprDerivation.tokens]
    · rw [hsign.eq_of_faces htok]
      rfl
  · exact reads_pure hmid ⟨.single p, (List.append_nil _).symm, rfl⟩

private theorem primaryReads_succ {n : Nat} (hca : CallArgsReads err n) :
    PrimaryReads err (n + 1) := by
  intro ts ha hl hn
  have hnumber {u : Token} (hu : u.kind = .number) : Begins PrimaryDerivation.tokens [u] :=
    .of_eq (.integer ⟨u, hu⟩) rfl
  have hname {u : Token} (hu : u.kind = .ident) : Begins PrimaryDerivation.tokens [u] :=
    .of_eq (.name ⟨u, hu⟩) rfl
  obtain ⟨zero, hzero⟩ := exists_sound_leaf .number (by decide)
  rw [ReadsAs, primaryWithin]
  refine reads_peek fun tok htok => ?_
  split
  · next hk =>
    obtain ⟨mid, rfl⟩ := htok.eq_cons (by rw [hk]; decide)
    rw [Token.literalValue_text (hl tok List.mem_cons_self) hk]
    by_cases hw : decimalValue tok.word.toList ≤ maxWord
    · rw [if_pos hw]
      have hfits (t : Token) (ht : Faces (tok :: mid) t) (_ : t.kind = .number) : t.Fits := by
        rw [show t = tok from ht]
        exact fun _ => hw
      refine (reads_eat (by decide) hfits fun t _ => hnumber t.2).bind ?_
      rintro - - rest hc hrest ⟨t, rfl⟩
      refine reads_pure hrest ⟨.integer t, rfl, ?_⟩
      rw [hc.eq_of_faces htok]
      rfl
    · rw [if_neg hw]
      exact reads_fail ⟨zero.1, zero.2, hzero⟩ fun u hu => hnumber hu.1
  · split
    · refine reads_eat_bind (by decide) (fun name _ => hname name.2) ?_
      intro name mid hc hmid
      have hlen := hc.length
      rw [List.length_singleton] at hlen
      refine reads_peek fun tok' _ => ?_
      rw [hc.eq_of_faces htok]
      split
      · have hargs := hca mid hmid (hc.legible hl) (by omega)
        refine (hargs.mono (fun _ _ => id) fun _ h => h name).bind ?_
        rintro es toks rest - hrest hes
        obtain ⟨p, hp, he⟩ := hes name
        exact reads_pure hrest ⟨p, by rw [hp, List.append_nil], he⟩
      · exact reads_pure hmid ⟨.name name, rfl, rfl⟩
    · refine reads_fail ⟨zero.1, by rw [zero.2]; exact List.mem_cons_self, hzero⟩ ?_
      rintro u ⟨hu, -⟩
      rcases List.mem_cons.mp hu with hu | hu
      · exact hnumber hu
      · exact hname (List.mem_singleton.mp hu)

private theorem callArgsReads_succ {n : Nat} (hargs : ArgsReads err n) :
    CallArgsReads err (n + 1) := by
  intro ts ha hl hn
  rw [callArgsWithin]
  refine reads_eat_bind (by decide) (fun opening _ name => begins_call_opening name opening) ?_
  intro opening mid hc hmid
  have hlen := hc.length
  rw [List.length_singleton] at hlen
  refine reads_peek fun tok _ => ?_
  split
  · refine reads_eat_bind (by decide) (fun closing _ name => ?_) ?_
    · exact .of_eq (.bareCall name opening closing) rfl
    · intro closing rest _ hrest
      exact reads_pure hrest fun name => ⟨.bareCall name opening closing, rfl, rfl⟩
  · refine (hargs mid hmid (hc.legible hl) (by omega)).mono ?_ fun _ h name =>
      begins_call name opening h
    rintro - - ⟨⟨d, closing⟩, rfl, rfl⟩ name
    exact ⟨.call name opening d closing, rfl, rfl⟩

private theorem argsReads_succ {n : Nat} (he : ExprReads err n) (hargs : ArgsReads err n) :
    ArgsReads err (n + 1) := by
  intro ts ha hl hn
  have hend (e : ExprDerivation) (closing : Leaf .rparen) :
      Begins closedTokens (e.tokens ++ [closing.1]) := .of_eq (.last e, closing) rfl
  rw [ReadsAs, argsWithin]
  refine ((he ts ha hl (by omega)).mono (fun _ _ => id) fun _ => begins_arg).bind ?_
  rintro - - mid hc hmid ⟨e, rfl, rfl⟩
  refine reads_peek fun tok _ => ?_
  split
  · refine reads_eat_bind (by decide)
      (fun comma _ => begins_more_args e comma (begins_arg begins_expr)) ?_
    intro comma rest hcomma hrest
    have hlen := (hc.append hcomma).length
    rw [List.length_append, List.length_singleton] at hlen
    have hmore := hargs rest hrest (hcomma.legible (hc.legible hl)) (by omega)
    refine (hmore.mono (fun _ _ => id) fun _ => begins_more_args e comma).bind ?_
    rintro - - last - hlast ⟨⟨d, closing⟩, rfl, rfl⟩
    exact reads_pure hlast ⟨(.more e comma d, closing), by
      simp [closedTokens, ArgsDerivation.tokens], rfl⟩
  · split
    · refine reads_eat_bind (by decide) (fun closing _ => hend e closing) ?_
      intro closing rest _ hrest
      exact reads_pure hrest ⟨(.last e, closing), rfl, rfl⟩
    · obtain ⟨closing, hclosing⟩ := exists_sound_leaf .rparen (by decide)
      refine reads_fail ⟨closing.1, by rw [closing.2]; decide, hclosing⟩ ?_
      rintro u ⟨hu, -⟩
      rcases List.mem_cons.mp hu with hu | hu
      · exact begins_more_args e ⟨u, hu⟩ (begins_arg begins_expr)
      · exact hend e ⟨u, List.mem_singleton.mp hu⟩

/-- Every allowance is enough for the token lists that it covers. -/
theorem within_reads (err : Option FeedError) (n : Nat) :
    ExprReads err n ∧ PrimaryReads err n ∧ CallArgsReads err n ∧ ArgsReads err n := by
  induction n with
  | zero => exact ⟨fun _ _ _ h => by omega, fun _ _ _ h => by omega, fun _ _ _ h => by omega,
      fun _ _ _ h => by omega⟩
  | succ n ih =>
    obtain ⟨he, hp, hca, hargs⟩ := ih
    exact ⟨exprReads_succ hp he, primaryReads_succ hca, callArgsReads_succ hargs,
      argsReads_succ he hargs⟩

/-- What is read as an expression has a derivation as one. -/
theorem expr_reads (ha : Ahead err ts) (hl : ∀ t ∈ ts, t.Legible) :
    ReadsAs err expr ts ExprDerivation.tokens ExprDerivation.toExpr :=
  reads_withAllowance fun n hn => (within_reads err n).1 ts ha hl hn

/-- What is read as a primary has a derivation as one. -/
theorem primary_reads (ha : Ahead err ts) (hl : ∀ t ∈ ts, t.Legible) :
    ReadsAs err primary ts PrimaryDerivation.tokens PrimaryDerivation.toExpr :=
  reads_withAllowance fun n hn => (within_reads err n).2.1 ts ha hl (by omega)

/-- What is read as arguments makes a call of every name. -/
theorem callArgs_reads (ha : Ahead err ts) (hl : ∀ t ∈ ts, t.Legible) :
    Reads err callArgs ts
      (fun es toks => ∀ name : Leaf .ident, ∃ p : PrimaryDerivation,
        p.tokens = name.1 :: toks ∧ .call name.1.text es name.1.line = p.toExpr)
      fun l => ∀ name : Leaf .ident, Begins PrimaryDerivation.tokens (name.1 :: l) :=
  reads_withAllowance fun n hn => (within_reads err n).2.2.1 ts ha hl hn

/-! ### Statements and blocks -/

/-- These tokens lack only a semicolon to be derived as the statement `s`. -/
def Unterminated (s : Stmt) (toks : List Token) : Prop :=
  ∀ semi : Leaf .semi, ∃ d : StmtDerivation, d.tokens = toks ++ [semi.1] ∧ s = d.toStmt

/-- What is read as a declaration lacks only its semicolon. -/
theorem declaration_reads (hl : ∀ t ∈ ts, t.Legible) :
    Reads err declaration ts Unterminated (Begins StmtDerivation.tokens) := by
  refine reads_eat_bind (by decide) (fun word _ => begins_decl_word word) fun word ts₁ hw _ => ?_
  refine reads_leaf_bind (by decide) (fun name _ => begins_decl_name word name)
    fun name ts₂ hn _ => ?_
  refine reads_eat_bind (by decide) (fun sign _ => begins_decl word name sign begins_expr)
    fun sign ts₃ hs ha₃ => ?_
  have hexpr := expr_reads ha₃ (hs.legible (hn.legible (hw.legible hl)))
  refine (hexpr.mono (fun _ _ => id) fun _ => begins_decl word name sign).bind ?_
  rintro - - rest - hrest ⟨e, rfl, rfl⟩
  exact reads_pure hrest fun semi => ⟨.decl word name sign e semi, by
    simp [StmtDerivation.tokens], rfl⟩

/-- What is read as an assignment lacks only its semicolon. -/
theorem assignment_reads (hl : ∀ t ∈ ts, t.Legible) :
    Reads err assignment ts Unterminated (Begins StmtDerivation.tokens) := by
  refine reads_leaf_bind (by decide) (fun name _ => begins_assign_name name) fun name ts₁ hn _ => ?_
  refine reads_eat_bind (by decide) (fun sign _ => begins_assign name sign begins_expr)
    fun sign ts₂ hs ha₂ => ?_
  have hexpr := expr_reads ha₂ (hs.legible (hn.legible hl))
  refine (hexpr.mono (fun _ _ => id) fun _ => begins_assign name sign).bind ?_
  rintro - - rest - hrest ⟨e, rfl, rfl⟩
  exact reads_pure hrest fun semi => ⟨.assign name sign e semi, by
    simp [StmtDerivation.tokens], rfl⟩

/-- What is read as a return statement lacks only its semicolon. -/
theorem returnStatement_reads (hl : ∀ t ∈ ts, t.Legible) :
    Reads err returnStatement ts Unterminated (Begins StmtDerivation.tokens) := by
  refine reads_leaf_bind (by decide) (fun word _ => begins_return word begins_expr)
    fun word ts₁ hw ha₁ => ?_
  refine ((expr_reads ha₁ (hw.legible hl)).mono (fun _ _ => id) fun _ => begins_return word).bind ?_
  rintro - - rest - hrest ⟨e, rfl, rfl⟩
  exact reads_pure hrest fun semi => ⟨.ret word e semi, by simp [StmtDerivation.tokens], rfl⟩

/-- The tokens are derived as the statement, or there are none. -/
def StmtRead : Option Stmt → List Token → Prop
  | some s, toks => ∃ d : StmtDerivation, d.tokens = toks ∧ s = d.toStmt
  | none, toks => toks = []

private theorem terminated_reads {r : Reader Stmt}
    (h : Reads err r ts Unterminated (Begins StmtDerivation.tokens)) :
    Reads err (do let s ← r; eat .semi; return some s) ts StmtRead
      (Begins StmtDerivation.tokens) := by
  refine h.bind ?_
  rintro s toks mid - - hs
  refine reads_eat_bind (by decide) (fun semi _ => ?_) fun semi rest _ hrest => ?_
  · obtain ⟨d, hd, -⟩ := hs semi
    exact .of_eq d hd
  · obtain ⟨d, hd, rfl⟩ := hs semi
    exact reads_pure hrest ⟨d, hd, rfl⟩

/-- What is read as a statement has a derivation as one, and nothing is read where none starts. -/
theorem statement?_reads (ha : Ahead err ts) (hl : ∀ t ∈ ts, t.Legible) :
    Reads err statement? ts StmtRead (Begins StmtDerivation.tokens) := by
  refine reads_peek fun tok _ => ?_
  dsimp only
  split
  · exact terminated_reads (declaration_reads hl)
  · split
    · exact terminated_reads (assignment_reads hl)
    · split
      · exact terminated_reads (returnStatement_reads hl)
      · exact reads_pure ha rfl

/-- What is read as statements has a derivation for each of them. -/
theorem statementsWithin_reads (n : Nat) {ts : List Token} (ha : Ahead err ts)
    (hl : ∀ t ∈ ts, t.Legible) (hn : ts.length + 1 ≤ n) :
    ReadsAs err (statementsWithin n) ts
      (fun ds : List StmtDerivation => ds.flatMap StmtDerivation.tokens)
      fun ds => ds.map StmtDerivation.toStmt := by
  induction n generalizing ts with
  | zero => omega
  | succ n ih =>
    rw [ReadsAs, statementsWithin]
    refine ((statement?_reads ha hl).mono (fun _ _ => id) fun _ => Begins.head).bind ?_
    rintro (_ | s) toks mid hc hmid hs
    · exact reads_pure hmid ⟨[], by rw [show toks = [] from hs]; rfl, rfl⟩
    · obtain ⟨d, rfl, rfl⟩ := hs
      obtain ⟨t, toks, ht, -⟩ := d.tokens_eq_cons
      have hlen := hc.length
      rw [ht, List.length_cons] at hlen
      have hrest := ih hmid (hc.legible hl) (by omega)
      refine (hrest.mono (fun _ _ => id) fun _ => Begins.cons d).bind ?_
      rintro - - rest - hrest ⟨ds, rfl, rfl⟩
      exact reads_pure hrest ⟨d :: ds, by simp, rfl⟩

/-- What is read as a block has a derivation as one. -/
theorem block_reads (hl : ∀ t ∈ ts, t.Legible) :
    ReadsAs err block ts BlockDerivation.tokens BlockDerivation.toStmts := by
  refine reads_eat_bind (by decide) (fun opening _ => begins_body opening (.of_eq [] rfl))
    fun opening ts₁ ho ha₁ => ?_
  have hbody := reads_withAllowance fun n (hn : 2 * ts₁.length + 2 ≤ n) =>
    statementsWithin_reads n ha₁ (ho.legible hl) (by omega)
  refine (hbody.mono (fun _ _ => id) fun _ => begins_body opening).bind ?_
  rintro - - ts₂ - - ⟨ds, rfl, rfl⟩
  refine reads_eat_bind (by decide) (fun closing _ => ?_) fun closing rest _ hrest => ?_
  · exact .of_eq ⟨opening, ds, closing⟩ rfl
  · exact reads_pure hrest ⟨⟨opening, ds, closing⟩, rfl, rfl⟩

/-! ### Items -/

/-- What is read as further parameters has a comma and a name for each of them. -/
theorem moreParamsWithin_reads (n : Nat) {ts : List Token} (ha : Ahead err ts)
    (hn : ts.length + 1 ≤ n) :
    ReadsAs err (moreParamsWithin n) ts
      (fun ps : List (Leaf .comma × Leaf .ident) => ps.flatMap moreParamTokens)
      fun ps => ps.map fun p => p.2.1.text := by
  induction n generalizing ts with
  | zero => omega
  | succ n ih =>
    rw [ReadsAs, moreParamsWithin]
    refine reads_peek fun _ _ => ?_
    split
    · refine reads_eat_bind (by decide) (fun comma _ => begins_comma comma) fun comma ts₁ hc _ => ?_
      refine reads_leaf_bind (by decide)
        (fun name _ => .of_eq [(comma, name)] rfl) fun name ts₂ hname ha₂ => ?_
      have hlen := (hc.append hname).length
      rw [List.length_append, List.length_singleton] at hlen
      have hmore := ih ha₂ (by omega)
      refine (hmore.mono (fun _ _ => id) fun _ h => Begins.cons (comma, name) h).bind ?_
      rintro - - rest - hrest ⟨ps, rfl, rfl⟩
      exact reads_pure hrest ⟨(comma, name) :: ps, by simp [moreParamTokens], rfl⟩
    · exact reads_pure ha ⟨[], rfl, rfl⟩

/-- What is read as parameters has a derivation as such. -/
theorem params_reads (ha : Ahead err ts) : ReadsAs err params ts paramTokens paramNames := by
  refine reads_peek fun tok htok => ?_
  split
  · exact reads_pure ha ⟨none, rfl, rfl⟩
  · refine reads_eat_bind (by decide) (fun first _ => .of_eq (some ⟨first, []⟩) rfl)
      fun first ts₁ hf ha₁ => ?_
    rw [hf.eq_of_faces htok]
    have hmore := reads_withAllowance fun n (hn : 2 * ts₁.length + 2 ≤ n) =>
      moreParamsWithin_reads n ha₁ (by omega)
    refine (hmore.mono (fun _ _ => id) fun _ => begins_params first).bind ?_
    rintro - - rest - hrest ⟨ps, rfl, rfl⟩
    exact reads_pure hrest ⟨some ⟨first, ps⟩, by simp [paramTokens], rfl⟩

/-- What is read as an entry block has a derivation as one. -/
theorem entryBlock_reads (hl : ∀ t ∈ ts, t.Legible) :
    ReadsAs err entryBlock ts ItemDerivation.tokens ItemDerivation.toItem := by
  refine reads_leaf_bind (by decide) (fun word _ => begins_entry word begins_block)
    fun word ts₁ hw _ => ?_
  refine ((block_reads (hw.legible hl)).mono (fun _ _ => id) fun _ => begins_entry word).bind ?_
  rintro - - rest - hrest ⟨b, rfl, rfl⟩
  exact reads_pure hrest ⟨.entry word b, by simp [ItemDerivation.tokens], rfl⟩

/-- What is read as the definition of a function has a derivation as one. -/
theorem functionDef_reads (hl : ∀ t ∈ ts, t.Legible) :
    ReadsAs err functionDef ts ItemDerivation.tokens ItemDerivation.toItem := by
  refine reads_leaf_bind (by decide) (fun word _ => begins_func_word word) fun word ts₁ hw _ => ?_
  refine reads_leaf_bind (by decide) (fun name _ => begins_func_name word name)
    fun name ts₂ hn _ => ?_
  refine reads_eat_bind (by decide)
    (fun opening _ => begins_func word name opening (.of_eq none rfl)) fun opening ts₃ ho ha₃ => ?_
  refine ((params_reads ha₃).mono (fun _ _ => id) fun _ => begins_func word name opening).bind ?_
  rintro - - ts₄ hps - ⟨ps, rfl, rfl⟩
  refine reads_eat_bind (by decide)
    (fun closing _ => begins_func_block word name opening ps closing begins_block)
    fun closing ts₅ hcl _ => ?_
  have hl₅ := hcl.legible (hps.legible (ho.legible (hn.legible (hw.legible hl))))
  refine ((block_reads hl₅).mono (fun _ _ => id)
    fun _ => begins_func_block word name opening ps closing).bind ?_
  rintro - - rest - hrest ⟨b, rfl, rfl⟩
  exact reads_pure hrest ⟨.func word name opening ps closing b, by
    simp [ItemDerivation.tokens], rfl⟩

/-- What is read as an item has a derivation as one. -/
theorem item_reads (hl : ∀ t ∈ ts, t.Legible) :
    ReadsAs err item ts ItemDerivation.tokens ItemDerivation.toItem := by
  refine reads_peek fun tok _ => ?_
  dsimp only
  split
  · exact entryBlock_reads hl
  · split
    · exact functionDef_reads hl
    · obtain ⟨word, hword⟩ := exists_sound_leaf .beginWord (by decide)
      refine reads_fail ⟨word.1, by rw [word.2]; exact List.mem_cons_self, hword⟩ ?_
      rintro u ⟨hu, -⟩
      rcases List.mem_cons.mp hu with hu | hu
      · exact begins_entry ⟨u, hu⟩ begins_block
      · exact begins_func_word ⟨u, List.mem_singleton.mp hu⟩

end Reader

/-! ### Whole feeds -/

/-- The items of a feed have derivations that use up its tokens, or reading them fails. -/
def FeedRead (err : Option FeedError) (ts : List Token) (feed : ItemFeed) : Prop :=
  (err = none ∧ ∃ ds : List ItemDerivation, Consumes (ds.flatMap ItemDerivation.tokens) ts [] ∧
      feed = ⟨ds.map ItemDerivation.toItem, none⟩) ∨
    ∃ items e, feed = ⟨items, some e⟩ ∧ Reader.Reported err e

/-- The items that are read have derivations at the front of the tokens. Reading fails exactly when
tokens are left after them, and it fails as late as the grammar allows. -/
theorem ItemFeed.readWithin_derived {err : Option FeedError} (n : Nat) {ts : List Token}
    (prev : Option Token) (ha : Ahead err ts) (hl : ∀ t ∈ ts, t.Legible)
    (he : ∀ t ∈ ts, t.kind ≠ .eof) (hn : ts.length + 1 ≤ n) :
    ∃ (ds : List ItemDerivation) (rest : List Token) (x : Option ReadError) (c : Cursor),
      readWithin n (.over err prev ts) = (⟨ds.map ItemDerivation.toItem, x⟩, c) ∧
      Consumes (ds.flatMap ItemDerivation.tokens) ts rest ∧ Ahead err rest ∧
      (x = none ↔ rest = []) ∧ ∀ e, x = some e → Reader.FailsAt err ts
        (Begins fun ds : List ItemDerivation => ds.flatMap ItemDerivation.tokens) e c := by
  induction n generalizing ts prev with
  | zero => omega
  | succ n ih =>
    rw [readWithin]
    cases ts with
    | nil =>
      have hk : (Cursor.over err prev []).curr.kind = .eof := Token.kind_endAfter prev
      rw [if_pos hk]
      exact ⟨[], [], none, _, rfl, consumes_nil [], ha, ⟨fun _ => rfl, fun _ => rfl⟩, nofun⟩
    | cons t ts =>
      have hk : ¬ (Cursor.over err prev (t :: ts)).curr.kind = .eof := he t List.mem_cons_self
      rw [if_neg hk]
      rcases Reader.item_reads hl prev with
        ⟨i, prev', toks, rest, hr, hd, har, d, rfl, rfl⟩ | ⟨x, c, hr, hfails⟩
      · obtain ⟨x, toks, hx, -⟩ := d.tokens_eq_cons
        have hlen := hd.length
        rw [hx, List.length_cons, List.length_cons] at hlen
        rw [List.length_cons] at hn
        have hrest : ∀ u ∈ rest, u.kind ≠ .eof := fun u hu =>
          he u (by rw [hd.eq]; exact List.mem_append_right _ hu)
        obtain ⟨ds, left, x, c, hf, hds, hleft, hx, hfails⟩ :=
          ih prev' har (hd.legible hl) hrest (by omega)
        simp only [hr, hf]
        refine ⟨d :: ds, left, x, c, rfl, hd.append hds, hleft, hx, fun e he => ?_⟩
        exact .append hd ((hfails e he).mono fun _ => Begins.cons d)
      · simp only [hr]
        refine ⟨[], t :: ts, some x, c, rfl, consumes_nil _, ha, ⟨nofun, nofun⟩, ?_⟩
        intro e he
        rw [← Option.some.inj he]
        exact hfails.mono fun _ => Begins.head

/-- The items of a whole feed have derivations at the front of its tokens. -/
theorem ItemFeed.ofTokenFeed_derived {feed : TokenFeed} (hl : ∀ t ∈ feed.tokens, t.Legible)
    (he : ∀ t ∈ feed.tokens, t.kind ≠ .eof) (ha : Ahead feed.error feed.tokens) :
    ∃ (ds : List ItemDerivation) (rest : List Token) (x : Option ReadError),
      ofTokenFeed feed = ⟨ds.map ItemDerivation.toItem, x⟩ ∧
      Consumes (ds.flatMap ItemDerivation.tokens) feed.tokens rest ∧ Ahead feed.error rest ∧
      (x = none ↔ rest = []) ∧ ∀ e, x = some e → Reader.Reported feed.error e := by
  obtain ⟨ts, err⟩ := feed
  obtain ⟨ds, rest, x, c, hread, hds, har, hx, hfails⟩ := readWithin_derived _ none ha hl he
    (Nat.succ_le_succ (Nat.le_of_eq (Cursor.remaining_over he err none).symm))
  rw [ofTokenFeed, Cursor.ofFeed_eq_over ha]
  dsimp only [read]
  rw [hread]
  exact ⟨ds, rest, x, rfl, hds, har, hx, fun e he => (hfails e he).reported⟩

/-- What is read from a whole feed has derivations, or reading fails for one of two reasons. -/
theorem ItemFeed.ofTokenFeed_sound {feed : TokenFeed} (hl : ∀ t ∈ feed.tokens, t.Legible)
    (he : ∀ t ∈ feed.tokens, t.kind ≠ .eof) :
    FeedRead feed.error feed.tokens (ofTokenFeed feed) := by
  by_cases ha : Ahead feed.error feed.tokens
  · obtain ⟨ds, rest, x, hfeed, hds, har, hx, hrep⟩ := ofTokenFeed_derived hl he ha
    cases x with
    | none =>
      obtain rfl := hx.mp rfl
      exact Or.inl ⟨har rfl, ds, hds, hfeed⟩
    | some e => exact Or.inr ⟨_, e, hfeed, hrep e rfl⟩
  · obtain ⟨ts, err⟩ := feed
    cases err with
    | none => exact absurd (ahead_none ts) ha
    | some e =>
      cases ts with
      | nil => exact Or.inr ⟨[], .feed e, rfl, .feed rfl⟩
      | cons t ts => exact absurd (ahead_cons _ t ts) ha

end SumLang
