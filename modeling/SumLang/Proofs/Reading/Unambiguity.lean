import SumLang.Proofs.Reading.Derivation

/-!
# Unambiguity of the grammar

Each derivation is determined by its tokens. The statements are about a derivation at
the front of a longer token list, because a derivation meets its neighbours there: two
derivations that start the same list are equal and leave the same rest, as long as
neither rest continues them.
-/

namespace SumLang

/-- A leaf is determined by its token. -/
theorem Leaf.eq_of_token {k : Kind} {a b : Leaf k} (h : a.1 = b.1) : a = b := Subtype.ext h

/-- Leaves of different kinds hold different tokens. -/
theorem Leaf.token_ne {k l : Kind} (a : Leaf k) (b : Leaf l) (h : k ≠ l) :
    a.1 ≠ b.1 := by
  intro he
  exact h (a.2.symm.trans ((congrArg Token.kind he).trans b.2))

/-- A leaf does not continue what its kind does not continue. -/
theorem Leaf.stops {k : Kind} {kinds : List Kind} (a : Leaf k) (rest : List Token)
    (h : k ∉ kinds) : Stops kinds (a.1 :: rest) := stops_cons (by rwa [a.2])

/-- What stops at some kinds does not start with a leaf of one of them. -/
theorem Stops.ne_leaf {k : Kind} {kinds : List Kind} {rest ts : List Token} (hr : Stops kinds rest)
    (a : Leaf k) (h : k ∈ kinds) : rest ≠ a.1 :: ts := by
  rintro rfl
  exact hr.head (by rwa [a.2])

/-- The parenthesis that closes a call is not the first token of its arguments. -/
theorem ArgsDerivation.closing_ne (args : ArgsDerivation) (closing : Leaf .rparen)
    (r r' : List Token) : closing.1 :: r ≠ args.tokens ++ r' := by
  obtain ⟨t, ts, ha, ht⟩ := args.tokens_eq_cons
  rw [ha, List.cons_append]
  intro he
  have hk := closing.2
  rw [(List.cons.inj he).1] at hk
  rcases ht with ht | ht <;> exact absurd (ht.symm.trans hk) (by decide)

mutual

/-- Expressions at the front of a token list are equal and leave the same rest. -/
theorem ExprDerivation.eq_of_append : ∀ (d d' : ExprDerivation) {r r' : List Token},
    d.tokens ++ r = d'.tokens ++ r' → Stops exprFollow r → Stops exprFollow r' →
    d = d' ∧ r = r'
  | .single p, .single p', r, r', h, hr, hr' => by
    obtain ⟨rfl, hrest⟩ := PrimaryDerivation.eq_of_append p p' h (hr.mono (by decide))
      (hr'.mono (by decide))
    exact ⟨rfl, hrest⟩
  | .single p, .sum p' sign e, r, r', h, hr, hr' => by
    rw [ExprDerivation.tokens, ExprDerivation.tokens, List.append_assoc, List.cons_append] at h
    obtain ⟨-, hrest⟩ := PrimaryDerivation.eq_of_append p p' h (hr.mono (by decide))
      (sign.stops _ (by decide))
    exact absurd hrest (hr.ne_leaf sign (by decide))
  | .sum p sign e, .single p', r, r', h, hr, hr' => by
    rw [ExprDerivation.tokens, ExprDerivation.tokens, List.append_assoc, List.cons_append] at h
    obtain ⟨-, hrest⟩ := PrimaryDerivation.eq_of_append p p' h (sign.stops _ (by decide))
      (hr'.mono (by decide))
    exact absurd hrest.symm (hr'.ne_leaf sign (by decide))
  | .sum p sign e, .sum p' sign' e', r, r', h, hr, hr' => by
    simp only [ExprDerivation.tokens, List.append_assoc, List.cons_append] at h
    obtain ⟨rfl, hrest⟩ := PrimaryDerivation.eq_of_append p p' h (sign.stops _ (by decide))
      (sign'.stops _ (by decide))
    obtain ⟨hs, he⟩ := List.cons.inj hrest
    obtain ⟨rfl, hr⟩ := ExprDerivation.eq_of_append e e' he hr hr'
    exact ⟨by rw [Leaf.eq_of_token hs], hr⟩

/-- Primaries at the front of a token list are equal and leave the same rest. -/
theorem PrimaryDerivation.eq_of_append : ∀ (p p' : PrimaryDerivation) {r r' : List Token},
    p.tokens ++ r = p'.tokens ++ r' → Stops [.lparen] r → Stops [.lparen] r' →
    p = p' ∧ r = r'
  | .call t opening args closing, .call t' opening' args' closing', r, r', h, _, _ => by
    simp only [PrimaryDerivation.tokens, List.append_assoc, List.cons_append, List.nil_append,
      List.cons.injEq] at h
    obtain ⟨ht, ho, ha⟩ := h
    obtain ⟨rfl, hrest⟩ := ArgsDerivation.eq_of_append args args' ha
      (closing.stops _ (by decide)) (closing'.stops _ (by decide))
    obtain ⟨hc, hr⟩ := List.cons.inj hrest
    exact ⟨by rw [Leaf.eq_of_token ht, Leaf.eq_of_token ho, Leaf.eq_of_token hc], hr⟩
  | .call t opening args closing, .bareCall t' opening' closing', r, r', h, _, _ => by
    simp only [PrimaryDerivation.tokens, List.append_assoc, List.cons_append, List.nil_append,
      List.cons.injEq] at h
    exact absurd h.2.2.symm (args.closing_ne closing' _ _)
  | .call t opening args closing, .name t', r, r', h, _, hr' => by
    simp only [PrimaryDerivation.tokens, List.cons_append, List.nil_append, List.cons.injEq] at h
    exact absurd h.2.symm (hr'.ne_leaf opening (by decide))
  | .call t opening args closing, .integer t', r, r', h, _, _ =>
    absurd (List.cons.inj h).1 (t.token_ne t' nofun)
  | .bareCall t opening closing, .call t' opening' args' closing', r, r', h, _, _ => by
    simp only [PrimaryDerivation.tokens, List.append_assoc, List.cons_append, List.nil_append,
      List.cons.injEq] at h
    exact absurd h.2.2 (args'.closing_ne closing _ _)
  | .bareCall t opening closing, .bareCall t' opening' closing', r, r', h, _, _ => by
    simp only [PrimaryDerivation.tokens, List.cons_append, List.nil_append, List.cons.injEq] at h
    obtain ⟨ht, ho, hc, hr⟩ := h
    exact ⟨by rw [Leaf.eq_of_token ht, Leaf.eq_of_token ho, Leaf.eq_of_token hc], hr⟩
  | .bareCall t opening closing, .name t', r, r', h, _, hr' => by
    simp only [PrimaryDerivation.tokens, List.cons_append, List.nil_append, List.cons.injEq] at h
    exact absurd h.2.symm (hr'.ne_leaf opening (by decide))
  | .bareCall t opening closing, .integer t', r, r', h, _, _ =>
    absurd (List.cons.inj h).1 (t.token_ne t' nofun)
  | .name t, .call t' opening' args' closing', r, r', h, hr, _ => by
    simp only [PrimaryDerivation.tokens, List.cons_append, List.nil_append, List.cons.injEq] at h
    exact absurd h.2 (hr.ne_leaf opening' (by decide))
  | .name t, .bareCall t' opening' closing', r, r', h, hr, _ => by
    simp only [PrimaryDerivation.tokens, List.cons_append, List.nil_append, List.cons.injEq] at h
    exact absurd h.2 (hr.ne_leaf opening' (by decide))
  | .name t, .name t', r, r', h, _, _ =>
    ⟨by rw [Leaf.eq_of_token (List.cons.inj h).1], (List.cons.inj h).2⟩
  | .name t, .integer t', r, r', h, _, _ =>
    absurd (List.cons.inj h).1 (t.token_ne t' nofun)
  | .integer t, .call t' opening' args' closing', r, r', h, _, _ =>
    absurd (List.cons.inj h).1 (t.token_ne t' nofun)
  | .integer t, .bareCall t' opening' closing', r, r', h, _, _ =>
    absurd (List.cons.inj h).1 (t.token_ne t' nofun)
  | .integer t, .name t', r, r', h, _, _ =>
    absurd (List.cons.inj h).1 (t.token_ne t' nofun)
  | .integer t, .integer t', r, r', h, _, _ =>
    ⟨by rw [Leaf.eq_of_token (List.cons.inj h).1], (List.cons.inj h).2⟩

/-- Arguments at the front of a token list are equal and leave the same rest. -/
theorem ArgsDerivation.eq_of_append : ∀ (d d' : ArgsDerivation) {r r' : List Token},
    d.tokens ++ r = d'.tokens ++ r' → Stops argsFollow r → Stops argsFollow r' →
    d = d' ∧ r = r'
  | .last e, .last e', r, r', h, hr, hr' => by
    obtain ⟨rfl, hrest⟩ := ExprDerivation.eq_of_append e e' h (hr.mono (by decide))
      (hr'.mono (by decide))
    exact ⟨rfl, hrest⟩
  | .last e, .more e' comma rest, r, r', h, hr, hr' => by
    rw [ArgsDerivation.tokens, ArgsDerivation.tokens, List.append_assoc, List.cons_append] at h
    obtain ⟨-, hrest⟩ := ExprDerivation.eq_of_append e e' h (hr.mono (by decide))
      (comma.stops _ (by decide))
    exact absurd hrest (hr.ne_leaf comma (by decide))
  | .more e comma rest, .last e', r, r', h, hr, hr' => by
    rw [ArgsDerivation.tokens, ArgsDerivation.tokens, List.append_assoc, List.cons_append] at h
    obtain ⟨-, hrest⟩ := ExprDerivation.eq_of_append e e' h (comma.stops _ (by decide))
      (hr'.mono (by decide))
    exact absurd hrest.symm (hr'.ne_leaf comma (by decide))
  | .more e comma rest, .more e' comma' rest', r, r', h, hr, hr' => by
    simp only [ArgsDerivation.tokens, List.append_assoc, List.cons_append] at h
    obtain ⟨rfl, hrest⟩ := ExprDerivation.eq_of_append e e' h (comma.stops _ (by decide))
      (comma'.stops _ (by decide))
    obtain ⟨hc, ha⟩ := List.cons.inj hrest
    obtain ⟨rfl, hr⟩ := ArgsDerivation.eq_of_append rest rest' ha hr hr'
    exact ⟨by rw [Leaf.eq_of_token hc], hr⟩

end

/-- A sequence of phrases is determined by its tokens when each phrase is, and when what follows
the sequence starts no further phrase. -/
theorem flatMap_eq_of_append {α : Type} {yield : α → List Token} {kinds : List Kind}
    (hinj : ∀ (a b : α) {r r' : List Token}, yield a ++ r = yield b ++ r' → a = b ∧ r = r')
    (hstart : ∀ a, ∃ t ts, yield a = t :: ts ∧ t.kind ∈ kinds) :
    ∀ (l l' : List α) {r r' : List Token}, l.flatMap yield ++ r = l'.flatMap yield ++ r' →
      Stops kinds r → Stops kinds r' → l = l' ∧ r = r' := by
  intro l
  induction l with
  | nil =>
    intro l' r r' h hr _
    cases l' with
    | nil => exact ⟨rfl, h⟩
    | cons b l' =>
      obtain ⟨t, ts, hb, ht⟩ := hstart b
      rw [List.flatMap_nil, List.nil_append, List.flatMap_cons, hb, List.append_assoc,
        List.cons_append] at h
      subst h
      exact absurd ht hr.head
  | cons a l ih =>
    intro l' r r' h hr hr'
    cases l' with
    | nil =>
      obtain ⟨t, ts, ha, ht⟩ := hstart a
      rw [List.flatMap_nil, List.nil_append, List.flatMap_cons, ha, List.append_assoc,
        List.cons_append] at h
      subst h
      exact absurd ht hr'.head
    | cons b l' =>
      rw [List.flatMap_cons, List.flatMap_cons, List.append_assoc, List.append_assoc] at h
      obtain ⟨rfl, hrest⟩ := hinj a b h
      obtain ⟨rfl, he⟩ := ih l' hrest hr hr'
      exact ⟨rfl, he⟩

/-- Expressions in front of a semicolon are equal, and so are the semicolons and the rests. -/
theorem ExprDerivation.eq_of_append_semi {e e' : ExprDerivation} {semi semi' : Leaf .semi}
    {r r' : List Token} (h : e.tokens ++ semi.1 :: r = e'.tokens ++ semi'.1 :: r') :
    e = e' ∧ semi = semi' ∧ r = r' := by
  obtain ⟨he, hrest⟩ := ExprDerivation.eq_of_append e e' h (semi.stops _ (by decide))
    (semi'.stops _ (by decide))
  obtain ⟨hs, hr⟩ := List.cons.inj hrest
  exact ⟨he, Leaf.eq_of_token hs, hr⟩

/-- Statements at the front of a token list are equal, whatever follows their semicolons. -/
theorem StmtDerivation.eq_of_append (d d' : StmtDerivation) {r r' : List Token}
    (h : d.tokens ++ r = d'.tokens ++ r') : d = d' ∧ r = r' := by
  cases d with
  | decl word name sign e semi =>
    cases d' with
    | decl word' name' sign' e' semi' =>
      simp only [StmtDerivation.tokens, List.append_assoc, List.cons_append, List.nil_append,
        List.cons.injEq] at h
      obtain ⟨hw, hn, hs, he⟩ := h
      obtain ⟨rfl, rfl, hr⟩ := ExprDerivation.eq_of_append_semi he
      exact ⟨by rw [Leaf.eq_of_token hw, Leaf.eq_of_token hn, Leaf.eq_of_token hs], hr⟩
    | assign name' sign' e' semi' =>
      exact absurd (List.cons.inj h).1 (word.token_ne name' nofun)
    | ret word' e' semi' => exact absurd (List.cons.inj h).1 (word.token_ne word' nofun)
  | assign name sign e semi =>
    cases d' with
    | decl word' name' sign' e' semi' =>
      exact absurd (List.cons.inj h).1 (name.token_ne word' nofun)
    | assign name' sign' e' semi' =>
      simp only [StmtDerivation.tokens, List.append_assoc, List.cons_append, List.nil_append,
        List.cons.injEq] at h
      obtain ⟨hn, hs, he⟩ := h
      obtain ⟨rfl, rfl, hr⟩ := ExprDerivation.eq_of_append_semi he
      exact ⟨by rw [Leaf.eq_of_token hn, Leaf.eq_of_token hs], hr⟩
    | ret word' e' semi' => exact absurd (List.cons.inj h).1 (name.token_ne word' nofun)
  | ret word e semi =>
    cases d' with
    | decl word' name' sign' e' semi' =>
      exact absurd (List.cons.inj h).1 (word.token_ne word' nofun)
    | assign name' sign' e' semi' =>
      exact absurd (List.cons.inj h).1 (word.token_ne name' nofun)
    | ret word' e' semi' =>
      simp only [StmtDerivation.tokens, List.append_assoc, List.cons_append, List.nil_append,
        List.cons.injEq] at h
      obtain ⟨hw, he⟩ := h
      obtain ⟨rfl, rfl, hr⟩ := ExprDerivation.eq_of_append_semi he
      exact ⟨by rw [Leaf.eq_of_token hw], hr⟩

/-- Blocks at the front of a token list are equal and leave the same rest. -/
theorem BlockDerivation.eq_of_append (b b' : BlockDerivation) {r r' : List Token}
    (h : b.tokens ++ r = b'.tokens ++ r') : b = b' ∧ r = r' := by
  obtain ⟨opening, body, closing⟩ := b
  obtain ⟨opening', body', closing'⟩ := b'
  simp only [BlockDerivation.tokens, List.append_assoc, List.cons_append, List.nil_append,
    List.cons.injEq] at h
  obtain ⟨ho, hb⟩ := h
  have hstart (d : StmtDerivation) :
      ∃ t ts, d.tokens = t :: ts ∧ t.kind ∈ [Kind.varWord, .ident, .returnWord] := by
    obtain ⟨t, ts, hd, ht⟩ := d.tokens_eq_cons
    exact ⟨t, ts, hd, by simpa using ht⟩
  obtain ⟨rfl, hrest⟩ := flatMap_eq_of_append StmtDerivation.eq_of_append hstart body body' hb
    (closing.stops _ (by decide)) (closing'.stops _ (by decide))
  obtain ⟨hc, hr⟩ := List.cons.inj hrest
  exact ⟨by rw [Leaf.eq_of_token ho, Leaf.eq_of_token hc], hr⟩

/-- Parameters in front of a closing parenthesis are equal and leave the same rest. -/
theorem params_eq_of_append (ps ps' : Option ParamsDerivation) {closing closing' : Leaf .rparen}
    {r r' : List Token}
    (h : paramTokens ps ++ closing.1 :: r = paramTokens ps' ++ closing'.1 :: r') :
    ps = ps' ∧ closing = closing' ∧ r = r' := by
  have hinj (a b : Leaf .comma × Leaf .ident) {s s' : List Token}
      (he : moreParamTokens a ++ s = moreParamTokens b ++ s') : a = b ∧ s = s' := by
    simp only [moreParamTokens, List.cons_append, List.nil_append, List.cons.injEq] at he
    exact ⟨Prod.ext (Leaf.eq_of_token he.1) (Leaf.eq_of_token he.2.1), he.2.2⟩
  have hstart (a : Leaf .comma × Leaf .ident) :
      ∃ t ts, moreParamTokens a = t :: ts ∧ t.kind ∈ [Kind.comma] :=
    ⟨a.1.1, [a.2.1], rfl, by simp [a.1.2]⟩
  cases ps with
  | none =>
    cases ps' with
    | none => exact ⟨rfl, Leaf.eq_of_token (List.cons.inj h).1, (List.cons.inj h).2⟩
    | some q => exact absurd (List.cons.inj h).1 (closing.token_ne q.first nofun)
  | some p =>
    cases ps' with
    | none => exact absurd (List.cons.inj h).1 (p.first.token_ne closing' nofun)
    | some q =>
      obtain ⟨first, more⟩ := p
      obtain ⟨first', more'⟩ := q
      obtain ⟨hf, hm⟩ := List.cons.inj h
      obtain ⟨rfl, hrest⟩ := flatMap_eq_of_append hinj hstart more more' hm
        (closing.stops _ (by decide)) (closing'.stops _ (by decide))
      obtain rfl : first = first' := Leaf.eq_of_token hf
      obtain ⟨hc, hr⟩ := List.cons.inj hrest
      exact ⟨rfl, Leaf.eq_of_token hc, hr⟩

/-- Items at the front of a token list are equal and leave the same rest. -/
theorem ItemDerivation.eq_of_append (d d' : ItemDerivation) {r r' : List Token}
    (h : d.tokens ++ r = d'.tokens ++ r') : d = d' ∧ r = r' := by
  cases d with
  | entry word block =>
    cases d' with
    | entry word' block' =>
      obtain ⟨hw, hb⟩ := List.cons.inj h
      obtain ⟨rfl, hr⟩ := block.eq_of_append block' hb
      exact ⟨by rw [Leaf.eq_of_token hw], hr⟩
    | func word' name' opening' params' closing' block' =>
      exact absurd (List.cons.inj h).1 (word.token_ne word' nofun)
  | func word name opening params closing block =>
    cases d' with
    | entry word' block' => exact absurd (List.cons.inj h).1 (word.token_ne word' nofun)
    | func word' name' opening' params' closing' block' =>
      simp only [ItemDerivation.tokens, List.append_assoc, List.cons_append, List.cons.injEq] at h
      obtain ⟨hw, hn, ho, hp⟩ := h
      obtain ⟨rfl, rfl, hb⟩ := params_eq_of_append params params' hp
      obtain ⟨rfl, hr⟩ := block.eq_of_append block' hb
      exact ⟨by rw [Leaf.eq_of_token hw, Leaf.eq_of_token hn, Leaf.eq_of_token ho], hr⟩

/-- No token list has two derivations as a program. -/
theorem items_eq_of_tokens {ds ds' : List ItemDerivation}
    (h : ds.flatMap ItemDerivation.tokens = ds'.flatMap ItemDerivation.tokens) : ds = ds' := by
  have hstart (d : ItemDerivation) :
      ∃ t ts, d.tokens = t :: ts ∧ t.kind ∈ [Kind.beginWord, .funcWord] := by
    obtain ⟨t, ts, hd, ht⟩ := d.tokens_eq_cons
    exact ⟨t, ts, hd, by simpa using ht⟩
  rw [← List.append_nil (ds.flatMap _), ← List.append_nil (ds'.flatMap _)] at h
  exact (flatMap_eq_of_append ItemDerivation.eq_of_append hstart ds ds' h (stops_nil _)
    (stops_nil _)).1

end SumLang
