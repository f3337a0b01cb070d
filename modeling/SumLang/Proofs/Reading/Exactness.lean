import SumLang.Proofs.Reading.Completeness
import SumLang.Proofs.Reading.Identifiers
import SumLang.Proofs.Reading.SourceShape

/-!
# Reading accepts exactly the grammar

A list of tokens that a text can have is read to its end exactly when it has a
derivation and all of its numbers fit into words. The derivation is then the only one,
and the items are those it stands for. Every other list is refused with a parse error.
-/

namespace SumLang

namespace ItemFeed

/-- A feed gives all of its items exactly when no failure follows them. -/
theorem toExcept_eq_ok {feed : ItemFeed} {items : List Item} :
    feed.toExcept = .ok items ↔ feed = ⟨items, none⟩ := by
  obtain ⟨items', error⟩ := feed
  cases error <;> simp [toExcept]

/-- A feed gives a failure exactly when that failure follows its items. -/
theorem toExcept_eq_error {feed : ItemFeed} {e : ReadError} :
    feed.toExcept = .error e ↔ feed.error = some e := by
  obtain ⟨items, error⟩ := feed
  cases error <;> simp [toExcept]

/-- Tokens without illegal characters are read to the end or refused with a parse error. -/
theorem toExcept_cases {ts : List Token} (h : ∀ t ∈ ts, t.Lexed) :
    (∃ ds : List ItemDerivation, Consumes (ds.flatMap ItemDerivation.tokens) ts [] ∧
      (ofTokenFeed (.ofTokens ts)).toExcept = .ok (ds.map ItemDerivation.toItem)) ∨
    ∃ e, (ofTokenFeed (.ofTokens ts)).toExcept = .error (.parse e) := by
  rw [TokenFeed.ofTokens_of_lexed h]
  have hread : FeedRead none ts (ofTokenFeed ⟨ts, none⟩) := by
    refine @ofTokenFeed_sound ⟨ts, none⟩ ?_ ?_
    · exact fun t ht => (h t ht).legible
    · exact fun t ht => (h t ht).kind_ne_eof
  rcases hread with ⟨-, ds, hds, hfeed⟩ | ⟨items, e, hfeed, hrep⟩
  · exact Or.inl ⟨ds, hds, toExcept_eq_ok.mpr hfeed⟩
  · cases hrep with
    | parse e => exact Or.inr ⟨e, by rw [hfeed, toExcept]⟩
    | feed hfeed => contradiction

/-- The tokens of a derivation whose numbers fit are read as the items of the derivation. -/
theorem toExcept_of_derivation {ts : List Token} (h : ∀ t ∈ ts, t.Lexed) (hf : ∀ t ∈ ts, t.Fits)
    {ds : List ItemDerivation} (hds : ds.flatMap ItemDerivation.tokens = ts) :
    (ofTokenFeed (.ofTokens ts)).toExcept = .ok (ds.map ItemDerivation.toItem) := by
  subst hds
  rw [toExcept_eq_ok, TokenFeed.ofTokens_of_lexed h]
  exact ofTokenFeed_complete ds (fun t ht => ⟨(h t ht).legible, hf t ht⟩)
    fun t ht => (h t ht).kind_ne_eof

/-- Tokens of a text are read exactly when they have a derivation with numbers that fit, and the
answer is the syntax of that derivation. -/
theorem toExcept_eq_ok_iff {ts : List Token} (h : ∀ t ∈ ts, t.Lexed) {items : List Item} :
    (ofTokenFeed (.ofTokens ts)).toExcept = .ok items ↔
      (∀ t ∈ ts, t.Fits) ∧ ∃ ds : List ItemDerivation,
        ds.flatMap ItemDerivation.tokens = ts ∧ ds.map ItemDerivation.toItem = items := by
  constructor
  · intro hok
    rcases toExcept_cases h with ⟨ds, hds, hread⟩ | ⟨e, hread⟩
    · have htokens := hds.eq
      rw [List.append_nil] at htokens
      have hitems := Except.ok.inj (hread.symm.trans hok)
      exact ⟨htokens ▸ hds.fits, ds, htokens.symm, hitems⟩
    · rw [hread] at hok
      contradiction
  · rintro ⟨hf, ds, hds, rfl⟩
    exact toExcept_of_derivation h hf hds

/-- Reading tokens of a text succeeds exactly on those that the grammar derives with numbers that
fit. The derivation is unique and the answer is its syntax, in which all sums nest to the right and
the identifiers stand in order, as functions where a parenthesis follows and as variables where
none does. Every other list is refused with a parse error. -/
theorem ofTokens_reads_exactly_grammar {ts : List Token} (h : ∀ t ∈ ts, t.Lexed) :
    (∀ items, (ofTokenFeed (.ofTokens ts)).toExcept = .ok items ↔
      (∀ t ∈ ts, t.Fits) ∧ ∃ ds : List ItemDerivation,
        ds.flatMap ItemDerivation.tokens = ts ∧ ds.map ItemDerivation.toItem = items) ∧
    (∀ ds ds' : List ItemDerivation, ds.flatMap ItemDerivation.tokens = ts →
      ds'.flatMap ItemDerivation.tokens = ts → ds = ds') ∧
    (∀ items, (ofTokenFeed (.ofTokens ts)).toExcept = .ok items →
      (∀ i ∈ items, i.RightNested) ∧ identifiers ts = items.flatMap Item.names) ∧
    ((¬ ∃ items, (ofTokenFeed (.ofTokens ts)).toExcept = .ok items) →
      ∃ e, (ofTokenFeed (.ofTokens ts)).toExcept = .error (.parse e)) := by
  refine ⟨fun items => toExcept_eq_ok_iff h, ?_, ?_, ?_⟩
  · intro ds ds' hds hds'
    exact items_eq_of_tokens (hds.trans hds'.symm)
  · intro items hok
    obtain ⟨-, ds, rfl, rfl⟩ := (toExcept_eq_ok_iff h).mp hok
    constructor
    · intro i hi
      obtain ⟨d, -, rfl⟩ := List.mem_map.mp hi
      exact d.rightNested
    · exact identifiers_items ds
  · intro hno
    rcases toExcept_cases h with ⟨ds, -, hread⟩ | hfail
    · exact absurd ⟨_, hread⟩ hno
    · exact hfail

/-- A text with a function of two parameters and a nested call has the derivation of its items. -/
theorem derivation_of_readable_text :
    let code := "func f(a, b) \x7b return a + b + a; \x7d begin \x7b var x = f(1, g()); \x7d"
    ∃ ds : List ItemDerivation,
      ds.flatMap ItemDerivation.tokens = (TokenFeed.ofText code).tokens ∧
      ds.map ItemDerivation.toItem =
        [.func "f" ["a", "b"] [.ret (.add (.var "a" 1) (.add (.var "b" 1) (.var "a" 1) 1) 1) 1] 1,
          .entry [.decl "x" (.call "f" [.lit (.int 1) 1, .call "g" [] 1] 1) 1] 1] := by
  intro code
  have hexact := ofTokens_reads_exactly_grammar (TokenFeed.lexed_ofText code)
  exact ((hexact.1 _).mp (toExcept_eq_ok.mpr (by decide +kernel))).2

end ItemFeed

end SumLang
