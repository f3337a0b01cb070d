import SumLang.Proofs.Reading.Exactness
import SumLang.Proofs.Reading.Lockstep

/-!
# Which failure of a text is reported

A text is read while it is scanned, one token ahead, so that a parse error and an illegal
character compete. The parse error is reported when it lies at a token in front of the
illegal character, and the illegal character in every other case, even where the tokens
in front of it form items by themselves. An item is complete only when the token after
its closing brace is there, so that an item right before the illegal character is
withheld.
-/

namespace SumLang

/-! ### Items that a further token follows -/

/-- The brace that closes an item. -/
def ItemDerivation.closing : ItemDerivation → Leaf .rbrace
  | .entry _ block => block.closing
  | .func _ _ _ _ _ block => block.closing

/-- The last token of an item is its closing brace. -/
theorem ItemDerivation.tokens_eq_concat (d : ItemDerivation) :
    ∃ init, d.tokens = init ++ [d.closing.1] := by
  cases d with
  | entry word block => exact ⟨word.1 :: block.opening.1 :: _, rfl⟩
  | func word name opening params closing block =>
    refine ⟨word.1 :: name.1 :: opening.1 :: (paramTokens params ++ closing.1 ::
      block.opening.1 :: block.body.flatMap StmtDerivation.tokens), ?_⟩
    simp only [tokens, BlockDerivation.tokens, ItemDerivation.closing, List.cons_append,
      List.append_assoc]

/-- The items whose closing brace is not the last of the tokens `ts`. -/
def followedIn (ts : List Token) (ds : List ItemDerivation) : List ItemDerivation :=
  ds.filter fun d => ts.getLast? ≠ some d.closing.1

/-- Where tokens are left after some items, each of the items is followed by one. -/
theorem followedIn_append {ds : List ItemDerivation} {rest : List Token}
    (hn : (ds.flatMap ItemDerivation.tokens ++ rest).Nodup) (hrest : rest ≠ []) :
    followedIn (ds.flatMap ItemDerivation.tokens ++ rest) ds = ds := by
  refine List.filter_eq_self.mpr fun d hd => decide_eq_true ?_
  rw [List.getLast?_append_of_ne_nil _ hrest]
  intro hlast
  obtain ⟨init, hinit⟩ := d.tokens_eq_concat
  have hclosing : d.closing.1 ∈ ds.flatMap ItemDerivation.tokens := by
    refine List.mem_flatMap.mpr ⟨d, hd, ?_⟩
    rw [hinit]
    exact List.mem_append_right init List.mem_cons_self
  exact (List.nodup_append.mp hn).2.2 _ hclosing _ (List.mem_of_getLast? hlast) rfl

/-- Where no token is left after some items, all but the last of them are followed by one. -/
theorem followedIn_concat {ds : List ItemDerivation} {d : ItemDerivation}
    (hn : ((ds ++ [d]).flatMap ItemDerivation.tokens).Nodup) :
    followedIn ((ds ++ [d]).flatMap ItemDerivation.tokens) (ds ++ [d]) = ds := by
  obtain ⟨init, hinit⟩ := d.tokens_eq_concat
  have htokens : (ds ++ [d]).flatMap ItemDerivation.tokens =
      ds.flatMap ItemDerivation.tokens ++ (init ++ [d.closing.1]) := by
    rw [List.flatMap_append, List.flatMap_singleton, hinit]
  have hne : init ++ [d.closing.1] ≠ [] := List.concat_ne_nil _ _
  have hfront := followedIn_append (htokens ▸ hn) hne
  rw [followedIn] at hfront
  rw [followedIn, htokens, List.filter_append, hfront]
  simp

/-! ### Precedence -/

namespace FeedLockstep

variable {e : FeedError} {feed feed' : ItemFeed}

/-- A parse error of the tokens alone is reported unless it lies at the end mark. -/
theorem toExcept_parse_iff (h : FeedLockstep e feed feed')
    (hparse : ∀ x, feed'.error = some x → ∃ p, x = .parse p) (p : ParseError) :
    feed.toExcept = .error (.parse p) ↔
      feed'.toExcept = .error (.parse p) ∧ p.token.kind ≠ .eof := by
  cases h with
  | @failed items x hx =>
    refine ⟨fun hp => ⟨hp, ?_⟩, And.left⟩
    exact hx p (Except.error.inj hp)
  | @cut items x hx =>
    refine ⟨nofun, fun ⟨hp, hk⟩ => ?_⟩
    exact absurd (hx p (Except.error.inj hp)) hk
  | withheld items i => exact ⟨nofun, fun hp => nomatch hp.1⟩
  | exhausted feed items =>
    obtain ⟨p, hp⟩ := hparse .depth rfl
    contradiction

/-- The error of the feed is reported in every other case. -/
theorem toExcept_eq_lex (h : FeedLockstep e feed feed')
    (hparse : ∀ x, feed'.error = some x → ∃ p, x = .parse p)
    (hno : ¬ ∃ p, feed'.toExcept = .error (.parse p) ∧ p.token.kind ≠ .eof) :
    feed.toExcept = .error (.feed e) := by
  cases h with
  | @failed items x hx =>
    obtain ⟨p, rfl⟩ := hparse x rfl
    exact absurd ⟨p, rfl, hx p rfl⟩ hno
  | cut items hx => rfl
  | withheld items i => rfl
  | exhausted feed items =>
    obtain ⟨p, hp⟩ := hparse .depth rfl
    contradiction

/-- The items of the feed are those of its tokens that a further token follows. -/
theorem items_eq_followedIn (h : FeedLockstep e feed feed')
    (hparse : ∀ x, feed'.error = some x → ∃ p, x = .parse p) {ds : List ItemDerivation}
    {rest : List Token} (hn : (ds.flatMap ItemDerivation.tokens ++ rest).Nodup)
    (hitems : feed'.items = ds.map ItemDerivation.toItem)
    (herror : feed'.error = none ↔ rest = []) :
    feed.items =
      (followedIn (ds.flatMap ItemDerivation.tokens ++ rest) ds).map ItemDerivation.toItem := by
  have hall (hfail : feed'.error ≠ none) :
      (followedIn (ds.flatMap ItemDerivation.tokens ++ rest) ds).map ItemDerivation.toItem =
        feed'.items := by
    rw [followedIn_append hn (fun hr => hfail (herror.mpr hr)), hitems]
  cases h with
  | failed items hx => exact (hall nofun).symm
  | cut items hx => exact (hall nofun).symm
  | withheld items i =>
    obtain rfl := herror.mp rfl
    obtain ⟨ds, last, rfl, hds, hlast⟩ := List.map_eq_append_iff.mp hitems.symm
    obtain ⟨d, rfl, -⟩ := List.map_eq_singleton_iff.mp hlast
    rw [List.append_nil] at hn ⊢
    rw [followedIn_concat hn, hds]
  | exhausted feed items =>
    obtain ⟨p, hp⟩ := hparse .depth rfl
    contradiction

end FeedLockstep

namespace ItemFeed

/-- All items of a text, read once the whole of it has been scanned. -/
def readScanned (code : Text) : Except ReadError (List Item) :=
  match TokenFeed.ofText code with
  | ⟨_, some e⟩ => .error (.feed e)
  | ⟨ts, none⟩ => (ofTokenFeed (.ofTokens ts)).toExcept

/-- A text that is scanned to its end is read as its tokens are. Where it is scanned to an illegal
character, a parse error is reported exactly when the tokens in front of it alone give it at one of
them, and the illegal character in every other case; and the items are those of the tokens alone
whose closing brace is not the last token. -/
theorem ofText_error_precedence {code : Text} {ts : List Token} {err : Option LexError}
    (h : TokenFeed.ofText code = ⟨ts, err.map .illegal⟩) :
    (err = none → ofText code = ofTokenFeed (.ofTokens ts) ∧
      (ofText code).toExcept = readScanned code) ∧
    ∀ e, err = some e →
      (∀ p, (ofText code).toExcept = .error (.parse p) ↔
        (ofTokenFeed (.ofTokens ts)).toExcept = .error (.parse p) ∧ p.token.kind ≠ .eof) ∧
      ((¬ ∃ p, (ofTokenFeed (.ofTokens ts)).toExcept = .error (.parse p) ∧ p.token.kind ≠ .eof) →
        (ofText code).toExcept = .error (.feed e)) ∧
      ∃ (ds : List ItemDerivation) (rest : List Token),
        ts = ds.flatMap ItemDerivation.tokens ++ rest ∧
        (ofTokenFeed (.ofTokens ts)).items = ds.map ItemDerivation.toItem ∧
        (ofText code).items = (followedIn ts ds).map ItemDerivation.toItem := by
  have hlexed := TokenFeed.lexed_ofText code
  have hnodup := TokenFeed.nodup_ofText code
  rw [h] at hlexed hnodup
  have htokens := TokenFeed.ofTokens_of_lexed hlexed
  rw [readScanned, ofText, h, htokens]
  constructor
  · rintro rfl
    refine ⟨rfl, ?_⟩
    change _ = (ofTokenFeed (.ofTokens ts)).toExcept
    rw [htokens]
    rfl
  rintro e rfl
  by_cases hnil : ts = []
  · subst hnil
    -- The first token is demanded before any item is read.
    have hillegal : ofTokenFeed ⟨[], some e⟩ = ⟨[], some (.feed e)⟩ := rfl
    have hnone : ofTokenFeed ⟨[], none⟩ = ⟨[], none⟩ := rfl
    rw [Option.map_some, hillegal, hnone]
    refine ⟨fun p => ?_, fun _ => rfl, [], [], rfl, rfl, rfl⟩
    simp [toExcept]
  · obtain ⟨ds, rest, x, hfeed, hds, -, hx, hrep⟩ :=
      @ofTokenFeed_derived ⟨ts, none⟩ (fun t ht => (hlexed t ht).legible)
        (fun t ht => (hlexed t ht).kind_ne_eof) (ahead_none ts)
    have hts : ts = ds.flatMap ItemDerivation.tokens ++ rest := hds.eq
    have hitems : (ofTokenFeed ⟨ts, none⟩).items = ds.map ItemDerivation.toItem := by
      rw [hfeed]
    have herror : (ofTokenFeed ⟨ts, none⟩).error = none ↔ rest = [] := by rw [hfeed, hx]
    have hparse (y : ReadError) (hy : (ofTokenFeed ⟨ts, none⟩).error = some y) :
        ∃ p, y = .parse p := by
      rw [hfeed] at hy
      cases hrep y hy with
      | feed he => contradiction
      | parse p => exact ⟨p, rfl⟩
    have hlock := ofTokenFeed_lockstep e ⟨hnil, fun t ht => (hlexed t ht).kind_ne_eof⟩
    refine ⟨hlock.toExcept_parse_iff hparse, hlock.toExcept_eq_lex hparse, ds, rest, hts, hitems,
      ?_⟩
    rw [hts] at hnodup
    have hfollowed := hlock.items_eq_followedIn hparse hnodup hitems herror
    rwa [← hts] at hfollowed

/-- An illegal character is reported although the tokens before it are two items by themselves. -/
theorem toExcept_illegal_after_items :
    let code := "func f() \x7b return 1; \x7d begin \x7b \x7d #"
    (ofTokenFeed (.ofTokens (TokenFeed.ofText code).tokens)).toExcept =
      .ok [.func "f" [] [.ret (.lit (.int 1) 1) 1] 1, .entry [] 1] ∧
    (ofText code).toExcept = .error (.feed (.illegal ⟨"#", 33, some 1⟩)) := by
  intro code
  have halone : (ofTokenFeed (.ofTokens (TokenFeed.ofText code).tokens)).toExcept =
      .ok [.func "f" [] [.ret (.lit (.int 1) 1) 1] 1, .entry [] 1] :=
    toExcept_eq_ok.mpr (by decide +kernel)
  have hillegal : TokenFeed.ofText code = ⟨(TokenFeed.ofText code).tokens,
      (some ⟨"#", 33, some 1⟩ : Option LexError).map .illegal⟩ := by decide +kernel
  refine ⟨halone, ((ofText_error_precedence hillegal).2 _ rfl).2.1 ?_⟩
  rintro ⟨p, hp, -⟩
  exact nomatch halone.symm.trans hp

/-- A text with a lone surrogate at its end has no illegal character, and yet its parse error is
reported only where it is read while it is scanned: scanning the whole of it fails. -/
theorem toExcept_parse_before_surrogate :
    let code : Text := ⟨"begin \x7b \x7d \x7d", [(0, "")]⟩
    (¬ ∃ e : LexError, (TokenFeed.ofText code).error = some (.illegal e)) ∧
    (ofText code).toExcept =
      .error (.parse ⟨.oneOf [.beginWord, .funcWord], ⟨.rbrace, some ("\x7d" : Text), 1, 10⟩⟩) ∧
    readScanned code = .error (.feed .unencodable) := by
  intro code
  have hscan : (TokenFeed.ofText code).error = some .unencodable := by decide +kernel
  refine ⟨?_, toExcept_eq_error.mpr (by decide +kernel), ?_⟩
  · rintro ⟨e, he⟩
    exact nomatch hscan.symm.trans he
  · decide +kernel

end ItemFeed

end SumLang
