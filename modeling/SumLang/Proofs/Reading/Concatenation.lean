import SumLang.Proofs.Reading.Displacement
import SumLang.Proofs.Reading.Precedence
import SumLang.Proofs.Token.Illegal

/-!
# Reading one text after another

The last token of a text that is read to its end is a closing brace, which fuses with
nothing. Text that follows is thus scanned by itself and read by itself, from the place
where the first text ends: its items come after those of the first, and its failure is
the failure of the whole.
-/

namespace SumLang

/-! ### The seam of two texts -/

namespace TokenFeed

/-- A text that ends with a symbol and blanks is scanned by itself, whatever follows. -/
theorem scan_append_symbol (p : Position) {before gap : List Char} {c : Char} {k : Kind}
    (hb : ∀ x ∈ before, IsLegal x) (hc : Kind.ofSymbol? c = some k)
    (hg : ∀ x ∈ gap, isBlank x = true) (s : List Char) :
    scan p (before ++ c :: gap ++ s) =
      (scan (p.after (before ++ c :: gap)) s).prepend ((scan p before).tokens ++
        [⟨k, some (String.ofList [c]), (p.after before).line, (p.after before).offset⟩]) := by
  have hruns : (CharClass.ofChar c).runs = false := by
    rw [CharClass.ofChar_of_ofSymbol? hc]
    rfl
  have hplace : p.after (before ++ c :: gap) = ((p.after before).after [c]).after gap := by
    rw [← Position.after_append, ← Position.after_append, List.singleton_append]
  rw [List.append_assoc, List.cons_append,
    scan_append_single p (fun x hx => isLegal_iff.mp (hb x hx)) hruns, scan_symbol _ hc,
    scan_blanks _ hg, hplace]
  simp [prepend, cons]

end TokenFeed

private theorem Piece.map_kind_tokens (before : List Char) (xs : List Piece) :
    (Piece.tokens before xs).map Token.kind = xs.map Piece.kind := by
  induction xs generalizing before with
  | nil => rfl
  | cons x xs ih => rw [Piece.tokens, List.map_cons, List.map_cons, ih, Piece.token]

private theorem Kind.Spells.eq_rbrace {w : List Char} (h : Kind.rbrace.Spells w) :
    w = ['\x7d'] := by
  cases h with
  | fixed hs =>
    obtain rfl := Option.some.inj hs
    rfl

/-- A text without tokens is blank, and one whose last token is a closing brace has nothing but
blanks behind that brace. -/
theorem exists_last_brace {s : List Char} {ts : List Token}
    (h : TokenFeed.scan {} s = ⟨ts, none⟩) (hlast : ∀ t ∈ ts.getLast?, t.kind = .rbrace) :
    ts = [] ∧ (∀ c ∈ s, isBlank c = true) ∨
      ∃ before gap, s = before ++ '\x7d' :: gap ∧ ∀ c ∈ gap, isBlank c = true := by
  obtain ⟨l, rfl, rfl⟩ := exists_layout [] h
  rcases List.eq_nil_or_concat l.pieces with hnil | ⟨init, x, hx⟩
  · left
    rw [Layout.chars, hnil, List.flatMap_nil, List.append_nil]
    exact ⟨rfl, l.blank⟩
  · right
    have hkind : x.kind = .rbrace := by
      have hkinds := congrArg List.getLast? (Piece.map_kind_tokens ([] ++ l.lead) l.pieces)
      rw [List.getLast?_map, hx, List.concat_eq_append, List.map_append, List.map_singleton,
        List.getLast?_concat] at hkinds
      obtain ⟨t, ht, hk⟩ := Option.map_eq_some_iff.mp hkinds
      rw [← hk]
      apply hlast
      rwa [hx, List.concat_eq_append]
    have htext : x.text = ['\x7d'] := Kind.Spells.eq_rbrace (hkind ▸ x.spells)
    refine ⟨l.lead ++ init.flatMap Piece.chars, x.gap, ?_, x.blank⟩
    simp [Layout.chars, hx, Piece.chars, htext]

/-- Text that follows a last token which is a closing brace is scanned by itself. -/
theorem TokenFeed.scan_append {s : List Char} {ts : List Token} (h : scan {} s = ⟨ts, none⟩)
    (hlast : ∀ t ∈ ts.getLast?, t.kind = .rbrace) (s' : List Char) :
    scan {} (s ++ s') = ((scan {} s').displace (.past s)).prepend ts := by
  have hlegal : ∀ c ∈ s, IsLegal c := by
    rw [← error_scan_eq_none_iff {}, h]
  rw [← scan_after]
  rcases exists_last_brace h hlast with ⟨rfl, hblank⟩ | ⟨before, gap, rfl, hgap⟩
  · rw [scan_blanks _ hblank]
    rfl
  · have hbefore : ∀ c ∈ before, IsLegal c := fun c hc => hlegal c (List.mem_append_left _ hc)
    have hseam := scan_append_symbol {} hbefore (c := '\x7d') rfl hgap
    have halone := hseam []
    rw [List.append_nil, h, scan_nil] at halone
    simp only [prepend, List.append_nil, mk.injEq, and_true] at halone
    rw [hseam, halone]

/-- A text behind a string. -/
def Text.after (front : String) (s : Text) : Text := ⟨front ++ s.front, s.later⟩

/-- A text behind one that has been scanned to its end is scanned by itself, a lone surrogate in it
included. -/
theorem TokenFeed.ofText_after {a : String} {ts : List Token} (h : ofText a = ⟨ts, none⟩)
    (hlast : ∀ t ∈ ts.getLast?, t.kind = .rbrace) (b : Text) :
    ofText (.after a b) = ((ofText b).displace (.past a.toList)).prepend ts := by
  have hfront : ofText ((a ++ b.front : String) : Text) =
      ((ofText b.front).displace (.past a.toList)).prepend ts := by
    simp only [ofText_eq_scan, String.toList_append] at h ⊢
    exact scan_append h hlast b.front.toList
  obtain ⟨front, later⟩ := b
  cases later with
  | nil => exact hfront
  | cons x later =>
    rw [Text.after, ofText_surrogate, ofText_surrogate, hfront]
    cases herror : (ofText front).error <;> simp [prepend, displace, herror, FeedError.displace]

/-! ### Items behind items -/

namespace ItemFeed

/-- Tokens that have moved are read with any sufficient allowance as they were before. -/
theorem readWithin_moved (d : Displacement) {us : List Token} {err : Option FeedError}
    (hu : ∀ t ∈ us, t.Lexed) (ha : Ahead err us) {n : Nat} (hn : us.length + 1 ≤ n)
    (prev : Option Token) :
    (readWithin n (.over (err.map (FeedError.displace d)) prev (us.map (Token.displace d)))).1 =
      (ofTokenFeed ⟨us, err⟩).displace d := by
  have heof : ∀ t ∈ us, t.kind ≠ .eof := fun t ht => (hu t ht).kind_ne_eof
  simp only [ofTokenFeed, Cursor.ofFeed_eq_over ha, read, Cursor.remaining_over heof]
  cases us with
  | nil =>
    obtain rfl := ha rfl
    obtain ⟨n, rfl⟩ : ∃ m, n = m + 1 := ⟨n - 1, by omega⟩
    simp only [Option.map_none, List.map_nil, List.length_nil, readWithin_end]
    rfl
  | cons u us =>
    apply readWithin_displace hn (Cursor.moved_over none prev us)
    -- The allowance suffices for all items that the tokens can have.
    obtain ⟨ds, rest, x, c, hread, -, -, -, hfails⟩ := readWithin_derived _ none ha
      (fun t ht => (hu t ht).legible) heof (Nat.le_refl _)
    rw [hread]
    intro hx
    cases hfails _ hx

/-- The tokens of complete items are read, and what follows them is read as if it came first. -/
theorem ofTokenFeed_append (d : Displacement) {ds : List ItemDerivation} {us : List Token}
    {err : Option FeedError} (hds : ∀ t ∈ ds.flatMap ItemDerivation.tokens, t.Sound)
    (hu : ∀ t ∈ us, t.Lexed) (ha : Ahead err us) :
    ofTokenFeed ⟨ds.flatMap ItemDerivation.tokens ++ us.map (Token.displace d),
        err.map (FeedError.displace d)⟩ =
      ((ofTokenFeed ⟨us, err⟩).displace d).prepend (ds.map ItemDerivation.toItem) := by
  have ha' : Ahead (err.map (FeedError.displace d)) (us.map (Token.displace d)) := by
    intro hnil
    rw [ha (List.map_eq_nil_iff.mp hnil), Option.map_none]
  have heof : ∀ t ∈ ds.flatMap ItemDerivation.tokens ++ us.map (Token.displace d),
      t.kind ≠ .eof := by
    intro t ht
    rcases List.mem_append.mp ht with ht | ht
    · exact (hds t ht).1.kind_ne_eof
    · obtain ⟨u, hmem, rfl⟩ := List.mem_map.mp ht
      exact (hu u hmem).kind_ne_eof
  have hlen := length_le_tokens ds
  obtain ⟨m, hm⟩ : ∃ m, (ds.flatMap ItemDerivation.tokens).length + us.length + 1 =
      ds.length + m := ⟨_, (Nat.add_sub_of_le (by omega)).symm⟩
  obtain ⟨prev, happend⟩ := readWithin_append ds m none ha' fun t ht =>
    ⟨(hds t ht).1.legible, (hds t ht).2⟩
  rw [ofTokenFeed, Cursor.ofFeed_eq_over (ahead_append ha' _),
    ← readWithin_moved d hu ha (n := m) (by omega) prev, ← happend]
  simp only [read, Cursor.remaining_over heof, List.length_append, List.length_map, hm]

/-- An error of the feed right behind the tokens of complete items is reported. -/
theorem toExcept_append_lex {ds : List ItemDerivation}
    (hds : ∀ t ∈ ds.flatMap ItemDerivation.tokens, t.Sound) (e : FeedError) :
    (ofTokenFeed ⟨ds.flatMap ItemDerivation.tokens, some e⟩).toExcept = .error (.feed e) := by
  have heof : ∀ t ∈ ds.flatMap ItemDerivation.tokens, t.kind ≠ .eof := fun t ht =>
    (hds t ht).1.kind_ne_eof
  have halone := ofTokenFeed_complete ds (fun t ht => ⟨(hds t ht).1.legible, (hds t ht).2⟩) heof
  by_cases hnil : ds.flatMap ItemDerivation.tokens = []
  · rw [hnil]
    rfl
  · -- The last item is withheld, because the token after its brace is demanded first.
    apply (ofTokenFeed_lockstep e ⟨hnil, heof⟩).toExcept_eq_lex
    · intro x hx
      rw [halone] at hx
      contradiction
    · rintro ⟨p, hp, -⟩
      rw [halone] at hp
      contradiction

/-- What follows the tokens of complete items comes out as if it came first, behind the items. -/
theorem toExcept_prepend (d : Displacement) {ds : List ItemDerivation} {f : TokenFeed}
    (hds : ∀ t ∈ ds.flatMap ItemDerivation.tokens, t.Sound) (hf : ∀ t ∈ f.tokens, t.Lexed) :
    (ofTokenFeed ((f.displace d).prepend (ds.flatMap ItemDerivation.tokens))).toExcept =
      (((ofTokenFeed f).displace d).prepend (ds.map ItemDerivation.toItem)).toExcept := by
  obtain ⟨us, err⟩ := f
  by_cases ha : Ahead err us
  · exact congrArg toExcept (ofTokenFeed_append d hds hf ha)
  · cases us with
    | cons u us => exact absurd (ahead_cons err u us) ha
    | nil =>
      cases err with
      | none => exact absurd (ahead_none []) ha
      | some e =>
        have herror := toExcept_append_lex hds (e.displace d)
        rw [TokenFeed.displace, TokenFeed.prepend, List.map_nil, List.append_nil]
        exact herror

/-- A text that is read to its end has the tokens of complete items. -/
theorem exists_derivation_of_toExcept {code : String} {items : List Item}
    (h : (ofText code).toExcept = .ok items) : ∃ ds : List ItemDerivation,
      TokenFeed.ofText code = ⟨ds.flatMap ItemDerivation.tokens, none⟩ ∧
      (∀ t ∈ ds.flatMap ItemDerivation.tokens, t.Sound) ∧ ds.map ItemDerivation.toItem = items := by
  have hlexed := TokenFeed.lexed_ofText code
  rw [toExcept_eq_ok, ofText] at h
  rcases ofTokenFeed_sound (fun t ht => (hlexed t ht).legible)
    (fun t ht => (hlexed t ht).kind_ne_eof) with ⟨herr, ds, hds, hfeed⟩ | ⟨items', e, hfeed, -⟩
  · have htokens := hds.eq
    rw [List.append_nil] at htokens
    rw [hfeed, mk.injEq] at h
    refine ⟨ds, ?_, ?_, h.1⟩
    · rw [← htokens, ← herr]
    · exact fun t ht => ⟨hlexed t (htokens ▸ ht), hds.fits t ht⟩
  · rw [hfeed, mk.injEq] at h
    exact absurd h.2 (Option.some_ne_none e)

private theorem getLast?_tokens_items {ds : List ItemDerivation} :
    ∀ t ∈ (ds.flatMap ItemDerivation.tokens).getLast?, t.kind = .rbrace := by
  rcases List.eq_nil_or_concat ds with rfl | ⟨init, d, rfl⟩
  · exact nofun
  · obtain ⟨front, hfront⟩ := d.tokens_eq_concat
    intro t ht
    rw [List.concat_eq_append, List.flatMap_append, List.flatMap_singleton, hfront,
      ← List.append_assoc, List.getLast?_concat, Option.mem_some_iff] at ht
    rw [← ht]
    exact d.closing.2

/-- Text behind a text that is read to its end is read by itself: its items follow, with all lines
increased by the line feeds of the first text, or else its failure is reported, with its line
increased by as many and its offset by the length of the first text. -/
theorem toExcept_ofText_append {a : String} {items : List Item}
    (h : (ofText a).toExcept = .ok items) (b : Text) :
    (∀ more, (ofText b).toExcept = .ok more →
      (ofText (.after a b)).toExcept = .ok (items ++ more.map (Item.displace (.past a.toList)))) ∧
    ∀ e, (ofText b).toExcept = .error e →
      (ofText (.after a b)).toExcept = .error (e.displace (.past a.toList)) := by
  obtain ⟨ds, hscan, hds, rfl⟩ := exists_derivation_of_toExcept h
  have hfeed : TokenFeed.ofText (.after a b) =
      ((TokenFeed.ofText b).displace (.past a.toList)).prepend (ds.flatMap ItemDerivation.tokens) :=
    TokenFeed.ofText_after hscan getLast?_tokens_items b
  have happend := toExcept_prepend (.past a.toList) hds (TokenFeed.lexed_ofText b)
  rw [← hfeed] at happend
  constructor
  · intro more hmore
    rw [toExcept_eq_ok, ofText] at hmore
    rw [ofText, happend, hmore]
    rfl
  · intro e he
    rw [toExcept_eq_error, ofText] at he
    rw [ofText, happend, toExcept_eq_error, prepend, displace, he]
    rfl

/-- A statement without its equals sign is refused one line and fourteen bytes further on. -/
theorem toExcept_append_missing_sign :
    let first := "func é() \x7b\n\x7d "
    let second := "begin \x7b x \x7d"
    (ofText first).toExcept = .ok [.func "é" [] [] 1] ∧
    (ofText second).toExcept =
      .error (.parse ⟨.oneOf [.assign], ⟨.rbrace, some "\x7d", 1, 10⟩⟩) ∧
    (ofText (.after first second)).toExcept =
      .error (.parse ⟨.oneOf [.assign], ⟨.rbrace, some "\x7d", 2, 24⟩⟩) := by
  intro first second
  have hfirst : (ofText first).toExcept = .ok [.func "é" [] [] 1] :=
    toExcept_eq_ok.mpr (by decide +kernel)
  have hsecond : (ofText second).toExcept =
      .error (.parse ⟨.oneOf [.assign], ⟨.rbrace, some "\x7d", 1, 10⟩⟩) :=
    toExcept_eq_error.mpr (by decide +kernel)
  have hmoved : ReadError.displace (.past first.toList)
      (.parse ⟨.oneOf [.assign], ⟨.rbrace, some "\x7d", 1, 10⟩⟩) =
      .parse ⟨.oneOf [.assign], ⟨.rbrace, some "\x7d", 2, 24⟩⟩ := by decide +kernel
  refine ⟨hfirst, hsecond, ?_⟩
  rw [(toExcept_ofText_append hfirst _).2 _ hsecond, hmoved]

end ItemFeed

end SumLang
