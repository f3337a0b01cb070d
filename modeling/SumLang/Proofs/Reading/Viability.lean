import SumLang.Proofs.Reading.Agreement

/-!
# Parse errors at the first possible token

Reading fails at the first token that no accepted list can have there. What has been
consumed by then can be completed, and so can what has been consumed together with any
token of a kind that the error asks for; no list that goes on with the refused token is
accepted.
-/

namespace SumLang

/-! ### Lists that are refused -/

/-- The tokens are read to their end. -/
def Accepted (ts : List Token) : Prop :=
  ∃ items, (ItemFeed.ofTokenFeed (.ofTokens ts)).toExcept = .ok items

/-- Some tokens of a text can follow so that the whole is accepted. -/
def Extendable (front : List Token) : Prop :=
  ∃ more, (∀ t ∈ more, t.Lexed) ∧ Accepted (front ++ more)

/-- What can be extended after some tokens of a text can be extended before them. -/
theorem Extendable.of_append {front more : List Token} (h : Extendable (front ++ more))
    (hmore : ∀ t ∈ more, t.Lexed) : Extendable front := by
  obtain ⟨rest, hrest, haccepted⟩ := h
  exact ⟨more ++ rest, List.forall_mem_append.mpr ⟨hmore, hrest⟩, by
    rwa [← List.append_assoc]⟩

/-- Tokens of a text that begin a derivation of items can be extended. -/
theorem extendable_of_begins {front : List Token} (h : ∀ t ∈ front, t.Sound)
    (hb : Begins (fun ds : List ItemDerivation => ds.flatMap ItemDerivation.tokens) front) :
    Extendable front := by
  obtain ⟨ds, more, hds, hmore⟩ := hb
  have hall : ∀ t ∈ front ++ more, t.Sound := List.forall_mem_append.mpr ⟨h, hmore⟩
  exact ⟨more, fun t ht => (hmore t ht).1, _, ItemFeed.toExcept_of_derivation
    (fun t ht => (hall t ht).1) (fun t ht => (hall t ht).2) hds⟩

open Cursor (atIndex)

/-- At an index, all tokens from there on remain. -/
theorem Cursor.remaining_atIndex {ts : List Token} (h : ∀ t ∈ ts, t.kind ≠ .eof) (k : Nat) :
    (atIndex ts k).remaining = ts.length - k := by
  rw [atIndex, Cursor.remaining_over fun t ht => h t (List.mem_of_mem_drop ht), List.length_drop]

namespace ItemFeed

section

variable {ts : List Token} {p : ParseError}

/-- The tokens in front of an error can be extended after every token that the error asks for. -/
theorem extendable_before_error (h : ∀ t ∈ ts, t.Lexed)
    (hp : (ofTokenFeed (.ofTokens ts)).error = some (.parse p)) {k : Nat} (hk : k ≤ ts.length)
    (hc : (read (atIndex ts 0)).2 = atIndex ts k) :
    (∃ u, p.expected.Admits u) ∧
      ∀ u, p.expected.Admits u → Extendable (ts.take k ++ [u]) := by
  have hkind : ∀ t ∈ ts, t.kind ≠ .eof := fun t ht => (h t ht).kind_ne_eof
  have hstart : atIndex ts 0 = .over none none ts := Cursor.atIndex_eq (endPlaced_of_lexed h) 0
  obtain ⟨ds, left, x, c, hread, -, -, -, hfails⟩ :=
    readWithin_derived ((Cursor.over none none ts).remaining + 1) none (ahead_none ts)
      (fun t ht => (h t ht).legible) hkind (by rw [Cursor.remaining_over hkind])
  have hread' : read (atIndex ts 0) = (⟨ds.map ItemDerivation.toItem, x⟩, c) := by
    rw [hstart]
    exact hread
  rw [ofTokens_eq_read, hread'] at hp
  rw [hread'] at hc
  cases hfails _ hp with
  | @parse toks rest expected hcons prev hex hbegins =>
    have hrest : ∀ t ∈ rest, t.kind ≠ .eof := fun t ht =>
      hkind t (by rw [hcons.eq]; exact List.mem_append_right _ ht)
    have hlen : rest.length = ts.length - k := by
      rw [← Cursor.remaining_over hrest none prev, ← Cursor.remaining_atIndex hkind, ← hc]
    have htoks : ts.take k = toks := by
      have hsplit := hcons.length
      rw [hcons.eq]
      exact List.take_left' (by omega)
    refine ⟨hex, fun u hu => extendable_of_begins ?_ (htoks ▸ hbegins u hu)⟩
    rw [htoks, List.forall_mem_append, List.forall_mem_singleton]
    refine ⟨fun t ht => ⟨h t ?_, hcons.fits t ht⟩, hu.sound⟩
    rw [hcons.eq]
    exact List.mem_append_left _ ht

/-- No list is accepted that has the same tokens up to the one at which reading fails. -/
theorem not_accepted_of_error (hl : ∀ t ∈ ts, t.Lexed)
    (hp : (ofTokenFeed (.ofTokens ts)).error = some (.parse p)) {k : Nat} (hk : k < ts.length)
    (hc : (read (atIndex ts 0)).2 = atIndex ts k) (more : List Token) :
    ¬ Accepted (ts.take k ++ ts[k] :: more) := by
  have h : ∀ t ∈ ts, t.kind ≠ .eof := fun t ht => (hl t ht).kind_ne_eof
  have hlong : k < (ts.take k ++ ts[k] :: more).length := by
    simp only [List.length_append, List.length_take, List.length_cons]
    omega
  have hsame : Reader.SameUpTo ts (ts.take k ++ ts[k] :: more) k := by
    refine ⟨fun i hi => ?_, endPlaced_of_lexed hl, Or.inl hlong⟩
    rw [Cursor.curr_atIndex (by omega), Cursor.curr_atIndex (by omega)]
    grind
  have hpaced : FeedPaced ts (ts.take k ++ ts[k] :: more) k (read (atIndex ts 0))
      (read (atIndex (ts.take k ++ ts[k] :: more) 0)) :=
    readWithin_paced hsame _ _ (Nat.zero_le k)
  rintro ⟨items, haccepted⟩
  rw [toExcept_eq_ok, ofTokens_eq_read] at haccepted
  rw [ofTokens_eq_read] at hp
  rcases hpaced.of_parse hp with ⟨-, -, -, -, hfail⟩ | ⟨l, hkl, hl, hc'⟩ | hdepth
  · exact hfail (by rw [haccepted])
  · have hremaining := congrArg Cursor.remaining (hc.symm.trans hc')
    rw [Cursor.remaining_atIndex h, Cursor.remaining_atIndex h] at hremaining
    omega
  · rw [haccepted] at hdepth
    contradiction

end

/-- Where tokens of a text are refused at one of them, the tokens in front of it can be extended to
a list that is accepted, no list that starts with these tokens and the refused one is accepted, and
in its place every token that the error asks for can be extended. Where they are refused at their
end, they can be extended by further tokens, and the error is placed just after the last token. -/
theorem parse_error_at_first_impossible_token {ts : List Token} (h : ∀ t ∈ ts, t.Lexed)
    {p : ParseError} (hp : (ofTokenFeed (.ofTokens ts)).toExcept = .error (.parse p)) :
    (∃ u, p.expected.Admits u) ∧
    (p.token.kind ≠ .eof → ∃ before rest, ts = before ++ p.token :: rest ∧ Extendable before ∧
      (∀ more, ¬ Accepted (before ++ p.token :: more)) ∧
      ∀ u, p.expected.Admits u → Extendable (before ++ [u])) ∧
    (p.token.kind = .eof →
      (∃ more, more ≠ [] ∧ (∀ t ∈ more, t.Lexed) ∧ Accepted (ts ++ more)) ∧
      (∀ u, p.expected.Admits u → Extendable (ts ++ [u])) ∧
      ∃ last, ts.getLast? = some last ∧ p.token.line = last.line ∧
        p.token.offset = last.offset + utf8Length last.word.toList) := by
  have hkind : ∀ t ∈ ts, t.kind ≠ .eof := fun t ht => (h t ht).kind_ne_eof
  have herror := toExcept_eq_error.mp hp
  obtain ⟨k, hk, hc, htoken⟩ := exists_index_of_parse (endPlaced_of_lexed h) herror
  obtain ⟨⟨u, hu⟩, hextendable⟩ := extendable_before_error h herror hk hc
  refine ⟨⟨u, hu⟩, ?_, ?_⟩
  · intro hne
    have hlt : k < ts.length := by
      by_contra hge
      rw [htoken] at hne
      exact hne (Cursor.kind_curr_atIndex (Nat.le_of_not_lt hge))
    rw [Cursor.curr_atIndex hlt] at htoken
    rw [htoken]
    refine ⟨ts.take k, ts.drop (k + 1), ?_, ?_, ?_, hextendable⟩
    · rw [← List.drop_eq_getElem_cons hlt, List.take_append_drop]
    · exact (hextendable u hu).of_append (List.forall_mem_singleton.mpr hu.sound.1)
    · exact not_accepted_of_error h herror hlt hc
  · intro heof
    have hend : k = ts.length := by
      by_contra hne
      have hlt : k < ts.length := Nat.lt_of_le_of_ne hk hne
      rw [htoken, Cursor.curr_atIndex hlt] at heof
      exact hkind _ (List.getElem_mem hlt) heof
    subst hend
    rw [List.take_length] at hextendable
    refine ⟨?_, hextendable, ?_⟩
    · obtain ⟨more, hmore, haccepted⟩ := hextendable u hu
      exact ⟨u :: more, List.cons_ne_nil u more, List.forall_mem_cons.mpr ⟨hu.sound.1, hmore⟩, by
        rwa [List.append_assoc] at haccepted⟩
    · rw [Cursor.curr_atIndex_length] at htoken
      cases hlast : ts.getLast? with
      | none =>
        rw [List.getLast?_eq_none_iff.mp hlast] at herror
        contradiction
      | some last =>
        rw [htoken, hlast]
        exact ⟨last, rfl, rfl, rfl⟩

/-- A second number among arguments is refused, no list goes on after it, and a parenthesis in its
place closes a call that can be completed. -/
theorem parse_error_among_arguments :
    let code := "begin \x7b var x = f(1 2); \x7d"
    ∃ before rest, (TokenFeed.ofText code).tokens =
        before ++ ⟨.number, "2", 1, 20⟩ :: rest ∧
      Extendable before ∧ (∀ more, ¬ Accepted (before ++ ⟨.number, "2", 1, 20⟩ :: more)) ∧
      Extendable (before ++ [⟨.rparen, ")", 1, 20⟩]) := by
  intro code
  have hrefused : (ofTokenFeed (.ofTokens (TokenFeed.ofText code).tokens)).toExcept =
      .error (.parse ⟨.oneOf [.comma, .rparen], ⟨.number, "2", 1, 20⟩⟩) :=
    toExcept_eq_error.mpr (by decide +kernel)
  obtain ⟨before, rest, htokens, hbefore, hno, hasked⟩ :=
    (parse_error_at_first_impossible_token (TokenFeed.lexed_ofText _) hrefused).2.1 (by decide)
  have hparen : Token.Sound ⟨.rparen, ")", 1, 20⟩ := ⟨.symbol (c := ')') rfl 1 20, nofun⟩
  exact ⟨before, rest, htokens, hbefore, hno, hasked _ ⟨by decide, hparen⟩⟩

end ItemFeed

end SumLang
