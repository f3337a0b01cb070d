import SumLang.Proofs.Reading.Acceptance

/-!
# Readers come to an end

On a finite list of tokens every reader answers or refuses a token. What keeps reading
going is that each round of a loop and each turn of a recursion accepts a token, so that
an allowance in proportion to the number of tokens in front of the cursor is never used
up, and a larger one makes no difference. End marks may stand anywhere among the tokens.
-/

namespace SumLang

open Cursor (atIndex)

/-- Where the lookahead is no end mark, all tokens in front of the cursor remain. -/
theorem Cursor.length_le_remaining_of_ne {prev : Option Token} {ts : List Token}
    (hk : (Cursor.over none prev ts).curr.kind ≠ .eof) :
    ts.length ≤ (Cursor.over none prev ts).remaining := by
  cases ts with
  | nil => exact Nat.zero_le _
  | cons t ts =>
    rw [Cursor.remaining, if_neg hk]
    exact Nat.le_refl _

namespace Reader

variable {α β : Type}

/-! ### Larger allowances -/

/-- Where the first reading has not used up its allowance, the second has come to the same, with
related answers. -/
inductive Extended (R : α → α → Prop) :
    EStateM.Result ReadError Cursor α → EStateM.Result ReadError Cursor α → Prop
  | ok {a a' : α} (h : R a a') (c : Cursor) : Extended R (.ok a c) (.ok a' c)
  | error (x : ReadError) (c : Cursor) : Extended R (.error x c) (.error x c)
  | exhausted (c : Cursor) (y : EStateM.Result ReadError Cursor α) :
      Extended R (.error .depth c) y

/-- From every cursor, the second reader does what the first does unless that uses up its
allowance. -/
def Extends (R : α → α → Prop) (r r' : Reader α) : Prop := ∀ c, Extended R (r c) (r' c)

private theorem Extends.bind {R : α → α → Prop} {S : β → β → Prop} {r r' : Reader α}
    {f f' : α → Reader β} (hr : Extends R r r') (hf : ∀ a a', R a a' → Extends S (f a) (f' a')) :
    Extends S (r >>= f) (r' >>= f') := by
  intro c
  have hstep := hr c
  rw [bind_apply, bind_apply]
  revert hstep
  generalize r c = x
  generalize r' c = y
  rintro (⟨ha, c⟩ | ⟨x, c⟩ | ⟨c, y⟩)
  · exact hf _ _ ha c
  · exact .error x c
  · exact .exhausted c _

/-- What holds of answers can be weakened. -/
theorem Extends.mono {R R' : α → α → Prop} {r r' : Reader α} (h : Extends R r r')
    (hR : ∀ a a', R a a' → R' a a') : Extends R' r r' := by
  rw [← bind_pure r, ← bind_pure r']
  exact h.bind fun a a' ha c => .ok (hR a a' ha) c

private theorem extends_leaf {S : β → β → Prop} {k : Kind} (hk : k ≠ .eof)
    {f f' : Token → Reader β} (hf : ∀ t : Token, t.kind = k → Extends S (f t) (f' t)) :
    Extends S (do let t ← peek; eat k; f t) (do let t ← peek; eat k; f' t) := by
  have hadvance : Extends (fun _ _ => True) advance advance := by
    intro c
    cases advance c with
    | ok a c => exact .ok trivial c
    | error x c => exact .error x c
  rw [leaf_eq hk, leaf_eq hk]
  intro c
  change Extended S ((if c.curr.kind = k then advance >>= fun _ => f c.curr else fail _) c)
    ((if c.curr.kind = k then advance >>= fun _ => f' c.curr else fail _) c)
  split
  · exact hadvance.bind (fun _ _ _ => hf c.curr ‹_›) c
  · exact .error _ c

/-- Reading with some allowance corresponds to reading with a larger one. -/
def extended : Correspondence where
  left := id
  right := id
  Allowed := (· ≤ ·)
  Rel R := Extends fun a a' => ∃ n, R a a' n
  pure h c := .ok ⟨0, h⟩ c
  fail _ _ c := .error _ c
  illegible _ _ c := .error _ c
  bind hr hf := hr.bind fun a a' ⟨n, ha⟩ =>
    (hf a a' n ha).mono fun _ _ ⟨m, hb⟩ => ⟨n + m, hb⟩
  peek hf c := hf c.curr c.curr (.refl id c.curr) c
  leaf hk hf := extends_leaf hk fun t ht =>
    (hf t t (.refl id t) ht).mono fun _ _ ⟨n, hb⟩ => ⟨1 + n, hb⟩
  allowed_pred := Nat.le_of_succ_le_succ
  depth _ _ _ c := .exhausted c _
  succ _ h hm := by
    obtain ⟨l, rfl⟩ := Nat.exists_eq_add_of_le' hm
    exact h _ hm
  allowance h c := h _ _ (Nat.le_refl _) c

/-- Without a change of lines, related answers are the same. -/
private theorem extends_of_same {r r' : Reader α} {map : (Int → Int) → α → α}
    {P : α → Nat → Prop} (hmap : ∀ a, map id a = a)
    (h : extended.Rel (extended.Same map P) r r') : Extends Eq r r' := by
  have hextends : Extends (fun a a' => ∃ n, extended.Same map P a a' n) r r' := h
  refine hextends.mono ?_
  rintro a a' ⟨-, ha : map id a = map id a', -⟩
  rwa [hmap, hmap] at ha

/-- An allowance that is not used up can be replaced by any larger one. -/
theorem eq_of_allowance_le {r : Nat → Reader α}
    (hr : ∀ n m, n ≤ m → Extends Eq (r n) (r m)) {c : Cursor} {n m : Nat}
    (hn : ∀ c', r n c ≠ .error .depth c') (hm : n ≤ m) : r m c = r n c := by
  have hextended := hr n m hm c
  revert hn hextended
  generalize r n c = x
  generalize r m c = y
  rintro hn (⟨rfl, c⟩ | ⟨x, c⟩ | ⟨c, y⟩)
  · rfl
  · rfl
  · exact absurd rfl (hn c)

/-! ### Failures on a list of tokens -/

/-- Where no error ends the feed, a reader fails with a parse error only. -/
theorem Reads.exists_parse {r : Reader α} {ts : List Token} {Q : α → List Token → Prop}
    {P : List Token → Prop} (h : Reads none r ts Q P) {prev : Option Token} {x : ReadError}
    {c : Cursor} (hx : r (.over none prev ts) = .error x c) : ∃ p, x = .parse p := by
  rcases h prev with ⟨a, prev', toks, rest, hok, -⟩ | ⟨e, c', he, hfails⟩
  · exact nomatch hx.symm.trans hok
  · obtain ⟨rfl, -⟩ := EStateM.Result.error.inj (hx.symm.trans he)
    cases hfails.reported with
    | parse p => exact ⟨p, rfl⟩
    | feed hfeed => contradiction

/-- Items are read up to an end mark, which may be one of the tokens. -/
theorem itemsWithin_reads (n : Nat) {ts : List Token} (hl : ∀ t ∈ ts, t.Legible)
    (hn : ts.length + 1 ≤ n) :
    Reads none (itemsWithin n) ts (fun _ _ => True) fun _ => True := by
  induction n generalizing ts with
  | zero => omega
  | succ n ih =>
    rw [itemsWithin_succ]
    apply reads_peek
    intro tok _
    split
    · exact reads_pure (ahead_none ts) trivial
    · refine ((item_reads hl).mono (fun _ _ => id) fun _ _ => trivial).bind ?_
      rintro - - mid hd - ⟨d, rfl, rfl⟩
      obtain ⟨t, toks, ht, -⟩ := d.tokens_eq_cons
      have hlen := hd.length
      rw [ht, List.length_cons] at hlen
      apply (ih (hd.legible hl) (by omega)).bind
      exact fun rest _ left _ hleft _ => reads_pure hleft trivial

/-- All items that remain are read up to an end mark. -/
theorem items_reads {ts : List Token} (hl : ∀ t ∈ ts, t.Legible) :
    Reads none items ts (fun _ _ => True) fun _ => True := by
  intro prev
  rw [items_apply]
  by_cases hk : (Cursor.over none prev ts).curr.kind = .eof
  · -- At an end mark the allowance may be one short of the tokens, but no item is read.
    exact Or.inl ⟨[], prev, [], ts, itemsWithin_end _ hk, consumes_nil ts, ahead_none ts, trivial⟩
  · exact itemsWithin_reads _ hl (Nat.succ_le_succ (Cursor.length_le_remaining_of_ne hk)) prev

/-! ### Outcomes and allowances -/

/-- From the index `i` the reader accepts the tokens up to an index `j`. There it answers so that
`P` holds of the answer and the number of these tokens, or it refuses the token. -/
def Ends (ts : List Token) (i : Nat) (r : Reader α) (P : α → Nat → Prop) : Prop :=
  ∃ j, i ≤ j ∧ j ≤ ts.length ∧ Accepts r (atIndex ts i) (ts.extract i j) ∧
    ((∃ a, r (atIndex ts i) = .ok a (atIndex ts j) ∧ P a (j - i)) ∨
      ∃ expected, r (atIndex ts i) =
        .error (.parse ⟨expected, (atIndex ts j).curr⟩) (atIndex ts j))

/-- A reader that counts its tokens and has no failure but parse errors ends. -/
theorem Tallies.ends {r : Reader α} {P : α → Nat → Prop} {Q : α → List Token → Prop}
    {F : List Token → Prop} {ts : List Token} {i : Nat} (h : Tallies r P) (hplaced : EndPlaced ts)
    (hr : Reads none r (ts.drop i) Q F) (hi : i ≤ ts.length) : Ends ts i r P := by
  obtain ⟨toks, htoks, hP⟩ := h (atIndex ts i)
  obtain ⟨hfront, hlands⟩ := htoks.landsAt hplaced rfl
  have hlen := hfront.length_le
  rw [List.length_drop] at hlen
  have hslice : ts.extract i (i + toks.length) = toks := by
    rw [List.extract_eq_take_drop, Nat.add_sub_cancel_left]
    exact (List.prefix_iff_eq_take.mp hfront).symm
  refine ⟨i + toks.length, by omega, by omega, by rwa [hslice], ?_⟩
  rw [Nat.add_sub_cancel_left]
  cases hrun : r (atIndex ts i) with
  | ok a c =>
    rw [hrun] at hlands
    cases hlands
    exact Or.inl ⟨a, rfl, hP a _ hrun⟩
  | error x c =>
    obtain ⟨p, rfl⟩ := hr.exists_parse (Cursor.atIndex_eq hplaced i ▸ hrun)
    rw [hrun] at hlands
    cases hlands with
    | refused expected => exact Or.inr ⟨expected, rfl⟩
    | aborted hx => exact absurd rfl (hx p)

/-- All allowances that cover the tokens in front of a cursor are the same to a reader. -/
theorem eq_of_covers {r : Nat → Reader α} (hr : ∀ n m, n ≤ m → Extends Eq (r n) (r m))
    {ts : List Token} {Q : α → List Token → Prop} {F : List Token → Prop} {least : Nat}
    (hreads : ∀ n, least ≤ n → Reads none (r n) ts Q F) {n m : Nat} (hn : least ≤ n)
    (hm : least ≤ m) (prev : Option Token) :
    r n (.over none prev ts) = r m (.over none prev ts) := by
  have hleast (c : Cursor) : r least (.over none prev ts) ≠ .error .depth c := by
    intro hdepth
    obtain ⟨p, hp⟩ := (hreads least (Nat.le_refl _)).exists_parse hdepth
    contradiction
  rw [eq_of_allowance_le hr hleast hn, eq_of_allowance_le hr hleast hm]

/-- So an allowance that covers the tokens stands for the one that is taken from the cursor. -/
theorem eq_withAllowance {r : Nat → Reader α} (hr : ∀ n m, n ≤ m → Extends Eq (r n) (r m))
    {ts : List Token} (hplaced : EndPlaced ts) {i : Nat} {Q : α → List Token → Prop}
    {F : List Token → Prop} {least : Nat}
    (hreads : ∀ n, least ≤ n → Reads none (r n) (ts.drop i) Q F)
    (hleast : least ≤ 2 * (ts.length - i) + 2) {n : Nat} (hn : least ≤ n) :
    r n (atIndex ts i) = withAllowance r (atIndex ts i) := by
  rw [Cursor.atIndex_eq hplaced]
  have hlen := Cursor.length_le_remaining none (ts.take i).getLast? (ts.drop i)
  rw [List.length_drop] at hlen
  exact eq_of_covers hr hreads hn (by omega) _

/-- Items are read in the same way with every allowance that covers the tokens. -/
theorem itemsWithin_eq_items {ts : List Token} (hplaced : EndPlaced ts) {i n : Nat}
    (hl : ∀ t ∈ ts.drop i, t.Legible) (hn : ts.length - i + 1 ≤ n) :
    itemsWithin n (atIndex ts i) = items (atIndex ts i) := by
  obtain ⟨n, rfl⟩ : ∃ m, n = m + 1 := ⟨n - 1, by omega⟩
  have hextends (n m : Nat) (h : n ≤ m) : Extends Eq (itemsWithin n) (itemsWithin m) :=
    extends_of_same Item.map_mapLines_id (extended.itemsWithin n h)
  rw [items_apply, Cursor.atIndex_eq hplaced]
  by_cases hk : (Cursor.over none (ts.take i).getLast? (ts.drop i)).curr.kind = .eof
  · rw [itemsWithin_end _ hk, itemsWithin_end _ hk]
  · rw [← List.length_drop] at hn
    exact eq_of_covers hextends (fun m hm => itemsWithin_reads m hl hm) hn
      (Nat.succ_le_succ (Cursor.length_le_remaining_of_ne hk)) _

/-- From every index of a list of tokens with an encodable last text, every reader answers or
refuses a token. An answer of a reader that is bound to accept a token has accepted one, and a loop
has no more rounds than it has accepted tokens. Twice the number of tokens in front of the cursor
and two more are an allowance that expressions never use up, and their number and one more is enough
for each loop: with any such allowance a reader does the same. -/
theorem ends_within_remaining_tokens {ts : List Token} (h : ∀ t ∈ ts, t.Legible)
    (hlast : ∀ t ∈ ts.getLast?, t.encodable = true) {i : Nat} (hi : i ≤ ts.length) :
    (Ends ts i expr (fun _ n => 0 < n) ∧ Ends ts i primary (fun _ n => 0 < n) ∧
      Ends ts i callArgs (fun args n => args.length < n) ∧
      Ends ts i block (fun body n => body.length < n) ∧
      Ends ts i statement? (fun s n => 0 < n ↔ s.isSome) ∧
      Ends ts i (withAllowance statementsWithin) (fun body n => body.length ≤ n) ∧
      Ends ts i (withAllowance moreParamsWithin) (fun names n => names.length ≤ n) ∧
      Ends ts i item (fun _ n => 0 < n) ∧ Ends ts i items fun is n => is.length ≤ n) ∧
    (∀ n, 2 * (ts.length - i) + 2 ≤ n →
      exprWithin n (atIndex ts i) = expr (atIndex ts i) ∧
      primaryWithin n (atIndex ts i) = primary (atIndex ts i) ∧
      callArgsWithin n (atIndex ts i) = callArgs (atIndex ts i)) ∧
    ∀ n, ts.length - i + 1 ≤ n →
      statementsWithin n (atIndex ts i) = withAllowance statementsWithin (atIndex ts i) ∧
      moreParamsWithin n (atIndex ts i) = withAllowance moreParamsWithin (atIndex ts i) ∧
      itemsWithin n (atIndex ts i) = items (atIndex ts i) := by
  have hplaced := endPlaced_of_encodable hlast
  have hl : ∀ t ∈ ts.drop i, t.Legible := fun t ht => h t (List.mem_of_mem_drop ht)
  have ha := ahead_none (ts.drop i)
  have hlen : (ts.drop i).length = ts.length - i := List.length_drop
  have hexpr (n : Nat) (hn : 2 * (ts.length - i) + 2 ≤ n) :=
    (within_reads none n).1 (ts.drop i) ha hl (by omega)
  have hprimary (n : Nat) (hn : 2 * (ts.length - i) + 2 ≤ n) :=
    (within_reads none n).2.1 (ts.drop i) ha hl (by omega)
  have hcallArgs (n : Nat) (hn : 2 * (ts.length - i) + 2 ≤ n) :=
    (within_reads none n).2.2.1 (ts.drop i) ha hl (by omega)
  have hstatements (n : Nat) (hn : ts.length - i + 1 ≤ n) :=
    statementsWithin_reads n ha hl (by omega)
  have hparams (n : Nat) (hn : ts.length - i + 1 ≤ n) := moreParamsWithin_reads n ha (by omega)
  refine ⟨⟨?_, ?_, ?_, ?_, ?_, ?_, ?_, ?_, ?_⟩, ?_, ?_⟩
  · exact (tallies_of_same tallied.expr).ends hplaced (expr_reads ha hl) hi
  · exact (tallies_of_same tallied.primary).ends hplaced (primary_reads ha hl) hi
  · exact (tallies_of_same tallied.callArgs).ends hplaced (callArgs_reads ha hl) hi
  · exact (tallies_of_same tallied.block).ends hplaced (block_reads hl) hi
  · exact (tallies_of_same tallied.statement?).ends hplaced (statement?_reads ha hl) hi
  · exact (tallies_withAllowance fun n => tallies_of_same (tallied.statementsWithin n trivial)).ends
      hplaced (reads_withAllowance fun n hn => hstatements n (by omega)) hi
  · exact (tallies_withAllowance fun n => tallies_of_same (tallied.moreParamsWithin n trivial)).ends
      hplaced (reads_withAllowance fun n hn => hparams n (by omega)) hi
  · exact (tallies_of_same tallied.item).ends hplaced (item_reads hl) hi
  · exact items_tallies.ends hplaced (items_reads hl) hi
  · intro n hn
    refine ⟨?_, ?_, ?_⟩
    · exact eq_withAllowance (fun n m hm => extends_of_same Expr.mapLines_id
        (Correspondence.within n hm).1) hplaced hexpr (Nat.le_refl _) hn
    · exact eq_withAllowance (fun n m hm => extends_of_same Expr.mapLines_id
        (Correspondence.within n hm).2.1) hplaced hprimary (Nat.le_refl _) hn
    · exact eq_withAllowance (fun n m hm => extends_of_same Expr.mapLinesAll_id
        (Correspondence.within n hm).2.2.1) hplaced hcallArgs (Nat.le_refl _) hn
  · intro n hn
    refine ⟨?_, ?_, itemsWithin_eq_items hplaced hl hn⟩
    · exact eq_withAllowance (fun n m hm => extends_of_same Stmt.map_mapLines_id
        (extended.statementsWithin n hm)) hplaced hstatements (by omega) hn
    · exact eq_withAllowance (fun n m hm => extends_of_same (fun _ => rfl)
        (extended.moreParamsWithin n hm)) hplaced hparams (by omega) hn

/-- A name that is a lone surrogate is neither read as an expression nor refused. -/
theorem expr_breaks_off_at_surrogate :
    let t : Token := ⟨.ident, some ⟨"", [(0, "")]⟩, 1, 0⟩
    t.Legible ∧ Cursor.ofFeed (.ofTokens [t]) = .ok (atIndex [t] 0) ∧
      expr (atIndex [t] 0) =
        .error (.feed .unencodable) ⟨some t, t, ⟨[], some .unencodable⟩⟩ ∧
      ¬ Ends [t] 0 expr fun _ n => 0 < n := by
  intro t
  have hrun : expr (atIndex [t] 0) =
      .error (.feed .unencodable) ⟨some t, t, ⟨[], some .unencodable⟩⟩ := rfl
  refine ⟨nofun, rfl, hrun, ?_⟩
  rintro ⟨j, -, -, -, ⟨a, hok, -⟩ | ⟨expected, herror⟩⟩
  · rw [hrun] at hok
    contradiction
  · rw [hrun] at herror
    have hx := (EStateM.Result.error.inj herror).1
    contradiction

/-- A call breaks off at an end mark among its tokens, and a much larger allowance changes
nothing. -/
theorem ends_at_inner_end_mark :
    let ts : List Token := [⟨.ident, "f", 1, 0⟩, ⟨.lparen, "(", 1, 1⟩, ⟨.number, "007", 1, 2⟩,
      ⟨.comma, ",", 1, 5⟩, ⟨.eof, "$", 2, 7⟩, ⟨.rparen, ")", 2, 8⟩]
    (∃ j, Accepts expr (atIndex ts 0) (ts.extract 0 j)) ∧
      exprWithin 1000 (atIndex ts 0) =
        .error (.parse ⟨.oneOf [.number, .ident], ⟨.eof, "$", 2, 7⟩⟩) (atIndex ts 4) := by
  intro ts
  have hdigits : ∃ s, "007" = String.ofList s ∧ ∀ c ∈ s, c.isDigit = true :=
    ⟨['0', '0', '7'], rfl, List.all_eq_true.mp (by decide)⟩
  have hl : ∀ t ∈ ts, t.Legible := by simpa [ts, Token.Legible] using hdigits
  have hlast : ∀ t ∈ ts.getLast?, t.encodable = true := by decide
  obtain ⟨⟨⟨j, -, -, haccepts, -⟩, -⟩, hexpr, -⟩ :=
    ends_within_remaining_tokens hl hlast (Nat.zero_le _)
  exact ⟨⟨j, haccepts⟩, (hexpr 1000 (by decide)).1.trans rfl⟩

end Reader

end SumLang
