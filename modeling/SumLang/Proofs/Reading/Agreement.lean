import Mathlib.Data.List.DropRight
import SumLang.Proofs.Reading.Correspondence
import SumLang.Proofs.Reading.Exactness

/-!
# Readings of tokens that agree for a while

Two token lists that agree up to some index, apart from places and leading zeros, are read
with the same answers apart from lines, and are refused at the same index for the same
reason, as long as the first reading does not look past that index. What the places of
tokens are and how many tokens follow thus decides nothing. The allowance of a reader
depends on what follows, so that each of the two readings may be cut short by it.
-/

namespace SumLang

/-! ### Tokens without their places -/

/-- The token without its place, and without leading zeros if it is a number. -/
def Token.unplaced (t : Token) : Token :=
  ⟨t.kind, if t.kind = .number then t.text.map Text.dropZeros else t.text, 0, 0⟩

/-- Zeros at its start do not change the value of a literal. -/
theorem literalValue_dropZeros (text : Option Text) :
    literalValue (text.map Text.dropZeros) = literalValue text := by
  cases text with
  | none => rfl
  | some s =>
    have hdrop : s.dropZeros.dropZeros = s.dropZeros := by
      simp only [Text.dropZeros, String.toList_ofList, List.dropWhile_idempotent]
    simp only [Option.map_some, literalValue, hdrop]

namespace Token

variable {t t' : Token}

/-- Tokens that differ in place only are of the same kind. -/
theorem kind_eq_of_unplaced (h : t.unplaced = t'.unplaced) : t.kind = t'.kind := by
  have hk := congrArg Token.kind h
  exact hk

private theorem text_eq_of_unplaced (h : t.unplaced = t'.unplaced) (hk : t.kind ≠ .number) :
    t.text = t'.text := by
  have ht := congrArg Token.text h
  simp only [unplaced] at ht
  rwa [if_neg hk, if_neg (kind_eq_of_unplaced h ▸ hk)] at ht

/-- Leading zeros do not change the value of a literal. -/
theorem literalValue_eq_of_unplaced (h : t.unplaced = t'.unplaced) (hk : t.kind = .number) :
    literalValue t.text = literalValue t'.text := by
  have ht := congrArg Token.text h
  simp only [unplaced] at ht
  rw [if_pos hk, if_pos (kind_eq_of_unplaced h ▸ hk)] at ht
  rw [← literalValue_dropZeros t.text, ht, literalValue_dropZeros]

/-- Tokens that differ in place only match. -/
theorem matches_of_unplaced (h : t.unplaced = t'.unplaced) :
    t.Matches (fun _ => 0) (fun _ => 0) t' :=
  ⟨kind_eq_of_unplaced h, text_eq_of_unplaced h, literalValue_eq_of_unplaced h, rfl⟩

end Token

mutual

/-- Erasing the lines of an expression makes all of them zero. -/
theorem Expr.eraseLines_eq_mapLines : (e : Expr) → e.eraseLines = e.mapLines fun _ => 0
  | .lit .. | .var .. | .alien .. => rfl
  | .add lhs rhs line => by
    rw [eraseLines, mapLines, lhs.eraseLines_eq_mapLines, rhs.eraseLines_eq_mapLines]
  | .call name args line => by rw [eraseLines, mapLines, Expr.eraseLinesAll_eq_mapLinesAll args]

/-- Erasing the lines of expressions makes all of them zero. -/
theorem Expr.eraseLinesAll_eq_mapLinesAll :
    (es : List Expr) → Expr.eraseLinesAll es = Expr.mapLinesAll (fun _ => 0) es
  | [] => rfl
  | e :: es => by
    rw [eraseLinesAll, mapLinesAll, e.eraseLines_eq_mapLines, Expr.eraseLinesAll_eq_mapLinesAll es]

end

/-- Erasing the lines of a statement makes all of them zero. -/
theorem Stmt.eraseLines_eq_mapLines (s : Stmt) : s.eraseLines = s.mapLines fun _ => 0 := by
  cases s <;> simp only [eraseLines, mapLines, Expr.eraseLines_eq_mapLines]

/-- Erasing the lines of an item makes all of them zero. -/
theorem Item.eraseLines_eq_mapLines (i : Item) : i.eraseLines = i.mapLines fun _ => 0 := by
  have hbody (body : List Stmt) :
      body.map Stmt.eraseLines = body.map (Stmt.mapLines fun _ => 0) :=
    List.map_congr_left fun s _ => s.eraseLines_eq_mapLines
  cases i <;> simp only [eraseLines, mapLines, hbody]

/-! ### Cursors at an index -/

/-- An end mark can be placed behind the tokens. -/
def EndPlaced (ts : List Token) : Prop := (TokenFeed.ofTokens ts).error = none

/-- An end mark can be placed behind a token for whose text UTF-8 has a form. -/
theorem endPlaced_of_encodable {ts : List Token} (h : ∀ t ∈ ts.getLast?, t.encodable = true) :
    EndPlaced ts := by rw [EndPlaced, TokenFeed.ofTokens_eq h]

/-- The end mark stays where tokens in front are left out. -/
theorem EndPlaced.drop {ts : List Token} (h : EndPlaced ts) (n : Nat) : EndPlaced (ts.drop n) := by
  change (ts.drop n).getLast?.bind Token.endError? = none
  rw [List.getLast?_drop]
  split
  · rfl
  · exact h

namespace Cursor

/-- The cursor in front of the token with the index `i`, or at the end mark behind all tokens. -/
def atIndex (ts : List Token) (i : Nat) : Cursor :=
  .over (TokenFeed.ofTokens ts).error (ts.take i).getLast? (ts.drop i)

/-- Where an end mark can be placed, no error follows the tokens. -/
theorem atIndex_eq {ts : List Token} (h : EndPlaced ts) (i : Nat) :
    atIndex ts i = .over none (ts.take i).getLast? (ts.drop i) := by rw [atIndex, h]

/-- Reading tokens starts at the first index. -/
theorem ofFeed_ofTokens (ts : List Token) : ofFeed (.ofTokens ts) = .ok (atIndex ts 0) := by
  cases ts with
  | nil => rfl
  | cons t ts => rfl

/-- In front of a token, it is the lookahead. -/
theorem curr_atIndex {ts : List Token} {i : Nat} (h : i < ts.length) :
    (atIndex ts i).curr = ts[i] := by
  rw [atIndex, List.drop_eq_getElem_cons h]
  rfl

/-- Behind all tokens, the lookahead is the end mark after the last of them. -/
theorem curr_atIndex_length (ts : List Token) :
    (atIndex ts ts.length).curr = Token.endAfter ts.getLast? := by
  rw [atIndex, List.take_length, List.drop_length]
  rfl

/-- Behind all tokens, the lookahead is an end mark. -/
theorem kind_curr_atIndex {ts : List Token} {i : Nat} (h : ts.length ≤ i) :
    (atIndex ts i).curr.kind = .eof := by
  rw [atIndex, List.drop_eq_nil_of_le h]
  exact Token.kind_endAfter _

end Cursor

namespace Reader

open Cursor (atIndex)

variable {α β : Type} {ts ts' : List Token} {j : Nat}

/-- Accepting the token at an index leads to the next index, where a token stands or an end mark
can be placed. -/
theorem eat_atIndex {k : Kind} (hk : k ≠ .eof) {i : Nat} (h : (atIndex ts i).curr.kind = k)
    (hnext : i + 1 < ts.length ∨ EndPlaced ts) :
    i < ts.length ∧ eat k (atIndex ts i) = .ok () (atIndex ts (i + 1)) := by
  have hi : i < ts.length := by
    by_contra hge
    exact hk (h.symm.trans (Cursor.kind_curr_atIndex (Nat.le_of_not_lt hge)))
  have hahead : Ahead (TokenFeed.ofTokens ts).error (ts.drop (i + 1)) := by
    intro hnil
    rcases hnext with hlt | hplaced
    · exact absurd (List.drop_eq_nil_iff.mp hnil) (Nat.not_le_of_lt hlt)
    · exact hplaced
  rw [Cursor.curr_atIndex hi] at h
  refine ⟨hi, ?_⟩
  rw [atIndex, atIndex, List.drop_eq_getElem_cons hi, eat_over ts[i] h hk hahead,
    List.take_succ_eq_append_getElem hi, List.getLast?_concat]

/-! ### Outcomes of two readings -/

/-- At every index up to `j`, both lists have the same token apart from its place, and both can be
read up to there. -/
structure SameUpTo (ts ts' : List Token) (j : Nat) : Prop where
  same : ∀ i ≤ j, (atIndex ts i).curr.unplaced = (atIndex ts' i).curr.unplaced
  placed : EndPlaced ts
  placed' : j < ts'.length ∨ EndPlaced ts'

/-- Both readings refuse the token at the index `k` for the same reason. -/
inductive SameFailure (ts ts' : List Token) (k : Nat) : ReadError → ReadError → Prop
  | parse (expected : Expectation) : SameFailure ts ts' k
      (.parse ⟨expected, (atIndex ts k).curr⟩) (.parse ⟨expected, (atIndex ts' k).curr⟩)
  | illegible (text : Option Text) : SameFailure ts ts' k (.illegible text) (.illegible text)

/-- The reading has gone past the index `j`. What it answers is related to some answer. -/
inductive Past (ts : List Token) (j : Nat) (R : α → α → Prop) :
    EStateM.Result ReadError Cursor α → Prop
  | ok {a : α} (a' : α) (ha : R a a') {k : Nat} (h : j < k) (hk : k ≤ ts.length) :
      Past ts j R (.ok a (atIndex ts k))
  | error (x : ReadError) {k : Nat} (h : j < k) (hk : k ≤ ts.length) :
      Past ts j R (.error x (atIndex ts k))

/-- Both readings stop at the same index with related answers, or fail there for the same reason,
unless the first has gone past `j` or one of them has been cut short. -/
inductive Paced (ts ts' : List Token) (j : Nat) (R : α → α → Prop) :
    EStateM.Result ReadError Cursor α → EStateM.Result ReadError Cursor α → Prop
  | ok {a a' : α} (ha : R a a') {k : Nat} (hk : k ≤ j) :
      Paced ts ts' j R (.ok a (atIndex ts k)) (.ok a' (atIndex ts' k))
  | failed {x x' : ReadError} {k : Nat} (h : SameFailure ts ts' k x x') (hk : k ≤ j) :
      Paced ts ts' j R (.error x (atIndex ts k)) (.error x' (atIndex ts' k))
  | past {x : EStateM.Result ReadError Cursor α} (h : Past ts j R x)
      (y : EStateM.Result ReadError Cursor α) : Paced ts ts' j R x y
  | cutLeft (c : Cursor) (y : EStateM.Result ReadError Cursor α) :
      Paced ts ts' j R (.error .depth c) y
  | cutRight (x : EStateM.Result ReadError Cursor α) (c : Cursor) :
      Paced ts ts' j R x (.error .depth c)

/-- From an index up to `j` both readers keep pace, and past it the first does not come back. -/
structure KeepsPace (ts ts' : List Token) (j : Nat) (R : α → α → Prop) (r r' : Reader α) :
    Prop where
  near {i : Nat} (h : i ≤ j) : Paced ts ts' j R (r (atIndex ts i)) (r' (atIndex ts' i))
  far {k : Nat} (h : j < k) (hk : k ≤ ts.length) : Past ts j R (r (atIndex ts k))

/-! ### Steps -/

variable {R : α → α → Prop} {S : β → β → Prop} {r r' : Reader α}

private theorem keepsPace_pure {a a' : α} (h : R a a') :
    KeepsPace ts ts' j R (pure a) (pure a') :=
  ⟨fun hi => .ok h hi, fun hj hk => .ok a' h hj hk⟩

private theorem keepsPace_fail (expected : Expectation) :
    KeepsPace ts ts' j R (fail expected) (fail expected) :=
  ⟨fun hi => .failed (.parse expected) hi, fun h hk => .error _ h hk⟩

private theorem keepsPace_illegible (text : Option Text) :
    KeepsPace ts ts' j R (throw (.illegible text)) (throw (.illegible text)) :=
  ⟨fun hi => .failed (.illegible text) hi, fun h hk => .error _ h hk⟩

private theorem keepsPace_depth (r' : Reader α) : KeepsPace ts ts' j R (throw .depth) r' :=
  ⟨fun _ => .cutLeft _ _, fun h hk => .error _ h hk⟩

private theorem KeepsPace.bind {f f' : α → Reader β} (hr : KeepsPace ts ts' j R r r')
    (hf : ∀ a a', R a a' → KeepsPace ts ts' j S (f a) (f' a')) :
    KeepsPace ts ts' j S (r >>= f) (r' >>= f') := by
  have hpast (c : Cursor) (h : Past ts j R (r c)) : Past ts j S ((r >>= f) c) := by
    rw [bind_apply]
    revert h
    generalize r c = x
    rintro (⟨_, ha, h, hk⟩ | ⟨x, h, hk⟩)
    · exact (hf _ _ ha).far h hk
    · exact .error x h hk
  constructor
  · intro i hi
    by_cases hp : Past ts j R (r (atIndex ts i))
    · exact .past (hpast _ hp) _
    · have hstep := hr.near hi
      rw [bind_apply, bind_apply]
      revert hp hstep
      generalize r (atIndex ts i) = x
      generalize r' (atIndex ts' i) = y
      rintro hp (⟨ha, hk⟩ | ⟨h, hk⟩ | ⟨h, -⟩ | ⟨c, -⟩ | ⟨-, c⟩)
      · exact (hf _ _ ha).near hk
      · exact .failed h hk
      · exact absurd h hp
      · exact .cutLeft c _
      · exact .cutRight _ c
  · exact fun h hk => hpast _ (hr.far h hk)

/-- What holds of answers can be weakened. -/
theorem KeepsPace.mono {R' : α → α → Prop} (h : KeepsPace ts ts' j R r r')
    (hR : ∀ a a', R a a' → R' a a') : KeepsPace ts ts' j R' r r' := by
  rw [← bind_pure r, ← bind_pure r']
  exact h.bind fun a a' ha => keepsPace_pure (hR a a' ha)

/-- Readers that look at the lookahead keep pace when they do for tokens that differ in place. -/
private theorem keepsPace_peek (hsame : SameUpTo ts ts' j) {f f' : Token → Reader β}
    (hf : ∀ t t' : Token, t.unplaced = t'.unplaced → KeepsPace ts ts' j S (f t) (f' t')) :
    KeepsPace ts ts' j S (peek >>= f) (peek >>= f') :=
  ⟨fun hi => (hf _ _ (hsame.same _ hi)).near hi, fun h hk => (hf _ _ rfl).far h hk⟩

/-- The first reading moves by one index where it accepts a token; the second moves along as long as
the first has not gone past `j`. -/
private theorem keepsPace_eat (hsame : SameUpTo ts ts' j) {k : Kind} (hk : k ≠ .eof) :
    KeepsPace ts ts' j (fun _ _ => True) (eat k) (eat k) where
  near := by
    intro i hi
    have hkind := Token.kind_eq_of_unplaced (hsame.same i hi)
    by_cases ht : (atIndex ts i).curr.kind = k
    · obtain ⟨hlt, heat⟩ := eat_atIndex hk ht (Or.inr hsame.placed)
      by_cases hj : i + 1 ≤ j
      · have hnext : i + 1 < ts'.length ∨ EndPlaced ts' := hsame.placed'.imp_left (by omega)
        rw [heat, (eat_atIndex hk (hkind ▸ ht) hnext).2]
        exact .ok trivial hj
      · rw [heat]
        exact .past (.ok () trivial (Nat.lt_of_not_le hj) hlt) _
    · rw [eat_refused_at ht, eat_refused_at (hkind ▸ ht)]
      exact .failed (.parse _) hi
  far := by
    intro i hj hi
    by_cases ht : (atIndex ts i).curr.kind = k
    · obtain ⟨hlt, heat⟩ := eat_atIndex hk ht (Or.inr hsame.placed)
      rw [heat]
      exact .ok () trivial (Nat.lt_succ_of_lt hj) hlt
    · rw [eat_refused_at ht]
      exact .error _ hj hi

private theorem keepsPace_leaf (hsame : SameUpTo ts ts' j) {k : Kind} (hk : k ≠ .eof)
    {f f' : Token → Reader β} (hf : ∀ t t' : Token, t.unplaced = t'.unplaced → t.kind = k →
      KeepsPace ts ts' j S (f t) (f' t')) :
    KeepsPace ts ts' j S (do let t ← peek; eat k; f t) (do let t ← peek; eat k; f' t) where
  near := by
    intro i hi
    have hkind := Token.kind_eq_of_unplaced (hsame.same i hi)
    change Paced ts ts' j S ((eat k >>= fun _ => f (atIndex ts i).curr) (atIndex ts i))
      ((eat k >>= fun _ => f' (atIndex ts' i).curr) (atIndex ts' i))
    by_cases ht : (atIndex ts i).curr.kind = k
    · exact ((keepsPace_eat hsame hk).bind fun _ _ _ => hf _ _ (hsame.same i hi) ht).near hi
    · rw [bind_apply, bind_apply, eat_refused_at ht, eat_refused_at (hkind ▸ ht)]
      exact .failed (.parse _) hi
  far := by
    intro i hj hi
    change Past ts j S ((eat k >>= fun _ => f (atIndex ts i).curr) (atIndex ts i))
    by_cases ht : (atIndex ts i).curr.kind = k
    · exact ((keepsPace_eat hsame hk).bind fun _ _ _ => hf _ _ rfl ht).far hj hi
    · rw [bind_apply, eat_refused_at ht]
      exact .error _ hj hi

/-- A reader keeps pace with one that has been cut short. -/
private theorem keepsPace_of_succ {r' : Nat → Reader α} (hzero : r' 0 = throw .depth)
    (hsucc : ∀ m, KeepsPace ts ts' j R r (r' (m + 1))) (m : Nat) :
    KeepsPace ts ts' j R r (r' m) := by
  cases m with
  | zero =>
    rw [hzero]
    exact ⟨fun _ => .cutRight _ _, (hsucc 0).far⟩
  | succ m => exact hsucc m

/-- Reading a list corresponds to reading one that agrees with it for a while, whatever the
allowances are. -/
def paced (hsame : SameUpTo ts ts' j) : Correspondence where
  left := fun _ => 0
  right := fun _ => 0
  Allowed _ _ := True
  Rel R := KeepsPace ts ts' j fun a a' => ∃ n, R a a' n
  pure h := keepsPace_pure ⟨0, h⟩
  fail _ expected := keepsPace_fail expected
  illegible _ text := keepsPace_illegible text
  bind hr hf := hr.bind fun a a' ⟨n, ha⟩ =>
    (hf a a' n ha).mono fun _ _ ⟨m, hb⟩ => ⟨n + m, hb⟩
  peek hf := keepsPace_peek hsame fun t t' ht => hf t t' (Token.matches_of_unplaced ht)
  leaf hk hf := keepsPace_leaf hsame hk fun t t' ht hkind =>
    (hf t t' (Token.matches_of_unplaced ht) hkind).mono fun _ _ ⟨n, hb⟩ => ⟨1 + n, hb⟩
  allowed_pred _ := trivial
  depth _ _ _ := keepsPace_depth _
  succ hr' h _ := keepsPace_of_succ hr' (fun m => h m trivial) _
  allowance h := ⟨fun hi => (h _ _ trivial).near hi, fun hj hk => (h _ 0 trivial).far hj hk⟩

/-- Readers of an item keep pace. -/
theorem item_keepsPace (hsame : SameUpTo ts ts' j) :
    KeepsPace ts ts' j (fun i i' => i.eraseLines = i'.eraseLines) item item := by
  refine (paced hsame).item.mono ?_
  rintro i i' ⟨-, hi, -⟩
  rwa [i.eraseLines_eq_mapLines, i'.eraseLines_eq_mapLines]

end Reader

/-! ### Whole feeds -/

open Cursor (atIndex)

/-- Both feeds stop at the same index after items that differ in lines only, with the end or with
the same failure, unless the first has gone past `j` or one of them has been cut short. -/
inductive FeedPaced (ts ts' : List Token) (j : Nat) :
    ItemFeed × Cursor → ItemFeed × Cursor → Prop
  | ended {items items' : List Item} (h : items.map Item.eraseLines = items'.map Item.eraseLines)
      {k : Nat} (hk : k ≤ j) :
      FeedPaced ts ts' j (⟨items, none⟩, atIndex ts k) (⟨items', none⟩, atIndex ts' k)
  | failed {items items' : List Item} (h : items.map Item.eraseLines = items'.map Item.eraseLines)
      {k : Nat} {x x' : ReadError} (hx : Reader.SameFailure ts ts' k x x') (hk : k ≤ j) :
      FeedPaced ts ts' j (⟨items, some x⟩, atIndex ts k) (⟨items', some x'⟩, atIndex ts' k)
  | past (feed : ItemFeed) {k : Nat} (h : j < k) (hk : k ≤ ts.length) (y : ItemFeed × Cursor) :
      FeedPaced ts ts' j (feed, atIndex ts k) y
  | cutLeft (items : List Item) (c : Cursor) (y : ItemFeed × Cursor) :
      FeedPaced ts ts' j (⟨items, some .depth⟩, c) y
  | cutRight (x : ItemFeed × Cursor) (items : List Item) (c : Cursor) :
      FeedPaced ts ts' j x (⟨items, some .depth⟩, c)

/-- Feeds keep pace when an item that is the same up to lines comes in front of both. -/
theorem FeedPaced.cons {ts ts' : List Token} {j : Nat} {f f' : ItemFeed} {c c' : Cursor}
    (h : FeedPaced ts ts' j (f, c) (f', c')) {i i' : Item} (hi : i.eraseLines = i'.eraseLines) :
    FeedPaced ts ts' j (f.cons i, c) (f'.cons i', c') := by
  have hcons {items items' : List Item}
      (h : items.map Item.eraseLines = items'.map Item.eraseLines) :
      (i :: items).map Item.eraseLines = (i' :: items').map Item.eraseLines := by
    rw [List.map_cons, List.map_cons, hi, h]
  cases h with
  | ended h hk => exact .ended (hcons h) hk
  | failed h hx hk => exact .failed (hcons h) hx hk
  | past feed h hk y => exact .past _ h hk _
  | cutLeft items c y => exact .cutLeft (i :: items) c _
  | cutRight x items c => exact .cutRight _ (i' :: items) _

/-- Where the first feed ends with a parse error, the error is at the index where the feed stops,
and the second fails too, unless the first has gone past `j` or the second has been cut short. -/
theorem FeedPaced.of_parse {ts ts' : List Token} {j : Nat} {x y : ItemFeed × Cursor}
    (h : FeedPaced ts ts' j x y) {p : ParseError} (hp : x.1.error = some (.parse p)) :
    (∃ k ≤ j, x.2 = atIndex ts k ∧ p.token = (atIndex ts k).curr ∧ y.1.error ≠ none) ∨
      (∃ k, j < k ∧ k ≤ ts.length ∧ x.2 = atIndex ts k) ∨ y.1.error = some .depth := by
  cases h with
  | ended h hk => contradiction
  | failed h hx hk =>
    cases hx with
    | parse expected =>
      refine Or.inl ⟨_, hk, rfl, ?_, nofun⟩
      rw [← ReadError.parse.inj (Option.some.inj hp)]
    | illegible text => exact nomatch Option.some.inj hp
  | past feed h hk y => exact Or.inr (Or.inl ⟨_, h, hk, rfl⟩)
  | cutLeft items c y => exact nomatch Option.some.inj hp
  | cutRight x items c => exact Or.inr (Or.inr rfl)

namespace ItemFeed

/-- Items that are read past an index stop past it. -/
theorem readWithin_past {ts ts' : List Token} {j : Nat} (hsame : Reader.SameUpTo ts ts' j)
    (n : Nat) {k : Nat} (h : j < k) (hk : k ≤ ts.length) :
    ∃ l, j < l ∧ l ≤ ts.length ∧ (readWithin n (atIndex ts k)).2 = atIndex ts l := by
  induction n generalizing k with
  | zero => exact ⟨k, h, hk, rfl⟩
  | succ n ih =>
    rw [readWithin]
    split
    · exact ⟨k, h, hk, rfl⟩
    · have hpast := (Reader.item_keepsPace hsame).far h hk
      revert hpast
      generalize Reader.item (atIndex ts k) = x
      rintro (⟨-, -, h, hk⟩ | ⟨x, h, hk⟩)
      · exact ih h hk
      · exact ⟨_, h, hk, rfl⟩

/-- Items are read at the same pace. -/
theorem readWithin_paced {ts ts' : List Token} {j : Nat} (hsame : Reader.SameUpTo ts ts' j)
    (n m : Nat) {i : Nat} (hi : i ≤ j) :
    FeedPaced ts ts' j (readWithin n (atIndex ts i)) (readWithin m (atIndex ts' i)) := by
  induction n generalizing m i with
  | zero => exact .cutLeft [] _ _
  | succ n ih =>
    cases m with
    | zero => exact .cutRight _ [] _
    | succ m =>
      have hstep := (Reader.item_keepsPace hsame).near hi
      rw [readWithin, readWithin, Token.kind_eq_of_unplaced (hsame.same i hi)]
      split
      · exact .ended rfl hi
      · revert hstep
        generalize Reader.item (atIndex ts i) = x
        generalize Reader.item (atIndex ts' i) = y
        rintro (⟨h, hk⟩ | ⟨h, hk⟩ | ⟨h, -⟩ | ⟨c, -⟩ | ⟨-, c⟩)
        · exact (ih m hk).cons h
        · exact .failed rfl h hk
        · rcases h with ⟨-, -, h, hk⟩ | ⟨x, h, hk⟩
          · obtain ⟨l, hl, hle, hc⟩ := readWithin_past hsame n h hk
            dsimp only
            rw [hc]
            exact .past _ hl hle _
          · exact .past _ h hk _
        · exact .cutLeft [] c _
        · exact .cutRight _ [] c

end ItemFeed

/-! ### Tokens of a text -/

private theorem Token.unplaced_endAfter (prev : Option Token) :
    (Token.endAfter prev).unplaced = ⟨.eof, none, 0, 0⟩ := by
  cases prev <;> rfl

/-- Lists of the same tokens apart from places are the same at every index. -/
theorem Cursor.unplaced_curr_atIndex {ts ts' : List Token}
    (h : ts.map Token.unplaced = ts'.map Token.unplaced) (i : Nat) :
    (atIndex ts i).curr.unplaced = (atIndex ts' i).curr.unplaced := by
  have hlen : ts.length = ts'.length := by simpa using congrArg List.length h
  by_cases hi : i < ts.length
  · have hget := congrArg (fun us : List Token => us[i]?) h
    rw [Cursor.curr_atIndex hi, Cursor.curr_atIndex (hlen ▸ hi)]
    simpa [hi, hlen ▸ hi] using hget
  · have hi' : ¬ i < ts'.length := hlen ▸ hi
    rw [atIndex, atIndex, List.drop_eq_nil_of_le (Nat.le_of_not_lt hi),
      List.drop_eq_nil_of_le (Nat.le_of_not_lt hi')]
    exact (Token.unplaced_endAfter _).trans (Token.unplaced_endAfter _).symm

/-- An end mark can be placed behind the tokens of a text. -/
theorem endPlaced_of_lexed {ts : List Token} (h : ∀ t ∈ ts, t.Lexed) : EndPlaced ts := by
  rw [EndPlaced, TokenFeed.ofTokens_of_lexed h]

namespace ItemFeed

/-- Tokens are read from the first index on. -/
theorem ofTokens_eq_read (ts : List Token) :
    ofTokenFeed (.ofTokens ts) = (read (atIndex ts 0)).1 := by
  rw [ofTokenFeed, Cursor.ofFeed_ofTokens]

/-- A text without an illegal character is read as its tokens are. -/
theorem ofText_eq_ofTokens {code : Text} {ts : List Token}
    (h : TokenFeed.ofText code = ⟨ts, none⟩) : ofText code = ofTokenFeed (.ofTokens ts) := by
  have hlexed := TokenFeed.lexed_ofText code
  rw [h] at hlexed
  rw [ofText, h, TokenFeed.ofTokens_of_lexed hlexed]

/-- Only parse errors end the tokens of a text. -/
theorem exists_parse_of_error {ts : List Token} (h : ∀ t ∈ ts, t.Lexed) {x : ReadError}
    (hx : (ofTokenFeed (.ofTokens ts)).error = some x) : ∃ p, x = .parse p := by
  have hfail := toExcept_eq_error.mpr hx
  rcases toExcept_cases h with ⟨ds, -, hok⟩ | ⟨p, hp⟩
  · exact nomatch hfail.symm.trans hok
  · exact ⟨p, Except.error.inj (hfail.symm.trans hp)⟩

/-- Tokens of texts that are the same apart from places have the same items apart from lines, and
are read to the end or refused at the same index for the same reason. -/
theorem ofTokens_agree {ts ts' : List Token} (hl : ∀ t ∈ ts, t.Lexed) (hl' : ∀ t ∈ ts', t.Lexed)
    (h : ts.map Token.unplaced = ts'.map Token.unplaced) :
    (ofTokenFeed (.ofTokens ts)).items.map Item.eraseLines =
      (ofTokenFeed (.ofTokens ts')).items.map Item.eraseLines ∧
    ((ofTokenFeed (.ofTokens ts)).error = none ∧ (ofTokenFeed (.ofTokens ts')).error = none ∨
      ∃ k ≤ ts.length, ∃ expected,
        (ofTokenFeed (.ofTokens ts)).error = some (.parse ⟨expected, (atIndex ts k).curr⟩) ∧
        (ofTokenFeed (.ofTokens ts')).error = some (.parse ⟨expected, (atIndex ts' k).curr⟩)) := by
  have hparse {x : ReadError} := @exists_parse_of_error ts hl x
  have hparse' {x : ReadError} := @exists_parse_of_error ts' hl' x
  have hpaced : FeedPaced ts ts' ts.length (read (atIndex ts 0)) (read (atIndex ts' 0)) :=
    readWithin_paced ⟨fun i _ => Cursor.unplaced_curr_atIndex h i, endPlaced_of_lexed hl,
      Or.inr (endPlaced_of_lexed hl')⟩ _ _ (Nat.zero_le _)
  rw [ofTokens_eq_read] at hparse hparse'
  rw [ofTokens_eq_read, ofTokens_eq_read]
  revert hparse hparse' hpaced
  generalize read (atIndex ts 0) = x
  generalize read (atIndex ts' 0) = y
  rintro hparse hparse' (⟨h, hk⟩ | ⟨h, hx, hk⟩ | ⟨feed, h, hk, -⟩ | ⟨items, c, -⟩ | ⟨-, items, c⟩)
  · exact ⟨h, Or.inl ⟨rfl, rfl⟩⟩
  · cases hx with
    | parse expected => exact ⟨h, Or.inr ⟨_, hk, expected, rfl, rfl⟩⟩
    | illegible text =>
      obtain ⟨p, hp⟩ := hparse rfl
      contradiction
  · exact absurd hk (Nat.not_le_of_lt h)
  · obtain ⟨p, hp⟩ := hparse rfl
    contradiction
  · obtain ⟨p, hp⟩ := hparse' rfl
    contradiction

/-- Where tokens are refused, the error is at the index where reading has stopped. -/
theorem exists_index_of_parse {ts : List Token} (h : EndPlaced ts) {p : ParseError}
    (hp : (ofTokenFeed (.ofTokens ts)).error = some (.parse p)) :
    ∃ k ≤ ts.length, (read (atIndex ts 0)).2 = atIndex ts k ∧ p.token = (atIndex ts k).curr := by
  have hpaced : FeedPaced ts ts ts.length (read (atIndex ts 0)) (read (atIndex ts 0)) :=
    readWithin_paced ⟨fun _ _ => rfl, h, Or.inr h⟩ _ _ (Nat.zero_le _)
  rw [ofTokens_eq_read] at hp
  rcases hpaced.of_parse hp with ⟨k, hk, hc, ht, -⟩ | ⟨k, hlt, hk, -⟩ | hdepth
  · exact ⟨k, hk, hc, ht⟩
  · exact absurd hk (Nat.not_le_of_lt hlt)
  · exact nomatch Option.some.inj (hp.symm.trans hdepth)

/-- A parse error that is not at the end mark is at one of the tokens. -/
theorem token_mem_of_parse {ts : List Token} (h : EndPlaced ts) {p : ParseError}
    (hp : (ofTokenFeed (.ofTokens ts)).error = some (.parse p)) (hk : p.token.kind ≠ .eof) :
    p.token ∈ ts := by
  obtain ⟨k, -, -, ht⟩ := exists_index_of_parse h hp
  by_cases hlt : k < ts.length
  · rw [ht, Cursor.curr_atIndex hlt]
    exact List.getElem_mem hlt
  · rw [ht] at hk
    exact absurd (Cursor.kind_curr_atIndex (Nat.le_of_not_lt hlt)) hk

end ItemFeed

end SumLang
