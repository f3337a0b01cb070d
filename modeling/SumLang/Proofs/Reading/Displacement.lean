import SumLang.Proofs.Reading.Correspondence
import SumLang.Proofs.Token.Scan

/-!
# Reading tokens that have moved

Tokens that all move by the same number of lines and bytes are read as before, with the
answers and the failures moved along. A reader decides by the kind and the text of the
lookahead; of its place it only makes the lines of the syntax and the end mark. What has
been read before plays no part, so that the token in front of the lookahead may be another
one.
-/

namespace SumLang

/-- How far a text moves when other text is put in front of it. -/
structure Displacement where
  lines : Nat
  bytes : Nat

/-- How far a text moves when `s` is put in front of it. -/
def Displacement.past (s : List Char) : Displacement := ⟨lineFeeds s, utf8Length s⟩

variable {d : Displacement}

/-! ### What moves -/

/-- The place moved. -/
def Position.displace (d : Displacement) (p : Position) : Position :=
  ⟨p.offset + d.bytes, p.line + d.lines⟩

/-- The token at the place it has moved to. -/
def Token.displace (d : Displacement) (t : Token) : Token :=
  { t with line := t.line + d.lines, offset := t.offset + d.bytes }

/-- The illegal character at the place it has moved to. -/
def LexError.displace (d : Displacement) (e : LexError) : LexError :=
  { e with offset := e.offset + d.bytes, line := e.line.map (· + (d.lines : Int)) }

/-- The error of a feed at the place it has moved to. -/
def FeedError.displace (d : Displacement) : FeedError → FeedError
  | .illegal e => .illegal (e.displace d)
  | .unencodable => .unencodable

/-- The feed with all of its tokens and its error moved. -/
def TokenFeed.displace (d : Displacement) (f : TokenFeed) : TokenFeed :=
  ⟨f.tokens.map (Token.displace d), f.error.map (FeedError.displace d)⟩

/-- The same expectation at the token that has moved. -/
def ParseError.displace (d : Displacement) (e : ParseError) : ParseError :=
  { e with token := e.token.displace d }

/-- The same failure at the place it has moved to. -/
def ReadError.displace (d : Displacement) : ReadError → ReadError
  | .feed e => .feed (e.displace d)
  | .parse e => .parse (e.displace d)
  | .illegible text => .illegible text
  | .depth => .depth

mutual

/-- The expression with all of its lines moved. -/
def Expr.displace (d : Displacement) : Expr → Expr
  | .lit value line => .lit value (line + d.lines)
  | .var name line => .var name (line + d.lines)
  | .add lhs rhs line => .add (lhs.displace d) (rhs.displace d) (line + d.lines)
  | .call name args line => .call name (Expr.displaceAll d args) (line + d.lines)
  | .alien tag fields line => .alien tag fields (line + d.lines)

/-- The expressions with all of their lines moved. -/
def Expr.displaceAll (d : Displacement) : List Expr → List Expr
  | [] => []
  | e :: es => e.displace d :: Expr.displaceAll d es

end

/-- The statement with all of its lines moved. -/
def Stmt.displace (d : Displacement) : Stmt → Stmt
  | .decl name value line => .decl name (value.displace d) (line + d.lines)
  | .assign name value line => .assign name (value.displace d) (line + d.lines)
  | .ret value line => .ret (value.displace d) (line + d.lines)
  | .alien tag fields line => .alien tag fields (line + d.lines)

/-- The item with all of its lines moved. -/
def Item.displace (d : Displacement) : Item → Item
  | .entry body line => .entry (body.map (Stmt.displace d)) (line + d.lines)
  | .func name params body line =>
    .func name params (body.map (Stmt.displace d)) (line + d.lines)
  | .alien tag fields line => .alien tag fields (line + d.lines)

/-- The feed with all of its items and its failure moved. -/
def ItemFeed.displace (d : Displacement) (f : ItemFeed) : ItemFeed :=
  ⟨f.items.map (Item.displace d), f.error.map (ReadError.displace d)⟩

mutual

/-- An expression moves by its lines. -/
theorem Expr.displace_eq_mapLines : (e : Expr) → e.displace d = e.mapLines (· + (d.lines : Int))
  | .lit .. | .var .. | .alien .. => rfl
  | .add lhs rhs line => by
    rw [displace, mapLines, lhs.displace_eq_mapLines, rhs.displace_eq_mapLines]
  | .call name args line => by rw [displace, mapLines, Expr.displaceAll_eq_mapLinesAll args]

/-- Expressions move by their lines. -/
theorem Expr.displaceAll_eq_mapLinesAll :
    (es : List Expr) → Expr.displaceAll d es = Expr.mapLinesAll (· + (d.lines : Int)) es
  | [] => rfl
  | e :: es => by
    rw [displaceAll, mapLinesAll, e.displace_eq_mapLines, Expr.displaceAll_eq_mapLinesAll es]

end

/-- A statement moves by its lines. -/
theorem Stmt.displace_eq_mapLines (s : Stmt) : s.displace d = s.mapLines (· + (d.lines : Int)) := by
  cases s <;> simp only [displace, mapLines, Expr.displace_eq_mapLines]

/-- An item moves by its lines. -/
theorem Item.displace_eq_mapLines (i : Item) : i.displace d = i.mapLines (· + (d.lines : Int)) := by
  have hbody (body : List Stmt) :
      body.map (Stmt.displace d) = body.map (Stmt.mapLines (· + (d.lines : Int))) :=
    List.map_congr_left fun s _ => s.displace_eq_mapLines
  cases i <;> simp only [displace, mapLines, hbody]

/-- A displaced token is of the same kind. -/
@[simp]
theorem Token.kind_displace (t : Token) : (t.displace d).kind = t.kind := rfl

/-- The end mark moves with the token that it follows. -/
theorem Token.endAfter_displace (t : Token) :
    endAfter (some (t.displace d)) = (endAfter (some t)).displace d := by
  simp only [endAfter, displace, endOffset, word]
  congr 1
  omega

/-! ### Scanning from another place -/

private theorem Position.after_eq_displace (p : Position) (s : List Char) :
    p.after s = p.displace (.past s) := rfl

private theorem Position.after_displace (p : Position) (s : List Char) :
    (p.displace d).after s = (p.after s).displace d := by
  simp only [after, displace, mk.injEq]
  omega

namespace TokenFeed

private theorem displace_cons (f : TokenFeed) (t : Token) :
    (f.cons t).displace d = (f.displace d).cons (t.displace d) := rfl

/-- Lexemes from a place that has moved become tokens that have moved as far. -/
theorem ofLexemes_displace (p : Position) (xs : List Lexeme) :
    ofLexemes (p.displace d) xs = (ofLexemes p xs).displace d := by
  induction xs generalizing p with
  | nil => rfl
  | cons x xs ih =>
    obtain ⟨cls, text⟩ := x
    cases cls with
    | letter | digit | symbol =>
      simp only [ofLexemes, Position.after_displace, ih, displace_cons]
      simp [Position.displace, Token.displace]
    | blank => simp only [ofLexemes, Position.after_displace, ih]
    | illegal =>
      simp [ofLexemes, Position.displace, displace, FeedError.displace, LexError.displace]

/-- A text is scanned after other text as it is alone, with everything moved past that text. -/
theorem scan_after (p : Position) (s t : List Char) :
    scan (p.after s) t = (scan p t).displace (.past s) := by
  rw [scan, Position.after_eq_displace, ofLexemes_displace, scan]

end TokenFeed

/-! ### Steps of a reader -/

/-- The lookahead and what follows it have moved. The token in front of it can be any. -/
structure Cursor.Moved (d : Displacement) (c c' : Cursor) : Prop where
  curr : c'.curr = c.curr.displace d
  rest : c'.rest = c.rest.displace d

/-- As many tokens remain for a moved cursor. -/
theorem Cursor.Moved.remaining {c c' : Cursor} (h : c.Moved d c') : c'.remaining = c.remaining := by
  simp only [Cursor.remaining, h.curr, h.rest, TokenFeed.displace, List.length_map,
    Token.kind_displace]

/-- A cursor over displaced tokens is the moved cursor. -/
theorem Cursor.moved_over {err : Option FeedError} {t : Token} (prev prev' : Option Token)
    (ts : List Token) : (Cursor.over err prev (t :: ts)).Moved d
      (.over (err.map (FeedError.displace d)) prev' ((t :: ts).map (Token.displace d))) :=
  ⟨rfl, rfl⟩

namespace Reader

variable {α β : Type} {R : α → α → Prop} {S : β → β → Prop} {r r' : Reader α}

/-- The second outcome is the first one moved, with answers that are related. -/
inductive MovedOutcome (d : Displacement) (R : α → α → Prop) :
    EStateM.Result ReadError Cursor α → EStateM.Result ReadError Cursor α → Prop
  | ok {a a' : α} (ha : R a a') {c c' : Cursor} (h : c.Moved d c') :
      MovedOutcome d R (.ok a c) (.ok a' c')
  | error (x : ReadError) (c c' : Cursor) : MovedOutcome d R (.error x c) (.error (x.displace d) c')

/-- In front of tokens that have moved, the second reader does what the first did before. -/
def Moves (d : Displacement) (R : α → α → Prop) (r r' : Reader α) : Prop :=
  ∀ c c' : Cursor, c.Moved d c' → MovedOutcome d R (r c) (r' c')

private theorem moves_pure {a a' : α} (h : R a a') : Moves d R (pure a) (pure a') :=
  fun _ _ hc => .ok h hc

private theorem moves_throw {x : ReadError} (h : x.displace d = x) :
    Moves d R (throw x) (throw x) := by
  intro c c' _
  have hx := MovedOutcome.error (R := R) (d := d) x c c'
  rwa [h] at hx

private theorem moves_fail (expected : Expectation) :
    Moves d R (fail expected) (fail expected) := by
  intro c c' hc
  have hx := MovedOutcome.error (R := R) (d := d) (.parse ⟨expected, c.curr⟩) c c'
  rw [ReadError.displace, ParseError.displace, ← hc.curr] at hx
  exact hx

private theorem Moves.bind {f f' : α → Reader β} (hr : Moves d R r r')
    (hf : ∀ a a', R a a' → Moves d S (f a) (f' a')) : Moves d S (r >>= f) (r' >>= f') := by
  intro c c' hc
  have hstep := hr c c' hc
  rw [bind_apply, bind_apply]
  revert hstep
  generalize r c = x
  generalize r' c' = y
  rintro (⟨ha, h⟩ | ⟨x, c, c'⟩)
  · exact hf _ _ ha _ _ h
  · exact .error x c c'

/-- What holds of answers can be weakened. -/
theorem Moves.mono {R' : α → α → Prop} (h : Moves d R r r') (hR : ∀ a a', R a a' → R' a a') :
    Moves d R' r r' := by
  rw [← bind_pure r, ← bind_pure r']
  exact h.bind fun a a' ha => moves_pure (hR a a' ha)

private theorem moves_peek {f f' : Token → Reader β}
    (hf : ∀ t, Moves d S (f t) (f' (t.displace d))) : Moves d S (peek >>= f) (peek >>= f') := by
  intro c c' hc
  have hstep := hf c.curr c c' hc
  rw [← hc.curr] at hstep
  exact hstep

private theorem moves_advance : Moves d (fun _ _ => True) advance advance := by
  rintro ⟨prev, t, ts, err⟩ ⟨prev', -, -⟩ ⟨rfl, rfl⟩
  cases ts with
  | cons u ts => exact .ok trivial ⟨rfl, rfl⟩
  | nil =>
    cases err with
    | none => exact .ok trivial ⟨Token.endAfter_displace t, rfl⟩
    | some e => exact .error (.feed e) _ _

private theorem moves_leaf {k : Kind} (hk : k ≠ .eof) {f f' : Token → Reader β}
    (hf : ∀ t : Token, t.kind = k → Moves d S (f t) (f' (t.displace d))) :
    Moves d S (do let t ← peek; eat k; f t) (do let t ← peek; eat k; f' t) := by
  rw [leaf_eq hk, leaf_eq hk]
  refine moves_peek fun t => ?_
  rw [Token.kind_displace]
  split
  · exact moves_advance.bind fun _ _ _ => hf t ‹_›
  · exact moves_fail _

private theorem moves_withAllowance {r r' : Nat → Reader α} (h : ∀ n, Moves d R (r n) (r' n)) :
    Moves d R (withAllowance r) (withAllowance r') := by
  intro c c' hc
  rw [withAllowance, withAllowance, hc.remaining]
  exact h _ c c' hc

private theorem matches_displace (t : Token) :
    t.Matches (· + (d.lines : Int)) id (t.displace d) :=
  ⟨rfl, fun _ => rfl, fun _ => rfl, rfl⟩

/-- Reading tokens corresponds to reading them where they have moved to. -/
def displaced (d : Displacement) : Correspondence where
  left := (· + (d.lines : Int))
  right := id
  Allowed := Eq
  Rel R := Moves d fun a a' => ∃ n, R a a' n
  pure h := moves_pure ⟨0, h⟩
  fail _ expected := moves_fail expected
  illegible _ _ := moves_throw rfl
  bind hr hf := hr.bind fun a a' ⟨n, ha⟩ =>
    (hf a a' n ha).mono fun _ _ ⟨m, hb⟩ => ⟨n + m, hb⟩
  peek hf := moves_peek fun t => hf t _ (matches_displace t)
  leaf hk hf := moves_leaf hk fun t ht =>
    (hf t _ (matches_displace t) ht).mono fun _ _ ⟨n, hb⟩ => ⟨1 + n, hb⟩
  allowed_pred := Nat.succ.inj
  depth _ hr' h := by
    subst h
    rw [hr']
    exact moves_throw rfl
  succ _ h hm := by
    subst hm
    exact h _ rfl
  allowance h := moves_withAllowance fun n => h n n rfl

/-- An item that has moved is read as before. -/
theorem item_moves : Moves d (fun i i' => i' = i.displace d) item item := by
  refine (displaced d).item.mono ?_
  rintro i i' ⟨-, hi : i.mapLines (· + (d.lines : Int)) = i'.mapLines id, -⟩
  rw [i.displace_eq_mapLines, hi, Item.mapLines_id]

end Reader

/-! ### Whole feeds -/

private theorem ItemFeed.displace_cons (f : ItemFeed) (i : Item) :
    (f.cons i).displace d = (f.displace d).cons (i.displace d) := rfl

/-- Items that have moved are read as before, also with a larger allowance, unless the smaller one
was used up. -/
theorem ItemFeed.readWithin_displace {n m : Nat} (hn : n ≤ m) {c c' : Cursor} (hc : c.Moved d c')
    (hdepth : (readWithin n c).1.error ≠ some .depth) :
    (readWithin m c').1 = (readWithin n c).1.displace d := by
  induction n generalizing m c c' with
  | zero => exact absurd rfl hdepth
  | succ n ih =>
    obtain ⟨m, rfl⟩ : ∃ l, m = l + 1 := ⟨m - 1, by omega⟩
    have hstep := Reader.item_moves c c' hc
    have hkind : c'.curr.kind = c.curr.kind := by rw [hc.curr, Token.kind_displace]
    rw [readWithin] at hdepth
    rw [readWithin, readWithin, hkind]
    split
    · rfl
    · next hk =>
      rw [if_neg hk] at hdepth
      revert hstep hdepth
      generalize Reader.item c = x
      generalize Reader.item c' = y
      rintro hdepth (⟨rfl, h⟩ | ⟨x, c, c'⟩)
      · dsimp only
        rw [ih (by omega) h hdepth, displace_cons]
      · rfl

end SumLang
