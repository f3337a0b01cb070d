import SumLang.Reading.ItemFeed

/-!
# Readers in front of a token list

A cursor over a feed is determined by the tokens in front of it, the error that may
follow them, and the token just read. Two predicates describe a reader there: `Takes`
says which tokens it consumes and what it answers, and `Reads` says that it either
consumes some tokens and establishes a postcondition or fails with a parse error or
with the error of the feed.
-/

namespace SumLang

/-- The cursor in front of some tokens, which an error of the feed may follow. -/
def Cursor.over (err : Option FeedError) (prev : Option Token) : List Token → Cursor
  | [] => ⟨prev, Token.endAfter prev, ⟨[], none⟩⟩
  | t :: ts => ⟨prev, t, ⟨ts, err⟩⟩

/-- The error of a feed, if it has one, comes after a token that is still in front. -/
def Ahead (err : Option FeedError) (ts : List Token) : Prop := ts = [] → err = none

/-- Where a token is left, the error of the feed is not yet met. -/
theorem ahead_cons (err : Option FeedError) (t : Token) (ts : List Token) : Ahead err (t :: ts) :=
  nofun

/-- A feed without an error never meets one. -/
theorem ahead_none (ts : List Token) : Ahead none ts := fun _ => rfl

/-- Tokens in front keep the error of the feed away. -/
theorem ahead_append {err : Option FeedError} {rest : List Token} (h : Ahead err rest)
    (ts : List Token) : Ahead err (ts ++ rest) :=
  fun he => h (List.append_eq_nil_iff.mp he).2

/-- The end mark behind a token list has the kind of an end mark. -/
theorem Token.kind_endAfter (prev : Option Token) : (Token.endAfter prev).kind = .eof := by
  cases prev <;> rfl

/-- A cursor starts in front of all tokens of a feed that does not start with its error. -/
theorem Cursor.ofFeed_eq_over {err : Option FeedError} {ts : List Token} (h : Ahead err ts) :
    Cursor.ofFeed ⟨ts, err⟩ = .ok (.over err none ts) := by
  cases ts with
  | nil =>
    rw [h rfl]
    rfl
  | cons t ts => rfl

/-- At most the tokens in front of a cursor remain. -/
theorem Cursor.length_le_remaining (err : Option FeedError) (prev : Option Token)
    (ts : List Token) : ts.length ≤ (Cursor.over err prev ts).remaining + 1 := by
  cases ts with
  | nil => exact Nat.zero_le _
  | cons t ts => exact Nat.succ_le_succ (Nat.le_add_right _ _)

/-- Exactly the tokens in front of a cursor remain when none of them looks like an end mark. -/
theorem Cursor.remaining_over {ts : List Token} (h : ∀ t ∈ ts, t.kind ≠ .eof)
    (err : Option FeedError) (prev : Option Token) :
    (Cursor.over err prev ts).remaining = ts.length := by
  cases ts with
  | nil => simp only [Cursor.remaining, Cursor.over, Token.kind_endAfter, if_true, List.length_nil]
  | cons t ts =>
    simp only [Cursor.remaining, Cursor.over, h t List.mem_cons_self, if_false, List.length_cons]

namespace Reader

variable {α β : Type} {err : Option FeedError}

/-- A sequence of readers goes on from the cursor where the first one stopped. -/
theorem bind_apply (r : Reader α) (f : α → Reader β) (c : Cursor) :
    (r >>= f) c = match r c with
      | .ok a c => f a c
      | .error e c => .error e c := by
  change EStateM.bind r f c = _
  unfold EStateM.bind
  cases r c <;> rfl

/-- The lookahead in front of some tokens is the first of them, or else an end mark. -/
def Faces : List Token → Token → Prop
  | [], t => t.kind = .eof
  | x :: _, t => t = x

/-- A lookahead that is no end mark is the first of the tokens. -/
theorem Faces.eq_cons {ts : List Token} {t : Token} (h : Faces ts t) (hk : t.kind ≠ .eof) :
    ∃ rest, ts = t :: rest := by
  cases ts with
  | nil => exact absurd h hk
  | cons x rest => exact ⟨rest, by rw [h]⟩

/-- Looking ahead moves nothing. -/
theorem peek_over (err : Option FeedError) (prev : Option Token) (ts : List Token) :
    ∃ t, peek (.over err prev ts) = .ok t (.over err prev ts) ∧ Faces ts t := by
  cases ts with
  | nil => exact ⟨Token.endAfter prev, rfl, Token.kind_endAfter prev⟩
  | cons t ts => exact ⟨t, rfl, rfl⟩

/-- Accepting a token of another kind than the lookahead's is refused in its place. -/
theorem eat_refused_at {k : Kind} {c : Cursor} (h : c.curr.kind ≠ k) :
    eat k c = .error (.parse ⟨.oneOf [k], c.curr⟩) c := by
  change (if c.curr.kind ≠ k then fail (.oneOf [k])
    else if k = .eof then pure () else advance : Reader Unit) c = _
  rw [if_pos h]
  rfl

/-- Accepting the lookahead moves past it, unless the error of the feed comes next. -/
theorem eat_over {k : Kind} {prev : Option Token} {ts : List Token} (t : Token) (ht : t.kind = k)
    (hk : k ≠ .eof) (h : Ahead err ts) :
    eat k (.over err prev (t :: ts)) = .ok () (.over err (some t) ts) := by
  change (if t.kind ≠ k then fail (.oneOf [k]) else if k = .eof then pure () else advance :
    Reader Unit) (.over err prev (t :: ts)) = _
  rw [if_neg (not_not_intro ht), if_neg hk]
  cases ts with
  | nil =>
    rw [h rfl]
    rfl
  | cons x ts => rfl

/-- The error of the feed comes up when the last token in front of it is accepted. -/
theorem eat_last (e : FeedError) (prev : Option Token) {k : Kind} (t : Token) (ht : t.kind = k)
    (hk : k ≠ .eof) :
    ∃ c, eat k (.over (some e) prev [t]) = .error (.feed e) c := by
  refine ⟨⟨some t, t, ⟨[], t.endError?⟩⟩, ?_⟩
  change (if t.kind ≠ k then fail (.oneOf [k]) else if k = .eof then pure () else advance :
    Reader Unit) (.over (some e) prev [t]) = _
  rw [if_neg (not_not_intro ht), if_neg hk]
  rfl

/-! ### Readers that succeed -/

/-- In front of `ts` the reader answers `a` and stops in front of `rest`. -/
def Takes (err : Option FeedError) (r : Reader α) (ts : List Token) (a : α) (rest : List Token) :
    Prop :=
  ∀ prev, ∃ prev', r (.over err prev ts) = .ok a (.over err prev' rest)

/-- An answer that needs no token takes none. -/
theorem takes_pure (err : Option FeedError) (a : α) (ts : List Token) :
    Takes err (pure a) ts a ts := fun prev => ⟨prev, rfl⟩

/-- Readers in sequence take their tokens in sequence. -/
theorem Takes.bind {r : Reader α} {f : α → Reader β} {ts mid rest : List Token} {a : α} {b : β}
    (hr : Takes err r ts a mid) (hf : Takes err (f a) mid b rest) :
    Takes err (r >>= f) ts b rest := by
  intro prev
  obtain ⟨prev₁, h₁⟩ := hr prev
  obtain ⟨prev₂, h₂⟩ := hf prev₁
  exact ⟨prev₂, by rw [bind_apply, h₁]; exact h₂⟩

/-- A token of the kind asked for is taken. -/
theorem takes_eat {k : Kind} (t : { t : Token // t.kind = k }) {rest : List Token}
    (h : Ahead err rest) (hk : k ≠ .eof) : Takes err (eat k) (t.1 :: rest) () rest :=
  fun _ => ⟨some t.1, eat_over t.1 t.2 hk h⟩

/-- A reader may look at the token that it goes on to take. -/
theorem takes_peek_cons {f : Token → Reader β} {t : Token} {ts rest : List Token} {b : β}
    (h : Takes err (f t) (t :: ts) b rest) : Takes err (peek >>= f) (t :: ts) b rest :=
  Takes.bind (fun prev => ⟨prev, rfl⟩) h

/-- A reader that looks at the lookahead succeeds when it does for every token it can face. -/
theorem takes_peek {f : Token → Reader β} {ts rest : List Token} {b : β}
    (h : ∀ t, Faces ts t → Takes err (f t) ts b rest) : Takes err (peek >>= f) ts b rest := by
  intro prev
  obtain ⟨t, ht, hf⟩ := peek_over err prev ts
  obtain ⟨prev', h'⟩ := h t hf prev
  exact ⟨prev', by rw [bind_apply, ht]; exact h'⟩

end Reader

end SumLang
