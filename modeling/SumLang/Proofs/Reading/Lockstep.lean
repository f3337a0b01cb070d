import SumLang.Proofs.Reading.Correspondence

/-!
# Reading a feed that is cut short

A feed that ends with an error is read in lockstep with the feed of the same tokens
without the error. As long as a token is left the two readings agree, in what they
answer and in how they fail. They part where the last token is accepted: the one fails
with the error of the feed, and the other has come to the end mark, where it can only
stop or fail. Every reader of the grammar is built from steps of this kind.
-/

namespace SumLang

/-- There are tokens left, and none of them looks like an end mark. -/
structure Live (ts : List Token) : Prop where
  ne_nil : ts ≠ []
  kind_ne : ∀ t ∈ ts, t.kind ≠ .eof

/-- The failure is no parse error at a token of the feed. -/
def ReadError.AtEnd (x : ReadError) : Prop := ∀ p, x = .parse p → p.token.kind = .eof

/-- The failure is no parse error at the end mark. -/
def ReadError.AtToken (x : ReadError) : Prop := ∀ p, x = .parse p → p.token.kind ≠ .eof

namespace Reader

variable {α β : Type} {e : FeedError} {R : α → α → Prop} {S : β → β → Prop}

/-- No token is left: the reader has stopped in front of the end mark, or has failed there. What it
answers is related to some answer. -/
inductive Spent (R : α → α → Prop) : EStateM.Result ReadError Cursor α → Prop
  | ok {a a' : α} (h : R a a') (prev : Option Token) : Spent R (.ok a' (.over none prev []))
  | error {x : ReadError} (h : x.AtEnd) (c : Cursor) : Spent R (.error x c)

/-- The outcomes of reading the same tokens with the error `e` after them and without it. -/
inductive Lockstep (e : FeedError) (R : α → α → Prop) :
    EStateM.Result ReadError Cursor α → EStateM.Result ReadError Cursor α → Prop
  | ok {a a' : α} (ha : R a a') (prev : Option Token) {rest : List Token} (h : Live rest) :
      Lockstep e R (.ok a (.over (some e) prev rest)) (.ok a' (.over none prev rest))
  | error {x : ReadError} (h : x.AtToken) (c c' : Cursor) : Lockstep e R (.error x c) (.error x c')
  | parted (c : Cursor) {r : EStateM.Result ReadError Cursor α} (h : Spent R r) :
      Lockstep e R (.error (.feed e) c) r

/-- The readers go in lockstep while tokens are left, and the second no further when none is. -/
structure Synced (e : FeedError) (R : α → α → Prop) (r r' : Reader α) : Prop where
  live {ts : List Token} (h : Live ts) (prev : Option Token) :
    Lockstep e R (r (.over (some e) prev ts)) (r' (.over none prev ts))
  spent (prev : Option Token) : Spent R (r' (.over none prev []))

/-! ### Steps -/

private theorem synced_pure {a a' : α} (h : R a a') : Synced e R (pure a) (pure a') :=
  ⟨fun hts prev => .ok h prev hts, fun prev => .ok h prev⟩

/-- A failure that is no parse error has no place at which readings could differ. -/
private theorem synced_throw {x : ReadError} (h : ∀ p, x ≠ .parse p) :
    Synced e R (throw x) (throw x) :=
  ⟨fun _ _ => .error (fun p hp => absurd hp (h p)) _ _,
    fun _ => .error (fun p hp => absurd hp (h p)) _⟩

private theorem synced_fail (expected : Expectation) :
    Synced e R (fail expected) (fail expected) where
  live := by
    intro ts h prev
    obtain ⟨t, ts, rfl⟩ := List.exists_cons_of_ne_nil h.ne_nil
    refine .error (x := .parse ⟨expected, t⟩) ?_ _ _
    rintro p hp
    rw [← ReadError.parse.inj hp]
    exact h.kind_ne t List.mem_cons_self
  spent := by
    intro prev
    refine .error (x := .parse ⟨expected, Token.endAfter prev⟩) ?_ _
    rintro p hp
    rw [← ReadError.parse.inj hp]
    exact Token.kind_endAfter prev

private theorem Synced.bind {r r' : Reader α} {f f' : α → Reader β} (hr : Synced e R r r')
    (hf : ∀ a a', R a a' → Synced e S (f a) (f' a')) : Synced e S (r >>= f) (r' >>= f') where
  live := by
    intro ts h prev
    rw [bind_apply, bind_apply]
    have hstep := hr.live h prev
    revert hstep
    generalize r (.over (some e) prev ts) = x
    generalize r' (.over none prev ts) = y
    rintro (⟨ha, prev', h'⟩ | ⟨hx, c, c'⟩ | ⟨c, hs⟩)
    · exact (hf _ _ ha).live h' prev'
    · exact .error hx c c'
    · refine .parted c ?_
      cases hs with
      | ok ha prev' => exact (hf _ _ ha).spent prev'
      | error hx c' => exact .error hx c'
  spent := by
    intro prev
    rw [bind_apply]
    have hstep := hr.spent prev
    revert hstep
    generalize r' (.over none prev []) = y
    rintro (⟨ha, prev'⟩ | ⟨hx, c'⟩)
    · exact (hf _ _ ha).spent prev'
    · exact .error hx c'

/-- What holds of answers can be weakened. -/
theorem Synced.mono {R' : α → α → Prop} {r r' : Reader α} (h : Synced e R r r')
    (hR : ∀ a a', R a a' → R' a a') : Synced e R' r r' := by
  rw [← bind_pure r, ← bind_pure r']
  exact h.bind fun a a' ha => synced_pure (hR a a' ha)

private theorem synced_peek {f f' : Token → Reader β} (hf : ∀ t, Synced e S (f t) (f' t)) :
    Synced e S (peek >>= f) (peek >>= f') where
  live := by
    intro ts h prev
    obtain ⟨t, ts, rfl⟩ := List.exists_cons_of_ne_nil h.ne_nil
    exact (hf t).live h prev
  spent := fun prev => (hf (Token.endAfter prev)).spent prev

/-- Where the last token is accepted, the error of the feed comes up, or the end mark without it. -/
private theorem synced_advance : Synced e (fun _ _ => True) advance advance where
  live := by
    intro ts h prev
    obtain ⟨t, ts, rfl⟩ := List.exists_cons_of_ne_nil h.ne_nil
    cases ts with
    | nil => exact .parted _ (.ok (a := ()) trivial (some t))
    | cons x ts =>
      exact .ok trivial (some t) ⟨List.cons_ne_nil x ts, (List.forall_mem_cons.mp h.kind_ne).2⟩
  spent := fun prev => .ok (a := ()) trivial (some (Token.endAfter prev))

private theorem synced_leaf {k : Kind} (hk : k ≠ .eof) {f f' : Token → Reader β}
    (hf : ∀ t : Token, t.kind = k → Synced e S (f t) (f' t)) :
    Synced e S (do let t ← peek; eat k; f t) (do let t ← peek; eat k; f' t) := by
  rw [leaf_eq hk, leaf_eq hk]
  refine synced_peek fun t => ?_
  split
  · exact synced_advance.bind fun _ _ _ => hf t ‹_›
  · exact synced_fail _

private theorem synced_withAllowance {r r' : Nat → Reader α} (h : ∀ n, Synced e R (r n) (r' n)) :
    Synced e R (withAllowance r) (withAllowance r') where
  live := by
    intro ts hts prev
    rw [withAllowance, withAllowance, Cursor.remaining_over hts.kind_ne,
      Cursor.remaining_over hts.kind_ne]
    exact (h _).live hts prev
  spent := fun prev => (h _).spent prev

/-- Reading with an error behind the tokens corresponds to reading without it. -/
def synced (e : FeedError) : Correspondence where
  left := id
  right := id
  Allowed := Eq
  Rel R := Synced e fun a a' => ∃ n, R a a' n
  pure h := synced_pure ⟨0, h⟩
  fail _ expected := synced_fail expected
  illegible _ _ := synced_throw nofun
  bind hr hf := hr.bind fun a a' ⟨n, ha⟩ =>
    (hf a a' n ha).mono fun _ _ ⟨m, hb⟩ => ⟨n + m, hb⟩
  peek hf := synced_peek fun t => hf t t (.refl id t)
  leaf hk hf := synced_leaf hk fun t ht =>
    (hf t t (.refl id t) ht).mono fun _ _ ⟨n, hb⟩ => ⟨1 + n, hb⟩
  allowed_pred := Nat.succ.inj
  depth _ hr' h := by
    subst h
    rw [hr']
    exact synced_throw nofun
  succ _ h hm := by
    subst hm
    exact h _ rfl
  allowance h := synced_withAllowance fun n => h n n rfl

/-- An item is read in lockstep. -/
theorem synced_item : Synced e Eq item item := by
  refine (synced e).item.mono ?_
  rintro i i' ⟨-, hi : i.mapLines id = i'.mapLines id, -⟩
  rwa [Item.mapLines_id, Item.mapLines_id] at hi

end Reader

/-! ### Whole feeds -/

/-- The items of a feed with the error `e` at its end and those of its tokens alone. -/
inductive FeedLockstep (e : FeedError) : ItemFeed → ItemFeed → Prop
  /-- Both fail at the same token. -/
  | failed (items : List Item) {x : ReadError} (h : x.AtToken) :
      FeedLockstep e ⟨items, some x⟩ ⟨items, some x⟩
  /-- The tokens alone break off at the end mark. -/
  | cut (items : List Item) {x : ReadError} (h : x.AtEnd) :
      FeedLockstep e ⟨items, some (.feed e)⟩ ⟨items, some x⟩
  /-- The tokens alone are read to their end, and the last item is withheld. -/
  | withheld (items : List Item) (i : Item) :
      FeedLockstep e ⟨items, some (.feed e)⟩ ⟨items ++ [i], none⟩
  /-- The allowance for the tokens alone was used up. -/
  | exhausted (feed : ItemFeed) (items : List Item) : FeedLockstep e feed ⟨items, some .depth⟩

/-- Feeds keep in step when one item comes in front of both. -/
theorem FeedLockstep.cons {e : FeedError} {feed feed' : ItemFeed} (h : FeedLockstep e feed feed')
    (i : Item) : FeedLockstep e (feed.cons i) (feed'.cons i) := by
  cases h with
  | failed items h => exact .failed (i :: items) h
  | cut items h => exact .cut (i :: items) h
  | withheld items j => exact .withheld (i :: items) j
  | exhausted feed items => exact .exhausted _ (i :: items)

/-- No item is read where no token is left. -/
theorem ItemFeed.readWithin_end (n : Nat) (prev : Option Token) :
    (readWithin (n + 1) (.over none prev [])).1 = ⟨[], none⟩ := by
  have hk : (Cursor.over none prev []).curr.kind = .eof := Token.kind_endAfter prev
  rw [readWithin, if_pos hk]

/-- Items are read in lockstep. -/
theorem ItemFeed.readWithin_lockstep (e : FeedError) (n : Nat) {ts : List Token} (h : Live ts)
    (prev : Option Token) : FeedLockstep e (readWithin n (.over (some e) prev ts)).1
      (readWithin n (.over none prev ts)).1 := by
  induction n generalizing ts prev with
  | zero => exact .exhausted _ []
  | succ n ih =>
    have hk (err : Option FeedError) : ¬ (Cursor.over err prev ts).curr.kind = .eof := by
      obtain ⟨t, ts, rfl⟩ := List.exists_cons_of_ne_nil h.ne_nil
      exact h.kind_ne t List.mem_cons_self
    have hstep := Reader.synced_item.live (e := e) h prev
    rw [readWithin, readWithin, if_neg (hk _), if_neg (hk _)]
    revert hstep
    generalize Reader.item (.over (some e) prev ts) = x
    generalize Reader.item (.over none prev ts) = y
    rintro (@⟨i, -, rfl, prev', _, h'⟩ | ⟨hx, c, c'⟩ | ⟨c, hs⟩)
    · exact (ih h' prev').cons i
    · exact .failed [] hx
    · cases hs with
      | error hx c' => exact .cut [] hx
      | @ok _ i _ prev' =>
        cases n with
        | zero => exact .exhausted _ [i]
        | succ n =>
          dsimp only
          rw [readWithin_end]
          exact .withheld [] i

/-- The items of a feed that is cut short are read in lockstep with those of its tokens. -/
theorem ItemFeed.ofTokenFeed_lockstep (e : FeedError) {ts : List Token} (h : Live ts) :
    FeedLockstep e (ofTokenFeed ⟨ts, some e⟩) (ofTokenFeed ⟨ts, none⟩) := by
  have hahead : Ahead (some e) ts := fun hnil => absurd hnil h.ne_nil
  simp only [ofTokenFeed, Cursor.ofFeed_eq_over hahead,
    Cursor.ofFeed_eq_over (ahead_none ts), read, Cursor.remaining_over h.kind_ne]
  exact readWithin_lockstep e _ h none

end SumLang
