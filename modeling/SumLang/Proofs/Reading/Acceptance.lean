import SumLang.Proofs.Reading.Agreement

/-!
# Tokens that a reader accepts

Whatever a reader does comes down to a few steps: it looks at the lookahead, accepts it,
answers or fails. Only accepting moves the cursor, and it moves it past one token. So a
reader that starts at an index of a token list has, whatever becomes of it, accepted the
tokens from there up to the index that it has come to, each once and in order, and a
token that does not fit is the one at that index.
-/

namespace SumLang

open Cursor (atIndex)

namespace Reader

variable {α β : Type}

/-- From a cursor the reader accepts these tokens, one after the other. -/
inductive Accepts : {α : Type} → Reader α → Cursor → List Token → Prop
  | answer {α : Type} (a : α) (c : Cursor) : Accepts (pure a) c []
  | look (c : Cursor) : Accepts peek c []
  /-- The lookahead does not fit. -/
  | refuse {α : Type} (expected : Expectation) (c : Cursor) :
      Accepts (fail expected : Reader α) c []
  /-- The reader gives up for a reason that is not at the lookahead. -/
  | abort {α : Type} {x : ReadError} (h : ∀ p, x ≠ .parse p) (c : Cursor) :
      Accepts (throw x : Reader α) c []
  | accept {k : Kind} {c : Cursor} (h : c.curr.kind = k) (hk : k ≠ .eof) :
      Accepts (eat k) c [c.curr]
  /-- A token of another kind stays, and so does an end mark. -/
  | stay {k : Kind} {c : Cursor} (h : c.curr.kind = k → k = .eof) : Accepts (eat k) c []
  | goOn {α β : Type} {r : Reader α} {f : α → Reader β} {c c' : Cursor} {a : α}
      {toks more : List Token} (hr : Accepts r c toks) (h : r c = .ok a c')
      (hf : Accepts (f a) c' more) : Accepts (r >>= f) c (toks ++ more)
  | breakOff {α β : Type} {r : Reader α} {f : α → Reader β} {c c' : Cursor} {x : ReadError}
      {toks : List Token} (hr : Accepts r c toks) (h : r c = .error x c') :
      Accepts (r >>= f) c toks
  /-- The allowance of a reader may depend on the cursor. -/
  | allow {α : Type} {r : Nat → Reader α} (allowance : Cursor → Nat) {c : Cursor}
      {toks : List Token} (h : Accepts (r (allowance c)) c toks) :
      Accepts (fun c => r (allowance c) c) c toks

/-! ### The index that a reader comes to -/

/-- The reader has come to the index `j`, and it has answered, refused the token there or given up
for another reason. -/
inductive LandsAt (ts : List Token) (j : Nat) : EStateM.Result ReadError Cursor α → Prop
  | ok (a : α) : LandsAt ts j (.ok a (atIndex ts j))
  | refused (expected : Expectation) :
      LandsAt ts j (.error (.parse ⟨expected, (atIndex ts j).curr⟩) (atIndex ts j))
  | aborted {x : ReadError} (h : ∀ p, x ≠ .parse p) : LandsAt ts j (.error x (atIndex ts j))

/-- Where the lookahead is not of the kind to be accepted, or where it is an end mark, the cursor
stays. -/
theorem eat_stays {k : Kind} {c : Cursor} (h : c.curr.kind = k → k = .eof) :
    eat k c = .ok () c ∨ eat k c = .error (.parse ⟨.oneOf [k], c.curr⟩) c := by
  by_cases hk : c.curr.kind = k
  · obtain rfl := h hk
    left
    change (if c.curr.kind ≠ .eof then fail (.oneOf [.eof]) else pure () : Reader Unit) c = _
    rw [if_neg (not_not_intro hk)]
    rfl
  · exact Or.inr (eat_refused_at hk)

/-- The tokens that a reader accepts are those in front of it, and it comes to the index behind
them, as long as an end mark can be placed behind all of them. -/
theorem Accepts.landsAt {r : Reader α} {c : Cursor} {toks : List Token} (h : Accepts r c toks)
    {ts : List Token} (hplaced : EndPlaced ts) {i : Nat} (hc : c = atIndex ts i) :
    toks <+: ts.drop i ∧ LandsAt ts (i + toks.length) (r c) := by
  induction h generalizing i with
  | answer a c => exact ⟨List.nil_prefix, hc ▸ .ok a⟩
  | look c => exact ⟨List.nil_prefix, hc ▸ .ok (atIndex ts i).curr⟩
  | refuse expected c => exact ⟨List.nil_prefix, hc ▸ .refused expected⟩
  | abort h c => exact ⟨List.nil_prefix, hc ▸ .aborted h⟩
  | accept h hk =>
    subst hc
    obtain ⟨hi, heat⟩ := eat_atIndex hk h (Or.inr hplaced)
    rw [heat, Cursor.curr_atIndex hi, List.drop_eq_getElem_cons hi]
    exact ⟨List.prefix_append [ts[i]] _, .ok ()⟩
  | stay h =>
    subst hc
    refine ⟨List.nil_prefix, ?_⟩
    rcases eat_stays h with hok | hrefused
    · rw [hok]
      exact .ok ()
    · rw [hrefused]
      exact .refused _
  | @goOn α β r f c c' a toks more hr h hf ihr ihf =>
    obtain ⟨hfront, hlands⟩ := ihr hc
    rw [h] at hlands
    cases hlands
    obtain ⟨hfront', hlands'⟩ := ihf rfl
    rw [bind_apply, h, List.length_append, ← Nat.add_assoc]
    refine ⟨?_, hlands'⟩
    obtain ⟨rest, hrest⟩ := hfront
    rw [← List.drop_drop, ← hrest, List.drop_left] at hfront'
    rw [← hrest]
    exact (List.prefix_append_right_inj toks).mpr hfront'
  | @breakOff α β r f c c' x toks hr h ihr =>
    obtain ⟨hfront, hlands⟩ := ihr hc
    refine ⟨hfront, ?_⟩
    rw [h] at hlands
    rw [bind_apply, h]
    cases hlands with
    | refused expected => exact .refused expected
    | aborted hx => exact .aborted hx
  | allow allowance h ih => exact ih hc

/-! ### Readers and the number of tokens that they accept -/

/-- Accepting tokens is all that the reader does to a cursor, and where it answers, `P` holds of the
answer and the number of tokens that it has accepted. -/
def Tallies (r : Reader α) (P : α → Nat → Prop) : Prop :=
  ∀ c, ∃ toks, Accepts r c toks ∧ ∀ a c', r c = .ok a c' → P a toks.length

private theorem tallies_pure {a : α} {P : α → Nat → Prop} (h : P a 0) : Tallies (pure a) P := by
  intro c
  refine ⟨[], .answer a c, ?_⟩
  rintro a' c' hok
  obtain ⟨rfl, -⟩ := EStateM.Result.ok.inj hok
  exact h

private theorem tallies_fail {expected : Expectation} {P : α → Nat → Prop} :
    Tallies (fail expected) P :=
  fun c => ⟨[], .refuse expected c, fun _ _ hok => nomatch hok⟩

private theorem tallies_throw {x : ReadError} {P : α → Nat → Prop} (h : ∀ p, x ≠ .parse p) :
    Tallies (throw x) P :=
  fun c => ⟨[], .abort h c, fun _ _ hok => nomatch hok⟩

private theorem Tallies.bind {r : Reader α} {f : α → Reader β} {P : α → Nat → Prop}
    {Q : β → Nat → Prop} (hr : Tallies r P)
    (hf : ∀ a m, P a m → Tallies (f a) fun b n => Q b (m + n)) : Tallies (r >>= f) Q := by
  intro c
  obtain ⟨toks, htoks, hP⟩ := hr c
  cases hrun : r c with
  | ok a c' =>
    obtain ⟨more, hmore, hQ⟩ := hf a _ (hP a c' hrun) c'
    refine ⟨toks ++ more, .goOn htoks hrun hmore, ?_⟩
    intro b c'' hok
    rw [bind_apply, hrun] at hok
    rw [List.length_append]
    exact hQ b c'' hok
  | error x c' =>
    refine ⟨toks, .breakOff htoks hrun, ?_⟩
    intro b c'' hok
    rw [bind_apply, hrun] at hok
    contradiction

/-- What holds of an answer and its tokens can be weakened. -/
theorem Tallies.mono {r : Reader α} {P Q : α → Nat → Prop} (h : Tallies r P)
    (hpq : ∀ a n, P a n → Q a n) : Tallies r Q := by
  intro c
  obtain ⟨toks, htoks, hP⟩ := h c
  exact ⟨toks, htoks, fun a c' hok => hpq a _ (hP a c' hok)⟩

private theorem tallies_peek {f : Token → Reader β} {Q : β → Nat → Prop}
    (h : ∀ t, Tallies (f t) Q) : Tallies (peek >>= f) Q := by
  have hpeek : Tallies peek fun _ n => n = 0 := fun c => ⟨[], .look c, fun _ _ _ => rfl⟩
  apply hpeek.bind
  rintro t - rfl
  simpa only [Nat.zero_add] using h t

/-- Where a token of a kind is accepted, it is one token. -/
private theorem tallies_eat {k : Kind} (hk : k ≠ .eof) : Tallies (eat k) fun _ n => n = 1 := by
  intro c
  by_cases h : c.curr.kind = k
  · exact ⟨[c.curr], .accept h hk, fun _ _ _ => rfl⟩
  · refine ⟨[], .stay fun he => absurd he h, ?_⟩
    intro _ _ hok
    rw [eat_refused_at h] at hok
    contradiction

private theorem tallies_leaf {k : Kind} (hk : k ≠ .eof) {f : Token → Reader β}
    {Q : β → Nat → Prop} (h : ∀ t : Token, t.kind = k → Tallies (f t) fun b n => Q b (1 + n)) :
    Tallies (do let t ← peek; eat k; f t) Q := by
  intro c
  have hstep : ∃ toks, Accepts (eat k >>= fun _ => f c.curr) c toks ∧
      ∀ b c', (eat k >>= fun _ => f c.curr) c = .ok b c' → Q b toks.length := by
    by_cases hkind : c.curr.kind = k
    · refine (tallies_eat hk).bind ?_ c
      rintro - - rfl
      exact h c.curr hkind
    · refine ⟨[], .breakOff (.stay fun he => absurd he hkind) (eat_refused_at hkind), ?_⟩
      intro b c' hok
      rw [bind_apply, eat_refused_at hkind] at hok
      contradiction
  obtain ⟨toks, htoks, hQ⟩ := hstep
  exact ⟨toks, .goOn (.look c) rfl htoks, hQ⟩

/-- A reader that takes its allowance from the cursor tallies when it does under each of them. -/
theorem tallies_withAllowance {r : Nat → Reader α} {P : α → Nat → Prop}
    (h : ∀ n, Tallies (r n) P) : Tallies (withAllowance r) P := by
  intro c
  obtain ⟨toks, htoks, hP⟩ := h (2 * c.remaining + 4) c
  exact ⟨toks, .allow (fun c => 2 * c.remaining + 4) htoks, hP⟩

/-- A reader alone, with the number of tokens that it accepts. The reader that it is compared with
plays no part. -/
def tallied : Correspondence where
  left := id
  right := id
  Allowed _ _ := True
  Rel R r _ := Tallies r fun a n => ∃ a', R a a' n
  pure h := tallies_pure ⟨_, h⟩
  fail _ _ := tallies_fail
  illegible _ _ := tallies_throw nofun
  bind hr hf := hr.bind fun a n ⟨a', ha⟩ => hf a a' n ha
  peek hf := tallies_peek fun t => hf t t (.refl id t)
  leaf hk hf := tallies_leaf hk fun t ht => hf t t (.refl id t) ht
  allowed_pred _ := trivial
  depth _ _ _ := tallies_throw nofun
  succ _ h _ := h 0 trivial
  allowance h := tallies_withAllowance fun n => h n 0 trivial

/-- What the walk through a reader says about its answer and its tokens. -/
theorem tallies_of_same {γ : Type} {r : Reader α} {map : (Int → Int) → α → γ}
    {P : α → Nat → Prop} (h : tallied.Rel (tallied.Same map P) r r) : Tallies r P := by
  have htallies : Tallies r fun a n => ∃ a', tallied.Same map P a a' n := h
  exact htallies.mono fun _ _ ⟨_, ha⟩ => ha.2

/-- Reading all items accepts at least one token for each of them. -/
theorem items_tallies : Tallies items fun is n => is.length ≤ n := by
  intro c
  obtain ⟨toks, htoks, hP⟩ := tallies_of_same (tallied.itemsWithin (c.remaining + 1) trivial) c
  exact ⟨toks, .allow (fun c => c.remaining + 1) htoks, hP⟩

end Reader

end SumLang
