import SumLang.Proofs.Reading.Termination
import SumLang.Reading.Session

/-!
# Sessions keep their place

A session over a list of tokens always stands at an index of the list, whatever readers
have been applied and however they have ended: the lookahead is the token there and the
token just read is the one before it. A step accepts the tokens from the index before it
up to the index after it, so that no token is passed over and none is accepted twice,
and a failed step has refused the token at which the session now stands.
-/

namespace SumLang

open Cursor (atIndex)

/-! ### Places in a list of tokens -/

/-- The cursor stands in front of the token with the index `i`, or at the end mark that is placed
behind all tokens. -/
structure Cursor.StandsAt (c : Cursor) (ts : List Token) (i : Nat) : Prop where
  le_length : i ≤ ts.length
  curr_of_lt (h : i < ts.length) : c.curr = ts[i]
  curr_of_eq (h : i = ts.length) : c.curr = Token.endAfter ts.getLast?
  prev_of_eq (h : i = 0) : c.prev = none
  prev_of_pos (h : 0 < i) : c.prev = ts[i - 1]?
  rest_eq : c.rest = .ofTokens (ts.drop (i + 1))

namespace Cursor

/-- The token just read is the one that the cursor was made with. -/
theorem prev_over (err : Option FeedError) (prev : Option Token) (ts : List Token) :
    (Cursor.over err prev ts).prev = prev := by
  cases ts <;> rfl

/-- The tokens behind the lookahead follow. -/
theorem rest_over (prev : Option Token) (ts : List Token) :
    (Cursor.over none prev ts).rest = ⟨ts.drop 1, none⟩ := by
  cases ts <;> rfl

/-- The cursor at an index stands there, if an end mark can be placed behind all tokens. -/
theorem standsAt_atIndex {ts : List Token} (hplaced : EndPlaced ts) {i : Nat} (hi : i ≤ ts.length) :
    (atIndex ts i).StandsAt ts i where
  le_length := hi
  curr_of_lt := curr_atIndex
  curr_of_eq := by
    rintro rfl
    exact curr_atIndex_length ts
  prev_of_eq := by
    rintro rfl
    rw [atIndex, prev_over, List.take_zero, List.getLast?_nil]
  prev_of_pos := by
    intro hpos
    have hlt : i - 1 < ts.length := by omega
    rw [atIndex, prev_over, List.getLast?_take, if_neg (by omega), List.getElem?_eq_getElem hlt,
      Option.some_or]
  rest_eq := by
    have hdrop := hplaced.drop (i + 1)
    rw [EndPlaced] at hdrop
    rw [atIndex_eq hplaced, rest_over, List.drop_drop, ← hdrop]
    rfl

/-- A list and an index of it leave one cursor that stands there. -/
theorem StandsAt.eq_atIndex {c : Cursor} {ts : List Token} (hplaced : EndPlaced ts) {i : Nat}
    (h : c.StandsAt ts i) : c = atIndex ts i := by
  have hat := standsAt_atIndex hplaced h.le_length
  have hcurr : c.curr = (atIndex ts i).curr := by
    rcases Nat.lt_or_eq_of_le h.le_length with hlt | heq
    · rw [h.curr_of_lt hlt, hat.curr_of_lt hlt]
    · rw [h.curr_of_eq heq, hat.curr_of_eq heq]
  have hprev : c.prev = (atIndex ts i).prev := by
    rcases Nat.eq_zero_or_pos i with heq | hpos
    · rw [h.prev_of_eq heq, hat.prev_of_eq heq]
    · rw [h.prev_of_pos hpos, hat.prev_of_pos hpos]
  calc c = ⟨c.prev, c.curr, c.rest⟩ := rfl
    _ = atIndex ts i := by rw [hcurr, hprev, h.rest_eq, ← hat.rest_eq]

end Cursor

/-! ### Accepting a token of any kind -/

/-- Accepting a token comes to the next index or stays, also where the kind is that of end marks. -/
theorem Reader.eat_ends (k : Kind) {ts : List Token} (hplaced : EndPlaced ts) {i : Nat}
    (hi : i ≤ ts.length) : Ends ts i (eat k) fun _ n => n ≤ 1 := by
  by_cases h : (atIndex ts i).curr.kind = k → k = .eof
  · refine ⟨i, Nat.le_refl i, hi, ?_, ?_⟩
    · rw [List.extract_eq_take_drop, Nat.sub_self, List.take_zero]
      exact .stay h
    · rcases eat_stays h with hok | hrefused
      · exact Or.inl ⟨(), hok, by omega⟩
      · exact Or.inr ⟨_, hrefused⟩
  · obtain ⟨hkind, hk⟩ := Classical.not_imp.mp h
    obtain ⟨hlt, heat⟩ := eat_atIndex hk hkind (Or.inr hplaced)
    refine ⟨i + 1, Nat.le_succ i, hlt, ?_, Or.inl ⟨(), heat, by omega⟩⟩
    have hslice : ts.extract i (i + 1) = [(atIndex ts i).curr] := by
      rw [Cursor.curr_atIndex hlt, List.extract_eq_take_drop, Nat.add_sub_cancel_left,
        List.drop_eq_getElem_cons hlt, List.take_one]
      rfl
    rw [hslice]
    exact .accept hkind hk

namespace Session

/-! ### What a step does -/

/-- From this session on, the step accepts these tokens. -/
def Accepts (s : Session) (toks : List Token) : SessionStep → Prop
  | .expr => Reader.Accepts Reader.expr s.cursor toks
  | .primary => Reader.Accepts Reader.primary s.cursor toks
  | .callArgs => Reader.Accepts Reader.callArgs s.cursor toks
  | .block => Reader.Accepts Reader.block s.cursor toks
  | .statement => Reader.Accepts Reader.statement? s.cursor toks
  | .declaration => Reader.Accepts Reader.declaration s.cursor toks
  | .assignment => Reader.Accepts Reader.assignment s.cursor toks
  | .returnStatement => Reader.Accepts Reader.returnStatement s.cursor toks
  | .item => Reader.Accepts Reader.item s.cursor toks
  | .entryBlock => Reader.Accepts Reader.entryBlock s.cursor toks
  | .functionDef => Reader.Accepts Reader.functionDef s.cursor toks
  | .items => Reader.Accepts Reader.items s.cursor toks
  | .nextItem =>
    if ¬ s.passing ∨ s.cursor.curr.kind = .eof then toks = []
    else Reader.Accepts Reader.item s.cursor toks
  | .eat kind => Reader.Accepts (Reader.eat kind) s.cursor toks
  | .describe _ | .refuse _ => toks = []

/-- The step takes the session from the index `i` to the index `j`. It accepts the tokens between
them, and if it fails it has refused the token in front of which the session then stands. -/
structure Moves (ts : List Token) (s : Session) (i : Nat) (step : SessionStep) (j : Nat) :
    Prop where
  le : i ≤ j
  accepts : s.Accepts (ts.extract i j) step
  standsAt : (s.step step).1.cursor.StandsAt ts j
  refused {x : ReadError} (h : (s.step step).2 = .error x) :
    ∃ expected, x = .parse ⟨expected, (s.step step).1.cursor.curr⟩

/-- The course of a session from the index `i` on: each step starts where the one before it has
come to, whether that has failed or not. -/
inductive Course (ts : List Token) : Session → Nat → List SessionStep → List Entry → Prop
  | done (s : Session) (i : Nat) : Course ts s i [] []
  | step {s : Session} {i j : Nat} {step : SessionStep} {steps : List SessionStep}
      {entries : List Entry} (h : s.Moves ts i step j)
      (hrest : Course ts (s.step step).1 j steps entries) :
      Course ts s i (step :: steps) (⟨(s.step step).2, (s.step step).1.cursor⟩ :: entries)

variable {ts : List Token} {s : Session} {i : Nat}

/-- A step that only looks at the session stays at its index. -/
theorem moves_of_stays {step : SessionStep} (hs : s.cursor.StandsAt ts i)
    (haccepts : s.Accepts [] step) (hcursor : (s.step step).1.cursor = s.cursor)
    (hok : ∃ a, (s.step step).2 = .ok a) : s.Moves ts i step i where
  le := Nat.le_refl i
  accepts := by rwa [List.extract_eq_take_drop, Nat.sub_self, List.take_zero]
  standsAt := by rwa [hcursor]
  refused := by
    intro x hx
    obtain ⟨a, ha⟩ := hok
    rw [ha] at hx
    contradiction

/-- A step that runs a reader comes to the index that the reader comes to. -/
theorem exists_moves_of_ends {α : Type} {r : Reader α} {P : α → Nat → Prop} {step : SessionStep}
    (hplaced : EndPlaced ts) (hs : s.cursor.StandsAt ts i) (hends : Reader.Ends ts i r P)
    (haccepts : ∀ toks, Reader.Accepts r s.cursor toks → s.Accepts toks step)
    (hok : ∀ a c, r s.cursor = .ok a c →
      (s.step step).1.cursor = c ∧ ∃ answer, (s.step step).2 = .ok answer)
    (herror : ∀ x c, r s.cursor = .error x c →
      (s.step step).1.cursor = c ∧ (s.step step).2 = .error x) :
    ∃ j, s.Moves ts i step j := by
  obtain ⟨j, hle, hlen, htoks, hrun⟩ := hends
  rw [← hs.eq_atIndex hplaced] at htoks hrun
  rcases hrun with ⟨a, hrun, -⟩ | ⟨expected, hrun⟩
  · obtain ⟨hcursor, answer, hanswer⟩ := hok _ _ hrun
    exact ⟨j, hle, haccepts _ htoks, hcursor ▸ Cursor.standsAt_atIndex hplaced hlen,
      fun hx => nomatch hanswer.symm.trans hx⟩
  · obtain ⟨hcursor, herr⟩ := herror _ _ hrun
    refine ⟨j, hle, haccepts _ htoks, hcursor ▸ Cursor.standsAt_atIndex hplaced hlen, ?_⟩
    intro x hx
    rw [herr] at hx
    cases hx
    exact ⟨expected, by rw [hcursor]⟩

/-- So it is with every step that runs one reader and wraps its answer. -/
theorem exists_moves_apply {α : Type} {r : Reader α} {P : α → Nat → Prop} {step : SessionStep}
    {answer : α → SessionAnswer} (hplaced : EndPlaced ts) (hs : s.cursor.StandsAt ts i)
    (hends : Reader.Ends ts i r P)
    (haccepts : ∀ toks, Reader.Accepts r s.cursor toks → s.Accepts toks step)
    (hstep : s.step step = s.apply r answer) : ∃ j, s.Moves ts i step j := by
  apply exists_moves_of_ends hplaced hs hends haccepts
  · intro a c hrun
    rw [hstep, apply, hrun]
    exact ⟨rfl, answer a, rfl⟩
  · intro x c hrun
    rw [hstep, apply, hrun]
    exact ⟨rfl, rfl⟩

/-- The next item of the pass is read as any item is, unless the pass is over. -/
theorem exists_moves_nextItem (hplaced : EndPlaced ts) (hs : s.cursor.StandsAt ts i)
    (hends : Reader.Ends ts i Reader.item fun _ n => 0 < n) :
    ∃ j, s.Moves ts i .nextItem j := by
  by_cases hover : ¬ s.passing ∨ s.cursor.curr.kind = .eof
  · have hstep : s.step .nextItem = ({ s with passing := false }, .ok .finished) := if_pos hover
    refine ⟨i, moves_of_stays hs ?_ ?_ ?_⟩
    · rw [Accepts, if_pos hover]
    · rw [hstep]
    · exact ⟨.finished, by rw [hstep]⟩
  · apply exists_moves_of_ends hplaced hs hends
    · intro toks htoks
      rwa [Accepts, if_neg hover]
    · intro item c hrun
      rw [step, nextItem, if_neg hover, hrun]
      exact ⟨rfl, .item item, rfl⟩
    · intro x c hrun
      rw [step, nextItem, if_neg hover, hrun]
      exact ⟨rfl, rfl⟩

/-- Every step moves a session that stands at an index of the tokens to such an index. -/
theorem exists_moves (h : ∀ t ∈ ts, t.Legible) (hplaced : EndPlaced ts)
    (hs : s.cursor.StandsAt ts i) (step : SessionStep) : ∃ j, s.Moves ts i step j := by
  have hi := hs.le_length
  have hl : ∀ t ∈ ts.drop i, t.Legible := fun t ht => h t (List.mem_of_mem_drop ht)
  have ha := ahead_none (ts.drop i)
  -- The walk through a reader counts its tokens, and what it reads rules out other failures.
  have hends {α γ : Type} {r : Reader α} {map : (Int → Int) → α → γ} {P : α → Nat → Prop}
      {Q : α → List Token → Prop} {F : List Token → Prop}
      (hr : Reader.tallied.Rel (Reader.tallied.Same map P) r r)
      (hreads : Reader.Reads none r (ts.drop i) Q F) : Reader.Ends ts i r P :=
    (Reader.tallies_of_same hr).ends hplaced hreads hi
  have hitem := hends Reader.tallied.item (Reader.item_reads hl)
  cases step with
  | expr =>
    exact exists_moves_apply hplaced hs (hends Reader.tallied.expr (Reader.expr_reads ha hl))
      (fun _ => id) rfl
  | primary =>
    exact exists_moves_apply hplaced hs (hends Reader.tallied.primary (Reader.primary_reads ha hl))
      (fun _ => id) rfl
  | callArgs =>
    exact exists_moves_apply hplaced hs
      (hends Reader.tallied.callArgs (Reader.callArgs_reads ha hl)) (fun _ => id) rfl
  | block =>
    exact exists_moves_apply hplaced hs (hends Reader.tallied.block (Reader.block_reads hl))
      (fun _ => id) rfl
  | statement =>
    exact exists_moves_apply hplaced hs
      (hends Reader.tallied.statement? (Reader.statement?_reads ha hl)) (fun _ => id) rfl
  | declaration =>
    exact exists_moves_apply hplaced hs
      (hends Reader.tallied.declaration (Reader.declaration_reads hl)) (fun _ => id) rfl
  | assignment =>
    exact exists_moves_apply hplaced hs
      (hends Reader.tallied.assignment (Reader.assignment_reads hl)) (fun _ => id) rfl
  | returnStatement =>
    exact exists_moves_apply hplaced hs
      (hends Reader.tallied.returnStatement (Reader.returnStatement_reads hl)) (fun _ => id) rfl
  | item => exact exists_moves_apply hplaced hs hitem (fun _ => id) rfl
  | entryBlock =>
    exact exists_moves_apply hplaced hs
      (hends Reader.tallied.entryBlock (Reader.entryBlock_reads hl)) (fun _ => id) rfl
  | functionDef =>
    exact exists_moves_apply hplaced hs
      (hends Reader.tallied.functionDef (Reader.functionDef_reads hl)) (fun _ => id) rfl
  | items =>
    exact exists_moves_apply hplaced hs
      (Reader.items_tallies.ends hplaced (Reader.items_reads hl) hi) (fun _ => id) rfl
  | nextItem => exact exists_moves_nextItem hplaced hs hitem
  | eat kind =>
    exact exists_moves_apply hplaced hs (Reader.eat_ends kind hplaced hi) (fun _ => id) rfl
  | describe kind => exact ⟨i, moves_of_stays hs rfl rfl ⟨_, rfl⟩⟩
  | refuse expected => exact ⟨i, moves_of_stays hs rfl rfl ⟨_, rfl⟩⟩

/-! ### Sessions of any number of steps -/

/-- A session goes on after a step that has come to an index. -/
theorem run_cons {step : SessionStep} {j : Nat} (h : s.Moves ts i step j)
    {steps : List SessionStep} {entries : List Entry}
    (hrest : (s.step step).1.run steps = .ok entries) :
    s.run (step :: steps) = .ok (⟨(s.step step).2, (s.step step).1.cursor⟩ :: entries) := by
  have hparse {x : ReadError} (hx : (s.step step).2 = .error x) : ∃ p, x = .parse p := by
    obtain ⟨expected, he⟩ := h.refused hx
    exact ⟨_, he⟩
  rw [run]
  generalize s.step step = taken at hrest hparse
  split
  · obtain ⟨p, hp⟩ := hparse rfl
    contradiction
  · obtain ⟨p, hp⟩ := hparse rfl
    contradiction
  · rw [hrest]
    rfl

/-- By induction on the steps, a session that stands at an index can take them all. -/
theorem exists_course (h : ∀ t ∈ ts, t.Legible) (hplaced : EndPlaced ts)
    (hs : s.cursor.StandsAt ts i) (steps : List SessionStep) :
    ∃ entries, s.run steps = .ok entries ∧ Course ts s i steps entries := by
  induction steps generalizing s i with
  | nil => exact ⟨[], rfl, .done s i⟩
  | cons step steps ih =>
    obtain ⟨j, hmoves⟩ := exists_moves h hplaced hs step
    obtain ⟨entries, hrun, hcourse⟩ := ih hmoves.standsAt
    exact ⟨_, run_cons hmoves hrun, .step hmoves hcourse⟩

/-- A session over tokens with an encodable last text starts in front of the first of them and keeps
its place through all its steps, failed ones included. -/
theorem run_keeps_place (h : ∀ t ∈ ts, t.Legible)
    (hlast : ∀ t ∈ ts.getLast?, t.encodable = true) (steps : List SessionStep) :
    ∃ start entries, Cursor.ofFeed (.ofTokens ts) = .ok start ∧ start.StandsAt ts 0 ∧
      run { cursor := start } steps = .ok entries ∧
      Course ts { cursor := start } 0 steps entries := by
  have hplaced := endPlaced_of_encodable hlast
  have hstart := Cursor.standsAt_atIndex hplaced (Nat.zero_le ts.length)
  obtain ⟨entries, hrun, hcourse⟩ :=
    exists_course (s := { cursor := atIndex ts 0 }) h hplaced hstart steps
  exact ⟨atIndex ts 0, entries, Cursor.ofFeed_ofTokens ts, hstart, hrun, hcourse⟩

/-- Behind a name that is a lone surrogate no end mark can be placed: where it is accepted, it is
both the lookahead and the token just read, which it is at no index. -/
theorem step_loses_place_at_surrogate :
    let t : Token := ⟨.ident, some ⟨"", [(0, "")]⟩, 1, 0⟩
    let start : Session := { cursor := ⟨none, t, ⟨[], some .unencodable⟩⟩ }
    t.Legible ∧ Cursor.ofFeed (.ofTokens [t]) = .ok start.cursor ∧
      (start.step (.eat .ident)).2 = .error (.feed .unencodable) ∧
      (start.step (.eat .ident)).1.cursor.curr = t ∧
      (start.step (.eat .ident)).1.cursor.prev = some t ∧
      ∀ i, ¬ (start.step (.eat .ident)).1.cursor.StandsAt [t] i := by
  intro t start
  have hcurr : (start.step (.eat .ident)).1.cursor.curr = t := rfl
  have hprev : (start.step (.eat .ident)).1.cursor.prev = some t := rfl
  refine ⟨nofun, rfl, rfl, hcurr, hprev, fun i hi => ?_⟩
  rcases Nat.eq_zero_or_pos i with rfl | hpos
  · have hnone := hi.prev_of_eq rfl
    rw [hprev] at hnone
    contradiction
  · have hle := hi.le_length
    have hend := hi.curr_of_eq (by rw [List.length_singleton] at hle ⊢; omega)
    rw [hcurr] at hend
    have hkind := congrArg Token.kind hend
    contradiction

/-- A session goes on after two failures up to an end mark among the tokens, which no step
passes. -/
theorem run_stops_at_inner_end_mark :
    let ts : List Token := [⟨.ident, "f", 1, 0⟩, ⟨.lparen, "(", 1, 1⟩, ⟨.number, "007", 1, 2⟩,
      ⟨.eof, "$", 2, 6⟩, ⟨.rparen, ")", 2, 7⟩]
    let start : Cursor := ⟨none, ⟨.ident, "f", 1, 0⟩, .ofTokens ts.tail⟩
    let steps : List SessionStep := [.block, .expr, .eat .eof, .nextItem, .eat (.other "$")]
    ∃ entries, run { cursor := start } steps = .ok entries ∧
      Course ts { cursor := start } 0 steps entries ∧
      entries.map (fun entry => (entry.outcome.isOk, entry.cursor.prev, entry.cursor.curr)) =
        [(false, none, ⟨.ident, "f", 1, 0⟩),
          (false, some ⟨.number, "007", 1, 2⟩, ⟨.eof, "$", 2, 6⟩),
          (true, some ⟨.number, "007", 1, 2⟩, ⟨.eof, "$", 2, 6⟩),
          (true, some ⟨.number, "007", 1, 2⟩, ⟨.eof, "$", 2, 6⟩),
          (false, some ⟨.number, "007", 1, 2⟩, ⟨.eof, "$", 2, 6⟩)] := by
  intro ts start steps
  have hdigits : ∃ s, "007" = String.ofList s ∧ ∀ c ∈ s, c.isDigit = true :=
    ⟨['0', '0', '7'], rfl, List.all_eq_true.mp (by decide)⟩
  have hl : ∀ t ∈ ts, t.Legible := by simpa [ts, Token.Legible] using hdigits
  have hlast : ∀ t ∈ ts.getLast?, t.encodable = true := by decide
  obtain ⟨_, entries, hstart, -, hrun, hcourse⟩ := run_keeps_place hl hlast steps
  obtain rfl := Except.ok.inj hstart
  refine ⟨entries, hrun, hcourse, ?_⟩
  cases hrun
  rfl

end Session

end SumLang
