import SumLang.Proofs.Program.Assembly
import SumLang.Proofs.Reading.Agreement
import SumLang.Proofs.Reading.Precedence
import SumLang.Script.Command

/-!
# Debug mode

Debug mode scans the whole text and reads all of its items before it goes on, where a plain
run takes tokens and items as they come. A text that can be read is run alike, with the
tokens and items printed in front. For any other text both print one report and nothing
else. Debug mode reports the illegal character if there is one, and else the parse error;
a plain run reports the same, unless a token in front of the illegal character is refused
or an item in front of the failure repeats an earlier one.
-/

namespace SumLang

/-- The outcome is the report of a failure of the language and nothing else. -/
def Outcome.OnlyReports (script : String) (o : Outcome) (e : Failure) : Prop :=
  o.status = 1 ∧ ∃ stage message, e.stage? = some stage ∧
    e.message? ⟨script, script⟩ = some message ∧
    o.output = stage ++ " error: " ++ e.label ++ ": " ++ message ++ "\n"

/-! ### The failure of a text -/

/-- All tokens in front of an illegal character stand at lower offsets. -/
theorem TokenFeed.offset_lt_illegal {xs : List Lexeme} (h : ∀ x ∈ xs, x.Uniform) (p : Position)
    {e : LexError} (he : (ofLexemes p xs).error = some (.illegal e)) :
    (p.offset : Int) ≤ e.offset ∧ ∀ t ∈ (ofLexemes p xs).tokens, t.offset < e.offset := by
  induction xs generalizing p with
  | nil => contradiction
  | cons x xs ih =>
    obtain ⟨cls, text⟩ := x
    rw [List.forall_mem_cons] at h
    have hpos : 0 < utf8Length text := utf8Length_pos h.1.ne_nil
    have hlater (hl : (ofLexemes (p.after text) xs).error = some (.illegal e)) :
        (p.offset : Int) < e.offset ∧
          ∀ t ∈ (ofLexemes (p.after text) xs).tokens, t.offset < e.offset := by
      obtain ⟨hle, hlt⟩ := ih h.2 (p.after text) hl
      have hafter : ((p.offset + utf8Length text : Nat) : Int) ≤ e.offset := hle
      exact ⟨by omega, hlt⟩
    have hcons {t : Token} (ht : t.offset = p.offset)
        (hl : ((ofLexemes (p.after text) xs).cons t).error = some (.illegal e)) :
        (p.offset : Int) ≤ e.offset ∧
          ∀ u ∈ ((ofLexemes (p.after text) xs).cons t).tokens, u.offset < e.offset := by
      obtain ⟨hlt, hall⟩ := hlater hl
      exact ⟨Int.le_of_lt hlt, List.forall_mem_cons.mpr ⟨ht ▸ hlt, hall⟩⟩
    cases cls with
    | letter | digit | symbol => exact hcons rfl he
    | blank =>
      obtain ⟨hlt, hall⟩ := hlater he
      exact ⟨Int.le_of_lt hlt, hall⟩
    | illegal =>
      obtain rfl := FeedError.illegal.inj (Option.some.inj he)
      exact ⟨Int.le_refl _, nofun⟩

/-- A text with an illegal character is refused for it or for a token in front of it. -/
theorem ItemFeed.error_of_illegal {code : String} {ts : List Token} {e : LexError}
    (h : TokenFeed.ofText code = ⟨ts, some (.illegal e)⟩) :
    (ofText code).error = some (.feed e) ∨ ∃ p, (ofText code).error = some (.parse p) ∧
      (ofTokenFeed (.ofTokens ts)).toExcept = .error (.parse p) ∧ p.token ∈ ts ∧
      p.token.offset < e.offset := by
  have hlexed := TokenFeed.lexed_ofText code
  have hoffset := TokenFeed.offset_lt_illegal (Lexeme.uniform_split code.toList) {}
    (congrArg TokenFeed.error h)
  have htokens : (TokenFeed.ofLexemes {} (Lexeme.split code.toList)).tokens = ts :=
    congrArg TokenFeed.tokens h
  rw [htokens] at hoffset
  rw [h] at hlexed
  rw [ofText, h]
  by_cases hnil : ts = []
  · subst hnil
    exact Or.inl rfl
  · have hlock := ofTokenFeed_lockstep e ⟨hnil, fun t ht => (hlexed t ht).kind_ne_eof⟩
    rw [← TokenFeed.ofTokens_of_lexed hlexed] at hlock
    have hparse := fun x => @exists_parse_of_error ts hlexed x
    by_cases hex : ∃ p, (ofTokenFeed (.ofTokens ts)).toExcept = .error (.parse p) ∧
        p.token.kind ≠ .eof
    · obtain ⟨p, hp, hk⟩ := hex
      have hmem := token_mem_of_parse (endPlaced_of_lexed hlexed) (toExcept_eq_error.mp hp) hk
      have hfail := (hlock.toExcept_parse_iff hparse p).mpr ⟨hp, hk⟩
      exact Or.inr ⟨p, toExcept_eq_error.mp hfail, hp, hmem, hoffset.2 _ hmem⟩
    · exact Or.inl (toExcept_eq_error.mp (hlock.toExcept_eq_lex hparse hex))

/-! ### Outcomes -/

section

variable {script code : String} {ts : List Token}

/-- A text that can be read is run alike, with its tokens and items printed in front. -/
theorem debugScript_of_items (h : TokenFeed.ofText code = ⟨ts, none⟩) {items : List Item}
    (hitems : (ItemFeed.ofTokenFeed (.ofTokens ts)).toExcept = .ok items) :
    debugScript script code = (runScript script code).after (debugDump ts items) := by
  have hfeed : ItemFeed.ofText code = ⟨items, none⟩ := by
    rw [ItemFeed.ofText_eq_ofTokens h, ItemFeed.toExcept_eq_ok.mp hitems]
  rw [← ItemFeed.ofText_eq_ofTokens h, ItemFeed.ofText, h] at hitems
  simp only [debugScript, h, hitems, runScript, runText, Program.ofText, hfeed, Program.ofItems]

/-- An illegal character is all that debug mode reports. -/
theorem debugScript_of_illegal {e : LexError}
    (h : TokenFeed.ofText code = ⟨ts, some (.illegal e)⟩) :
    debugScript script code = .ofFailure script (.read (.feed e)) := by
  rw [debugScript, h]

/-- A parse error of the tokens is all that debug mode reports where all characters are legal. -/
theorem debugScript_of_parse {p : ParseError} (h : TokenFeed.ofText code = ⟨ts, none⟩)
    (hp : (ItemFeed.ofTokenFeed (.ofTokens ts)).toExcept = .error (.parse p)) :
    debugScript script code = .ofFailure script (.read (.parse p)) := by
  rw [← ItemFeed.ofText_eq_ofTokens h, ItemFeed.ofText, h] at hp
  simp only [debugScript, h, hp]

/-- The outcome of a failure with a stage is its report and nothing else. -/
theorem Outcome.onlyReports_ofFailure {e : Failure} {stage message : String}
    (hs : e.stage? = some stage) (hm : e.message? ⟨script, script⟩ = some message) :
    (Outcome.ofFailure script e).OnlyReports script e := by
  have hread : e ≠ .read .depth := by
    rintro rfl
    contradiction
  have hrun : e ≠ .run .depth := by
    rintro rfl
    contradiction
  refine ⟨rfl, stage, message, hs, hm, ?_⟩
  rw [ofFailure, hs, hm]
  · exact fun h => absurd h hread
  · exact fun h => absurd h hrun

/-- Where a text cannot be read, a plain run reports this or an item that repeats an earlier one. -/
theorem runScript_of_error {x : ReadError} (h : (ItemFeed.ofText code).error = some x) :
    runScript script code = .ofFailure script (.read x) ∨
      ∃ e, FirstRepetition (ItemFeed.ofText code).items e ∧
        (runScript script code).OnlyReports script (.program e) := by
  rcases runText_of_error h with hrun | ⟨e, he, hrun⟩
  · rw [runScript, hrun]
    exact Or.inl rfl
  · rw [runScript, hrun]
    exact Or.inr ⟨e, he, Outcome.onlyReports_ofFailure rfl rfl⟩

/-- Where a text cannot be read, a plain run ends with the status one. -/
theorem runScript_status_of_error {x : ReadError} (h : (ItemFeed.ofText code).error = some x) :
    (runScript script code).status = 1 := by
  rcases @runScript_of_error script code x h with hrun | ⟨_, -, hreport⟩
  · rw [hrun]
    rfl
  · exact hreport.1

/-- A plain run of a text with an illegal character reports it, or a token in front of it that
is refused, or an item in front of it that repeats another. -/
theorem runScript_of_illegal {e : LexError} (h : TokenFeed.ofText code = ⟨ts, some (.illegal e)⟩) :
    (runScript script code).OnlyReports script (.read (.feed e)) ∨
      (∃ p, (ItemFeed.ofTokenFeed (.ofTokens ts)).toExcept = .error (.parse p) ∧ p.token ∈ ts ∧
        p.token.offset < e.offset ∧ (runScript script code).OnlyReports script (.read (.parse p))) ∨
      ∃ e', FirstRepetition (ItemFeed.ofText code).items e' ∧
        (runScript script code).OnlyReports script (.program e') := by
  rcases ItemFeed.error_of_illegal h with hx | ⟨p, hx, hp, hmem, hlt⟩
  · rcases @runScript_of_error script code _ hx with hrun | hrepeated
    · rw [hrun]
      exact Or.inl (Outcome.onlyReports_ofFailure rfl rfl)
    · exact Or.inr (Or.inr hrepeated)
  · rcases @runScript_of_error script code _ hx with hrun | hrepeated
    · rw [hrun]
      exact Or.inr (Or.inl ⟨p, hp, hmem, hlt, Outcome.onlyReports_ofFailure rfl rfl⟩)
    · exact Or.inr (Or.inr hrepeated)

/-- A plain run of a text with legal characters only reports the parse error of its tokens, or an
item in front of it that repeats another. -/
theorem runScript_of_parse {p : ParseError} (h : TokenFeed.ofText code = ⟨ts, none⟩)
    (hp : (ItemFeed.ofTokenFeed (.ofTokens ts)).toExcept = .error (.parse p)) :
    (runScript script code).OnlyReports script (.read (.parse p)) ∨
      ∃ e, FirstRepetition (ItemFeed.ofText code).items e ∧
        (runScript script code).OnlyReports script (.program e) := by
  rw [← ItemFeed.ofText_eq_ofTokens h] at hp
  rcases @runScript_of_error script code _ (ItemFeed.toExcept_eq_error.mp hp) with hrun | hrepeated
  · rw [hrun]
    exact Or.inl (Outcome.onlyReports_ofFailure rfl rfl)
  · exact Or.inr hrepeated

end

/-- Debug mode decides between the two ways to run a script. -/
theorem Invocation.perform_run {script code : String}
    {read : String → Except FileError (List UInt8)}
    (hcode : (read script >>= scriptText) = .ok code)
    (debug : Bool) : (Invocation.run script).perform debug read =
      if debug then debugScript script code else runScript script code := by
  rw [perform, perform.withText, hcode]
  cases debug <;> rfl

/-- Debug mode and a plain run of a script with the text `code` end with the same status. If the
text is scanned and read to its end, debug mode prints its tokens and items and then what the plain
run prints. If not, both print one report and nothing else. Debug mode reports the illegal character
where there is one, and else the parse error of the tokens. The plain run reports the same, or a
parse error at a token in front of the illegal character, or a completed item that repeats an
earlier one. -/
theorem Invocation.debug_agrees_with_plain_run {script code : String}
    {read : String → Except FileError (List UInt8)}
    (hcode : (read script >>= scriptText) = .ok code)
    {ts : List Token} {err : Option LexError}
    (h : TokenFeed.ofText code = ⟨ts, err.map .illegal⟩) :
    ((Invocation.run script).perform true read).status =
      ((Invocation.run script).perform false read).status ∧
    (∀ items, err = none → (ItemFeed.ofTokenFeed (.ofTokens ts)).toExcept = .ok items →
      ((Invocation.run script).perform true read).output =
        "\nTokens:\n\n[" ++ ", ".intercalate (ts.map fun t => "Token(" ++ t.kind.name ++ ", " ++
          t.shown ++ ", line=" ++ toString t.line ++ ", offset=" ++ toString t.offset ++ ")") ++
        "]\n\nAST:\n\n" ++ formatItems items ++ "\n \n" ++
        ((Invocation.run script).perform false read).output) ∧
    (∀ e, err = some e →
      ((Invocation.run script).perform true read).OnlyReports script (.read (.feed e)) ∧
      (((Invocation.run script).perform false read).OnlyReports script (.read (.feed e)) ∨
        (∃ p, (ItemFeed.ofTokenFeed (.ofTokens ts)).toExcept = .error (.parse p) ∧ p.token ∈ ts ∧
          p.token.offset < e.offset ∧
          ((Invocation.run script).perform false read).OnlyReports script (.read (.parse p))) ∨
        ∃ e', FirstRepetition (ItemFeed.ofText code).items e' ∧
          ((Invocation.run script).perform false read).OnlyReports script (.program e'))) ∧
    ∀ x, err = none → (ItemFeed.ofTokenFeed (.ofTokens ts)).toExcept = .error x →
      ∃ p, x = .parse p ∧
        ((Invocation.run script).perform true read).OnlyReports script (.read (.parse p)) ∧
        (((Invocation.run script).perform false read).OnlyReports script (.read (.parse p)) ∨
          ∃ e, FirstRepetition (ItemFeed.ofText code).items e ∧
            ((Invocation.run script).perform false read).OnlyReports script (.program e)) := by
  rw [perform_run hcode true, perform_run hcode false, if_pos rfl, if_neg Bool.false_ne_true]
  cases err with
  | some e =>
    have hreport : (debugScript script code).OnlyReports script (.read (.feed e)) := by
      rw [debugScript_of_illegal h]
      exact Outcome.onlyReports_ofFailure rfl rfl
    have hstatus : (runScript script code).status = 1 := by
      rcases ItemFeed.error_of_illegal h with hx | ⟨p, hx, -⟩ <;> exact runScript_status_of_error hx
    refine ⟨hreport.1.trans hstatus.symm, ?_, ?_, ?_⟩
    · exact fun _ he => nomatch he
    · intro _ he
      obtain rfl := Option.some.inj he
      exact ⟨hreport, runScript_of_illegal h⟩
    · exact fun _ he => nomatch he
  | none =>
    have hlexed := TokenFeed.lexed_ofText code
    rw [h] at hlexed
    cases hx : (ItemFeed.ofTokenFeed (.ofTokens ts)).toExcept with
    | ok items =>
      have hall := @debugScript_of_items script code ts h items hx
      refine ⟨by rw [hall, Outcome.after], ?_, ?_, ?_⟩
      · intro _ _ hi
        obtain rfl := Except.ok.inj hi
        rw [hall]
        rfl
      · exact fun _ he => nomatch he
      · exact fun _ _ hi => nomatch hi
    | error x =>
      obtain ⟨p, rfl⟩ := ItemFeed.exists_parse_of_error hlexed (ItemFeed.toExcept_eq_error.mp hx)
      have hreport : (debugScript script code).OnlyReports script (.read (.parse p)) := by
        rw [debugScript_of_parse h hx]
        exact Outcome.onlyReports_ofFailure rfl rfl
      have hstatus : (runScript script code).status = 1 := by
        rw [← ItemFeed.ofText_eq_ofTokens h] at hx
        exact runScript_status_of_error (ItemFeed.toExcept_eq_error.mp hx)
      refine ⟨hreport.1.trans hstatus.symm, ?_, ?_, ?_⟩
      · exact fun _ _ hi => nomatch hi
      · exact fun _ he => nomatch he
      · intro _ _ hp
        exact ⟨p, (Except.error.inj hp).symm, hreport, runScript_of_parse h hx⟩

/-- Debug mode prints eight tokens and an entry block in front of what a plain run prints. Of a text
with a refused token in front of an illegal character it reports the character, and a plain run the
token. -/
theorem Invocation.debug_dumps_and_reports :
    let dumped := "begin\x7bvar x=7;\x7d"
    let refused := "begin \x7b var ; \x7d #"
    let read : String → Except FileError (List UInt8) := fun script =>
      .ok ((if script = "a" then dumped else refused).toList.map fun c => c.toNat.toUInt8)
    ((Invocation.run "a").perform true read).output =
      "\nTokens:\n\n[Token(BEGIN, begin, line=1, offset=0), " ++
      "Token(LBRACE, \x7b, line=1, offset=5), " ++
      "Token(VAR, var, line=1, offset=6), Token(ID, x, line=1, offset=10), " ++
      "Token(ASSIGN, =, line=1, offset=11), Token(NUMBER, 7, line=1, offset=12), " ++
      "Token(SEMI, ;, line=1, offset=13), Token(RBRACE, \x7d, line=1, offset=14)]\n" ++
      "\nAST:\n\nbegin \x7b\n    var x = 7;\n\x7d\n \n" ++ "x = 7\n" ∧
    ((Invocation.run "b").perform true read).OnlyReports "b"
      (.read (.feed (.illegal ⟨"#", 16, some 1⟩))) ∧
    ((Invocation.run "b").perform false read).OnlyReports "b"
      (.read (.parse ⟨.oneOf [.ident], ⟨.semi, some ";", 1, 12⟩⟩)) := by
  intro dumped refused read
  have hdumped : (read "a" >>= scriptText) = .ok dumped := by decide +kernel
  have htokens : TokenFeed.ofText dumped =
      ⟨(TokenFeed.ofText dumped).tokens, (none : Option LexError).map .illegal⟩ := by
    decide +kernel
  have hitems : (ItemFeed.ofTokenFeed (.ofTokens (TokenFeed.ofText dumped).tokens)).toExcept =
      .ok [.entry [.decl "x" (.lit (.int 7) 1) 1] 1] :=
    ItemFeed.toExcept_eq_ok.mpr (by decide +kernel)
  have hrefused : (read "b" >>= scriptText) = .ok refused := by decide +kernel
  have hillegal : TokenFeed.ofText refused =
      ⟨(TokenFeed.ofText refused).tokens,
        (some ⟨"#", 16, some 1⟩ : Option LexError).map .illegal⟩ := by decide +kernel
  have hfeed : ItemFeed.ofText refused =
      ⟨[], some (.parse ⟨.oneOf [.ident], ⟨.semi, some ";", 1, 12⟩⟩)⟩ := by decide +kernel
  refine ⟨?_, ((debug_agrees_with_plain_run hrefused hillegal).2.2.1 _ rfl).1, ?_⟩
  · rw [(debug_agrees_with_plain_run hdumped htokens).2.1 _ rfl hitems]
    decide +kernel
  · rw [perform_run hrefused, if_neg Bool.false_ne_true, runScript, runText, Program.ofText, hfeed]
    exact Outcome.onlyReports_ofFailure rfl rfl

end SumLang
