import SumLang.Syntax.Literal
import SumLang.Token.Feed

/-!
# Cursors over a token feed

Reading keeps one token of lookahead. A cursor holds that token, the one before it
and the feed of those after it; once the feed is used up, the lookahead is an end mark
placed just after the last token. A reader is a function on cursors which keeps the
cursor it has reached also when it fails, so that reading can go on from there.
-/

namespace SumLang

/-- What a reader was ready to accept at a token. -/
inductive Expectation where
  /-- A token of one of these kinds. -/
  | oneOf (kinds : List Kind)
  /-- A literal that fits into a word. -/
  | wordLiteral
  /-- Something described in words. -/
  | text (s : String)
  deriving DecidableEq, Repr

/-- The wording of an expectation. -/
def Expectation.describe : Expectation → String
  | oneOf kinds => " or ".intercalate (kinds.map Kind.describe)
  | wordLiteral => "integer literal no larger than " ++ toString maxWord
  | text s => s

/-- A token that does not fit, and what was expected in its place. -/
structure ParseError where
  expected : Expectation
  token : Token
  deriving DecidableEq, Repr

/-- What a report says was found in place of the expected token. -/
def Token.found (t : Token) : String :=
  if t.kind = .eof then "end of input" else "'" ++ t.shown ++ "' of type " ++ t.kind.name

/-- The report of a token that does not fit. -/
def ParseError.message (e : ParseError) (file : Option String) : String :=
  "Expected " ++ e.expected.describe ++ ", but got " ++ e.token.found ++ " at offset " ++
    toString e.token.offset ++ placeSuffix (some e.token.line) file

/-- The ways in which reading can fail. -/
inductive ReadError where
  /-- The feed has an error in place of the next token. -/
  | feed (e : FeedError)
  /-- A token does not fit. -/
  | parse (e : ParseError)
  /-- A number token spells no integer; the part of its text after leading zeros is kept. -/
  | illegible (text : Option Text)
  /-- The nesting allowance was used up; the allowance that readers start with suffices. -/
  | depth
  deriving DecidableEq, Repr

/-- A place between tokens: the token just read, the lookahead, and the tokens after it. -/
structure Cursor where
  /-- The token just read, if any. -/
  prev : Option Token
  /-- The lookahead. -/
  curr : Token
  /-- The tokens after the lookahead. -/
  rest : TokenFeed
  deriving DecidableEq, Repr

/-- A computation that reads tokens. -/
abbrev Reader := EStateM ReadError Cursor

namespace Cursor

/-- The cursor before the first token of a feed. -/
def ofFeed : TokenFeed → Except FeedError Cursor
  | ⟨t :: ts, e⟩ => .ok ⟨none, t, ⟨ts, e⟩⟩
  | ⟨[], some e⟩ => .error e
  | ⟨[], none⟩ => .ok ⟨none, Token.endAfter none, ⟨[], none⟩⟩

/-- The number of tokens from the lookahead on; an end mark as the lookahead does not count. -/
def remaining (c : Cursor) : Nat :=
  c.rest.tokens.length + if c.curr.kind = .eof then 0 else 1

end Cursor

namespace Reader

/-- The lookahead. -/
def peek : Reader Token := return (← get).curr

/-- Fails at the lookahead. -/
def fail {α : Type} (expected : Expectation) : Reader α := do
  throw (.parse ⟨expected, ← peek⟩)

/-- Moves past the lookahead. When the feed has an error in place of the next token, the lookahead
stays and the feed ends there, with an end mark if one can be placed. -/
def advance : Reader Unit := fun c =>
  match c.rest with
  | ⟨t :: ts, e⟩ => .ok () ⟨some c.curr, t, ⟨ts, e⟩⟩
  | ⟨[], none⟩ => .ok () ⟨some c.curr, Token.endAfter (some c.curr), ⟨[], none⟩⟩
  | ⟨[], some e⟩ => .error (.feed e) ⟨some c.curr, c.curr, ⟨[], c.curr.endError?⟩⟩

/-- Accepts a token of the given kind. An end mark is accepted without moving. -/
def eat (kind : Kind) : Reader Unit := do
  if (← peek).kind ≠ kind then fail (.oneOf [kind])
  else if kind = .eof then pure ()
  else advance

end Reader

end SumLang
