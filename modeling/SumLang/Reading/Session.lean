import SumLang.Reading.ItemFeed

/-!
# Reading sessions

A session applies readers one by one to the same cursor, going on after failures. Only
a number token that spells no integer and a text without a form in UTF-8 end it, and then
nothing of it remains. It also holds one pass over the items, which is over for good once
it has reached the end or has failed.
-/

namespace SumLang

/-- The steps of a session. -/
inductive SessionStep where
  | expr
  | primary
  | callArgs
  | block
  | statement
  | declaration
  | assignment
  | returnStatement
  | item
  | entryBlock
  | functionDef
  | items
  /-- The next item of the session's pass. -/
  | nextItem
  /-- Accepts a token of a kind. -/
  | eat (kind : Kind)
  /-- Asks how reports describe a kind. -/
  | describe (kind : Kind)
  /-- Asks for the error of an expectation at the lookahead. -/
  | refuse (expected : String)

/-- The outcome of a step that does not fail. -/
inductive SessionAnswer where
  | expr (e : Expr)
  | exprs (es : List Expr)
  | statement (s : Option Stmt)
  | statements (ss : List Stmt)
  | item (i : Item)
  | items (is : List Item)
  | nothing
  /-- The pass over the items is over. -/
  | finished
  | description (s : String)
  | refusal (e : ParseError)

/-- A cursor and whether the pass over its items still goes on. -/
structure Session where
  cursor : Cursor
  passing : Bool := true

namespace Session

/-- Runs a reader on the session's cursor. -/
def apply {α : Type} (s : Session) (r : Reader α) (answer : α → SessionAnswer) :
    Session × Except ReadError SessionAnswer :=
  match r s.cursor with
  | .ok a c => ({ s with cursor := c }, .ok (answer a))
  | .error e c => ({ s with cursor := c }, .error e)

/-- Takes the next item of the pass. -/
def nextItem (s : Session) : Session × Except ReadError SessionAnswer :=
  if ¬ s.passing ∨ s.cursor.curr.kind = .eof then ({ s with passing := false }, .ok .finished)
  else match Reader.item s.cursor with
    | .ok i c => ({ s with cursor := c }, .ok (.item i))
    | .error e c => (⟨c, false⟩, .error e)

/-- Takes one step. -/
def step (s : Session) : SessionStep → Session × Except ReadError SessionAnswer
  | .expr => s.apply Reader.expr .expr
  | .primary => s.apply Reader.primary .expr
  | .callArgs => s.apply Reader.callArgs .exprs
  | .block => s.apply Reader.block .statements
  | .statement => s.apply Reader.statement? .statement
  | .declaration => s.apply Reader.declaration (.statement ∘ some)
  | .assignment => s.apply Reader.assignment (.statement ∘ some)
  | .returnStatement => s.apply Reader.returnStatement (.statement ∘ some)
  | .item => s.apply Reader.item .item
  | .entryBlock => s.apply Reader.entryBlock .item
  | .functionDef => s.apply Reader.functionDef .item
  | .items => s.apply Reader.items .items
  | .nextItem => s.nextItem
  | .eat kind => s.apply (Reader.eat kind) fun _ => .nothing
  | .describe kind => (s, .ok (.description kind.describe))
  | .refuse expected => (s, .ok (.refusal ⟨.text expected, s.cursor.curr⟩))

/-- The outcome of a step and the cursor after it. -/
structure Entry where
  outcome : Except ReadError SessionAnswer
  cursor : Cursor

/-- Takes steps in order. A number token that spells no integer, or a text without a length, is
the outcome of the whole. -/
def run (s : Session) : List SessionStep → Except ReadError (List Entry)
  | [] => .ok []
  | step :: rest =>
    match s.step step with
    | (_, .error (.illegible text)) => .error (.illegible text)
    | (_, .error (.feed .unencodable)) => .error (.feed .unencodable)
    | (after, outcome) => do
      let entries ← after.run rest
      return ⟨outcome, after.cursor⟩ :: entries

end Session

end SumLang
