import SumLang.Reading.Cursor
import SumLang.Syntax.Basic

/-!
# Readers for the grammar

One reader for each rule of the grammar:

    program   := item*
    item      := 'begin' block | 'func' ident '(' (ident (',' ident)*)? ')' block
    block     := '{' statement* '}'
    statement := ('var' ident '=' expr | ident '=' expr | 'return' expr) ';'
    expr      := primary ('+' expr)?
    primary   := number | ident | ident '(' (expr (',' expr)*)? ')'

A rule that can come back to itself takes an allowance that decreases with each step;
the readers without one start it from the number of remaining tokens.
-/

namespace SumLang.Reader

mutual

/-- Reads a primary, and after a plus sign another expression. -/
def exprWithin : Nat → Reader Expr
  | 0 => throw .depth
  | n + 1 => do
    let lhs ← primaryWithin n
    let tok ← peek
    if tok.kind = .plus then
      eat .plus
      let rhs ← exprWithin n
      return .add lhs rhs tok.line
    else
      return lhs

/-- Reads a literal, a variable or a call. -/
def primaryWithin : Nat → Reader Expr
  | 0 => throw .depth
  | n + 1 => do
    let tok ← peek
    if tok.kind = .number then
      match literalValue tok.text with
      | .ok value =>
        eat .number
        return .lit (.int value) tok.line
      | .error .tooLarge => fail .wordLiteral
      | .error (.illegible text) => throw (.illegible text)
    else if tok.kind = .ident then
      eat .ident
      if (← peek).kind = .lparen then
        let args ← callArgsWithin n
        return .call tok.text args tok.line
      else
        return .var tok.text tok.line
    else
      fail (.oneOf [.number, .ident])

/-- Reads the arguments of a call with their parentheses. -/
def callArgsWithin : Nat → Reader (List Expr)
  | 0 => throw .depth
  | n + 1 => do
    eat .lparen
    if (← peek).kind = .rparen then
      eat .rparen
      return []
    else
      argsWithin n

/-- Reads one argument or more up to the closing parenthesis. -/
def argsWithin : Nat → Reader (List Expr)
  | 0 => throw .depth
  | n + 1 => do
    let arg ← exprWithin n
    let tok ← peek
    if tok.kind = .comma then
      eat .comma
      let args ← argsWithin n
      return arg :: args
    else if tok.kind = .rparen then
      eat .rparen
      return [arg]
    else
      fail (.oneOf [.comma, .rparen])

end

/-- Runs a reader with an allowance that covers every nesting the remaining tokens can have. -/
def withAllowance {α : Type} (r : Nat → Reader α) : Reader α := fun c =>
  r (2 * c.remaining + 4) c

/-- Reads an expression. -/
def expr : Reader Expr := withAllowance exprWithin

/-- Reads a literal, a variable or a call. -/
def primary : Reader Expr := withAllowance primaryWithin

/-- Reads the arguments of a call with their parentheses. -/
def callArgs : Reader (List Expr) := withAllowance callArgsWithin

/-- Reads the declaration of a variable, up to its semicolon. -/
def declaration : Reader Stmt := do
  eat .varWord
  let tok ← peek
  eat .ident
  eat .assign
  let value ← expr
  return .decl tok.text value tok.line

/-- Reads an assignment, up to its semicolon. -/
def assignment : Reader Stmt := do
  let tok ← peek
  eat .ident
  eat .assign
  let value ← expr
  return .assign tok.text value tok.line

/-- Reads a return statement, up to its semicolon. -/
def returnStatement : Reader Stmt := do
  let tok ← peek
  eat .returnWord
  let value ← expr
  return .ret value tok.line

/-- Reads a statement with its semicolon, or nothing where none starts. -/
def statement? : Reader (Option Stmt) := do
  let kind := (← peek).kind
  if kind = .varWord then
    let s ← declaration
    eat .semi
    return some s
  else if kind = .ident then
    let s ← assignment
    eat .semi
    return some s
  else if kind = .returnWord then
    let s ← returnStatement
    eat .semi
    return some s
  else
    return none

/-- Reads statements as long as one starts. -/
def statementsWithin : Nat → Reader (List Stmt)
  | 0 => throw .depth
  | n + 1 => do
    match ← statement? with
    | some s =>
      let rest ← statementsWithin n
      return s :: rest
    | none => return []

/-- Reads a block of statements with its braces. -/
def block : Reader (List Stmt) := do
  eat .lbrace
  let body ← withAllowance statementsWithin
  eat .rbrace
  return body

/-- Reads the further parameters of a function, each after a comma. -/
def moreParamsWithin : Nat → Reader (List Name)
  | 0 => throw .depth
  | n + 1 => do
    if (← peek).kind = .comma then
      eat .comma
      let tok ← peek
      eat .ident
      let rest ← moreParamsWithin n
      return tok.text :: rest
    else
      return []

/-- Reads the parameters of a function up to the closing parenthesis. -/
def params : Reader (List Name) := do
  let tok ← peek
  if tok.kind = .rparen then
    return []
  else
    eat .ident
    let rest ← withAllowance moreParamsWithin
    return tok.text :: rest

/-- Reads the entry block. -/
def entryBlock : Reader Item := do
  let tok ← peek
  eat .beginWord
  let body ← block
  return .entry body tok.line

/-- Reads the definition of a function. -/
def functionDef : Reader Item := do
  let tok ← peek
  eat .funcWord
  let nameTok ← peek
  eat .ident
  eat .lparen
  let names ← params
  eat .rparen
  let body ← block
  return .func nameTok.text names body tok.line

/-- Reads one item. -/
def item : Reader Item := do
  let kind := (← peek).kind
  if kind = .beginWord then entryBlock
  else if kind = .funcWord then functionDef
  else fail (.oneOf [.beginWord, .funcWord])

end SumLang.Reader
