/-!
# Token kinds

The kinds of tokens, the names they have in reports, and the way a report asks for
one. A kind with a fixed spelling is asked for by that spelling in quotes.
-/

namespace SumLang

/-- The kinds of tokens. A token that no source text contains may have a kind of another name. -/
inductive Kind where
  | beginWord
  | varWord
  | funcWord
  | returnWord
  /-- A word that is no keyword. -/
  | ident
  /-- A run of digits. -/
  | number
  | lbrace
  | rbrace
  | lparen
  | rparen
  | comma
  | semi
  | assign
  | plus
  /-- The end of the input. -/
  | eof
  /-- A kind that the language does not use. -/
  | other (name : String)
  deriving DecidableEq, Repr

namespace Kind

/-- The name of a kind. -/
def name : Kind → String
  | beginWord => "BEGIN"
  | varWord => "VAR"
  | funcWord => "FUNC"
  | returnWord => "RETURN"
  | ident => "ID"
  | number => "NUMBER"
  | lbrace => "LBRACE"
  | rbrace => "RBRACE"
  | lparen => "LPAREN"
  | rparen => "RPAREN"
  | comma => "COMMA"
  | semi => "SEMI"
  | assign => "ASSIGN"
  | plus => "PLUS"
  | eof => "EOF"
  | other name => name

/-- The kinds that the language itself uses. -/
def proper : List Kind :=
  [beginWord, varWord, funcWord, returnWord, ident, number, lbrace, rbrace, lparen, rparen,
    comma, semi, assign, plus, eof]

/-- The kind of a given name: one of the language's own where it has that name. -/
def ofName (s : String) : Kind :=
  (proper.find? fun k => k.name == s).getD (other s)

/-- The one spelling of a keyword or symbol. -/
def spelling? : Kind → Option String
  | beginWord => some "begin"
  | varWord => some "var"
  | funcWord => some "func"
  | returnWord => some "return"
  | lbrace => some "\x7b"
  | rbrace => some "\x7d"
  | lparen => some "("
  | rparen => some ")"
  | comma => some ","
  | semi => some ";"
  | assign => some "="
  | plus => some "+"
  | ident | number | eof | other _ => none

/-- How a report asks for a token of this kind. -/
def describe (k : Kind) : String :=
  match k.spelling? with
  | some s => "'" ++ s ++ "'"
  | none =>
    match k with
    | ident => "identifier"
    | number => "integer literal"
    | eof => "end of input"
    | k => k.name

/-- The kind of a word: a keyword only when the whole word is one. -/
def ofWord (w : List Char) : Kind :=
  if w = "begin".toList then beginWord
  else if w = "var".toList then varWord
  else if w = "func".toList then funcWord
  else if w = "return".toList then returnWord
  else ident

/-- The kind of a character that is a token by itself. -/
def ofSymbol? : Char → Option Kind
  | '\x7b' => some lbrace
  | '\x7d' => some rbrace
  | '(' => some lparen
  | ')' => some rparen
  | ',' => some comma
  | ';' => some semi
  | '=' => some assign
  | '+' => some plus
  | _ => none

/-- Naming a kind and looking the name up again is exact on names. -/
theorem name_ofName (s : String) : (ofName s).name = s := by
  unfold ofName
  cases h : proper.find? fun k => k.name == s with
  | none => rfl
  | some k => simpa using List.find?_some h

end Kind

end SumLang
