import SumLang.Text.Quoted
import SumLang.Token.Kind

/-!
# Tokens

A token is a kind with the text it was read from and the place where that text
starts. In a text, lines are counted from one and offsets in bytes of UTF-8 from zero; a
token that a host supplies may claim any place.
-/

namespace SumLang

/-- The number of bytes that a sequence of characters takes in UTF-8. -/
def utf8Length : List Char → Nat
  | [] => 0
  | c :: s => c.utf8Size + utf8Length s

/-- The number of line feeds in a sequence of characters. -/
def lineFeeds (s : List Char) : Nat := s.count '\n'

/-- A token. The one that marks the end of the input has no text, and others may have none. -/
structure Token where
  kind : Kind
  text : Option Text
  /-- The line on which the text starts. -/
  line : Int
  /-- The number of bytes before the text. -/
  offset : Int
  deriving DecidableEq, Repr

namespace Token

/-- The text of a token, empty for a token without one. -/
def word (t : Token) : String := (t.text.map Text.shown).getD ""

/-- The text of a token as reports show it. -/
def shown (t : Token) : String := (t.text.map Text.shown).getD "None"

/-- Whether UTF-8 has a form for the text of a token. -/
def encodable (t : Token) : Bool := t.text.all Text.encodable

/-- The offset just after a token, for whose text UTF-8 has a form. -/
def endOffset (t : Token) : Int := t.offset + utf8Length t.word.toList

/-- A token written out with its parts. -/
def display (t : Token) : String :=
  "Token(" ++ t.kind.name ++ ", " ++ t.shown ++ ", line=" ++ toString t.line ++ ", offset=" ++
    toString t.offset ++ ")"

/-- The end mark after the token `last`, or at the start of the input when there is none. -/
def endAfter : Option Token → Token
  | none => ⟨.eof, none, 1, 0⟩
  | some last => ⟨.eof, none, last.line, last.endOffset⟩

/-- A string is shown as it is. -/
theorem word_eq {t : Token} {s : String} (h : t.text = some (s : Text)) : t.word = s := by
  rw [word, h]
  rfl

end Token

end SumLang
