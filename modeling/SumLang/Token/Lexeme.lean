import SumLang.Text.Letter
import SumLang.Token.Basic

/-!
# Lexemes

A text falls apart into lexemes: longest runs of letters, of digits and of blanks,
single symbols, and single characters that are illegal. Nothing of the text is lost,
so the lexemes of a text joined together are the text.
-/

namespace SumLang

/-- What a character can be part of. -/
inductive CharClass where
  | letter
  | digit
  | blank
  | symbol (kind : Kind)
  | illegal
  deriving DecidableEq, Repr

/-- The five characters that only separate tokens. -/
def isBlank (c : Char) : Bool :=
  c == ' ' || c == '\t' || c == '\n' || c == '\r' || c == '\x0c'

namespace CharClass

/-- The class of a character. Digits are the ten of ASCII only. -/
def ofChar (c : Char) : CharClass :=
  if isLetter c then letter
  else if c.isDigit then digit
  else if isBlank c then blank
  else match Kind.ofSymbol? c with
    | some k => symbol k
    | none => illegal

/-- Whether neighbouring characters of this class belong to one lexeme. -/
def runs : CharClass → Bool
  | letter | digit | blank => true
  | symbol _ | illegal => false

end CharClass

/-- A piece of text whose characters are all of one class. -/
structure Lexeme where
  cls : CharClass
  text : List Char
  deriving DecidableEq, Repr

namespace Lexeme

/-- Puts one more character in front, into the first lexeme where the two form a run. -/
def push (c : Char) : List Lexeme → List Lexeme
  | [] => [⟨.ofChar c, [c]⟩]
  | x :: rest =>
    if x.cls = .ofChar c ∧ x.cls.runs then ⟨x.cls, c :: x.text⟩ :: rest
    else ⟨.ofChar c, [c]⟩ :: x :: rest

/-- The lexemes of a text. -/
def split (s : List Char) : List Lexeme := s.foldr push []

private theorem flatMap_text_push (c : Char) (xs : List Lexeme) :
    (push c xs).flatMap text = c :: xs.flatMap text := by
  unfold push
  split
  · rfl
  · split <;> simp

/-- Splitting a text loses nothing of it. -/
theorem flatMap_text_split (s : List Char) : (split s).flatMap text = s := by
  induction s with
  | nil => rfl
  | cons c s ih => simpa [split, flatMap_text_push] using ih

end Lexeme

end SumLang
