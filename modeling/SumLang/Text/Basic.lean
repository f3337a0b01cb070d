/-!
# Texts

A text is a sequence of code points. All of them but the surrogates are characters, and a
text of characters alone is a string. A host can also supply a text with lone
surrogates, for which UTF-8 has no form; it is kept as the strings that they separate.
-/

namespace SumLang

/-- A lone surrogate, as its distance from the first one. -/
abbrev Surrogate := Fin 0x800

/-- The code point of a surrogate. -/
def Surrogate.code (x : Surrogate) : Nat := 0xD800 + x.val

/-- A text: the characters up to its first lone surrogate, and then each surrogate with the
characters up to the next one. -/
structure Text where
  front : String
  later : List (Surrogate × String) := []
  deriving DecidableEq, Repr

/-- A string is a text without surrogates. -/
instance : Coe String Text := ⟨fun s => ⟨s, []⟩⟩

namespace Text

/-- Whether UTF-8 has a form for a text, that is, whether the text has no lone surrogate. -/
def encodable (s : Text) : Bool := s.later.isEmpty

/-- The number of code points of a text. -/
def length (s : Text) : Nat := s.later.foldl (fun n x => n + 1 + x.2.length) s.front.length

/-- A text without the zeros at its start. -/
def dropZeros (s : Text) : Text :=
  ⟨String.ofList (s.front.toList.dropWhile (· == '0')), s.later⟩

end Text

end SumLang
