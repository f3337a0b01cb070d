import SumLang.Text.Basic
import SumLang.Text.Integer

/-!
# Integer literals

A literal is written in decimal digits, with any number of leading zeros, and must fit
into a word of 32 bits. A literal with too many digits is refused by its length alone.
A literal that a host supplies may be spelled in any way that spells an integer.
-/

namespace SumLang

/-- The number of different words of 32 bits. -/
def wordCount : Nat := 0x100000000

/-- The largest word. -/
def maxWord : Nat := wordCount - 1

/-- The number of decimal digits of the largest word. -/
def maxWordDigits : Nat := 10

/-- Why a text is no literal. -/
inductive LiteralFlaw where
  /-- Its value is larger than the largest word. -/
  | tooLarge
  /-- It spells no integer; the part after the leading zeros is kept. -/
  | illegible (text : Option Text)
  deriving DecidableEq, Repr

/-- The integer that the significant part of a literal spells; where only zeros were written, that
part is empty. -/
def Text.spelledValue? (significant : Text) : Option Int :=
  if significant.encodable then
    if significant.front.toList = [] then some 0 else integerValue? significant.front.toList
  else none

/-- The value of a literal with the given text. -/
def literalValue : Option Text → Except LiteralFlaw Int
  | none => .error (.illegible none)
  | some text =>
    let significant := text.dropZeros
    if significant.length > maxWordDigits then .error .tooLarge
    else match significant.spelledValue? with
      | some value => if value > maxWord then .error .tooLarge else .ok value
      | none => .error (.illegible (some significant))

end SumLang
