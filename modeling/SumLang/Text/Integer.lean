import SumLang.Text.Ranges

/-!
# Integers in decimal

A text spells an integer when it consists of an optional sign and decimal digits, with
white space around them at most. The digits may be those of any script, and one
underscore may stand between two of them. Reading takes longer than in proportion to
the number of digits, so that a text from a host may have a limited number of them.
-/

namespace SumLang

/-- The code points of the zeros of Unicode 14; the nine that follow each are the other digits. -/
def zeroDigits : List Nat := [
  0x30, 0x660, 0x6F0, 0x7C0, 0x966, 0x9E6, 0xA66, 0xAE6, 0xB66, 0xBE6, 0xC66, 0xCE6, 0xD66,
  0xDE6, 0xE50, 0xED0, 0xF20, 0x1040, 0x1090, 0x17E0, 0x1810, 0x1946, 0x19D0, 0x1A80, 0x1A90,
  0x1B50, 0x1BB0, 0x1C40, 0x1C50, 0xA620, 0xA8D0, 0xA900, 0xA9D0, 0xA9F0, 0xAA50, 0xABF0,
  0xFF10, 0x104A0, 0x10D30, 0x11066, 0x110F0, 0x11136, 0x111D0, 0x112F0, 0x11450, 0x114D0,
  0x11650, 0x116C0, 0x11730, 0x118E0, 0x11950, 0x11C50, 0x11D50, 0x11DA0, 0x16A60, 0x16AC0,
  0x16B50, 0x1D7CE, 0x1D7D8, 0x1D7E2, 0x1D7EC, 0x1D7F6, 0x1E140, 0x1E2F0, 0x1E950, 0x1FBF0]

/-- The value of a decimal digit of any script. -/
def digitValue? (c : Char) : Option Nat :=
  (zeroDigits.find? fun z => z ≤ c.toNat && c.toNat ≤ z + 9).map (c.toNat - ·)

/-- The code points of white space. -/
def whiteSpaceRanges : Ranges := [
  (0x9, 0xD), (0x20, 0x20), (0x85, 0x85), (0xA0, 0xA0), (0x1680, 0x1680), (0x2000, 0x200A),
  (0x2028, 0x2029), (0x202F, 0x202F), (0x205F, 0x205F), (0x3000, 0x3000)]

/-- Whether a character is white space. -/
def isWhiteSpace (c : Char) : Bool := whiteSpaceRanges.covers c.toNat

/-- A text without the white space around it. -/
def trimSpace (s : List Char) : List Char :=
  ((s.dropWhile isWhiteSpace).reverse.dropWhile isWhiteSpace).reverse

/-- The value of digits that follow digits of value `acc`, with single underscores in between. -/
def digitsValueFrom (acc : Nat) : List Char → Option Nat
  | [] => some acc
  | '_' :: c :: rest => do digitsValueFrom (10 * acc + (← digitValue? c)) rest
  | c :: rest => do digitsValueFrom (10 * acc + (← digitValue? c)) rest

/-- The value of a text of digits. -/
def digitsValue? : List Char → Option Nat
  | [] => none
  | c :: rest => do digitsValueFrom (← digitValue? c) rest

/-- The integer that a text spells. -/
def integerValue? (s : List Char) : Option Int :=
  match trimSpace s with
  | '-' :: digits => (digitsValue? digits).map fun n => -(n : Int)
  | '+' :: digits => (digitsValue? digits).map fun n => (n : Int)
  | digits => (digitsValue? digits).map fun n => (n : Int)

/-- The number of digits that an integer from a host may be spelled with. -/
def maxHostDigits : Nat := 4300

/-- The integer that a text from a host spells, if it does not have too many digits. -/
def hostInteger? (s : List Char) : Option Int :=
  if s.countP (fun c => (digitValue? c).isSome) ≤ maxHostDigits then integerValue? s else none

end SumLang
