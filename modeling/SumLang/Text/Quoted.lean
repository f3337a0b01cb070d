import SumLang.Text.Basic
import SumLang.Text.Printable

/-!
# Quoted texts

A quoted text stands between single quotes, or between double quotes when it holds
a single quote and no double one. The backslash and the quote in use are escaped by a
backslash, line feed, carriage return and tab by their letters, and every other
unprintable character by its code point in two, four or eight hexadecimal digits. A lone
surrogate is always written by its code point.
-/

namespace SumLang

/-- The last `width` hexadecimal digits of a number, in lower case. -/
def hexDigits : (width n : Nat) → List Char
  | 0, _ => []
  | width + 1, n => hexDigits width (n / 16) ++ [Nat.digitChar (n % 16)]

/-- The escape of a code point: the shortest of the three numbered forms that holds it. -/
def numberedEscape (n : Nat) : List Char :=
  if n < 0x100 then '\\' :: 'x' :: hexDigits 2 n
  else if n < 0x10000 then '\\' :: 'u' :: hexDigits 4 n
  else '\\' :: 'U' :: hexDigits 8 n

/-- The spelling of one character inside a text that is enclosed in `quote`. -/
def quotedChar (quote c : Char) : List Char :=
  if c = quote ∨ c = '\\' then ['\\', c]
  else if c = '\n' then ['\\', 'n']
  else if c = '\r' then ['\\', 'r']
  else if c = '\t' then ['\\', 't']
  else if isPrintable c then [c]
  else numberedEscape c.toNat

/-- The quote that encloses a text. -/
def quoteFor (s : List Char) : Char :=
  if '\'' ∈ s ∧ '"' ∉ s then '"' else '\''

/-- The quoted form of a text. -/
def quoted (s : Text) : String :=
  let quote := quoteFor (s.front.toList ++ s.later.flatMap (·.2.toList))
  let piece (s : String) : List Char := s.toList.flatMap (quotedChar quote)
  String.ofList (quote :: piece s.front ++
    s.later.flatMap (fun x => numberedEscape x.1.code ++ piece x.2) ++ [quote])

/-- A text as reports show it: its characters as they are, and lone surrogates by their code
points. -/
def Text.shown (s : Text) : String :=
  s.later.foldl (fun shown x => shown ++ String.ofList (numberedEscape x.1.code) ++ x.2) s.front

end SumLang
