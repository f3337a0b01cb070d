/-!
# Line ends

Scripts may end their lines in a line feed, a carriage return, or both. Folding
turns each of the three into a single line feed.
-/

namespace SumLang

/-- Replaces each carriage return, and the line feed that may follow it, by one line feed. -/
def foldNewlines : List Char → List Char
  | [] => []
  | '\r' :: '\n' :: rest => '\n' :: foldNewlines rest
  | '\r' :: rest => '\n' :: foldNewlines rest
  | c :: rest => c :: foldNewlines rest

end SumLang
