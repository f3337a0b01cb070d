import SumLang.Program.Run

/-!
# Reports of failures

The class, the stage and the wording of every failure. A failure of the language
itself belongs to one of four stages; a report of one from reading the text names the
file only where the text was given one.
-/

namespace SumLang

/-- The file names that reports mention: for the characters of a text, and for everything else. -/
structure FileLabels where
  text : Option String
  program : String

namespace Failure

/-- The class of a failure. -/
def label : Failure → String
  | read (.feed (.illegal _)) => "LexError"
  | read (.parse _) => "ParseError"
  | program _ => "ProgramError"
  | run (.eval e) => e.fault.label
  | run (.alienExpr ..) | run (.alienStmt ..) | alienItem .. => "RuntimeError"
  | read .depth | run .depth => "RecursionError"
  | read (.illegible (some _)) => "ValueError"
  | read (.illegible none) => "AttributeError"
  | read (.feed .unencodable) => "UnicodeEncodeError"
  | unwritable _ | readOnly => "TypeError"

/-- The stage of a failure of the language. -/
def stage? : Failure → Option String
  | read (.feed (.illegal _)) => some "lex"
  | read (.parse _) => some "parse"
  | program _ => some "program"
  | run (.eval _) => some "evaluate"
  | run (.alienExpr ..) | run (.alienStmt ..) | alienItem .. | read (.illegible _) | read .depth
  | read (.feed .unencodable) | run .depth | unwritable _ | readOnly => none

/-- The report of a failure. Exhausted depth, a number token that spells no integer and a text
without a form in UTF-8 have none. -/
def message? (files : FileLabels) : Failure → Option String
  | read (.feed (.illegal e)) => some (e.message files.text)
  | read (.parse e) => some (e.message files.program)
  | program e => some (e.message files.program)
  | run (.eval e) => some (e.message files.program)
  | run (.alienExpr tag fields line) =>
    some ("Invalid expression node: " ++ (Tree.node tag fields line).display)
  | run (.alienStmt tag line) =>
    some ("Unknown statement type: " ++ tag ++ placeSuffix line files.program)
  | alienItem tag line => some ("Unknown item type: " ++ tag ++ placeSuffix line files.program)
  | read (.illegible _) | read (.feed .unencodable) | read .depth | run .depth => none
  | unwritable gap =>
    some ("sequence item " ++ toString gap.index ++ ": expected str instance, NoneType found")
  | readOnly => some "The function table is read-only"

end Failure

end SumLang
