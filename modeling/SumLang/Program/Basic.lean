import SumLang.Eval.Frame
import SumLang.Reading.ItemFeed
import SumLang.Syntax.Gap

/-!
# Programs

A program is assembled from a feed of items in their order: it has exactly one entry
block, and no two of its functions have the same name. The first item that breaks a
rule is reported even when the feed would fail later on, and a missing entry block only
when the whole feed has been taken.
-/

namespace SumLang

/-- The reasons why items do not form a program. -/
inductive ProgramFault where
  | repeatedEntry
  | repeatedFunction (name : Name)
  | noEntry
  /-- A reason described in words. -/
  | text (s : String)
  deriving DecidableEq, Repr

/-- The wording of a reason. -/
def ProgramFault.description : ProgramFault → String
  | repeatedEntry => "Multiple begin blocks are not allowed"
  | repeatedFunction name => "Function '" ++ name.shown ++ "' is already defined"
  | noEntry => "Program has no begin block"
  | text s => s

/-- Why items do not form a program, the function at fault, and the line of the item. -/
structure ProgramError where
  fault : ProgramFault
  name : Name := none
  line : Option Int := none
  deriving DecidableEq, Repr

/-- The report of items that do not form a program. -/
def ProgramError.message (e : ProgramError) (file : Option String) : String :=
  e.fault.description ++ placeSuffix e.line file

/-- The ways in which a program can fail, from reading to running. -/
inductive Failure where
  | read (e : ReadError)
  | program (e : ProgramError)
  /-- A node that is no item was to be part of a program. -/
  | alienItem (tag : String) (line : Int)
  | run (e : RunError)
  /-- A text cannot be written, because an element of one of its lists has no text. -/
  | unwritable (gap : Gap)
  /-- The functions of a program cannot be changed. -/
  | readOnly
  deriving DecidableEq

/-- An entry block and functions. -/
structure Program where
  entry : List Stmt
  functions : FunctionTable
  deriving DecidableEq

/-- A program of which some items have been taken. -/
structure Assembly where
  entry : Option (List Stmt) := none
  functions : FunctionTable := []

namespace Assembly

/-- Takes one more item. -/
def take (a : Assembly) : Item → Except Failure Assembly
  | .entry body line =>
    if a.entry.isSome then .error (.program { fault := .repeatedEntry, line := line })
    else .ok { a with entry := some body }
  | .func name params body line =>
    if (a.functions.function? name).isSome then
      .error (.program { fault := .repeatedFunction name, name := name, line := line })
    else .ok { a with functions := a.functions ++ [⟨name, params, body, line⟩] }
  | .alien tag _ line => .error (.alienItem tag line)

/-- The program, once all items have been taken. -/
def finish (a : Assembly) : Except Failure Program :=
  match a.entry with
  | some entry => .ok ⟨entry, a.functions⟩
  | none => .error (.program { fault := .noEntry })

end Assembly

namespace Program

/-- The program that a feed of items forms. -/
def ofFeed (feed : ItemFeed) : Except Failure Program := do
  let taken ← feed.items.foldlM Assembly.take {}
  match feed.error with
  | some e => .error (.read e)
  | none => taken.finish

/-- The program that given items form. -/
def ofItems (items : List Item) : Except Failure Program := ofFeed ⟨items, none⟩

/-- The program that a text describes; its items are taken as they are read. -/
def ofText (code : Text) : Except Failure Program := ofFeed (ItemFeed.ofText code)

/-- The program that a text describes; all of its items are read before any is taken. -/
def ofTextEagerly (code : Text) : Except Failure Program := do
  let items ← (ItemFeed.ofText code).toExcept.mapError Failure.read
  ofItems items

/-- The names of the functions in the order of their definitions. -/
def names (p : Program) : List Name := p.functions.map Function.name

end Program

end SumLang
