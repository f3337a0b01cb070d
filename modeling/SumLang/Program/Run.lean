import SumLang.Program.Basic
import SumLang.Syntax.Printer

/-!
# Running programs

A program runs its entry block in a fresh frame and ends with that frame. A return
statement in the entry block is reported before anything runs. A trace executes the
statements of the entry block one by one and goes on after failures.
-/

namespace SumLang

/-- The number of calls that may be active at once. -/
def callLimit : Nat := 1000

/-- The line of a return statement. -/
def Stmt.returnLine? : Stmt → Option Int
  | .ret _ line => some line
  | .decl .. | .assign .. | .alien .. => none

namespace Program

/-- Runs the entry block with a limit on the number of active calls. -/
def executeWithin (limit : Nat) (p : Program) : Except RunError Frame :=
  match p.entry.findSome? Stmt.returnLine? with
  | some line => .error (.eval { fault := .strayReturn, name := "begin", line := line })
  | none => ({} : Frame).run p.functions (Function.call p.functions limit) p.entry

/-- Runs the entry block. -/
def execute (p : Program) : Except RunError Frame := p.executeWithin callLimit

end Program

/-- Runs the program that a text describes. -/
def runText (code : Text) : Except Failure Frame := do
  let p ← Program.ofText code
  p.execute.mapError Failure.run

/-- Runs the program that a text describes, once all of its items have been read. -/
def runTextEagerly (code : Text) : Except Failure Frame := do
  let p ← Program.ofTextEagerly code
  p.execute.mapError Failure.run

/-- A statement, how it failed if it did, and the frame after it. -/
structure TraceStep where
  stmt : Stmt
  error : Option RunError
  frame : Frame

namespace Frame

/-- Executes a statement; a statement that fails leaves the frame as it was. -/
def attempt (fns : FunctionTable) (call : Caller) (frame : Frame) (s : Stmt) : TraceStep :=
  match frame.exec fns call s with
  | .ok after => ⟨s, none, after⟩
  | .error e => ⟨s, some e, frame⟩

/-- Executes statements in order and goes on after failures. -/
def trace (fns : FunctionTable) (call : Caller) (frame : Frame) : List Stmt → List TraceStep
  | [] => []
  | s :: rest =>
    let step := frame.attempt fns call s
    step :: trace fns call step.frame rest

end Frame

/-- The trace of a program's entry block. -/
def Program.trace (p : Program) : List TraceStep :=
  ({} : Frame).trace p.functions (Function.call p.functions callLimit) p.entry

end SumLang
