import SumLang.Program.Run

/-!
# Workbenches

A workbench is a single frame beside a table of functions, on which a host stores
values and runs statements and expressions one by one, as text or as nodes. It goes on
after failures.
-/

namespace SumLang

/-- What a host can do on a workbench. -/
inductive WorkbenchStep where
  /-- Binds a name to a value. -/
  | set (name : Name) (value : Value)
  /-- Reads one statement from a text and executes it. -/
  | execText (code : Text)
  /-- Reads one expression from a text and evaluates it. -/
  | evalText (code : Text)
  | exec (s : Stmt)
  | eval (e : Expr)

/-- The outcome of a step that does not fail. -/
inductive WorkbenchAnswer where
  | nothing
  /-- The text starts with no statement. -/
  | noStatement
  | value (v : Value)

/-- A table of functions and a frame. -/
structure Workbench where
  functions : FunctionTable
  frame : Frame

namespace Workbench

/-- A workbench for the functions that a text defines. The text may have no entry block. -/
def ofText (code : Text) (owner : Name) : Except Failure Workbench := do
  let items ← (ItemFeed.ofText code).toExcept.mapError Failure.read
  let p ← Program.ofItems (items ++ [.entry [] 0])
  return ⟨p.functions, { owner }⟩

/-- Runs a reader at the start of a text. -/
def readStart {α : Type} (r : Reader α) (code : Text) : Except Failure α :=
  match Cursor.ofFeed (TokenFeed.ofText code) with
  | .error e => .error (.read (.feed e))
  | .ok c =>
    match r c with
    | .ok a _ => .ok a
    | .error e _ => .error (.read e)

/-- Executes a statement on the frame. -/
def exec (w : Workbench) (s : Stmt) : Except Failure (Workbench × WorkbenchAnswer) := do
  let frame ← (w.frame.exec w.functions (Function.call w.functions callLimit) s).mapError .run
  return ({ w with frame }, .nothing)

/-- Evaluates an expression in the frame. -/
def eval (w : Workbench) (e : Expr) : Except Failure (Workbench × WorkbenchAnswer) := do
  let v ← (e.eval w.functions (Function.call w.functions callLimit) w.frame.vars).mapError .run
  return (w, .value v)

/-- Takes one step. -/
def step (w : Workbench) : WorkbenchStep → Except Failure (Workbench × WorkbenchAnswer)
  | .set name value =>
    .ok ({ w with frame := { w.frame with vars := w.frame.vars.set name value } }, .nothing)
  | .execText code => do
    match ← readStart Reader.statement? code with
    | some s => w.exec s
    | none => return (w, .noStatement)
  | .evalText code => do
    let e ← readStart Reader.expr code
    w.eval e
  | .exec s => w.exec s
  | .eval e => w.eval e

end Workbench

end SumLang
