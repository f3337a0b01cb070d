import SumLang.Program.Run
import SumLang.Proofs.Eval.Simulation

/-!
# Errors with the frame that raised them

An error of a run does not tell in which frame it was raised: a call passes on what its
frame raised, and the frame of the caller passes it on in turn. The evaluator of this
module takes the same steps and marks each error, where it is raised, with the owner of
that frame.
-/

namespace SumLang

/-- An error and the owner of the frame that raised it. The entry block has no owner. -/
structure Raised where
  owner : Name
  error : RunError
  deriving DecidableEq

/-- How calls of functions are carried out where errors are marked. -/
abbrev MarkingCaller := Function → List Value → Except Raised Value

mutual

/-- The value of an expression in a frame of `owner`, or the marked error. -/
def Expr.evalMarked (fns : FunctionTable) (call : MarkingCaller) (owner : Name) (vars : Store) :
    Expr → Except Raised Value
  | .lit value _ => .ok value
  | .var name line =>
    match vars.get? name with
    | some v => .ok v
    | none => .error ⟨owner, .eval { fault := .undefinedVariable, name := name, line := line }⟩
  | .add lhs rhs line => do
    let a ← lhs.evalMarked fns call owner vars
    let b ← rhs.evalMarked fns call owner vars
    match a.add b with
    | .ok v => .ok v
    | .error v =>
      .error ⟨owner, .eval { fault := .operand, name := "+", line := line,
                             detail := "can't add " ++ v.typeName }⟩
  | .call name args line =>
    match fns.function? name with
    | none =>
      .error ⟨owner, .eval { fault := .undefinedFunction, name := name, line := line }⟩
    | some f =>
      if args.length = f.params.length then do
        let values ← Expr.evalAllMarked fns call owner vars args
        -- What the call fails with carries the mark of another frame already.
        call f values
      else
        .error ⟨owner, .eval { fault := .arity f.params.length args.length, name := name,
                               line := line }⟩
  | .alien tag fields line => .error ⟨owner, .alienExpr tag fields line⟩

/-- The values of some expressions in a frame of `owner`, or the first marked error. -/
def Expr.evalAllMarked (fns : FunctionTable) (call : MarkingCaller) (owner : Name)
    (vars : Store) : List Expr → Except Raised (List Value)
  | [] => .ok []
  | e :: es => do
    let v ← e.evalMarked fns call owner vars
    let vs ← Expr.evalAllMarked fns call owner vars es
    return v :: vs

end

namespace Frame

/-- Executes one statement and marks the error it fails with. -/
def execMarked (fns : FunctionTable) (call : MarkingCaller) (frame : Frame) :
    Stmt → Except Raised Frame
  | .decl name value line =>
    if frame.vars.contains name then
      .error ⟨frame.owner, .eval { fault := .redeclaration, name := name, line := line }⟩
    else do
      let v ← value.evalMarked fns call frame.owner frame.vars
      return { frame with vars := frame.vars.set name v }
  | .assign name value line =>
    if frame.vars.contains name then do
      let v ← value.evalMarked fns call frame.owner frame.vars
      return { frame with vars := frame.vars.set name v }
    else
      .error ⟨frame.owner, .eval { fault := .undeclaredAssignment, name := name, line := line }⟩
  | .ret value line =>
    if frame.result.isNull then do
      let v ← value.evalMarked fns call frame.owner frame.vars
      return { frame with result := v }
    else
      .error ⟨frame.owner, .eval { fault := .doubleReturn, name := frame.owner, line := line }⟩
  | .alien tag _ line => .error ⟨frame.owner, .alienStmt tag line⟩

/-- Executes statements in order and marks the error that ends them. -/
def runMarked (fns : FunctionTable) (call : MarkingCaller) (frame : Frame) (body : List Stmt) :
    Except Raised Frame :=
  body.foldlM (fun frame s => frame.execMarked fns call s) frame

/-- The frame belongs to `owner` and binds only names of `scope`. -/
structure Belongs (owner : Name) (scope : List Name) (frame : Frame) : Prop where
  owner : frame.owner = owner
  names : frame.vars.names ⊆ scope

end Frame

/-- Calls a function when at most `limit` calls may be active at once, and marks the error. -/
def Function.callMarked (fns : FunctionTable) : (limit : Nat) → MarkingCaller
  | 0, f, _ => .error ⟨f.name, .depth⟩
  | limit + 1, f, args => do
    let final ← (f.frame args).runMarked fns (Function.callMarked fns limit) f.body
    if final.result.isNull then
      .error ⟨f.name, .eval { fault := .missingReturn, name := f.name, line := f.line }⟩
    else
      return final.result

/-- Runs the entry block with a limit on the active calls, and marks the error. -/
def Program.executeMarked (limit : Nat) (p : Program) : Except Raised Frame :=
  match p.entry.findSome? Stmt.returnLine? with
  | some line => .error ⟨none, .eval { fault := .strayReturn, name := "begin", line := line }⟩
  | none => ({} : Frame).runMarked p.functions (Function.callMarked p.functions limit) p.entry

end SumLang
