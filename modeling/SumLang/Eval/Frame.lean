import SumLang.Eval.Error
import SumLang.Eval.Store
import SumLang.Syntax.Basic

/-!
# Frames and calls

The entry block and every call run in a frame of their own, which holds the
variables, the result so far and the name of the running function. Expressions read
the variables of their frame and nothing else; they reach other functions only through
calls. Calls are bounded by the number of them that may be active at once.
-/

namespace SumLang

/-- A function of a program. -/
structure Function where
  name : Name
  params : List Name
  body : List Stmt
  line : Int
  deriving DecidableEq

/-- The functions of a program in the order of their definitions. -/
abbrev FunctionTable := List Function

/-- The function of a given name. -/
def FunctionTable.function? (fns : FunctionTable) (name : Name) : Option Function :=
  fns.find? fun f => f.name == name

/-- How calls of functions are carried out. -/
abbrev Caller := Function → List Value → Except RunError Value

/-- One execution of a block. -/
structure Frame where
  vars : Store := {}
  /-- The value returned so far, null when there is none. -/
  result : Value := .null
  /-- The name of the running function. -/
  owner : Name := none
  deriving DecidableEq

mutual

/-- The value of an expression. A call finds its function and checks the number of its arguments
before it evaluates them from left to right. -/
def Expr.eval (fns : FunctionTable) (call : Caller) (vars : Store) :
    Expr → Except RunError Value
  | .lit value _ => .ok value
  | .var name line =>
    match vars.get? name with
    | some v => .ok v
    | none => .error (.eval { fault := .undefinedVariable, name := name, line := line })
  | .add lhs rhs line => do
    let a ← lhs.eval fns call vars
    let b ← rhs.eval fns call vars
    match a.add b with
    | .ok v => .ok v
    | .error v =>
      .error (.eval { fault := .operand, name := "+", line := line,
                      detail := "can't add " ++ v.typeName })
  | .call name args line =>
    match fns.function? name with
    | none => .error (.eval { fault := .undefinedFunction, name := name, line := line })
    | some f =>
      if args.length = f.params.length then do
        let values ← Expr.evalAll fns call vars args
        call f values
      else
        .error (.eval { fault := .arity f.params.length args.length, name := name, line := line })
  | .alien tag fields line => .error (.alienExpr tag fields line)

/-- The values of some expressions, evaluated from left to right. -/
def Expr.evalAll (fns : FunctionTable) (call : Caller) (vars : Store) :
    List Expr → Except RunError (List Value)
  | [] => .ok []
  | e :: es => do
    let v ← e.eval fns call vars
    let vs ← Expr.evalAll fns call vars es
    return v :: vs

end

namespace Frame

/-- Executes one statement. -/
def exec (fns : FunctionTable) (call : Caller) (frame : Frame) : Stmt → Except RunError Frame
  | .decl name value line =>
    if frame.vars.contains name then
      .error (.eval { fault := .redeclaration, name := name, line := line })
    else do
      let v ← value.eval fns call frame.vars
      return { frame with vars := frame.vars.set name v }
  | .assign name value line =>
    if frame.vars.contains name then do
      let v ← value.eval fns call frame.vars
      return { frame with vars := frame.vars.set name v }
    else
      .error (.eval { fault := .undeclaredAssignment, name := name, line := line })
  | .ret value line =>
    if frame.result.isNull then do
      let v ← value.eval fns call frame.vars
      return { frame with result := v }
    else
      .error (.eval { fault := .doubleReturn, name := frame.owner, line := line })
  | .alien tag _ line => .error (.alienStmt tag line)

/-- Executes statements in order, those after a return statement too. -/
def run (fns : FunctionTable) (call : Caller) (frame : Frame) (body : List Stmt) :
    Except RunError Frame :=
  body.foldlM (fun frame s => frame.exec fns call s) frame

end Frame

/-- Calls a function when at most `limit` calls, this one included, may be active at once. -/
def Function.call (fns : FunctionTable) : (limit : Nat) → Caller
  | 0, _, _ => .error .depth
  | limit + 1, f, args => do
    let start : Frame := { vars := Store.bind f.params args, owner := f.name }
    let final ← start.run fns (Function.call fns limit) f.body
    if final.result.isNull then
      .error (.eval { fault := .missingReturn, name := f.name, line := f.line })
    else
      return final.result

end SumLang
