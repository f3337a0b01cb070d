import SumLang.Syntax.Name
import SumLang.Syntax.Tree
import SumLang.Text.Place

/-!
# Evaluation errors

Each error names the variable, function or operator at fault and the line it is
reported on. A call that is nested too deep is not an error of the language: it is
kept apart, as are nodes that cannot be evaluated at all.
-/

namespace SumLang

/-- The faults that a running program can have. -/
inductive EvalFault where
  /-- A fault that is not told any closer. -/
  | general
  | undefinedVariable
  | redeclaration
  | undeclaredAssignment
  | undefinedFunction
  /-- A call with the wrong number of arguments. -/
  | arity (expected received : Int)
  | missingReturn
  | doubleReturn
  /-- A return statement in the entry block. -/
  | strayReturn
  /-- An operand that is no number. -/
  | operand
  deriving DecidableEq, Repr

namespace EvalFault

/-- The class of a fault in reports. -/
def label : EvalFault → String
  | general => "EvaluationError"
  | undefinedVariable => "UndefinedVariableError"
  | redeclaration => "RedeclarationError"
  | undeclaredAssignment => "AssignToUndeclaredError"
  | undefinedFunction => "UndefinedFunctionError"
  | arity .. => "ArityMismatchError"
  | missingReturn => "MissingReturnError"
  | doubleReturn => "DoubleReturnError"
  | strayReturn => "ReturnOutsideFunctionError"
  | operand => "ValueTypeError"

/-- The wording of a fault, which the name at fault completes. -/
def description : EvalFault → String
  | general => "Evaluation error for"
  | undefinedVariable => "Undefined variable"
  | redeclaration => "Redeclaration of variable"
  | undeclaredAssignment => "Assignment to undeclared variable"
  | undefinedFunction => "Undefined function"
  | arity .. => "Wrong number of arguments for function"
  | missingReturn => "Missing return value in function"
  | doubleReturn => "Function already returned a value"
  | strayReturn => "Return outside of a function in block"
  | operand => "Unsupported operand type for"

end EvalFault

/-- A fault, the name at fault, the line it is reported on, and an explanation. -/
structure EvalError where
  fault : EvalFault
  name : Name
  line : Option Int := none
  detail : Option String := none
  deriving DecidableEq, Repr

namespace EvalError

/-- The explanation in parentheses; the numbers of a wrong call explain themselves. -/
def explanation? (e : EvalError) : Option String :=
  match e.fault with
  | .arity expected received =>
    some ("expected " ++ toString expected ++ ", got " ++ toString received)
  | _ => e.detail

/-- The report of an evaluation error. -/
def message (e : EvalError) (file : Option String) : String :=
  e.fault.description ++ " '" ++ e.name.shown ++ "'" ++
    (match e.explanation? with
      | some s => " (" ++ s ++ ")"
      | none => "") ++
    placeSuffix e.line file

end EvalError

/-- The ways in which evaluation can fail. -/
inductive RunError where
  /-- The program has a fault. -/
  | eval (e : EvalError)
  /-- A node that is no expression was to be evaluated. -/
  | alienExpr (tag : String) (fields : List Tree) (line : Int)
  /-- A node that is no statement was to be executed. -/
  | alienStmt (tag : String) (line : Int)
  /-- More calls were active at once than the limit admits. -/
  | depth
  deriving DecidableEq

end SumLang
