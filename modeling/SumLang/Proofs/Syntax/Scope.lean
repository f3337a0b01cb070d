import SumLang.Eval.Frame

/-!
# Scopes of blocks

What can be said about a block without running it: the variables and calls in it, the
names it declares, and whether each statement uses only names that are known where it
stands. The statements after a return statement count like all others.
-/

namespace SumLang

mutual

/-- The names of the variables in an expression. -/
def Expr.vars : Expr → List Name
  | .lit .. | .alien .. => []
  | .var name _ => [name]
  | .add lhs rhs _ => lhs.vars ++ rhs.vars
  | .call _ args _ => Expr.varsAll args

/-- The names of the variables in some expressions. -/
def Expr.varsAll : List Expr → List Name
  | [] => []
  | e :: es => e.vars ++ Expr.varsAll es

end

mutual

/-- The calls in an expression: the name of the function and the number of arguments. -/
def Expr.calls : Expr → List (Name × Nat)
  | .lit .. | .var .. | .alien .. => []
  | .add lhs rhs _ => lhs.calls ++ rhs.calls
  | .call name args _ => (name, args.length) :: Expr.callsAll args

/-- The calls in some expressions. -/
def Expr.callsAll : List Expr → List (Name × Nat)
  | [] => []
  | e :: es => e.calls ++ Expr.callsAll es

end

namespace Stmt

/-- The names of the variables in a statement. -/
def vars : Stmt → List Name
  | .decl _ value _ | .assign _ value _ | .ret value _ => value.vars
  | .alien .. => []

/-- The calls in a statement. -/
def calls : Stmt → List (Name × Nat)
  | .decl _ value _ | .assign _ value _ | .ret value _ => value.calls
  | .alien .. => []

/-- The name that a statement declares. -/
def declared? : Stmt → Option Name
  | .decl name _ _ => some name
  | .assign .. | .ret .. | .alien .. => none

/-- The name that a statement assigns to. -/
def assigned? : Stmt → Option Name
  | .assign name _ _ => some name
  | .decl .. | .ret .. | .alien .. => none

/-- Whether a statement is a return statement. -/
def isReturn : Stmt → Bool
  | .ret .. => true
  | .decl .. | .assign .. | .alien .. => false

/-- A statement that can stand where the names `scope` are known. -/
structure FitsIn (fns : FunctionTable) (scope : List Name) (s : Stmt) : Prop where
  vars : ∀ x ∈ s.vars, x ∈ scope
  calls : ∀ c ∈ s.calls, ∃ f, fns.function? c.1 = some f ∧ f.params.length = c.2
  assigned : ∀ x, s.assigned? = some x → x ∈ scope
  declared : ∀ x, s.declared? = some x → x ∉ scope

end Stmt

/-- The names that a block declares, in order. -/
def declared (body : List Stmt) : List Name := body.filterMap Stmt.declared?

/-- Each statement of a block fits in what is known before it: the names `scope` and those that
earlier statements declare. -/
def WellScoped (fns : FunctionTable) (scope : List Name) (body : List Stmt) : Prop :=
  ∀ before s after, body = before ++ s :: after → s.FitsIn fns (scope ++ declared before)

/-- A block contains a call of the function `g`. -/
def CallsIn (fns : FunctionTable) (body : List Stmt) (g : Function) : Prop :=
  ∃ s ∈ body, ∃ c ∈ s.calls, fns.function? c.1 = some g

variable {fns : FunctionTable} {scope : List Name}

/-- An empty block is well scoped. -/
theorem wellScoped_nil : WellScoped fns scope [] := by
  intro before s after h
  cases before <;> contradiction

/-- The names that a block declares, from its first statement on. -/
theorem declared_cons (s : Stmt) (body : List Stmt) :
    declared (s :: body) = s.declared?.toList ++ declared body := by
  rw [declared, List.filterMap_cons]
  cases s.declared? <;> rfl

/-- A block is well scoped when its first statement fits and the others fit after it. -/
theorem wellScoped_cons {s : Stmt} {body : List Stmt} :
    WellScoped fns scope (s :: body) ↔
      s.FitsIn fns scope ∧ WellScoped fns (scope ++ s.declared?.toList) body := by
  constructor
  · intro h
    constructor
    · have hs := h [] s body rfl
      rwa [declared, List.filterMap_nil, List.append_nil] at hs
    · rintro before t after rfl
      have ht := h (s :: before) t after rfl
      rwa [declared_cons, ← List.append_assoc] at ht
  · rintro ⟨hs, hbody⟩ before t after heq
    cases before with
    | nil =>
      obtain ⟨rfl, -⟩ := List.cons.inj heq
      rwa [declared, List.filterMap_nil, List.append_nil]
    | cons u before =>
      obtain ⟨rfl, rfl⟩ := List.cons.inj heq
      rw [declared_cons, ← List.append_assoc]
      exact hbody before t after rfl

/-- A block calls what its first statement calls and what the others call. -/
theorem callsIn_cons {s : Stmt} {body : List Stmt} {g : Function} :
    CallsIn fns (s :: body) g ↔
      (∃ c ∈ s.calls, fns.function? c.1 = some g) ∨ CallsIn fns body g := by
  simp [CallsIn]

/-- A function that a block calls is in the table. -/
theorem CallsIn.mem {body : List Stmt} {g : Function} (h : CallsIn fns body g) : g ∈ fns := by
  obtain ⟨s, -, c, -, hc⟩ := h
  exact List.mem_of_find?_eq_some hc

/-- Only which names are known matters, not their order. -/
theorem Stmt.FitsIn.congr {scope' : List Name} (hscope : ∀ x, x ∈ scope ↔ x ∈ scope') {s : Stmt}
    (h : s.FitsIn fns scope) : s.FitsIn fns scope' :=
  ⟨fun x hx => (hscope x).mp (h.vars x hx), h.calls, fun x hx => (hscope x).mp (h.assigned x hx),
    fun x hx hmem => h.declared x hx ((hscope x).mpr hmem)⟩

end SumLang
