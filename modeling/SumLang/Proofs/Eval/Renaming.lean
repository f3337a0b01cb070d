import Mathlib.Data.Set.Operations
import SumLang.Proofs.Eval.NormalForm
import SumLang.Proofs.Eval.Origin
import SumLang.Proofs.Syntax.Scope

/-!
# Runs with renamed variables

The variables of each frame are renamed by a renaming of its own. As long as the names of a
frame are kept apart, the run of the renamed code takes the same steps: every store holds
the same values in the same order under the new names, and an error about a variable
names it as the frame that raised the error does. The names of functions stay, so that a
variable may come to have the name of a function.
-/

namespace SumLang

/-- A renaming of the variables for the frames of each owner. -/
abbrev Renaming := Name → Name → Name

/-! ### Renamed syntax -/

mutual

/-- The expression with its variables renamed. -/
def Expr.rename (σ : Name → Name) : Expr → Expr
  | .lit value line => .lit value line
  | .var name line => .var (σ name) line
  | .add lhs rhs line => .add (lhs.rename σ) (rhs.rename σ) line
  | .call name args line => .call name (Expr.renameAll σ args) line
  | .alien tag fields line => .alien tag fields line

/-- The expressions with their variables renamed. -/
def Expr.renameAll (σ : Name → Name) : List Expr → List Expr
  | [] => []
  | e :: es => e.rename σ :: Expr.renameAll σ es

end

/-- The statement with its variables renamed. -/
def Stmt.rename (σ : Name → Name) : Stmt → Stmt
  | .decl name value line => .decl (σ name) (value.rename σ) line
  | .assign name value line => .assign (σ name) (value.rename σ) line
  | .ret value line => .ret (value.rename σ) line
  | .alien tag fields line => .alien tag fields line

/-- The names of variables that a statement declares, assigns to or reads. -/
def Stmt.variables (s : Stmt) : List Name := s.declared?.toList ++ s.assigned?.toList ++ s.vars

/-- The function with its parameters and variables renamed as its frames are. -/
def Function.rename (ρ : Renaming) (f : Function) : Function :=
  ⟨f.name, f.params.map (ρ f.name), f.body.map (Stmt.rename (ρ f.name)), f.line⟩

/-- The names of the parameters and variables of a function. -/
def Function.variables (f : Function) : List Name := f.params ++ f.body.flatMap Stmt.variables

/-- The functions with their parameters and variables renamed. -/
def FunctionTable.rename (ρ : Renaming) (fns : FunctionTable) : FunctionTable :=
  fns.map (Function.rename ρ)

/-- The renaming gives different names to different variables out of `scope`. -/
def KeepsApart (σ : Name → Name) (scope : List Name) : Prop := Set.InjOn σ {x | x ∈ scope}

private theorem Expr.length_renameAll (σ : Name → Name) (es : List Expr) :
    (Expr.renameAll σ es).length = es.length := by
  induction es with
  | nil => rfl
  | cons e es ih => rw [Expr.renameAll, List.length_cons, List.length_cons, ih]

/-- A function is found under its own name also where variables are renamed. -/
theorem FunctionTable.function?_rename (ρ : Renaming) (fns : FunctionTable) (name : Name) :
    (fns.rename ρ).function? name = (fns.function? name).map (Function.rename ρ) :=
  List.find?_map

/-! ### Renamed stores and errors -/

/-- The store with the same values under new names. -/
def Store.rename (σ : Name → Name) (s : Store) : Store := ⟨s.entries.map fun e => (σ e.1, e.2)⟩

/-- The frame with its variables renamed. -/
def Frame.rename (σ : Name → Name) (frame : Frame) : Frame :=
  { frame with vars := frame.vars.rename σ }

/-- Whether the name that an error carries is the name of a variable. -/
def EvalFault.concernsVariable : EvalFault → Bool
  | undefinedVariable | redeclaration | undeclaredAssignment => true
  | general | undefinedFunction | arity .. | missingReturn | doubleReturn | strayReturn
  | operand => false

/-- The error with its variable renamed, if it carries the name of one. -/
def RunError.rename (σ : Name → Name) : RunError → RunError
  | .eval e => .eval (if e.fault.concernsVariable then { e with name := σ e.name } else e)
  | .alienExpr tag fields line => .alienExpr tag fields line
  | .alienStmt tag line => .alienStmt tag line
  | .depth => .depth

/-- The error with its variable renamed as in the frame that raised the error. -/
def Raised.rename (ρ : Renaming) (r : Raised) : RunError := r.error.rename (ρ r.owner)

section

variable {σ : Name → Name} {scope : List Name}

private theorem KeepsApart.eq_iff (h : KeepsApart σ scope) {x y : Name} (hx : x ∈ scope)
    (hy : y ∈ scope) : σ x = σ y ↔ x = y :=
  ⟨fun he => h hx hy he, fun he => congrArg σ he⟩

namespace Store

/-- A renamed variable has the value that it had. -/
theorem get?_rename (h : KeepsApart σ scope) {s : Store} (hs : s.names ⊆ scope) {x : Name}
    (hx : x ∈ scope) : (s.rename σ).get? (σ x) = s.get? x := by
  obtain ⟨entries⟩ := s
  simp only [rename, get?, names] at hs ⊢
  induction entries with
  | nil => rfl
  | cons e rest ih =>
    rw [List.map_cons, List.cons_subset] at hs
    have hkey : (σ x == σ e.1) = (x == e.1) := by
      rw [Bool.eq_iff_iff, beq_iff_eq, beq_iff_eq, h.eq_iff hx hs.1]
    rw [List.map_cons, List.lookup_cons, List.lookup_cons, hkey, ih hs.2]

private theorem contains_rename (h : KeepsApart σ scope) {s : Store} (hs : s.names ⊆ scope)
    {x : Name} (hx : x ∈ scope) : (s.rename σ).contains (σ x) = s.contains x := by
  rw [contains, contains, get?_rename h hs hx]

/-- Binding a renamed variable keeps its place as binding the variable does. -/
theorem set_rename (h : KeepsApart σ scope) {s : Store} (hs : s.names ⊆ scope) {x : Name}
    (hx : x ∈ scope) (v : Value) : (s.rename σ).set (σ x) v = (s.set x v).rename σ := by
  unfold set
  rw [contains_rename h hs hx]
  split
  · simp only [rename, List.map_map, mk.injEq]
    apply List.map_congr_left
    intro e he
    have hmem : e.1 ∈ scope := hs (List.mem_map_of_mem he)
    simp only [Function.comp_apply, h.eq_iff hmem hx]
    split <;> rfl
  · simp [rename]

private theorem names_set_subset {s : Store} (hs : s.names ⊆ scope) {x : Name} (hx : x ∈ scope)
    (v : Value) : (s.set x v).names ⊆ scope := by
  rw [names_set]
  split
  · exact hs
  · exact List.append_subset.mpr ⟨hs, List.cons_subset.mpr ⟨hx, List.nil_subset scope⟩⟩

/-- Arguments are bound to renamed parameters as to the parameters, and nothing else is bound. -/
theorem bind_rename (h : KeepsApart σ scope) {params : List Name} (hp : params ⊆ scope)
    (args : List Value) : bind (params.map σ) args = (bind params args).rename σ ∧
      (bind params args).names ⊆ scope := by
  have hfold (es : List (Name × Value)) (hes : ∀ e ∈ es, e.1 ∈ scope) {s : Store}
      (hs : s.names ⊆ scope) :
      es.foldl (fun s e => s.set (σ e.1) e.2) (s.rename σ) =
        (es.foldl (fun s e => s.set e.1 e.2) s).rename σ ∧
      (es.foldl (fun s e => s.set e.1 e.2) s).names ⊆ scope := by
    induction es generalizing s with
    | nil => exact ⟨rfl, hs⟩
    | cons e es ih =>
      rw [List.forall_mem_cons] at hes
      rw [List.foldl_cons, List.foldl_cons, set_rename h hs hes.1]
      exact ih hes.2 (names_set_subset hs hes.1 e.2)
  have hmem : ∀ e ∈ params.zip args, e.1 ∈ scope := fun e he => hp (List.of_mem_zip he).1
  rw [bind, bind, List.zip_map_left, List.foldl_map]
  exact hfold _ hmem (s := {}) (List.nil_subset scope)

end Store

end

/-! ### Renamed runs -/

section

variable {ρ : Renaming} {fns : FunctionTable} {call : MarkingCaller} {call' : Caller}
  {owner : Name} {scope : List Name}

/-- Calls of renamed functions end as calls of the functions, with errors renamed. -/
def RenamesCalls (ρ : Renaming) (fns : FunctionTable) (call : MarkingCaller) (call' : Caller) :
    Prop :=
  ∀ f ∈ fns, ∀ ws, call' (f.rename ρ) ws = (call f ws).mapError (Raised.rename ρ)

mutual

/-- A renamed expression has the value of the expression. -/
theorem Expr.eval_rename (hc : RenamesCalls ρ fns call call') (hρ : KeepsApart (ρ owner) scope)
    {vars : Store} (hv : vars.names ⊆ scope) : ∀ e : Expr, e.vars ⊆ scope →
    (e.rename (ρ owner)).eval (fns.rename ρ) call' (vars.rename (ρ owner)) =
      (e.evalMarked fns call owner vars).mapError (Raised.rename ρ)
  | .lit .., _ | .alien .., _ => rfl
  | .var name line, h => by
    rw [Expr.rename, Expr.eval, Expr.evalMarked, Store.get?_rename hρ hv (h List.mem_cons_self)]
    cases vars.get? name with
    | some v => rfl
    | none => rfl
  | .add lhs rhs line, h => by
    rw [Expr.vars, List.append_subset] at h
    rw [Expr.rename, Expr.eval, Expr.evalMarked]
    refine bind_eq_mapError (Expr.eval_rename hc hρ hv lhs h.1) fun a _ => ?_
    refine bind_eq_mapError (Expr.eval_rename hc hρ hv rhs h.2) fun b _ => ?_
    cases a.add b with
    | ok v => rfl
    | error v => rfl
  | .call name args line, h => by
    rw [Expr.rename, Expr.eval, Expr.evalMarked, FunctionTable.function?_rename]
    cases hf : fns.function? name with
    | none => rfl
    | some f =>
      have hparams : (f.rename ρ).params.length = f.params.length := List.length_map _
      simp only [Option.map_some, Expr.length_renameAll, hparams]
      split
      · refine bind_eq_mapError (Expr.evalAll_rename hc hρ hv args h) fun values _ => ?_
        exact hc f (List.mem_of_find?_eq_some hf) values
      · rfl

/-- Renamed expressions have the values of the expressions. -/
theorem Expr.evalAll_rename (hc : RenamesCalls ρ fns call call')
    (hρ : KeepsApart (ρ owner) scope) {vars : Store} (hv : vars.names ⊆ scope) :
    ∀ es : List Expr, Expr.varsAll es ⊆ scope →
    Expr.evalAll (fns.rename ρ) call' (vars.rename (ρ owner)) (Expr.renameAll (ρ owner) es) =
      (Expr.evalAllMarked fns call owner vars es).mapError (Raised.rename ρ)
  | [], _ => rfl
  | e :: es, h => by
    rw [Expr.varsAll, List.append_subset] at h
    rw [Expr.renameAll, Expr.evalAll, Expr.evalAllMarked]
    refine bind_eq_mapError (Expr.eval_rename hc hρ hv e h.1) fun v _ => ?_
    exact bind_eq_mapError (Expr.evalAll_rename hc hρ hv es h.2) fun vs _ => rfl

end

namespace Frame

/-- What follows the value of an expression is renamed when it is for each value. -/
theorem bind_return_rename {x : Except Raised Value} {x' : Except RunError Value}
    {k k' : Value → Frame} (hx : x' = x.mapError (Raised.rename ρ))
    (hk : ∀ v, k' v = (k v).rename (ρ owner)) :
    (do let v ← x'; return k' v) =
      ((do let v ← x; return k v : Except Raised Frame).map (rename (ρ owner))).mapError
        (Raised.rename ρ) := by
  subst hx
  cases x with
  | error r => rfl
  | ok v => exact congrArg Except.ok (hk v)

/-- A renamed statement leads to the renamed frame. -/
theorem exec_rename (hc : RenamesCalls ρ fns call call') (hρ : KeepsApart (ρ owner) scope)
    {frame : Frame} (hf : frame.Belongs owner scope) {s : Stmt} (hs : s.variables ⊆ scope) :
    (frame.rename (ρ owner)).exec (fns.rename ρ) call' (s.rename (ρ owner)) =
      ((frame.execMarked fns call s).map (rename (ρ owner))).mapError (Raised.rename ρ) := by
  obtain ⟨rfl, hnames⟩ := hf
  have hvars : (frame.rename (ρ frame.owner)).vars = frame.vars.rename (ρ frame.owner) := rfl
  have hset {x : Name} (hx : x ∈ scope) (v : Value) :
      { frame.rename (ρ frame.owner) with
        vars := (frame.vars.rename (ρ frame.owner)).set (ρ frame.owner x) v } =
      ({ frame with vars := frame.vars.set x v } : Frame).rename (ρ frame.owner) := by
    rw [Store.set_rename hρ hnames hx]
    rfl
  cases s with
  | decl name value line =>
    obtain ⟨hname, hvalue⟩ := List.cons_subset.mp hs
    rw [Stmt.rename, exec, execMarked, hvars, Store.contains_rename hρ hnames hname]
    by_cases hbound : frame.vars.contains name
    · rw [if_pos hbound, if_pos hbound]
      rfl
    · rw [if_neg hbound, if_neg hbound]
      exact bind_return_rename (Expr.eval_rename hc hρ hnames value hvalue) (hset hname)
  | assign name value line =>
    obtain ⟨hname, hvalue⟩ := List.cons_subset.mp hs
    rw [Stmt.rename, exec, execMarked, hvars, Store.contains_rename hρ hnames hname]
    by_cases hbound : frame.vars.contains name
    · rw [if_pos hbound, if_pos hbound]
      exact bind_return_rename (Expr.eval_rename hc hρ hnames value hvalue) (hset hname)
    · rw [if_neg hbound, if_neg hbound]
      rfl
  | ret value line =>
    rw [Stmt.rename, exec, execMarked, hvars]
    change (if frame.result.isNull then _ else _) = _
    by_cases hnull : frame.result.isNull
    · rw [if_pos hnull, if_pos hnull]
      exact bind_return_rename (Expr.eval_rename hc hρ hnames value hs) fun v => rfl
    · rw [if_neg hnull, if_neg hnull]
      rfl
  | alien tag fields line => rfl

/-- A statement leads from a frame of an owner to a frame of the same owner. -/
theorem Belongs.execMarked {frame next : Frame} (hf : frame.Belongs owner scope) {s : Stmt}
    (hs : s.variables ⊆ scope) (h : frame.execMarked fns call s = .ok next) :
    next.Belongs owner scope := by
  cases s with
  | decl name value line =>
    rw [Frame.execMarked] at h
    split at h
    · contradiction
    · obtain ⟨v, -, rfl⟩ := bind_return_eq_ok.mp h
      exact ⟨hf.owner, Store.names_set_subset hf.names (hs List.mem_cons_self) v⟩
  | assign name value line =>
    rw [Frame.execMarked] at h
    split at h
    · obtain ⟨v, -, rfl⟩ := bind_return_eq_ok.mp h
      exact ⟨hf.owner, Store.names_set_subset hf.names (hs List.mem_cons_self) v⟩
    · contradiction
  | ret value line =>
    rw [Frame.execMarked] at h
    split at h
    · obtain ⟨v, -, rfl⟩ := bind_return_eq_ok.mp h
      exact ⟨hf.owner, hf.names⟩
    · contradiction
  | alien tag fields line => contradiction

/-- A renamed block leads to the renamed frame. -/
theorem run_rename (hc : RenamesCalls ρ fns call call') (hρ : KeepsApart (ρ owner) scope)
    {frame : Frame} (hf : frame.Belongs owner scope) {body : List Stmt}
    (hs : ∀ s ∈ body, s.variables ⊆ scope) :
    (frame.rename (ρ owner)).run (fns.rename ρ) call' (body.map (Stmt.rename (ρ owner))) =
      ((frame.runMarked fns call body).map (rename (ρ owner))).mapError (Raised.rename ρ) := by
  induction body generalizing frame with
  | nil => rfl
  | cons s body ih =>
    rw [List.forall_mem_cons] at hs
    rw [List.map_cons, run, runMarked, List.foldlM_cons, List.foldlM_cons,
      exec_rename hc hρ hf hs.1]
    cases hexec : frame.execMarked fns call s with
    | error r => rfl
    | ok next => exact ih (hf.execMarked hs.1 hexec) hs.2

end Frame

/-- Under every limit, calls of renamed functions end as calls of the functions. -/
theorem renamesCalls (h : ∀ f ∈ fns, KeepsApart (ρ f.name) f.variables) (n : Nat) :
    RenamesCalls ρ fns (Function.callMarked fns n) (Function.call (fns.rename ρ) n) := by
  induction n with
  | zero => exact fun _ _ _ => rfl
  | succ n ih =>
    intro f hf ws
    obtain ⟨hbind, hnames⟩ := Store.bind_rename (h f hf) (List.subset_append_left _ _) ws
    have hframe : (f.rename ρ).frame ws = (f.frame ws).rename (ρ f.name) := by
      rw [Function.frame, Frame.rename, Function.frame, ← hbind]
      rfl
    have hbody : ∀ s ∈ f.body, s.variables ⊆ f.variables := fun s hs x hx =>
      List.mem_append_right _ (List.mem_flatMap.mpr ⟨s, hs, hx⟩)
    have hstart : (f.frame ws).Belongs f.name f.variables := ⟨rfl, hnames⟩
    have hrun := Frame.run_rename ih (h f hf) hstart hbody
    rw [← hframe] at hrun
    rw [Function.callMarked, Function.call]
    change ((f.rename ρ).frame ws).run (fns.rename ρ) _ (f.body.map _) >>= _ = _
    rw [hrun]
    cases (f.frame ws).runMarked fns (Function.callMarked fns n) f.body with
    | error r => rfl
    | ok final =>
      change (if final.result.isNull then _ else _) = Except.mapError _ (if _ then _ else _)
      by_cases hnull : final.result.isNull
      · rw [if_pos hnull, if_pos hnull]
        rfl
      · rw [if_neg hnull, if_neg hnull]
        rfl

end

end SumLang
