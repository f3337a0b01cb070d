import SumLang.Proofs.Eval.Depth

/-!
# Runs do not depend on data

The trail of a run lists the statements it executes, in order, those of the calls it
carries out in between. Integers passed to a function decide neither how the call ends
nor its trail: both runs return, both fail at the same place in the same way, or both are
cut short. The number of arguments need not be the number of parameters.
-/

namespace SumLang

/-! ### Trails -/

/-- A statement, and the function in whose frame it is executed. -/
structure TrailStep where
  owner : Name
  stmt : Stmt
  deriving DecidableEq

/-- What is executed after a computation, which is nothing when the computation fails. -/
def onward {α : Type} : Except RunError α → (α → List TrailStep) → List TrailStep
  | .ok a, next => next a
  | .error _, _ => []

section

variable (fns : FunctionTable) (call : Caller) (calls : Function → List Value → List TrailStep)

mutual

/-- The statements that are executed in the calls of an expression, where `calls` gives those of a
single call. -/
def Expr.trail (vars : Store) : Expr → List TrailStep
  | .lit .. | .var .. | .alien .. => []
  | .add lhs rhs _ => lhs.trail vars ++ onward (lhs.eval fns call vars) fun _ => rhs.trail vars
  | .call name args _ =>
    match fns.function? name with
    | none => []
    | some f =>
      if args.length = f.params.length then
        Expr.trailAll vars args ++ onward (Expr.evalAll fns call vars args) (calls f)
      else []

/-- The statements that are executed in the calls of some expressions, from left to right. -/
def Expr.trailAll (vars : Store) : List Expr → List TrailStep
  | [] => []
  | e :: es => e.trail vars ++ onward (e.eval fns call vars) fun _ => Expr.trailAll vars es

end

/-- The statements that are executed in the calls of a statement. -/
def Stmt.trail (frame : Frame) : Stmt → List TrailStep
  | .decl name value _ =>
    if frame.vars.contains name then [] else value.trail fns call calls frame.vars
  | .assign name value _ =>
    if frame.vars.contains name then value.trail fns call calls frame.vars else []
  | .ret value _ => if frame.result.isNull then value.trail fns call calls frame.vars else []
  | .alien .. => []

/-- The statements that are executed when a block is run, up to the one that fails. -/
def Frame.trail (frame : Frame) : List Stmt → List TrailStep
  | [] => []
  | s :: rest => ⟨frame.owner, s⟩ :: s.trail fns call calls frame ++
      onward (frame.exec fns call s) fun next => next.trail rest

end

/-- The statements that a call executes when at most `limit` calls may be active at once. -/
def Function.trail (fns : FunctionTable) : (limit : Nat) → Function → List Value → List TrailStep
  | 0, _, _ => []
  | limit + 1, f, args =>
    (f.frame args).trail fns (Function.call fns limit) (Function.trail fns limit) f.body

/-! ### Related runs have the same trail -/

/-- Calls of the functions of a table with related arguments have the same trail. -/
def TrailsAgree (V : Value → Value → Prop) (fns : FunctionTable)
    (calls : Function → List Value → List TrailStep) : Prop :=
  ∀ f ∈ fns, ∀ ws ws', List.Forall₂ V ws ws' → calls f ws = calls f ws'

private theorem onward_congr {α : Type} {S : α → α → Prop} {x y : Except RunError α}
    {k k' : α → List TrailStep} (h : Follows False S x y) (hk : ∀ a b, S a b → k a = k' b) :
    onward x k = onward y k' := by
  cases h with
  | ok h => exact hk _ _ h
  | error e => rfl
  | cutShort h y => exact h.elim

section

variable {V : Value → Value → Prop} {fns : FunctionTable} {call : Caller}
  {calls : Function → List Value → List TrailStep}

mutual

/-- In related stores an expression has the same trail. -/
theorem Expr.trail_related (hV : ValueRelation V) (hc : CallersRelated False V fns call call)
    (ht : TrailsAgree V fns calls) {vars vars' : Store} (hs : vars.Related V vars') :
    ∀ e : Expr, e.Literals (fun v => V v v) →
    e.trail fns call calls vars = e.trail fns call calls vars'
  | .lit .., _ | .var .., _ | .alien .., _ => rfl
  | .add lhs rhs line, h => by
    have hlhs := lhs.eval_related hV hc hs h.1
    rw [Expr.trail, Expr.trail, lhs.trail_related hV hc ht hs h.1]
    rw [onward_congr hlhs fun _ _ _ => rhs.trail_related hV hc ht hs h.2]
  | .call name args line, h => by
    rw [Expr.trail, Expr.trail]
    cases hf : fns.function? name with
    | none => rfl
    | some f =>
      have hargs := Expr.evalAll_related hV hc hs args h
      have hcall := onward_congr hargs fun ws ws' hws =>
        ht f (List.mem_of_find?_eq_some hf) ws ws' hws.1
      dsimp only
      rw [Expr.trailAll_related hV hc ht hs args h, hcall]

private theorem Expr.trailAll_related (hV : ValueRelation V)
    (hc : CallersRelated False V fns call call) (ht : TrailsAgree V fns calls)
    {vars vars' : Store} (hs : vars.Related V vars') :
    ∀ es : List Expr, Expr.LiteralsAll (fun v => V v v) es →
    Expr.trailAll fns call calls vars es = Expr.trailAll fns call calls vars' es
  | [], _ => rfl
  | e :: es, h => by
    have he := e.eval_related hV hc hs h.1
    rw [Expr.trailAll, Expr.trailAll, e.trail_related hV hc ht hs h.1]
    rw [onward_congr he fun _ _ _ => Expr.trailAll_related hV hc ht hs es h.2]

end

/-- In related frames a statement has the same trail. -/
theorem Stmt.trail_related (hV : ValueRelation V) (hc : CallersRelated False V fns call call)
    (ht : TrailsAgree V fns calls) {frame frame' : Frame} (hf : frame.Related V frame') {s : Stmt}
    (h : s.Literals fun v => V v v) :
    s.trail fns call calls frame = s.trail fns call calls frame' := by
  cases s with
  | decl name value line =>
    rw [trail, trail, hf.vars.contains_eq name, value.trail_related hV hc ht hf.vars h]
  | assign name value line =>
    rw [trail, trail, hf.vars.contains_eq name, value.trail_related hV hc ht hf.vars h]
  | ret value line =>
    rw [trail, trail, hf.isNull_eq hV, value.trail_related hV hc ht hf.vars h]
  | alien tag fields line => rfl

/-- From related frames a block has the same trail. -/
theorem Frame.trail_related (hV : ValueRelation V) (hc : CallersRelated False V fns call call)
    (ht : TrailsAgree V fns calls) {frame frame' : Frame} (hf : frame.Related V frame')
    {body : List Stmt} (h : ∀ s ∈ body, s.Literals fun v => V v v) :
    frame.trail fns call calls body = frame'.trail fns call calls body := by
  induction body generalizing frame frame' with
  | nil => rfl
  | cons s body ih =>
    rw [List.forall_mem_cons] at h
    have hnext := onward_congr (exec_related hV hc hf h.1) fun g g' hg => ih hg h.2
    rw [trail, trail, hf.owner, Stmt.trail_related hV hc ht hf h.1, hnext]

/-- Under every limit, calls with related arguments have the same trail. -/
theorem Function.trailsAgree (hV : ValueRelation V)
    (h : ∀ f ∈ fns, ∀ s ∈ f.body, s.Literals fun v => V v v) (limit : Nat) :
    TrailsAgree V fns (Function.trail fns limit) := by
  induction limit with
  | zero => exact fun _ _ _ _ _ => rfl
  | succ limit ih =>
    intro f hf ws ws' hws
    exact Frame.trail_related hV (callersRelated_self hV h limit) ih (f.frame_related hws) (h f hf)

end

/-! ### Calls with integers -/

/-- Integers in equal number are related. -/
theorem forall₂_bothInt {ms ns : List Int} (h : ms.length = ns.length) :
    List.Forall₂ Value.BothInt (ms.map .int) (ns.map .int) := by
  rw [List.forall₂_map_left_iff, List.forall₂_map_right_iff, List.forall₂_iff_get]
  exact ⟨h, fun i hi hi' => ⟨⟨_, rfl⟩, _, rfl⟩⟩

/-- Calls with integers follow each other, also when there are fewer or more of them than
parameters. -/
theorem Function.call_follows_bothInt {fns : FunctionTable} (hfns : fns.Numeric) (limit : Nat)
    {f : Function} (hf : f ∈ fns) {ws ws' : List Value} (hws : List.Forall₂ Value.BothInt ws ws') :
    Follows False Value.BothInt (Function.call fns limit f ws) (Function.call fns limit f ws') := by
  cases limit with
  | zero => exact .error _
  | succ limit =>
    exact Function.call_succ_related valueRelation_bothInt (callersRelated_bothInt hfns limit)
      (hfns f hf) hws

/-- In a program that a text describes, two calls of a function with equally many integers both
return an integer or both fail with the same error, and they execute the same statements in the same
order. -/
theorem Function.call_independent_of_data {code : Text} {p : Program}
    (h : Program.ofText code = .ok p) {f : Function} (hf : f ∈ p.functions) {ms ns : List Int}
    (hlen : ms.length = ns.length) (limit : Nat) :
    ((∃ m n : Int, Function.call p.functions limit f (ms.map .int) = .ok (.int m) ∧
        Function.call p.functions limit f (ns.map .int) = .ok (.int n)) ∨
      ∃ e, Function.call p.functions limit f (ms.map .int) = .error e ∧
        Function.call p.functions limit f (ns.map .int) = .error e) ∧
    f.trail p.functions limit (ms.map .int) = f.trail p.functions limit (ns.map .int) := by
  have hfns := (Program.wellWritten_ofText h).numeric.functions
  have hargs := forall₂_bothInt hlen
  refine ⟨?_, Function.trailsAgree valueRelation_bothInt hfns limit f hf _ _ hargs⟩
  have hfollows := Function.call_follows_bothInt hfns limit hf hargs
  revert hfollows
  generalize Function.call p.functions limit f (ms.map .int) = x
  generalize Function.call p.functions limit f (ns.map .int) = y
  rintro (⟨⟨m, rfl⟩, n, rfl⟩ | e | hcut)
  · exact Or.inl ⟨m, n, rfl, rfl⟩
  · exact Or.inr ⟨e, rfl, rfl⟩
  · exact hcut.elim

/-- With one argument too many, a negative or a large first argument leads to the same undefined
variable two calls down, over the same statements. -/
theorem Function.call_undefined_whatever_integers :
    let code := "func g(a) \x7b return a + b; \x7d
      func f(a) \x7b var c = g(a); return c; \x7d begin \x7b \x7d"
    ∃ p f, Program.ofText code = .ok p ∧ f ∈ p.functions ∧
      Function.call p.functions 2 f [.int (-5), .int 3] =
        .error (.eval { fault := .undefinedVariable, name := "b", line := some 1 }) ∧
      Function.call p.functions 2 f [.int 1099511627776, .int 0] =
        .error (.eval { fault := .undefinedVariable, name := "b", line := some 1 }) ∧
      f.trail p.functions 2 [.int 1099511627776, .int 0] =
        [⟨"f", .decl "c" (.call "g" [.var "a" 2] 2) 2⟩,
          ⟨"g", .ret (.add (.var "a" 1) (.var "b" 1) 1) 1⟩] := by
  intro code
  have hp : Program.ofText code =
      .ok ⟨[], [⟨"g", ["a"], [.ret (.add (.var "a" 1) (.var "b" 1) 1) 1], 1⟩,
        ⟨"f", ["a"], [.decl "c" (.call "g" [.var "a" 2] 2) 2, .ret (.var "c" 2) 2], 2⟩]⟩ := by
    decide +kernel
  obtain ⟨houtcome, htrail⟩ := @Function.call_independent_of_data _ _ hp _
    (List.mem_cons_of_mem _ List.mem_cons_self) [-5, 3] [1099511627776, 0] rfl 2
  refine ⟨_, _, hp, List.mem_cons_of_mem _ List.mem_cons_self, rfl, ?_, htrail.symm.trans rfl⟩
  rcases houtcome with ⟨m, n, hm, -⟩ | ⟨e, he, he'⟩
  · exact nomatch hm
  · obtain rfl := Except.error.inj he
    exact he'

end SumLang
