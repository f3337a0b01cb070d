import SumLang.Proofs.Eval.Success
import SumLang.Proofs.Program.WellFormed

/-!
# Errors point at faults

Each error of a run can be read off the program: it names the line of a node, statement
or function that is at fault, in the entry block or in a function that can be reached from
it. Which names are known at a place is decided by the parameters and the declarations
before it, and a run knows exactly these names when it comes there.
-/

namespace SumLang

/-! ### Nodes -/

mutual

/-- The expression and all expressions inside of it. -/
def Expr.nodes : Expr → List Expr
  | .lit value line => [.lit value line]
  | .var name line => [.var name line]
  | .add lhs rhs line => .add lhs rhs line :: (lhs.nodes ++ rhs.nodes)
  | .call name args line => .call name args line :: Expr.nodesAll args
  | .alien tag fields line => [.alien tag fields line]

/-- Some expressions and all expressions inside of them. -/
def Expr.nodesAll : List Expr → List Expr
  | [] => []
  | e :: es => e.nodes ++ Expr.nodesAll es

end

/-- All expressions in a statement. -/
def Stmt.nodes : Stmt → List Expr
  | .decl _ value _ | .assign _ value _ | .ret value _ => value.nodes
  | .alien .. => []

section

variable {name : Name} {args : List Expr} {line : Int}

mutual

private theorem Expr.mem_calls_of_mem_nodes :
    ∀ e : Expr, .call name args line ∈ e.nodes → (name, args.length) ∈ e.calls
  | .lit .., h | .var .., h | .alien .., h => by simp [Expr.nodes] at h
  | .add lhs rhs _, h => by
    simp only [Expr.nodes, List.mem_cons, reduceCtorEq, List.mem_append, false_or] at h
    rw [Expr.calls, List.mem_append]
    exact h.imp lhs.mem_calls_of_mem_nodes rhs.mem_calls_of_mem_nodes
  | .call name' args' line', h => by
    rw [Expr.nodes, List.mem_cons] at h
    rw [Expr.calls, List.mem_cons]
    refine h.imp (fun heq => ?_) (Expr.mem_callsAll_of_mem_nodesAll args')
    cases heq
    rfl

private theorem Expr.mem_callsAll_of_mem_nodesAll :
    ∀ es : List Expr, .call name args line ∈ Expr.nodesAll es →
      (name, args.length) ∈ Expr.callsAll es
  | [], h => nomatch h
  | e :: es, h => by
    rw [Expr.nodesAll, List.mem_append] at h
    rw [Expr.callsAll, List.mem_append]
    exact h.imp e.mem_calls_of_mem_nodes (Expr.mem_callsAll_of_mem_nodesAll es)

end

/-- A call among the expressions of a statement is one of its calls. -/
theorem Stmt.mem_calls_of_mem_nodes {s : Stmt} (h : .call name args line ∈ s.nodes) :
    (name, args.length) ∈ s.calls := by
  cases s with
  | decl _ value _ => exact value.mem_calls_of_mem_nodes h
  | assign _ value _ => exact value.mem_calls_of_mem_nodes h
  | ret value _ => exact value.mem_calls_of_mem_nodes h
  | alien => contradiction

end

/-! ### Faults -/

/-- Where the names `scope` are known, one of the expressions `nodes` is at fault: a variable is
unknown, or a call names no function or has the wrong number of arguments. -/
inductive NodeFault (fns : FunctionTable) (scope : List Name) (nodes : List Expr) :
    EvalError → Prop
  | undefinedVariable {name : Name} {line : Int} (h : .var name line ∈ nodes) (hn : name ∉ scope) :
      NodeFault fns scope nodes { fault := .undefinedVariable, name := name, line := line }
  | undefinedFunction {name : Name} {args : List Expr} {line : Int}
      (h : .call name args line ∈ nodes) (hf : fns.function? name = none) :
      NodeFault fns scope nodes { fault := .undefinedFunction, name := name, line := line }
  | arity {name : Name} {args : List Expr} {line : Int} {f : Function}
      (h : .call name args line ∈ nodes) (hf : fns.function? name = some f)
      (hne : f.params.length ≠ args.length) :
      NodeFault fns scope nodes
        { fault := .arity f.params.length args.length, name := name, line := line }

namespace Program

/-- The statement stands in the entry block or in the body of a function that can be reached, at a
place where the names `scope` are known: the parameters and what earlier statements declare. -/
inductive Places (p : Program) : List Name → Stmt → Prop
  | entry {before after : List Stmt} {s : Stmt} (h : p.entry = before ++ s :: after) :
      Places p (declared before) s
  | body {f : Function} {before after : List Stmt} {s : Stmt} (hf : p.Reaches f)
      (h : f.body = before ++ s :: after) : Places p (f.params ++ declared before) s

/-- The program has the fault that an error reports. -/
inductive HasFault (p : Program) : EvalError → Prop
  | node {scope : List Name} {s : Stmt} {err : EvalError} (hs : p.Places scope s)
      (h : NodeFault p.functions scope s.nodes err) : HasFault p err
  | redeclaration {scope : List Name} {name : Name} {value : Expr} {line : Int}
      (hs : p.Places scope (.decl name value line)) (h : name ∈ scope) :
      HasFault p { fault := .redeclaration, name := name, line := line }
  | undeclaredAssignment {scope : List Name} {name : Name} {value : Expr} {line : Int}
      (hs : p.Places scope (.assign name value line)) (h : name ∉ scope) :
      HasFault p { fault := .undeclaredAssignment, name := name, line := line }
  /-- The function has no return statement. -/
  | missingReturn {f : Function} (hf : p.Reaches f) (h : f.body.countP Stmt.isReturn = 0) :
      HasFault p { fault := .missingReturn, name := f.name, line := f.line }
  /-- The second return statement of the function stands on the line. -/
  | doubleReturn {f : Function} {before after : List Stmt} {value : Expr} {line : Int}
      (hf : p.Reaches f) (hb : f.body = before ++ .ret value line :: after)
      (h : before.countP Stmt.isReturn = 1) :
      HasFault p { fault := .doubleReturn, name := f.name, line := line }
  /-- The first return statement of the entry block stands on the line. -/
  | strayReturn {before after : List Stmt} {value : Expr} {line : Int}
      (hb : p.entry = before ++ .ret value line :: after)
      (h : before.countP Stmt.isReturn = 0) :
      HasFault p { fault := .strayReturn, name := "begin", line := line }

/-- The run was cut short, or the program has the fault that is reported. -/
def Explains (p : Program) (r : RunError) : Prop :=
  r = .depth ∨ ∃ err, r = .eval err ∧ p.HasFault err

/-- What a statement of the program calls can be reached. -/
theorem Places.reaches {p : Program} {scope : List Name} {s : Stmt} (h : p.Places scope s)
    {c : Name × Nat} (hc : c ∈ s.calls) {g : Function} (hg : p.functions.function? c.1 = some g) :
    p.Reaches g := by
  cases h with
  | entry h => exact .entry ⟨s, by simp [h], c, hc, hg⟩
  | body hf h => exact hf.call ⟨s, by simp [h], c, hc, hg⟩

end Program

/-! ### Expressions that fail -/

/-- An expression among `nodes` is at fault, or a call among them fails in the same way. -/
inductive NodesFail (fns : FunctionTable) (call : Caller) (scope : List Name)
    (nodes : List Expr) : RunError → Prop
  | fault {err : EvalError} (h : NodeFault fns scope nodes err) :
      NodesFail fns call scope nodes (.eval err)
  | call {name : Name} {args : List Expr} {line : Int} {f : Function} {ws : List Value}
      {r : RunError} (hn : .call name args line ∈ nodes) (hf : fns.function? name = some f)
      (hw : ProperCall fns f ws) (h : call f ws = .error r) : NodesFail fns call scope nodes r

section

variable {fns : FunctionTable} {call : Caller} {scope : List Name} {nodes nodes' : List Expr}
  {r : RunError}

/-- A fault at one of some nodes is a fault at one of more nodes. -/
theorem NodeFault.mono {err : EvalError} (hsub : nodes ⊆ nodes')
    (h : NodeFault fns scope nodes err) : NodeFault fns scope nodes' err := by
  cases h with
  | undefinedVariable h hn => exact .undefinedVariable (hsub h) hn
  | undefinedFunction h hf => exact .undefinedFunction (hsub h) hf
  | arity h hf hne => exact .arity (hsub h) hf hne

/-- A failure at one of some nodes is a failure at one of more nodes. -/
theorem NodesFail.mono (hsub : nodes ⊆ nodes') (h : NodesFail fns call scope nodes r) :
    NodesFail fns call scope nodes' r := by
  cases h with
  | fault h => exact .fault (h.mono hsub)
  | call hn hf hw h => exact .call (hsub hn) hf hw h

variable {vars : Store}

mutual

/-- Where a well-written expression fails on integers, one of its nodes is at fault or a call in it
has failed. -/
theorem Expr.nodesFail_of_eval (hc : CallersRelated False Value.BothInt fns call call)
    (hv : vars.Related Value.BothInt vars) (hscope : ∀ x ∈ scope, x ∈ vars.names) :
    ∀ e : Expr, e.WellWritten → e.eval fns call vars = .error r →
    NodesFail fns call scope e.nodes r
  | .lit .., _, h => nomatch h
  | .var name line, _, h => by
    rw [Expr.eval] at h
    split at h
    · contradiction
    · next hget =>
      obtain rfl := Except.error.inj h
      refine .fault (.undefinedVariable List.mem_cons_self fun hmem => ?_)
      have hbound := Store.contains_iff.mpr (hscope name hmem)
      rw [Store.contains, hget] at hbound
      contradiction
  | .add lhs rhs line, hw, h => by
    rw [Expr.eval, bind_eq_error] at h
    rw [Expr.nodes]
    rcases h with h | ⟨a, ha, h⟩
    · refine (lhs.nodesFail_of_eval hc hv hscope hw.1 h).mono ?_
      exact List.subset_cons_of_subset _ (List.subset_append_left ..)
    · rcases bind_eq_error.mp h with h | ⟨b, hb, h⟩
      · refine (rhs.nodesFail_of_eval hc hv hscope hw.2 h).mono ?_
        exact List.subset_cons_of_subset _ (List.subset_append_right ..)
      · -- Integers can always be added.
        obtain ⟨m, rfl⟩ := Expr.isInt_of_eval hc hv hw.1 ha
        obtain ⟨n, rfl⟩ := Expr.isInt_of_eval hc hv hw.2 hb
        contradiction
  | .call name args line, hw, h => by
    rw [Expr.eval] at h
    split at h
    · next hf =>
      obtain rfl := Except.error.inj h
      exact .fault (.undefinedFunction List.mem_cons_self hf)
    · next f hf =>
      by_cases hlen : args.length = f.params.length
      · rw [if_pos hlen] at h
        rcases bind_eq_error.mp h with h | ⟨ws, hws, h⟩
        · exact (Expr.nodesFail_of_evalAll hc hv hscope args hw.2 h).mono (List.subset_cons_self ..)
        · have hproper := Expr.properCall_of_evalAll hc hv (hw.2.literals Value.IsWord.bothInt) hws
            (List.mem_of_find?_eq_some hf) hlen
          exact .call List.mem_cons_self hf hproper h
      · rw [if_neg hlen] at h
        obtain rfl := Except.error.inj h
        exact .fault (.arity List.mem_cons_self hf (Ne.symm hlen))
  | .alien .., hw, _ => hw.elim

private theorem Expr.nodesFail_of_evalAll (hc : CallersRelated False Value.BothInt fns call call)
    (hv : vars.Related Value.BothInt vars) (hscope : ∀ x ∈ scope, x ∈ vars.names) :
    ∀ es : List Expr, Expr.WellWrittenAll es → Expr.evalAll fns call vars es = .error r →
    NodesFail fns call scope (Expr.nodesAll es) r
  | [], _, h => nomatch h
  | e :: es, hw, h => by
    rw [Expr.evalAll, bind_eq_error] at h
    rw [Expr.nodesAll]
    rcases h with h | ⟨v, -, h⟩
    · exact (e.nodesFail_of_eval hc hv hscope hw.1 h).mono (List.subset_append_left ..)
    · rcases bind_eq_error.mp h with h | ⟨vs, -, h⟩
      · exact (Expr.nodesFail_of_evalAll hc hv hscope es hw.2 h).mono (List.subset_append_right ..)
      · contradiction

end

end

/-! ### Blocks that fail -/

namespace Frame

variable {fns : FunctionTable} {call : Caller} {frame frame' : Frame}

/-- A statement keeps the owner of the frame. -/
theorem owner_of_exec {s : Stmt} (h : frame.exec fns call s = .ok frame') :
    frame'.owner = frame.owner := by
  cases s with
  | decl name value line =>
    obtain ⟨-, v, -, rfl⟩ := exec_decl_eq_ok.mp h
    rfl
  | assign name value line =>
    obtain ⟨-, v, -, rfl⟩ := exec_assign_eq_ok.mp h
    rfl
  | ret value line =>
    obtain ⟨-, v, -, rfl⟩ := exec_ret_eq_ok.mp h
    rfl
  | alien tag fields line => contradiction

private theorem owner_of_run {body : List Stmt} (h : frame.run fns call body = .ok frame') :
    frame'.owner = frame.owner := by
  induction body generalizing frame with
  | nil => rw [← Except.ok.inj h]
  | cons s body ih =>
    obtain ⟨next, hs, hbody⟩ := run_cons_eq_ok.mp h
    rw [ih hbody, owner_of_exec hs]

/-- A block that fails fails at one of its statements, after those before it have ended well. -/
theorem exists_failing {body : List Stmt} {r : RunError}
    (h : frame.run fns call body = .error r) :
    ∃ before s after mid, body = before ++ s :: after ∧ frame.run fns call before = .ok mid ∧
      mid.exec fns call s = .error r := by
  induction body generalizing frame with
  | nil => contradiction
  | cons s body ih =>
    rw [run, List.foldlM_cons] at h
    rcases bind_eq_error.mp h with hs | ⟨next, hs, hbody⟩
    · exact ⟨[], s, body, frame, rfl, rfl, hs⟩
    · obtain ⟨before, t, after, mid, rfl, hbefore, ht⟩ := ih hbody
      exact ⟨s :: before, t, after, mid, rfl, run_cons_eq_ok.mpr ⟨next, hs, hbefore⟩, ht⟩

/-- Statements keep a frame of integers. -/
theorem related_of_run (hc : CallersRelated False Value.BothInt fns call call)
    (hf : frame.Related Value.BothInt frame) {body : List Stmt} (hw : ∀ s ∈ body, s.WellWritten)
    (h : frame.run fns call body = .ok frame') : frame'.Related Value.BothInt frame' := by
  have hrel := run_related valueRelation_bothInt hc hf
    fun s hs => (hw s hs).literals Value.IsWord.bothInt
  rw [h] at hrel
  exact hrel.of_ok

/-- A frame of integers in which the names `params` are bound and nothing has been returned. -/
structure Fresh (frame : Frame) (params : List Name) : Prop where
  ints : frame.Related Value.BothInt frame
  names : ∀ x, x ∈ frame.vars.names ↔ x ∈ params
  result : frame.result.isNull = true

/-- From a fresh frame, statements that end well return once or not at all, and the result tells
which. -/
theorem Fresh.countP_isReturn (hc : CallersRelated False Value.BothInt fns call call)
    {params : List Name} (hf : frame.Fresh params) {body : List Stmt}
    (hw : ∀ s ∈ body, s.WellWritten) (h : frame.run fns call body = .ok frame') :
    body.countP Stmt.isReturn = if frame'.result.isNull then 0 else 1 := by
  obtain ⟨-, -, hle⟩ := (run_ok_iff hc hf.ints hf.names hw).mp ⟨frame', h⟩
  have hend := isNull_of_run hc hf.ints hw h
  rw [hf.result, Bool.true_and] at hend
  rw [hf.result, if_pos rfl] at hle
  by_cases hall : body.all (!·.isReturn) = true
  · rw [hend, if_pos hall, List.countP_eq_zero]
    simpa using hall
  · rw [hend, if_neg hall]
    refine Nat.le_antisymm hle (List.countP_pos_iff.mpr ?_)
    simpa using hall

end Frame

namespace Program

variable {p : Program} {n : Nat} {r : RunError}

/-- Proper calls of functions that can be reached fail only in ways that the program explains. -/
def ExplainsCalls (p : Program) (n : Nat) : Prop :=
  ∀ g, p.Reaches g → ∀ ws, ProperCall p.functions g ws →
    ∀ r, Function.call p.functions n g ws = .error r → p.Explains r

private theorem Places.explains_of_nodesFail {scope : List Name} {s : Stmt} (hs : p.Places scope s)
    (hcalls : p.ExplainsCalls n)
    (h : NodesFail p.functions (Function.call p.functions n) scope s.nodes r) : p.Explains r := by
  cases h with
  | fault h => exact Or.inr ⟨_, rfl, .node hs h⟩
  | call hn hf hw h => exact hcalls _ (hs.reaches (Stmt.mem_calls_of_mem_nodes hn) hf) _ hw _ h

/-- A statement of the program fails only in ways that the program explains. -/
theorem Places.explains_of_exec (hp : p.WellWritten) (hcalls : p.ExplainsCalls n)
    {scope : List Name} {s : Stmt} (hs : p.Places scope s) (hw : s.WellWritten) {frame : Frame}
    (hf : frame.Related Value.BothInt frame) (hscope : ∀ x, x ∈ frame.vars.names ↔ x ∈ scope)
    (hdouble : ∀ value line, s = .ret value line → frame.result.isNull = false →
      p.HasFault { fault := .doubleReturn, name := frame.owner, line := line })
    (h : frame.exec p.functions (Function.call p.functions n) s = .error r) : p.Explains r := by
  have hc := callersRelated_bothInt hp.numeric.functions n
  have hvalue {value : Expr} (hn : s.nodes = value.nodes) (hv : value.WellWritten)
      {k : Value → Frame} (h : (do
        let v ← value.eval p.functions (Function.call p.functions n) frame.vars
        return k v) = .error r) : p.Explains r := by
    rcases bind_eq_error.mp h with h | ⟨v, -, h⟩
    · have hfail := value.nodesFail_of_eval hc hf.vars (fun x => (hscope x).mpr) hv h
      exact hs.explains_of_nodesFail hcalls (hn ▸ hfail)
    · contradiction
  cases s with
  | decl name value line =>
    rw [Frame.exec] at h
    split at h
    · next hbound =>
      obtain rfl := Except.error.inj h
      exact Or.inr ⟨_, rfl, .redeclaration hs ((hscope name).mp (Store.contains_iff.mp hbound))⟩
    · exact hvalue rfl hw.2 h
  | assign name value line =>
    rw [Frame.exec] at h
    split at h
    · exact hvalue rfl hw.2 h
    · next hbound =>
      obtain rfl := Except.error.inj h
      rw [Store.contains_iff, hscope] at hbound
      exact Or.inr ⟨_, rfl, .undeclaredAssignment hs hbound⟩
  | ret value line =>
    rw [Frame.exec] at h
    split at h
    · exact hvalue rfl hw h
    · next hresult =>
      obtain rfl := Except.error.inj h
      exact Or.inr ⟨_, rfl, hdouble value line rfl (Bool.eq_false_iff.mpr hresult)⟩
  | alien tag fields line => exact hw.elim

/-- A block of the program fails only in ways that the program explains. -/
theorem explains_of_run (hp : p.WellWritten) (hcalls : p.ExplainsCalls n) {params : List Name}
    {body : List Stmt} (hw : ∀ s ∈ body, s.WellWritten) {start : Frame} (hf : start.Fresh params)
    (hplaces : ∀ before s after, body = before ++ s :: after →
      p.Places (params ++ declared before) s)
    (hdouble : ∀ before value (line : Int) after, body = before ++ .ret value line :: after →
      before.countP Stmt.isReturn = 1 →
      p.HasFault { fault := .doubleReturn, name := start.owner, line := line })
    (h : start.run p.functions (Function.call p.functions n) body = .error r) : p.Explains r := by
  have hc := callersRelated_bothInt hp.numeric.functions n
  obtain ⟨before, s, after, mid, rfl, hbefore, hexec⟩ := Frame.exists_failing h
  rw [List.forall_mem_append, List.forall_mem_cons] at hw
  obtain ⟨hwb, hws, -⟩ := hw
  have hmid := Frame.related_of_run hc hf.ints hwb hbefore
  have hscope (x : Name) : x ∈ mid.vars.names ↔ x ∈ params ++ declared before := by
    rw [Frame.names_of_run hbefore, List.mem_append, List.mem_append, hf.names]
  refine (hplaces before s after rfl).explains_of_exec hp hcalls hws hmid hscope ?_ hexec
  rintro value line rfl hresult
  rw [Frame.owner_of_run hbefore]
  apply hdouble before value line after rfl
  rw [hf.countP_isReturn hc hwb hbefore, hresult]
  rfl

/-- Under every limit, calls of functions that can be reached fail only in ways that the program
explains. -/
theorem WellWritten.explainsCalls (hp : p.WellWritten) (n : Nat) : p.ExplainsCalls n := by
  induction n with
  | zero =>
    intro g _ ws _ r h
    exact Or.inl (Except.error.inj h).symm
  | succ n ih =>
    intro g hg ws hproper r h
    have hc := callersRelated_bothInt hp.numeric.functions n
    have hbody := hp.functions g hg.mem
    have hstart : (g.frame ws).Fresh g.params :=
      ⟨g.frame_related (hproper.forall₂ hproper), Store.mem_names_bind hproper.length, rfl⟩
    rw [Function.call] at h
    rcases bind_eq_error.mp h with h | ⟨final, hfinal, h⟩
    · refine explains_of_run hp ih hbody hstart ?_ ?_ h
      · exact fun before s after hb => .body hg hb
      · exact fun before value line after hb hcount => .doubleReturn hg hb hcount
    · split at h
      · next hnull =>
        obtain rfl := Except.error.inj h
        have hcount := hstart.countP_isReturn hc hbody hfinal
        rw [hnull] at hcount
        exact Or.inr ⟨_, rfl, .missingReturn hg hcount⟩
      · contradiction

/-- The line that is reported for a return statement in a block is that of the first one. -/
theorem exists_first_return {body : List Stmt} {line : Int}
    (h : body.findSome? Stmt.returnLine? = some line) :
    ∃ before value after, body = before ++ .ret value line :: after ∧
      before.countP Stmt.isReturn = 0 := by
  obtain ⟨before, s, after, rfl, hs, hbefore⟩ := List.findSome?_eq_some_iff.mp h
  have hcount := findSome?_returnLine?.mp (List.findSome?_eq_none_iff.mpr hbefore)
  cases s with
  | ret value line' =>
    obtain rfl := Option.some.inj hs
    exact ⟨before, value, after, rfl, hcount⟩
  | decl | assign | alien => contradiction

/-- A run of a program that a text describes fails only when it is cut short or when the program has
the fault that is reported, at the place that is reported. -/
theorem executeWithin_error_blames_fault {code : Text} {p : Program}
    (h : Program.ofText code = .ok p) {limit : Nat} {r : RunError}
    (hr : p.executeWithin limit = .error r) :
    r = .depth ∨ ∃ err, r = .eval err ∧ p.HasFault err := by
  have hp := wellWritten_ofText h
  rw [executeWithin] at hr
  split at hr
  · next line hline =>
    obtain rfl := Except.error.inj hr
    obtain ⟨before, value, after, hb, hcount⟩ := exists_first_return hline
    exact Or.inr ⟨_, rfl, .strayReturn hb hcount⟩
  · next hnone =>
    have hcount := findSome?_returnLine?.mp hnone
    have hstart : ({} : Frame).Fresh [] := ⟨Frame.related_empty _, fun _ => Iff.rfl, rfl⟩
    refine explains_of_run hp (hp.explainsCalls limit) hp.entry hstart
      (fun before s after hb => .entry hb) ?_ hr
    intro before value line after hb _
    rw [List.countP_eq_zero] at hcount
    have hmem : Stmt.ret value line ∈ p.entry := by simp [hb]
    exact absurd rfl (hcount _ hmem)

/-- A second return statement two calls down is blamed on its function and its line. -/
theorem hasFault_of_second_return :
    let code := "func g(a) \x7b return a;
      return a; \x7d func f(a) \x7b return g(a) + b; \x7d begin \x7b var x = f(1); \x7d"
    ∃ p, Program.ofText code = .ok p ∧
      p.executeWithin 2 =
        .error (.eval { fault := .doubleReturn, name := "g", line := some 2 }) ∧
      p.HasFault { fault := .doubleReturn, name := "g", line := some 2 } := by
  intro code
  have hp : Program.ofText code =
      .ok ⟨[.decl "x" (.call "f" [.lit (.int 1) 2] 2) 2],
        [⟨"g", ["a"], [.ret (.var "a" 1) 1, .ret (.var "a" 2) 2], 1⟩,
          ⟨"f", ["a"], [.ret (.add (.call "g" [.var "a" 2] 2) (.var "b" 2) 2) 2], 2⟩]⟩ := by
    decide +kernel
  refine ⟨_, hp, rfl, ?_⟩
  have hblame := @executeWithin_error_blames_fault _ _ hp 2
    (.eval { fault := .doubleReturn, name := "g", line := some 2 }) rfl
  rcases hblame with hdepth | ⟨err, herr, hfault⟩
  · cases hdepth
  · obtain rfl := RunError.eval.inj herr
    exact hfault

end Program

end SumLang
