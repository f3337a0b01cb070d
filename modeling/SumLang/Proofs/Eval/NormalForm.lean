import SumLang.Proofs.Eval.Success
import SumLang.Proofs.Syntax.Shape

/-!
# Runs up to lines and nesting

The normal form of a program nests its sums to the right and has no lines. It ends as the
program does, up to the line of an error. Lines show in errors only. Nesting a sum in
another way evaluates the same operands in the same order, and on integers an addition
never fails and is associative, so that neither the value of the sum changes nor the
operand that fails first.
-/

namespace SumLang

variable {fns : FunctionTable} {call call' : Caller}

/-! ### Errors without lines -/

/-- The error with its line erased. -/
def RunError.eraseLine : RunError → RunError
  | .eval e => .eval { e with line := e.line.map fun _ => 0 }
  | .alienExpr tag fields _ => .alienExpr tag fields 0
  | .alienStmt tag _ => .alienStmt tag 0
  | .depth => .depth

/-- A sequence of two computations mirrors another one up to its errors when both parts do. -/
theorem bind_eq_mapError {ε ε' α β : Type} {g : ε → ε'} {x : Except ε α} {x' : Except ε' α}
    {f : α → Except ε β} {f' : α → Except ε' β} (hx : x' = x.mapError g)
    (hf : ∀ a, x = .ok a → f' a = (f a).mapError g) : x' >>= f' = (x >>= f).mapError g := by
  subst hx
  cases x with
  | ok a => exact hf a rfl
  | error e => rfl

/-! ### Nesting -/

/-- Adding to the end of a sum keeps it well written. -/
theorem Expr.WellWritten.plus {rhs : Expr} (hr : rhs.WellWritten) (line : Int) :
    ∀ {lhs : Expr}, lhs.WellWritten → (lhs.plus rhs line).WellWritten
  | .add _ _ _, h => ⟨h.1, Expr.WellWritten.plus hr line h.2⟩
  | .lit .., h | .var .., h | .call .., h => ⟨h, hr⟩

mutual

/-- Nesting sums to the right keeps an expression well written. -/
theorem Expr.WellWritten.rightNest : ∀ {e : Expr}, e.WellWritten → e.rightNest.WellWritten
  | .lit .., h | .var .., h => h
  | .add _ _ line, h => (Expr.WellWritten.rightNest h.2).plus line (Expr.WellWritten.rightNest h.1)
  | .call .., h => ⟨h.1, Expr.WellWrittenAll.rightNestAll h.2⟩

/-- Nesting sums to the right keeps expressions well written. -/
theorem Expr.WellWrittenAll.rightNestAll :
    ∀ {es : List Expr}, Expr.WellWrittenAll es → Expr.WellWrittenAll (Expr.rightNestAll es)
  | [], _ => trivial
  | _ :: _, h => ⟨Expr.WellWritten.rightNest h.1, Expr.WellWrittenAll.rightNestAll h.2⟩

end

private theorem Expr.length_rightNestAll (es : List Expr) :
    (Expr.rightNestAll es).length = es.length := by
  induction es with
  | nil => rfl
  | cons e es ih => rw [Expr.rightNestAll, List.length_cons, List.length_cons, ih]

private theorem Expr.length_eraseLinesAll (es : List Expr) :
    (Expr.eraseLinesAll es).length = es.length := by
  induction es with
  | nil => rfl
  | cons e es ih => rw [Expr.eraseLinesAll, List.length_cons, List.length_cons, ih]

/-- On integers, two chains of additions that are joined have the value of the sum of the two. -/
theorem Expr.eval_plus {vars : Store} (hc : CallersRelated False Value.BothInt fns call call)
    (hv : vars.Related Value.BothInt vars) {rhs : Expr} (hr : rhs.WellWritten) (line : Int) :
    ∀ lhs : Expr, lhs.WellWritten →
      (lhs.plus rhs line).eval fns call vars = (Expr.add lhs rhs line).eval fns call vars
  | .add a b l, hw => by
    obtain ⟨ha, hb⟩ := hw
    rw [Expr.plus, Expr.eval, Expr.eval_plus hc hv hr line b hb, Expr.eval, Expr.eval, Expr.eval]
    -- Both sides evaluate the three operands from left to right, and the first failure ends them.
    cases hx : a.eval fns call vars with
    | error e => rfl
    | ok x =>
      cases hy : b.eval fns call vars with
      | error e => rfl
      | ok y =>
        obtain ⟨m, rfl⟩ := Expr.isInt_of_eval hc hv ha hx
        obtain ⟨n, rfl⟩ := Expr.isInt_of_eval hc hv hb hy
        cases hz : rhs.eval fns call vars with
        | error e => rfl
        | ok z =>
          obtain ⟨k, rfl⟩ := Expr.isInt_of_eval hc hv hr hz
          have hassoc : (m + (n + k) % wordCount) % wordCount =
              ((m + n) % wordCount + k) % wordCount := by
            rw [Int.add_emod_emod, Int.emod_add_emod, Int.add_assoc]
          exact congrArg (fun i => Except.ok (Value.int i)) hassoc
  | .lit .., _ | .var .., _ | .call .., _ => rfl

mutual

/-- On integers, nesting sums to the right keeps the value of an expression. -/
theorem Expr.eval_rightNest {vars : Store} (hc : CallersRelated False Value.BothInt fns call call)
    (hv : vars.Related Value.BothInt vars) : ∀ e : Expr, e.WellWritten →
    e.rightNest.eval fns call vars = e.eval fns call vars
  | .lit .., _ | .var .., _ => rfl
  | .add lhs rhs line, h => by
    rw [Expr.rightNest, Expr.eval_plus hc hv h.2.rightNest line _ h.1.rightNest, Expr.eval,
      Expr.eval_rightNest hc hv lhs h.1, Expr.eval_rightNest hc hv rhs h.2, Expr.eval]
  | .call name args line, h => by
    rw [Expr.rightNest, Expr.eval, Expr.eval, Expr.evalAll_rightNestAll hc hv args h.2,
      Expr.length_rightNestAll]

private theorem Expr.evalAll_rightNestAll {vars : Store}
    (hc : CallersRelated False Value.BothInt fns call call)
    (hv : vars.Related Value.BothInt vars) : ∀ es : List Expr, Expr.WellWrittenAll es →
    Expr.evalAll fns call vars (Expr.rightNestAll es) = Expr.evalAll fns call vars es
  | [], _ => rfl
  | e :: es, h => by
    rw [Expr.rightNestAll, Expr.evalAll, Expr.eval_rightNest hc hv e h.1,
      Expr.evalAll_rightNestAll hc hv es h.2, Expr.evalAll]

end

/-! ### Normal forms -/

/-- The statement with its sums nested to the right and without lines. -/
def Stmt.normalForm (s : Stmt) : Stmt := s.rightNest.eraseLines

/-- The function with its sums nested to the right and without lines. -/
def Function.normalForm (f : Function) : Function :=
  ⟨f.name, f.params, f.body.map Stmt.normalForm, 0⟩

/-- The functions with their sums nested to the right and without lines. -/
def FunctionTable.normalForm (fns : FunctionTable) : FunctionTable := fns.map Function.normalForm

/-- Normal forms of functions are found under the same names. -/
theorem FunctionTable.function?_normalForm (fns : FunctionTable) (name : Name) :
    fns.normalForm.function? name = (fns.function? name).map Function.normalForm :=
  List.find?_map

/-- Calls of normal forms with integers end as calls of the functions, up to lines. -/
def MirrorsCalls (fns : FunctionTable) (call call' : Caller) : Prop :=
  ∀ f ws, ProperCall fns f ws → call' f.normalForm ws = (call f ws).mapError RunError.eraseLine

mutual

/-- Erasing the lines of an expression changes only the line of an error. -/
theorem Expr.eval_eraseLines {vars : Store} (hc : CallersRelated False Value.BothInt fns call call)
    (hm : MirrorsCalls fns call call') (hv : vars.Related Value.BothInt vars) :
    ∀ e : Expr, e.WellWritten → e.eraseLines.eval fns.normalForm call' vars =
      (e.eval fns call vars).mapError RunError.eraseLine
  | .lit .., _ => rfl
  | .var name line, _ => by
    rw [Expr.eraseLines, Expr.eval, Expr.eval]
    cases vars.get? name with
    | none => rfl
    | some v => rfl
  | .add lhs rhs line, h => by
    rw [Expr.eraseLines, Expr.eval, Expr.eval]
    refine bind_eq_mapError (Expr.eval_eraseLines hc hm hv lhs h.1) fun a _ => ?_
    refine bind_eq_mapError (Expr.eval_eraseLines hc hm hv rhs h.2) fun b _ => ?_
    cases a.add b with
    | ok v => rfl
    | error v => rfl
  | .call name args line, h => by
    rw [Expr.eraseLines, Expr.eval, Expr.eval, FunctionTable.function?_normalForm,
      Expr.length_eraseLinesAll]
    cases hf : fns.function? name with
    | none => rfl
    | some f =>
      by_cases hlen : args.length = f.params.length
      · simp only [Option.map_some, Function.normalForm, if_pos hlen]
        refine bind_eq_mapError (Expr.evalAll_eraseLinesAll hc hm hv args h.2) fun ws hws => ?_
        exact hm f ws (Expr.properCall_of_evalAll hc hv (h.2.literals Value.IsWord.bothInt) hws
          (List.mem_of_find?_eq_some hf) hlen)
      · simp only [Option.map_some, Function.normalForm, if_neg hlen]
        rfl

private theorem Expr.evalAll_eraseLinesAll {vars : Store}
    (hc : CallersRelated False Value.BothInt fns call call) (hm : MirrorsCalls fns call call')
    (hv : vars.Related Value.BothInt vars) : ∀ es : List Expr, Expr.WellWrittenAll es →
    Expr.evalAll fns.normalForm call' vars (Expr.eraseLinesAll es) =
      (Expr.evalAll fns call vars es).mapError RunError.eraseLine
  | [], _ => rfl
  | e :: es, h => by
    rw [Expr.eraseLinesAll, Expr.evalAll, Expr.evalAll]
    refine bind_eq_mapError (Expr.eval_eraseLines hc hm hv e h.1) fun v _ => ?_
    exact bind_eq_mapError (Expr.evalAll_eraseLinesAll hc hm hv es h.2) fun vs _ => rfl

end

/-- The normal form of an expression has the same outcome up to the line of an error. -/
theorem Expr.eval_normalForm {vars : Store} (hc : CallersRelated False Value.BothInt fns call call)
    (hm : MirrorsCalls fns call call') (hv : vars.Related Value.BothInt vars) {e : Expr}
    (h : e.WellWritten) : e.rightNest.eraseLines.eval fns.normalForm call' vars =
      (e.eval fns call vars).mapError RunError.eraseLine := by
  rw [Expr.eval_eraseLines hc hm hv _ h.rightNest, Expr.eval_rightNest hc hv e h]

namespace Frame

/-- The normal form of a statement leads to the same frame or to the same error up to its line. -/
theorem exec_normalForm (hc : CallersRelated False Value.BothInt fns call call)
    (hm : MirrorsCalls fns call call') {frame : Frame} (hf : frame.Related Value.BothInt frame)
    {s : Stmt} (h : s.WellWritten) : frame.exec fns.normalForm call' s.normalForm =
      (frame.exec fns call s).mapError RunError.eraseLine := by
  cases s with
  | decl name value line =>
    rw [Stmt.normalForm, Stmt.rightNest, Stmt.eraseLines, exec, exec]
    by_cases hn : frame.vars.contains name
    · rw [if_pos hn, if_pos hn]
      rfl
    · rw [if_neg hn, if_neg hn]
      exact bind_eq_mapError (Expr.eval_normalForm hc hm hf.vars h.2) fun v _ => rfl
  | assign name value line =>
    rw [Stmt.normalForm, Stmt.rightNest, Stmt.eraseLines, exec, exec]
    by_cases hn : frame.vars.contains name
    · rw [if_pos hn, if_pos hn]
      exact bind_eq_mapError (Expr.eval_normalForm hc hm hf.vars h.2) fun v _ => rfl
    · rw [if_neg hn, if_neg hn]
      rfl
  | ret value line =>
    rw [Stmt.normalForm, Stmt.rightNest, Stmt.eraseLines, exec, exec]
    by_cases hn : frame.result.isNull
    · rw [if_pos hn, if_pos hn]
      exact bind_eq_mapError (Expr.eval_normalForm hc hm hf.vars h) fun v _ => rfl
    · rw [if_neg hn, if_neg hn]
      rfl
  | alien tag fields line => exact h.elim

/-- The normal form of a block leads to the same frame or to the same error up to its line. -/
theorem run_normalForm (hc : CallersRelated False Value.BothInt fns call call)
    (hm : MirrorsCalls fns call call') {frame : Frame} (hf : frame.Related Value.BothInt frame)
    {body : List Stmt} (h : ∀ s ∈ body, s.WellWritten) :
    frame.run fns.normalForm call' (body.map Stmt.normalForm) =
      (frame.run fns call body).mapError RunError.eraseLine := by
  induction body generalizing frame with
  | nil => rfl
  | cons s body ih =>
    rw [List.forall_mem_cons] at h
    rw [List.map_cons, run, run, List.foldlM_cons, List.foldlM_cons]
    refine bind_eq_mapError (exec_normalForm hc hm hf h.1) fun next hnext => ?_
    exact ih (related_of_exec hc hf h.1 hnext) h.2

end Frame

/-- Under every limit, calls of normal forms end as calls of the functions, up to lines. -/
theorem mirrorsCalls (h : ∀ f ∈ fns, ∀ s ∈ f.body, s.WellWritten) (n : Nat) :
    MirrorsCalls fns (Function.call fns n) (Function.call fns.normalForm n) := by
  have hnumeric : fns.Numeric := fun f hf s hs => (h f hf s hs).literals Value.IsWord.bothInt
  induction n with
  | zero => exact fun _ _ _ => rfl
  | succ n ih =>
    intro f ws hcall
    have hstart : (f.frame ws).Related Value.BothInt (f.frame ws) :=
      f.frame_related (hcall.forall₂ hcall)
    rw [Function.call, Function.call]
    refine bind_eq_mapError ?_ fun final _ => ?_
    · exact Frame.run_normalForm (callersRelated_bothInt hnumeric n) ih hstart (h f hcall.mem)
    · by_cases hn : final.result.isNull
      · rw [if_pos hn, if_pos hn]
        rfl
      · rw [if_neg hn, if_neg hn]
        rfl

end SumLang
