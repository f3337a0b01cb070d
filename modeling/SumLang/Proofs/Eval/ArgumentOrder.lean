import SumLang.Proofs.Program.Blame

/-!
# Counting arguments before evaluating them

A call counts its arguments before it evaluates them. Beside it stands the evaluation that
goes the other way round: it evaluates the arguments from left to right and counts them
afterwards. The two have the same values and the same errors, except where a call with the
wrong number of arguments has one that fails: there the wrong number is reported in place of
the failure of that argument.
-/

namespace SumLang

variable {fns : FunctionTable} {call : Caller} {vars : Store}

/-! ### The first failure from left to right -/

/-- From left to right, the first element on which the computation fails makes it fail with `x`. -/
def FirstFailure {ε α β : Type} (f : α → Except ε β) (as : List α) (x : ε) : Prop :=
  ∃ before a after, as = before ++ a :: after ∧ (∀ b ∈ before, ∃ v, f b = .ok v) ∧ f a = .error x

section

variable {ε α β : Type} {f : α → Except ε β} {a : α} {as : List α} {x : ε}

private theorem not_firstFailure_nil : ¬ FirstFailure f [] x := by
  rintro ⟨before, a, after, h, -⟩
  simp at h

private theorem firstFailure_cons : FirstFailure f (a :: as) x ↔
    f a = .error x ∨ (∃ v, f a = .ok v) ∧ FirstFailure f as x := by
  constructor
  · rintro ⟨before, b, after, has, hbefore, hb⟩
    cases before with
    | nil =>
      obtain ⟨rfl, -⟩ := List.cons.inj has
      exact Or.inl hb
    | cons c before =>
      obtain ⟨rfl, rfl⟩ := List.cons.inj has
      rw [List.forall_mem_cons] at hbefore
      exact Or.inr ⟨hbefore.1, before, b, after, rfl, hbefore.2, hb⟩
  · rintro (ha | ⟨ha, before, b, after, rfl, hbefore, hb⟩)
    · exact ⟨[], a, as, rfl, nofun, ha⟩
    · exact ⟨a :: before, b, after, rfl, List.forall_mem_cons.mpr ⟨ha, hbefore⟩, hb⟩

/-- A traversal fails as the first element does on which it fails. -/
theorem mapM_eq_error_iff : as.mapM f = .error x ↔ FirstFailure f as x := by
  induction as with
  | nil =>
    rw [List.mapM_nil]
    exact ⟨nofun, fun h => absurd h not_firstFailure_nil⟩
  | cons a as ih =>
    rw [List.mapM_cons, bind_eq_error, firstFailure_cons, ← ih]
    refine or_congr_right ?_
    constructor
    · rintro ⟨v, hv, h⟩
      rcases bind_eq_error.mp h with h | ⟨vs, -, h⟩
      · exact ⟨⟨v, hv⟩, h⟩
      · contradiction
    · rintro ⟨⟨v, hv⟩, h⟩
      exact ⟨v, hv, bind_eq_error.mpr (Or.inl h)⟩

private theorem length_of_mapM_eq_ok {vs : List β} (h : as.mapM f = .ok vs) :
    vs.length = as.length := by
  induction as generalizing vs with
  | nil =>
    rw [List.mapM_nil] at h
    obtain rfl := Except.ok.inj h
    rfl
  | cons a as ih =>
    rw [List.mapM_cons, bind_eq_ok] at h
    obtain ⟨v, -, h⟩ := h
    obtain ⟨us, hus, rfl⟩ := bind_return_eq_ok.mp h
    rw [List.length_cons, List.length_cons, ih hus]

end

/-- Arguments are evaluated from left to right, each by itself. -/
theorem Expr.evalAll_eq_mapM (args : List Expr) :
    Expr.evalAll fns call vars args = args.mapM (Expr.eval fns call vars) := by
  induction args with
  | nil => rfl
  | cons e es ih => rw [Expr.evalAll, ih, List.mapM_cons]

/-! ### Evaluating before counting -/

/-- The error of a call with the wrong number of arguments. -/
def Function.miscount (f : Function) (name : Name) (args : List Expr) (line : Int) : RunError :=
  .eval { fault := .arity f.params.length args.length, name := name, line := line }

mutual

/-- The value of an expression when a call evaluates its arguments before it counts them. -/
def Expr.evalInOrder (fns : FunctionTable) (call : Caller) (vars : Store) :
    Expr → Except RunError Value
  | .lit value line => (Expr.lit value line).eval fns call vars
  | .var name line => (Expr.var name line).eval fns call vars
  | .add lhs rhs line => do
    let a ← lhs.evalInOrder fns call vars
    let b ← rhs.evalInOrder fns call vars
    (Expr.add (.lit a line) (.lit b line) line).eval fns call vars
  | .call name args line =>
    match fns.function? name with
    | none => .error (.eval { fault := .undefinedFunction, name := name, line := line })
    | some f => do
      let values ← Expr.evalAllInOrder fns call vars args
      if values.length = f.params.length then call f values
      else .error (f.miscount name args line)
  | .alien tag fields line => (Expr.alien tag fields line).eval fns call vars

/-- The values of some expressions in that order. -/
def Expr.evalAllInOrder (fns : FunctionTable) (call : Caller) (vars : Store) :
    List Expr → Except RunError (List Value)
  | [] => .ok []
  | e :: es => do
    let v ← e.evalInOrder fns call vars
    let vs ← Expr.evalAllInOrder fns call vars es
    return v :: vs

end

private theorem Expr.evalAllInOrder_eq_mapM (args : List Expr) :
    Expr.evalAllInOrder fns call vars args = args.mapM (Expr.evalInOrder fns call vars) := by
  induction args with
  | nil => rfl
  | cons e es ih => rw [Expr.evalAllInOrder, ih, List.mapM_cons]

/-! ### Where the two orders part -/

/-- The outcomes are the same, or the first reports the wrong number of arguments of a call among
`nodes` and the second the first of these arguments that fails. -/
inductive SameButCount (fns : FunctionTable) (call : Caller) (vars : Store) (nodes : List Expr)
    {α : Type} : Except RunError α → Except RunError α → Prop
  | same (o : Except RunError α) : SameButCount fns call vars nodes o o
  | counted {name : Name} {args : List Expr} {line : Int} {f : Function} {x : RunError}
      (h : .call name args line ∈ nodes) (hf : fns.function? name = some f)
      (hcount : args.length ≠ f.params.length)
      (hx : FirstFailure (Expr.evalInOrder fns call vars) args x) :
      SameButCount fns call vars nodes (.error (f.miscount name args line)) (.error x)

namespace SameButCount

variable {nodes : List Expr} {α β : Type} {o o' : Except RunError α}

/-- Outcomes that agree but for counts in some nodes agree but for counts in more of them. -/
theorem mono (h : SameButCount fns call vars nodes o o') {more : List Expr}
    (hsub : nodes ⊆ more) : SameButCount fns call vars more o o' := by
  cases h with
  | same o => exact .same o
  | counted h hf hcount hx => exact .counted (hsub h) hf hcount hx

/-- Agreement but for counts passes to computations that go on with the same value. -/
theorem bind {k k' : α → Except RunError β} (h : SameButCount fns call vars nodes o o')
    (hk : ∀ a, o = .ok a → SameButCount fns call vars nodes (k a) (k' a)) :
    SameButCount fns call vars nodes (o >>= k) (o' >>= k') := by
  cases h with
  | counted h hf hcount hx => exact .counted h hf hcount hx
  | same o =>
    cases o with
    | ok a => exact hk a rfl
    | error x => exact .same (.error x)

end SameButCount

mutual

/-- The two orders of evaluating an expression part at a call with the wrong number of arguments,
if at all. -/
theorem Expr.eval_sameButCount : ∀ e : Expr, SameButCount fns call vars e.nodes
    (e.eval fns call vars) (e.evalInOrder fns call vars)
  | .lit value line => by
    rw [Expr.evalInOrder]
    exact .same _
  | .var name line => by
    rw [Expr.evalInOrder]
    exact .same _
  | .alien tag fields line => by
    rw [Expr.evalInOrder]
    exact .same _
  | .add lhs rhs line => by
    rw [Expr.eval, Expr.evalInOrder]
    have hlhs := lhs.eval_sameButCount
    have hrhs := rhs.eval_sameButCount
    apply (hlhs.mono (by simp [Expr.nodes])).bind
    intro a _
    apply (hrhs.mono (by simp [Expr.nodes])).bind
    intro b _
    exact .same _
  | .call name args line => by
    have hargs := Expr.evalAll_sameButCount args
    rw [Expr.eval, Expr.evalInOrder]
    cases hf : fns.function? name with
    | none => exact .same _
    | some f =>
      dsimp only
      by_cases hcount : args.length = f.params.length
      · rw [if_pos hcount]
        apply (hargs.mono (by simp [Expr.nodes])).bind
        intro values hvalues
        rw [Expr.evalAll_eq_mapM] at hvalues
        rw [if_pos ((length_of_mapM_eq_ok hvalues).trans hcount)]
        exact .same _
      · rw [if_neg hcount, Expr.evalAllInOrder_eq_mapM]
        -- The wrong number is reported in both orders when all arguments have values.
        cases hvalues : args.mapM (Expr.evalInOrder fns call vars) with
        | ok values =>
          have hlen : ¬ values.length = f.params.length := by
            rwa [length_of_mapM_eq_ok hvalues]
          change SameButCount fns call vars _ _
            (if values.length = f.params.length then call f values
              else .error (f.miscount name args line))
          rw [if_neg hlen]
          exact .same _
        | error x => exact .counted (by simp [Expr.nodes]) hf hcount (mapM_eq_error_iff.mp hvalues)

private theorem Expr.evalAll_sameButCount : ∀ es : List Expr, SameButCount fns call vars
    (Expr.nodesAll es) (Expr.evalAll fns call vars es) (Expr.evalAllInOrder fns call vars es)
  | [] => .same _
  | e :: es => by
    have he := e.eval_sameButCount
    have hes := Expr.evalAll_sameButCount es
    rw [Expr.evalAll, Expr.evalAllInOrder]
    apply (he.mono (by simp [Expr.nodesAll])).bind
    intro v _
    apply (hes.mono (by simp [Expr.nodesAll])).bind
    intro vs _
    exact .same _

end

/-! ### Errors of a call -/

section

variable {name : Name} {args : List Expr} {line : Int} {f : Function}

/-- With the right number of arguments, a call evaluates them and leads to its function. -/
theorem Expr.eval_call_of_count (hf : fns.function? name = some f)
    (hcount : args.length = f.params.length) : (Expr.call name args line).eval fns call vars =
      args.mapM (Expr.eval fns call vars) >>= call f := by
  simp only [Expr.eval, hf, if_pos hcount, Expr.evalAll_eq_mapM]

/-- With a wrong number of arguments, a call evaluates none of them. -/
theorem Expr.eval_call_of_miscount (hf : fns.function? name = some f)
    (hcount : args.length ≠ f.params.length) : (Expr.call name args line).eval fns call vars =
      .error (f.miscount name args line) := by
  simp only [Expr.eval, hf, if_neg hcount, Function.miscount]

/-- The first argument of a call that fails is what the call reports if the arguments have the right
number, and otherwise only if it fails for the same reason. Where all arguments have values, a wrong
number of them is reported and the right number leads to the function. Evaluation in the order that
counts last differs in nothing else, at whatever depth the arguments are calls themselves. -/
theorem Expr.eval_call_counts_first (hf : fns.function? name = some f) :
    ((∀ x, FirstFailure (Expr.eval fns call vars) args x →
        (Expr.call name args line).eval fns call vars = .error x) ↔
      args.length = f.params.length ∨
        ∀ x, FirstFailure (Expr.eval fns call vars) args x → x = f.miscount name args line) ∧
    (∀ values, args.mapM (Expr.eval fns call vars) = .ok values →
      (Expr.call name args line).eval fns call vars =
        if args.length = f.params.length then call f values
        else .error (f.miscount name args line)) ∧
    SameButCount fns call vars (Expr.call name args line).nodes
      ((Expr.call name args line).eval fns call vars)
      ((Expr.call name args line).evalInOrder fns call vars) := by
  refine ⟨?_, ?_, Expr.eval_sameButCount _⟩
  · by_cases hcount : args.length = f.params.length
    · simp only [hcount, true_or, iff_true]
      intro x hx
      rw [Expr.eval_call_of_count hf hcount]
      exact bind_eq_error.mpr (Or.inl (mapM_eq_error_iff.mpr hx))
    · simp only [hcount, false_or, Expr.eval_call_of_miscount hf hcount, Except.error.injEq]
      exact forall₂_congr fun x _ => eq_comm
  · intro values hvalues
    split
    · next hcount =>
      rw [Expr.eval_call_of_count hf hcount, hvalues]
      rfl
    · next hcount => exact Expr.eval_call_of_miscount hf hcount

end

/-- A function that returns its argument. -/
def Function.identity : Function := ⟨"f", ["a"], [.ret (.var "a" 1) 1], 1⟩

/-- A call with one argument, as it should be, reports that its variable is unknown. -/
theorem Expr.eval_call_unknown_argument :
    FunctionTable.function? [Function.identity] "f" = some Function.identity ∧
    (Expr.call "f" [.var "x" 1] 1).eval [.identity] (Function.call [.identity] 1) {} =
      .error (.eval { fault := .undefinedVariable, name := "x", line := some 1 }) := by
  have hfirst : FirstFailure (Expr.eval [.identity] (Function.call [.identity] 1) {})
      [.var "x" 1] (.eval { fault := .undefinedVariable, name := "x", line := some 1 }) :=
    ⟨[], .var "x" 1, [], rfl, nofun, rfl⟩
  have hf : FunctionTable.function? [Function.identity] "f" = some Function.identity := rfl
  exact ⟨hf, (Expr.eval_call_counts_first hf).1.mpr (Or.inl rfl) _ hfirst⟩

/-- With a second argument, the first one still fails with an unknown variable, but the call reports
the number of its arguments. -/
theorem Expr.eval_call_miscount_hides_argument :
    FirstFailure (Expr.eval [.identity] (Function.call [.identity] 1) {})
      [.var "x" 1, .lit (.int 1) 1]
      (.eval { fault := .undefinedVariable, name := "x", line := some 1 }) ∧
    (Expr.call "f" [.var "x" 1, .lit (.int 1) 1] 1).eval [.identity]
        (Function.call [.identity] 1) {} =
      .error (.eval { fault := .arity 1 2, name := "f", line := some 1 }) :=
  ⟨⟨[], .var "x" 1, [.lit (.int 1) 1], rfl, nofun, rfl⟩, rfl⟩

end SumLang
