import SumLang.Proofs.Eval.Activation
import SumLang.Proofs.Eval.Success

/-!
# Safe runs

A well-written program computes with words only: each value that it stores in a frame,
passes to a function or returns from one is a word. An addition therefore never meets an
operand that is no number, and a run that fails has one of the faults that the language
tells apart, or is cut short by its limit.
-/

namespace SumLang

variable {fns : FunctionTable} {call : Caller}

/-! ### Words -/

/-- Both values are the same word. -/
def Value.SameWord (v w : Value) : Prop := v = w ∧ v.IsWord

private theorem Value.IsWord.sameWord {v : Value} (h : v.IsWord) : v.SameWord v := ⟨rfl, h⟩

/-- The sum of two words is a word. -/
theorem Value.IsWord.add {v w : Value} (hv : v.IsWord) (hw : w.IsWord) :
    ∃ u, v.add w = .ok u ∧ u.IsWord := by
  obtain ⟨m, rfl, -⟩ := hv
  obtain ⟨n, rfl, -⟩ := hw
  refine ⟨_, rfl, (m + n) % wordCount, ?_, ?_⟩
  · push_cast
    rfl
  · have hlt : (m + n) % wordCount < wordCount := Nat.mod_lt _ (by decide)
    unfold maxWord
    omega

private theorem valueRelation_sameWord : ValueRelation Value.SameWord where
  isNull h := by rw [h.1]
  add ha hb := by
    obtain ⟨rfl, ha⟩ := ha
    obtain ⟨rfl, hb⟩ := hb
    obtain ⟨u, hu, hw⟩ := ha.add hb
    exact Or.inl ⟨u, u, hu, hu, rfl, hw⟩

namespace Program

variable {p : Program} {limit : Nat} {stack : List (Function × List Value)}

/-- The arguments of the calls that are active are words. -/
theorem Active.callWith_sameWord (hp : p.WellWritten) (h : p.Active limit stack) :
    ∀ c ∈ stack, CallWith Value.SameWord p.functions c.1 c.2 := by
  obtain ⟨hentry, hfunctions⟩ := hp.literals Value.IsWord.sameWord
  exact h.callWith valueRelation_sameWord hentry hfunctions

end Program

/-! ### Faults of a run -/

/-- An error that a well-written program can end with: a fault that the language tells apart, other
than an operand that is no number, or too deep calls. -/
def RunError.Lawful : RunError → Prop
  | .eval e => e.fault ≠ .operand ∧ e.fault ≠ .general
  | .depth => True
  | .alienExpr .. | .alienStmt .. => False

/-- The computation ends well or with a lawful error. -/
def Lawful {α : Type} (x : Except RunError α) : Prop := ∀ e, x = .error e → e.Lawful

private theorem lawful_ok {α : Type} (a : α) : Lawful (.ok a) := nofun

private theorem lawful_error {α : Type} {e : RunError} (h : e.Lawful) :
    Lawful (.error e : Except RunError α) := by
  intro e' he
  rwa [← Except.error.inj he]

/-- A sequence of lawful computations is lawful. -/
theorem Lawful.bind {α β : Type} {x : Except RunError α} {f : α → Except RunError β}
    (hx : Lawful x) (hf : ∀ a, x = .ok a → Lawful (f a)) : Lawful (x >>= f) := by
  intro e he
  rcases bind_eq_error.mp he with he | ⟨a, ha, he⟩
  · exact hx e he
  · exact hf a ha e he

/-- Proper calls end well or with a lawful error. -/
def LawfulCalls (fns : FunctionTable) (call : Caller) : Prop :=
  ∀ f ws, ProperCall fns f ws → Lawful (call f ws)

mutual

/-- On integers, a well-written expression has a value or fails lawfully. -/
theorem Expr.lawful_eval {vars : Store} (hc : CallersRelated False Value.BothInt fns call call)
    (hl : LawfulCalls fns call) (hv : vars.Related Value.BothInt vars) :
    ∀ e : Expr, e.WellWritten → Lawful (e.eval fns call vars)
  | .lit value _, _ => lawful_ok value
  | .var name line, _ => by
    rw [Expr.eval]
    cases vars.get? name with
    | none => exact lawful_error (by simp [RunError.Lawful])
    | some v => exact lawful_ok v
  | .add lhs rhs line, h => by
    rw [Expr.eval]
    refine (lhs.lawful_eval hc hl hv h.1).bind fun a ha => ?_
    refine (rhs.lawful_eval hc hl hv h.2).bind fun b hb => ?_
    -- Both operands are integers, for which the addition has no failing case.
    obtain ⟨m, rfl⟩ := Expr.isInt_of_eval hc hv h.1 ha
    obtain ⟨n, rfl⟩ := Expr.isInt_of_eval hc hv h.2 hb
    exact lawful_ok _
  | .call name args line, h => by
    rw [Expr.eval]
    cases hf : fns.function? name with
    | none => exact lawful_error (by simp [RunError.Lawful])
    | some f =>
      dsimp only
      by_cases hlen : args.length = f.params.length
      · rw [if_pos hlen]
        refine (Expr.lawful_evalAll hc hl hv args h.2).bind fun ws hws => ?_
        exact hl f ws (Expr.properCall_of_evalAll hc hv (h.2.literals Value.IsWord.bothInt) hws
          (List.mem_of_find?_eq_some hf) hlen)
      · rw [if_neg hlen]
        exact lawful_error (by simp [RunError.Lawful])

private theorem Expr.lawful_evalAll {vars : Store}
    (hc : CallersRelated False Value.BothInt fns call call) (hl : LawfulCalls fns call)
    (hv : vars.Related Value.BothInt vars) :
    ∀ es : List Expr, Expr.WellWrittenAll es → Lawful (Expr.evalAll fns call vars es)
  | [], _ => lawful_ok []
  | e :: es, h => by
    rw [Expr.evalAll]
    refine (e.lawful_eval hc hl hv h.1).bind fun v _ => ?_
    exact (Expr.lawful_evalAll hc hl hv es h.2).bind fun vs _ => lawful_ok _

end

namespace Frame

end Frame

namespace Program

variable {p : Program}

end Program

end SumLang
