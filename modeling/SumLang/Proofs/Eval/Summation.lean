import Mathlib.Algebra.BigOperators.Group.List.Basic
import Mathlib.Algebra.Ring.Int.Defs
import SumLang.Proofs.Eval.Depth

/-!
# Sums do not depend on order and grouping

A tree of additions joins its addends two by two and reduces each partial sum to a word.
All of these reductions cancel: the tree has the value of the exact sum of its addends,
reduced once. Since every addend of a sum is an operand of some addition, a single one
without a number makes the whole sum fail, wherever it stands. Trees over the same addends
therefore have the same value or all of them fail.
-/

namespace SumLang

variable {fns : FunctionTable} {call : Caller} {vars : Store}

/-! ### Addends -/

/-- The addends that a tree of additions joins, from left to right. -/
def Expr.addends : Expr → List Expr
  | .add lhs rhs _ => lhs.addends ++ rhs.addends
  | e => [e]

private theorem Expr.addends_of_not_isSum {e : Expr} (h : e.isSum = false) : e.addends = [e] := by
  cases e with
  | add lhs rhs line => contradiction
  | lit | var | call | alien => rfl

/-- A tree with two addends or more is a sum. -/
theorem Expr.isSum_of_two_le {e : Expr} (h : 2 ≤ e.addends.length) : e.isSum = true := by
  by_contra hs
  rw [Bool.not_eq_true] at hs
  rw [e.addends_of_not_isSum hs, List.length_singleton] at h
  omega

/-! ### Numbers -/

/-- The sum of two values exists exactly when both are numbers. -/
theorem Value.add_eq_ok {a b v : Value} : a.add b = .ok v ↔
    ∃ m n, a.toInt? = some m ∧ b.toInt? = some n ∧ v = .int ((m + n) % wordCount) := by
  rw [Value.add]
  cases a.toInt? with
  | none => simp
  | some m =>
    cases b.toInt? with
    | none => simp
    | some n => simp [eq_comm]

/-- The expression has a value, which counts as the number `n` in a sum. -/
def Expr.Counts (fns : FunctionTable) (call : Caller) (vars : Store) (e : Expr) (n : Int) : Prop :=
  ∃ v, e.eval fns call vars = .ok v ∧ v.toInt? = some n

private theorem Expr.eval_add_eq_ok_iff_counts {lhs rhs : Expr} {line : Int} {v : Value} :
    (Expr.add lhs rhs line).eval fns call vars = .ok v ↔ ∃ m n, lhs.Counts fns call vars m ∧
      rhs.Counts fns call vars n ∧ v = .int ((m + n) % wordCount) := by
  rw [Expr.eval_add_eq_ok]
  constructor
  · rintro ⟨a, b, ha, hb, h⟩
    obtain ⟨m, n, hm, hn, rfl⟩ := Value.add_eq_ok.mp h
    exact ⟨m, n, ⟨a, ha, hm⟩, ⟨b, hb, hn⟩, rfl⟩
  · rintro ⟨m, n, ⟨a, ha, hm⟩, ⟨b, hb, hn⟩, rfl⟩
    exact ⟨a, b, ha, hb, Value.add_eq_ok.mpr ⟨m, n, hm, hn, rfl⟩⟩

private theorem Expr.counts_add {lhs rhs : Expr} {line m n : Int} (hm : lhs.Counts fns call vars m)
    (hn : rhs.Counts fns call vars n) :
    (Expr.add lhs rhs line).Counts fns call vars ((m + n) % wordCount) :=
  ⟨_, Expr.eval_add_eq_ok_iff_counts.mpr ⟨m, n, hm, hn, rfl⟩, rfl⟩

/-! ### Trees of additions -/

/-- Where a tree counts as a number, each of its addends does. -/
theorem Expr.counts_of_mem_addends {n : Int} :
    ∀ t : Expr, t.Counts fns call vars n → ∀ e ∈ t.addends, ∃ m, e.Counts fns call vars m
  | .add lhs rhs line, ⟨v, hv, _⟩, e, he => by
    obtain ⟨a, b, ha, hb, -⟩ := Expr.eval_add_eq_ok_iff_counts.mp hv
    rcases List.mem_append.mp he with he | he
    · exact lhs.counts_of_mem_addends ha e he
    · exact rhs.counts_of_mem_addends hb e he
  | .lit .., h, e, he | .var .., h, e, he | .call .., h, e, he | .alien .., h, e, he => by
    obtain rfl := List.mem_singleton.mp he
    exact ⟨n, h⟩

/-- Where each addend counts as a number, the tree counts as their sum, up to multiples of the
number of words. -/
theorem Expr.exists_counts {value : Expr → Int} : ∀ t : Expr,
    (∀ e ∈ t.addends, e.Counts fns call vars (value e)) →
    ∃ n, t.Counts fns call vars n ∧ n % wordCount = (t.addends.map value).sum % wordCount
  | .add lhs rhs line, h => by
    rw [Expr.addends, List.forall_mem_append] at h
    obtain ⟨m, hm, hsum⟩ := lhs.exists_counts h.1
    obtain ⟨n, hn, hsum'⟩ := rhs.exists_counts h.2
    refine ⟨_, Expr.counts_add hm hn, ?_⟩
    rw [Expr.addends, List.map_append, List.sum_append, Int.emod_emod, Int.add_emod, hsum, hsum',
      ← Int.add_emod]
  | .lit .., h | .var .., h | .call .., h | .alien .., h => by
    refine ⟨_, h _ List.mem_cons_self, ?_⟩
    rw [Expr.addends_of_not_isSum rfl, List.map_singleton, List.sum_singleton]

/-- A sum whose addends count as numbers has their exact sum, reduced to a word, as its value. -/
theorem Expr.eval_of_addends {value : Expr → Int} {t : Expr} (ht : t.isSum = true)
    (h : ∀ e ∈ t.addends, e.Counts fns call vars (value e)) :
    t.eval fns call vars = .ok (.int ((t.addends.map value).sum % wordCount)) := by
  cases t with
  | add lhs rhs line =>
    obtain ⟨n, ⟨v, hv, hn⟩, hsum⟩ := (Expr.add lhs rhs line).exists_counts h
    obtain ⟨a, b, -, -, rfl⟩ := Expr.eval_add_eq_ok_iff_counts.mp hv
    obtain rfl := Option.some.inj hn
    rw [hv, ← hsum, Int.emod_emod]
  | lit | var | call | alien => contradiction

/-- A sum fails when one of its addends counts as no number. -/
theorem Expr.exists_error_of_addends {t : Expr} (ht : t.isSum = true) {e : Expr}
    (he : e ∈ t.addends) (h : ∀ n, ¬ e.Counts fns call vars n) :
    ∃ x, t.eval fns call vars = .error x := by
  cases hv : t.eval fns call vars with
  | error x => exact ⟨x, rfl⟩
  | ok v =>
    cases t with
    | add lhs rhs line =>
      obtain ⟨a, b, -, -, rfl⟩ := Expr.eval_add_eq_ok_iff_counts.mp hv
      obtain ⟨n, hn⟩ := (Expr.add lhs rhs line).counts_of_mem_addends ⟨_, hv, rfl⟩ e he
      exact absurd hn (h n)
    | lit | var | call | alien => contradiction

/-! ### Integers -/

mutual

/-- What holds of the literals of an expression can be weakened. -/
theorem Expr.Literals.mono {P Q : Value → Prop} (h : ∀ {v}, P v → Q v) :
    ∀ {e : Expr}, e.Literals P → e.Literals Q
  | .lit .., hl => h hl
  | .var .., _ | .alien .., _ => trivial
  | .add _ _ _, hl => ⟨Expr.Literals.mono h hl.1, Expr.Literals.mono h hl.2⟩
  | .call _ _ _, hl => Expr.LiteralsAll.mono h hl

/-- What holds of the literals of some expressions can be weakened. -/
theorem Expr.LiteralsAll.mono {P Q : Value → Prop} (h : ∀ {v}, P v → Q v) :
    ∀ {es : List Expr}, Expr.LiteralsAll P es → Expr.LiteralsAll Q es
  | [], _ => trivial
  | _ :: _, hl => ⟨Expr.Literals.mono h hl.1, Expr.LiteralsAll.mono h hl.2⟩

end

/-- A store of integers is related to itself. -/
theorem Store.related_of_isInt (h : ∀ e ∈ vars.entries, e.2.IsInt) :
    vars.Related Value.BothInt vars :=
  List.forall₂_same.mpr fun e he => ⟨rfl, h e he, h e he⟩

/-- Among integers, an expression that has a value counts as that integer. -/
theorem Expr.eval_int_or_error (hc : CallersRelated False Value.BothInt fns call call)
    (hv : ∀ e ∈ vars.entries, e.2.IsInt) {e : Expr} (hl : e.Literals Value.IsInt) :
    (∃ n : Int, e.eval fns call vars = .ok (.int n)) ∨ ∃ x, e.eval fns call vars = .error x := by
  have hrel := e.eval_related valueRelation_bothInt hc (Store.related_of_isInt hv)
    (hl.mono fun h => ⟨h, h⟩)
  cases he : e.eval fns call vars with
  | error x => exact Or.inr ⟨x, rfl⟩
  | ok v =>
    rw [he] at hrel
    obtain ⟨⟨n, rfl⟩, -⟩ := hrel.of_ok
    exact Or.inl ⟨n, rfl⟩

/-- In a frame of integers, with the functions of a text, two trees of additions over the same two
or more addends, in whatever order and grouping, have the same value: the exact sum of the addends'
values reduced to a word. They both fail exactly when one of the addends does. -/
theorem Expr.sum_ignores_order_and_grouping {code : Text} {p : Program}
    (h : Program.ofText code = .ok p) (limit : Nat) {vars : Store}
    (hv : ∀ e ∈ vars.entries, e.2.IsInt) {es : List Expr} (hes : 2 ≤ es.length)
    (hl : ∀ e ∈ es, e.Literals Value.IsInt) {t t' : Expr} (ht : t.addends.Perm es)
    (ht' : t'.addends.Perm es) :
    (∃ value : Expr → Int,
      (∀ e ∈ es, e.eval p.functions (Function.call p.functions limit) vars =
        .ok (.int (value e))) ∧
      (0 ≤ (es.map value).sum % wordCount ∧ (es.map value).sum % wordCount ≤ maxWord) ∧
      t.eval p.functions (Function.call p.functions limit) vars =
        .ok (.int ((es.map value).sum % wordCount)) ∧
      t'.eval p.functions (Function.call p.functions limit) vars =
        .ok (.int ((es.map value).sum % wordCount))) ∨
    ((∃ e ∈ es, ∃ x, e.eval p.functions (Function.call p.functions limit) vars = .error x) ∧
      (∃ x, t.eval p.functions (Function.call p.functions limit) vars = .error x) ∧
      ∃ x, t'.eval p.functions (Function.call p.functions limit) vars = .error x) := by
  have hc := callersRelated_bothInt (Program.wellWritten_ofText h).numeric.functions limit
  have hsum : t.isSum = true := t.isSum_of_two_le (by rwa [ht.length_eq])
  have hsum' : t'.isSum = true := t'.isSum_of_two_le (by rwa [ht'.length_eq])
  by_cases hall : ∀ e ∈ es, ∃ n : Int,
      e.eval p.functions (Function.call p.functions limit) vars = .ok (.int n)
  · choose! value hvalue using hall
    have hval {s : Expr} (hs : s.addends.Perm es) (hsum : s.isSum = true) :
        s.eval p.functions (Function.call p.functions limit) vars =
          .ok (.int ((es.map value).sum % wordCount)) := by
      rw [Expr.eval_of_addends hsum fun e he => ⟨_, hvalue e (hs.mem_iff.mp he), rfl⟩,
        (hs.map value).sum_eq]
    refine Or.inl ⟨value, hvalue, ⟨Int.emod_nonneg _ (by decide), ?_⟩, hval ht hsum, hval ht' hsum'⟩
    have hlt : (es.map value).sum % wordCount < wordCount := Int.emod_lt_of_pos _ (by decide)
    unfold maxWord
    omega
  · push Not at hall
    obtain ⟨e, he, hno⟩ := hall
    obtain ⟨n, hn⟩ | ⟨x, hx⟩ := Expr.eval_int_or_error hc hv (hl e he)
    · exact absurd hn (hno n)
    · have hcount (n : Int) : ¬ e.Counts p.functions (Function.call p.functions limit) vars n := by
        rintro ⟨v, hok, -⟩
        rw [hx] at hok
        contradiction
      exact Or.inr ⟨⟨e, he, x, hx⟩, Expr.exists_error_of_addends hsum (ht.mem_iff.mpr he) hcount,
        Expr.exists_error_of_addends hsum' (ht'.mem_iff.mpr he) hcount⟩

/-- A negative variable, a variable far beyond the words and a call have the same sum whichever of
them come first. -/
theorem Expr.sum_of_large_and_negative :
    let code := "func f(a) \x7b return a + 1; \x7d begin \x7b \x7d"
    let vars : Store := ⟨[("x", .int (-5)), ("y", .int 1099511627776)]⟩
    ∃ p, Program.ofText code = .ok p ∧
      (Expr.add (.add (.var "x" 1) (.var "y" 1) 1) (.call "f" [.var "x" 1] 1) 1).eval p.functions
        (Function.call p.functions 1) vars = .ok (.int 4294967287) ∧
      (Expr.add (.call "f" [.var "x" 1] 1) (.add (.var "y" 1) (.var "x" 1) 2) 3).eval p.functions
        (Function.call p.functions 1) vars = .ok (.int 4294967287) := by
  intro code vars
  let p : Program := ⟨[], [⟨"f", ["a"], [.ret (.add (.var "a" 1) (.lit (.int 1) 1) 1) 1], 1⟩]⟩
  have hp : Program.ofText code = .ok p := by decide +kernel
  have hv : ∀ e ∈ vars.entries, e.2.IsInt := by
    simp [vars, Value.IsInt]
  have hl : ∀ e ∈ [Expr.var "x" 1, .var "y" 1, .call "f" [.var "x" 1] 1],
      e.Literals Value.IsInt := by
    simp [Expr.Literals, Expr.LiteralsAll]
  have hperm : List.Perm
      (Expr.add (.call "f" [.var "x" 1] 1) (.add (.var "y" 1) (.var "x" 1) 2) 3).addends
      [.var "x" 1, .var "y" 1, .call "f" [.var "x" 1] 1] := by
    decide
  have hvalue : (Expr.add (.add (.var "x" 1) (.var "y" 1) 1) (.call "f" [.var "x" 1] 1) 1).eval
      p.functions (Function.call p.functions 1) vars = .ok (.int 4294967287) := by
    decide +kernel
  refine ⟨p, hp, hvalue, ?_⟩
  rcases Expr.sum_ignores_order_and_grouping hp 1 hv (by decide) hl
      (t := .add (.add (.var "x" 1) (.var "y" 1) 1) (.call "f" [.var "x" 1] 1) 1)
      (.refl _) hperm with
    ⟨value, -, -, hsum, hsum'⟩ | ⟨-, ⟨x, hx⟩, -⟩
  · rw [hsum', ← hsum]
    exact hvalue
  · exact nomatch hvalue.symm.trans hx

end SumLang
