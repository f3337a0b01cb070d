import Mathlib.Data.Fintype.Card
import Mathlib.Data.Set.Finite.List
import Mathlib.Logic.Relation
import SumLang.Proofs.Eval.Success

/-!
# Well-formed programs

A program can be judged without running it: the entry block must not return, each block
that can be reached must be well scoped, each function that can be reached must return
exactly once, and no function that can be reached may lead back to itself. A program is
well formed in this sense exactly when its run ends well.
-/

namespace SumLang

namespace Program

/-- The body of `f` contains a call of `g`. -/
def Calls (p : Program) (f g : Function) : Prop := CallsIn p.functions f.body g

/-- The functions that can be reached from the entry block through calls. -/
inductive Reaches (p : Program) : Function → Prop
  | entry {g : Function} (h : CallsIn p.functions p.entry g) : Reaches p g
  | call {f g : Function} (hf : Reaches p f) (h : p.Calls f g) : Reaches p g

/-- The rules that a program keeps: where it may return, what it may name, and that no function
leads back to itself. -/
structure WellFormed (p : Program) : Prop where
  entry_return : p.entry.countP Stmt.isReturn = 0
  entry_scope : WellScoped p.functions [] p.entry
  body_return : ∀ f, p.Reaches f → f.body.countP Stmt.isReturn = 1
  body_scope : ∀ f, p.Reaches f → WellScoped p.functions f.params f.body
  acyclic : ∀ f, p.Reaches f → ¬ Relation.TransGen p.Calls f f

variable {p : Program}

/-- A function that is reached is one of the program. -/
theorem Reaches.mem {f : Function} (h : p.Reaches f) : f ∈ p.functions := by
  cases h with
  | entry h => exact h.mem
  | call _ h => exact CallsIn.mem h

/-! ### Programs that end well are well formed -/

private theorem not_succeeds_zero (f : Function) : ¬ Succeeds (Function.call p.functions 0) f := by
  rintro ⟨v, hv⟩
  contradiction

/-- A function that ends well is well scoped and returns once, and what it calls ends well one
level further down. -/
theorem succeeds_succ_iff_of_reaches (hp : p.WellWritten) {n : Nat} {f : Function}
    (hf : p.Reaches f) : Succeeds (Function.call p.functions (n + 1)) f ↔
      WellScoped p.functions f.params f.body ∧ f.body.countP Stmt.isReturn = 1 ∧
        ∀ g, p.Calls f g → Succeeds (Function.call p.functions n) g :=
  succeeds_succ_iff (callersRelated_bothInt hp.numeric.functions n) hf.mem
    (hp.functions f hf.mem)

/-- Where the run ends well, every function that is reached succeeds. -/
theorem Reaches.exists_succeeds (hp : p.WellWritten) {n : Nat}
    (h : ∃ frame, p.executeWithin n = .ok frame) {f : Function} (hf : p.Reaches f) :
    ∃ k, Succeeds (Function.call p.functions (k + 1)) f := by
  have hpos {g : Function} {k : Nat} (hs : Succeeds (Function.call p.functions k) g) :
      ∃ k, Succeeds (Function.call p.functions (k + 1)) g := by
    cases k with
    | zero => exact absurd hs (not_succeeds_zero g)
    | succ k => exact ⟨k, hs⟩
  induction hf with
  | entry hcall => exact hpos (((p.executeWithin_ok_iff hp).mp h).2.2 _ hcall)
  | call hf hcall ih =>
    obtain ⟨k, hk⟩ := ih
    exact hpos (((succeeds_succ_iff_of_reaches hp hf).mp hk).2.2 _ hcall)

/-- What a function leads to ends well further down. -/
theorem exists_lt_succeeds_of_transGen (hp : p.WellWritten) {f g : Function}
    (hfg : Relation.TransGen p.Calls f g) (hf : p.Reaches f) {n : Nat}
    (hn : Succeeds (Function.call p.functions n) f) :
    p.Reaches g ∧ ∃ k < n, Succeeds (Function.call p.functions k) g := by
  have hstep {f g : Function} (hf : p.Reaches f) (hfg : p.Calls f g) {n : Nat}
      (hn : Succeeds (Function.call p.functions n) f) :
      ∃ k < n, Succeeds (Function.call p.functions k) g := by
    cases n with
    | zero => exact absurd hn (not_succeeds_zero f)
    | succ n =>
      exact ⟨n, Nat.lt_succ_self n, ((succeeds_succ_iff_of_reaches hp hf).mp hn).2.2 g hfg⟩
  induction hfg with
  | single h => exact ⟨hf.call h, hstep hf h hn⟩
  | tail _ h ih =>
    obtain ⟨hmid, k, hk, hs⟩ := ih
    obtain ⟨j, hj, hs'⟩ := hstep hmid h hs
    exact ⟨hmid.call h, j, hj.trans hk, hs'⟩

/-- A function that leads back to itself never ends well. -/
theorem not_succeeds_of_transGen (hp : p.WellWritten) {f : Function} (hf : p.Reaches f)
    (hcycle : Relation.TransGen p.Calls f f) (n : Nat) :
    ¬ Succeeds (Function.call p.functions n) f := by
  induction n using Nat.strong_induction_on with
  | _ n ih =>
    intro hn
    obtain ⟨-, k, hk, hs⟩ := exists_lt_succeeds_of_transGen hp hcycle hf hn
    exact ih k hk hs

/-- A program whose run ends well is well formed. -/
theorem wellFormed_of_executeWithin (hp : p.WellWritten) {n : Nat}
    (h : ∃ frame, p.executeWithin n = .ok frame) : p.WellFormed := by
  obtain ⟨hret, hscoped, -⟩ := (p.executeWithin_ok_iff hp).mp h
  refine ⟨hret, hscoped, fun f hf => ?_, fun f hf => ?_, fun f hf hcycle => ?_⟩
  · obtain ⟨k, hk⟩ := hf.exists_succeeds hp h
    exact ((succeeds_succ_iff_of_reaches hp hf).mp hk).2.1
  · obtain ⟨k, hk⟩ := hf.exists_succeeds hp h
    exact ((succeeds_succ_iff_of_reaches hp hf).mp hk).1
  · obtain ⟨k, hk⟩ := hf.exists_succeeds hp h
    exact not_succeeds_of_transGen hp hf hcycle (k + 1) hk

/-! ### Well-formed programs end well -/

/-- What ends well at all ends well within every limit beyond the number of functions. -/
theorem succeeds_of_length_le (hp : p.WellWritten) {k n : Nat} (hn : p.functions.length ≤ n)
    {f : Function} (hf : f ∈ p.functions) (hs : Succeeds (Function.call p.functions k) f) :
    Succeeds (Function.call p.functions n) f := by
  obtain ⟨v, hv⟩ := hs
  have hne : Function.call p.functions n f f.zeros ≠ .error .depth := by
    have hzeros := Function.properCall_zeros hf
    have hsettles {m : Nat} := Function.settles_iff (n := m) hp.numeric.functions hzeros
    have hk : f.settles p.functions k = true := hsettles.mpr (by rw [hv]; exact nofun)
    rcases Nat.le_total k n with hle | hle
    · exact hsettles.mp (Function.settles_mono hle hk)
    · have hn' := Function.settles_length_eq hp.numeric.functions hn f hf
      have hk' := Function.settles_length_eq hp.numeric.functions (hn.trans hle) f hf
      rw [← hsettles, ← hn', hk', hk]
  exact ⟨v, eq_ok_of_ne_depth (fun hle => Function.call_follows p.functions hle f f.zeros) hv hne⟩

/-- Where no function leads back to itself, calls go down a well-founded relation. -/
theorem WellFormed.wellFounded (h : p.WellFormed) :
    WellFounded fun g f : { f // p.Reaches f } => Relation.TransGen p.Calls f.1 g.1 := by
  have hfinite : Finite { f // p.Reaches f } :=
    (List.finite_toSet p.functions).subset fun f hf => Reaches.mem hf
  have htrans : IsTrans { f // p.Reaches f } fun g f => Relation.TransGen p.Calls f.1 g.1 :=
    ⟨fun _ _ _ hab hbc => hbc.trans hab⟩
  have hirrefl : Std.Irrefl fun g f : { f // p.Reaches f } =>
      Relation.TransGen p.Calls f.1 g.1 := ⟨fun f => h.acyclic f.1 f.2⟩
  exact Finite.wellFounded_of_trans_of_irrefl _

/-- In a well-formed program, every function that can be reached ends well. -/
theorem WellFormed.succeeds (hp : p.WellWritten) (h : p.WellFormed) {n : Nat}
    (hn : p.functions.length ≤ n) (f : { f // p.Reaches f }) :
    Succeeds (Function.call p.functions n) f.1 := by
  induction f using h.wellFounded.induction with
  | _ f ih =>
    have hsucc : Succeeds (Function.call p.functions (n + 1)) f.1 := by
      rw [succeeds_succ_iff_of_reaches hp f.2]
      refine ⟨h.body_scope f.1 f.2, h.body_return f.1 f.2, fun g hg => ?_⟩
      exact ih ⟨g, f.2.call hg⟩ (.single hg)
    exact succeeds_of_length_le hp hn f.2.mem hsucc

/-- The run of a well-formed program ends well when its limit admits all functions. -/
theorem WellFormed.executeWithin (hp : p.WellWritten) (h : p.WellFormed) {n : Nat}
    (hn : p.functions.length ≤ n) : ∃ frame, p.executeWithin n = .ok frame := by
  rw [p.executeWithin_ok_iff hp]
  refine ⟨h.entry_return, h.entry_scope, fun g hg => ?_⟩
  exact h.succeeds hp hn ⟨g, .entry hg⟩

/-- For a program that a text describes and a limit no lower than the number of its functions, the
run ends well exactly when the program is well formed. The final frame then has the names that the
entry block declares, in order, and no result. -/
theorem executeWithin_ok_iff_wellFormed {code : Text} {p : Program}
    (h : Program.ofText code = .ok p) {limit : Nat} (hl : p.functions.length ≤ limit) :
    ((∃ frame, p.executeWithin limit = .ok frame) ↔ p.WellFormed) ∧
      ∀ frame, p.executeWithin limit = .ok frame →
        frame.vars.names = declared p.entry ∧ frame.result = .null := by
  have hp := wellWritten_ofText h
  exact ⟨⟨wellFormed_of_executeWithin hp, fun hw => hw.executeWithin hp hl⟩,
    fun frame hframe => frame_of_executeWithin hp hframe⟩

/-- A program whose only cycle cannot be reached is well formed, since its run ends well. -/
theorem wellFormed_of_unreachable_cycle :
    let code := "func h() \x7b return h(); \x7d func g(a) \x7b return a; \x7d
      begin \x7b var x = g(1); x = x + g(x); \x7d"
    ∃ p, Program.ofText code = .ok p ∧ p.functions.length ≤ 2 ∧ p.WellFormed := by
  intro code
  have hp : Program.ofText code =
      .ok ⟨[.decl "x" (.call "g" [.lit (.int 1) 2] 2) 2,
          .assign "x" (.add (.var "x" 2) (.call "g" [.var "x" 2] 2) 2) 2],
        [⟨"h", [], [.ret (.call "h" [] 1) 1], 1⟩, ⟨"g", ["a"], [.ret (.var "a" 1) 1], 1⟩]⟩ := by
    decide +kernel
  have hl : 2 ≤ 2 := Nat.le_refl 2
  exact ⟨_, hp, hl, (executeWithin_ok_iff_wellFormed hp hl).1.mp ⟨_, rfl⟩⟩

end Program

end SumLang
