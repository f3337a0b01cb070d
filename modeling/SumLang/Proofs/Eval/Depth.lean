import Mathlib.Data.List.Basic
import Mathlib.Order.Monotone.Basic
import SumLang.Program.Run
import SumLang.Proofs.Program.Source

/-!
# Limits on the depth of calls

A higher limit only changes runs that the lower one cut short. No value decides whether a
call is cut short, so each function of a table is settled from some limit on or never. As
long as a higher limit settles more functions it may settle yet others; once one step
settles none, no further step does. The number of functions is therefore a limit beyond
which nothing changes.
-/

namespace SumLang

variable {fns : FunctionTable} {m n : Nat}

/-! ### Higher limits -/

private theorem callersRelated_eq {call call' : Caller}
    (h : ∀ f ws, Follows True Eq (call f ws) (call' f ws)) :
    CallersRelated True Eq fns call call' := by
  intro f _ ws ws' hws _
  rw [List.forall₂_eq_eq_eq] at hws
  rw [← hws]
  exact h f ws

/-- A higher limit changes a call only when the lower one cuts it short. -/
theorem Function.call_follows (fns : FunctionTable) (h : m ≤ n) (f : Function) (ws : List Value) :
    Follows True Eq (Function.call fns m f ws) (Function.call fns n f ws) := by
  induction m generalizing n f ws with
  | zero => exact .cutShort trivial _
  | succ m ih =>
    obtain ⟨n, rfl⟩ : ∃ k, n = k + 1 := ⟨n - 1, by omega⟩
    have hc : CallersRelated True Eq fns (Function.call fns m) (Function.call fns n) :=
      callersRelated_eq (ih (by omega))
    refine Function.call_succ_related valueRelation_eq hc ?_ ?_
    · exact fun s _ => s.literals_of_forall fun _ => rfl
    · rw [List.forall₂_eq_eq_eq]

private theorem callersRelated_of_le (fns : FunctionTable) (h : m ≤ n) :
    CallersRelated True Eq fns (Function.call fns m) (Function.call fns n) :=
  callersRelated_eq (Function.call_follows fns h)

private theorem Store.related_refl (s : Store) : s.Related Eq s :=
  List.forall₂_same.mpr fun _ _ => ⟨rfl, rfl⟩

private theorem Frame.related_refl (f : Frame) : f.Related Eq f :=
  ⟨f.vars.related_refl, Or.inr rfl, rfl⟩

/-- A higher limit changes the value of an expression only when the lower one cuts it short. -/
theorem Expr.eval_follows (fns : FunctionTable) (h : m ≤ n) (vars : Store) (e : Expr) :
    Follows True Eq (e.eval fns (Function.call fns m) vars)
      (e.eval fns (Function.call fns n) vars) :=
  e.eval_related valueRelation_eq (callersRelated_of_le fns h) vars.related_refl
    (e.literals_of_forall fun _ => rfl)

/-- With a larger limit, arguments evaluate alike unless the smaller one cuts them short. -/
theorem Expr.evalAll_follows (fns : FunctionTable) (h : m ≤ n) (vars : Store) (es : List Expr) :
    Follows True Eq (Expr.evalAll fns (Function.call fns m) vars es)
      (Expr.evalAll fns (Function.call fns n) vars es) := by
  have hall := Expr.evalAll_related valueRelation_eq (callersRelated_of_le fns h) vars.related_refl
    es (Expr.literalsAll_of_forall (fun _ => rfl) es)
  refine hall.mono fun ws ws' hws => ?_
  rw [← List.forall₂_eq_eq_eq]
  exact hws.1

/-- A higher limit changes a statement only when the lower one cuts it short. -/
theorem Frame.exec_follows (fns : FunctionTable) (h : m ≤ n) (frame : Frame) (s : Stmt) :
    Follows True Eq (frame.exec fns (Function.call fns m) s)
      (frame.exec fns (Function.call fns n) s) := by
  have hexec := Frame.exec_related valueRelation_eq (callersRelated_of_le fns h) frame.related_refl
    (s.literals_of_forall fun _ => rfl)
  exact hexec.mono fun _ _ hf => hf.eq

/-- A higher limit changes the run of a block only when the lower one cuts it short. -/
theorem Frame.run_follows (fns : FunctionTable) (h : m ≤ n) (frame : Frame) (body : List Stmt) :
    Follows True Eq (frame.run fns (Function.call fns m) body)
      (frame.run fns (Function.call fns n) body) := by
  have hlit (s : Stmt) (_ : s ∈ body) : s.Literals fun v => v = v :=
    s.literals_of_forall fun _ => rfl
  have hrun := Frame.run_related valueRelation_eq (callersRelated_of_le fns h)
    frame.related_refl hlit
  exact hrun.mono fun _ _ hf => hf.eq

/-- What ends well under one limit ends in the same way under every limit that does not cut it
short. -/
theorem eq_ok_of_ne_depth {α : Type} {x : Nat → Except RunError α}
    (hx : ∀ {m n}, m ≤ n → Follows True Eq (x m) (x n)) {a : α} (hm : x m = .ok a)
    (hn : x n ≠ .error .depth) : x n = .ok a := by
  rcases Nat.le_total m n with hle | hle
  · have heq := (hx hle).eq_of_ne_depth (by rw [hm]; exact nofun)
    rw [← heq, hm]
  · rw [(hx hle).eq_of_ne_depth hn, hm]

/-- Where a first part ends well under one limit and what follows is cut short, every limit cuts
short the two together. -/
theorem bind_eq_depth {α β : Type} {x : Nat → Except RunError α}
    (hx : ∀ {m n}, m ≤ n → Follows True Eq (x m) (x n)) {a : α} (hm : x m = .ok a)
    {f : α → Except RunError β} (hf : f a = .error .depth) : x n >>= f = .error .depth := by
  rw [bind_eq_error]
  by_cases hn : x n = .error .depth
  · exact Or.inl hn
  · exact Or.inr ⟨a, eq_ok_of_ne_depth hx hm hn, hf⟩

/-! ### Calls on integers -/

/-- All literals in the bodies of a table are integers. -/
def FunctionTable.Numeric (fns : FunctionTable) : Prop :=
  ∀ f ∈ fns, ∀ s ∈ f.body, s.Literals fun v => v.BothInt v

/-- Calls with integers end in the same way whatever the integers are. -/
theorem callersRelated_bothInt (hfns : fns.Numeric) (n : Nat) :
    CallersRelated False Value.BothInt fns (Function.call fns n) (Function.call fns n) :=
  callersRelated_self valueRelation_bothInt hfns n

/-- A function of a table with an integer for each of its parameters. -/
structure ProperCall (fns : FunctionTable) (f : Function) (ws : List Value) : Prop where
  mem : f ∈ fns
  length : ws.length = f.params.length
  isInt : ∀ w ∈ ws, w.IsInt

/-- A call that starts among integers is proper. -/
theorem CallWith.properCall {f : Function} {ws : List Value}
    (h : CallWith Value.BothInt fns f ws) : ProperCall fns f ws :=
  ⟨h.mem, h.length, fun w hw => (List.forall₂_same.mp h.args w hw).1⟩

/-- On integers, the values of arguments in the right number make a proper call. -/
theorem Expr.properCall_of_evalAll {call : Caller} {vars : Store}
    (hc : CallersRelated False Value.BothInt fns call call)
    (hv : vars.Related Value.BothInt vars) {es : List Expr}
    (hl : Expr.LiteralsAll (fun v => v.BothInt v) es) {ws : List Value}
    (h : Expr.evalAll fns call vars es = .ok ws) {f : Function} (hf : f ∈ fns)
    (hlen : es.length = f.params.length) : ProperCall fns f ws :=
  (Expr.callWith_of_evalAll valueRelation_bothInt hc hv hl h hf hlen).properCall

/-- Whether a computation was cut short by its limit. -/
def isCut {α : Type} : Except RunError α → Bool
  | .error .depth => true
  | _ => false

/-- A computation is cut exactly when it fails for too deep calls. -/
theorem isCut_iff {α : Type} {x : Except RunError α} : isCut x = true ↔ x = .error .depth := by
  unfold isCut
  split
  · simp
  · next h => simpa using h

/-- Arguments for a function that are all zero. -/
def Function.zeros (f : Function) : List Value := List.replicate f.params.length (.int 0)

/-- The call of a function with zeros is proper. -/
theorem Function.properCall_zeros {f : Function} (hf : f ∈ fns) : ProperCall fns f f.zeros := by
  refine ⟨hf, List.length_replicate, fun w hw => ?_⟩
  rw [List.eq_of_mem_replicate hw]
  exact ⟨0, rfl⟩

/-- Integers for the parameters of one function are related. -/
theorem ProperCall.forall₂ {f : Function} {ws ws' : List Value} (h : ProperCall fns f ws)
    (h' : ProperCall fns f ws') : List.Forall₂ Value.BothInt ws ws' := by
  rw [List.forall₂_iff_get]
  refine ⟨h.length.trans h'.length.symm, fun i hi hi' => ?_⟩
  exact ⟨h.isInt _ (List.get_mem ws ⟨i, hi⟩), h'.isInt _ (List.get_mem ws' ⟨i, hi'⟩)⟩

/-- Whether calls of a function with integers are not cut short by a limit. -/
def Function.settles (fns : FunctionTable) (n : Nat) (f : Function) : Bool :=
  !isCut (Function.call fns n f f.zeros)

/-- One call with integers shows whether a limit settles the function. -/
theorem Function.settles_iff (hfns : fns.Numeric) {f : Function} {ws : List Value}
    (h : ProperCall fns f ws) :
    f.settles fns n = true ↔ Function.call fns n f ws ≠ .error .depth := by
  have hzeros := h.forall₂ (Function.properCall_zeros h.mem)
  have hrel := callersRelated_bothInt hfns n f h.mem ws f.zeros hzeros h.length
  rw [Function.settles, Bool.not_eq_true', ← Bool.not_eq_true, isCut_iff, ne_eq, hrel.depth_iff]

/-- No function settles when no call may be active. -/
theorem Function.not_settles_zero (f : Function) : f.settles fns 0 = false := rfl

/-- A function that settles within a limit settles within every larger one. -/
theorem Function.settles_mono (h : m ≤ n) {f : Function} (hs : f.settles fns m = true) :
    f.settles fns n = true := by
  rw [Function.settles, Bool.not_eq_true', ← Bool.not_eq_true, isCut_iff] at hs ⊢
  rwa [← (Function.call_follows fns h f f.zeros).eq_of_ne_depth hs]

/-! ### The number of functions suffices -/

/-- Limits that settle the same functions carry out the same calls on integers. -/
theorem callersRelated_of_settles_eq (hfns : fns.Numeric) (h : m ≤ n)
    (heq : ∀ f ∈ fns, f.settles fns m = f.settles fns n) :
    CallersRelated False Value.BothInt fns (Function.call fns m) (Function.call fns n) := by
  intro f hf ws ws' hws hlen
  have hint := ((List.forall₂_and_left _ _).mp (hws.imp fun _ _ hv => ⟨hv.1, hv⟩)).1
  have hproper : ProperCall fns f ws := ⟨hf, hlen, hint⟩
  by_cases hcut : Function.call fns m f ws = .error .depth
  · have hn : ¬ f.settles fns n = true := by
      rw [← heq f hf, Function.settles_iff hfns hproper]
      exact not_not_intro hcut
    have hrel := callersRelated_bothInt hfns n f hf ws ws' hws hlen
    rw [Function.settles_iff hfns hproper, ne_eq, not_not, hrel.depth_iff] at hn
    rw [hcut, hn]
    exact .error _
  · rw [(Function.call_follows fns h f ws).eq_of_ne_depth hcut]
    exact callersRelated_bothInt hfns n f hf ws ws' hws hlen

/-- How many functions of a table a limit settles. -/
def FunctionTable.settled (fns : FunctionTable) (n : Nat) : Nat := fns.countP (·.settles fns n)

private theorem FunctionTable.monotone_settled (fns : FunctionTable) : Monotone fns.settled :=
  fun _ _ h => List.countP_mono_left fun _ _ hs => Function.settles_mono h hs

/-- Limits that settle equally many functions settle the same ones. -/
theorem Function.settles_eq_of_settled_eq (h : m ≤ n) (heq : fns.settled m = fns.settled n) :
    ∀ f ∈ fns, f.settles fns m = f.settles fns n := by
  intro f hf
  have hsub : (fns.filter (·.settles fns m)).Sublist (fns.filter (·.settles fns n)) :=
    List.monotone_filter_right fns fun g hg => Function.settles_mono h hg
  rw [FunctionTable.settled, FunctionTable.settled, List.countP_eq_length_filter,
    List.countP_eq_length_filter] at heq
  have hfilter := hsub.eq_of_length heq
  rw [Bool.eq_iff_iff]
  constructor
  · exact Function.settles_mono h
  · intro hs
    have hmem : f ∈ fns.filter (·.settles fns n) := List.mem_filter.mpr ⟨hf, hs⟩
    rw [← hfilter] at hmem
    exact (List.mem_filter.mp hmem).2

/-- When one step settles no further function, neither does the next. -/
theorem FunctionTable.settled_stable (hfns : fns.Numeric) (n : Nat)
    (h : fns.settled n = fns.settled (n + 1)) : fns.settled (n + 1) = fns.settled (n + 2) := by
  have hsettles := Function.settles_eq_of_settled_eq (Nat.le_succ n) h
  have hc := callersRelated_of_settles_eq hfns (Nat.le_succ n) hsettles
  refine List.countP_congr fun f hf => ?_
  have hzeros := (Function.properCall_zeros hf).forall₂ (Function.properCall_zeros hf)
  have hrel := Function.call_succ_related valueRelation_bothInt hc (hfns f hf) hzeros
  rw [Function.settles, Function.settles, Bool.not_eq_true', Bool.not_eq_true',
    ← Bool.not_eq_true, ← Bool.not_eq_true, isCut_iff, isCut_iff, hrel.depth_iff]

/-- Beyond the number of functions, limits settle the same functions. -/
theorem Function.settles_length_eq (hfns : fns.Numeric) (h : fns.length ≤ n) :
    ∀ f ∈ fns, f.settles fns fns.length = f.settles fns n := by
  have heq : fns.settled n = fns.settled fns.length :=
    Nat.stabilises_of_monotone fns.monotone_settled (fun _ => List.countP_le_length)
      (fns.settled_stable hfns) h
  exact Function.settles_eq_of_settled_eq h heq.symm

/-! ### Programs -/

/-- All literals of a program are integers. -/
structure Program.Numeric (p : Program) : Prop where
  entry : ∀ s ∈ p.entry, s.Literals fun v => v.BothInt v
  functions : p.functions.Numeric

/-- The literals of a well-written program are integers. -/
theorem Program.WellWritten.numeric {p : Program} (h : p.WellWritten) : p.Numeric := by
  obtain ⟨hentry, hfunctions⟩ := h.literals Value.IsWord.bothInt
  exact ⟨hentry, hfunctions⟩

/-- Beyond the number of functions, the limit does not matter. -/
theorem Program.executeWithin_length_eq {p : Program} (hp : p.Numeric)
    (h : p.functions.length ≤ n) :
    p.executeWithin n = p.executeWithin p.functions.length := by
  rw [executeWithin, executeWithin]
  split
  · rfl
  · have hc := callersRelated_of_settles_eq hp.functions h
      (Function.settles_length_eq hp.functions h)
    have hrel := Frame.run_related valueRelation_bothInt hc (Frame.related_empty _) hp.entry
    have hfollows := Frame.run_follows p.functions h {} p.entry
    by_cases hcut : ({} : Frame).run p.functions (Function.call p.functions p.functions.length)
        p.entry = .error .depth
    · rw [hcut, ← hrel.depth_iff, hcut]
    · exact (hfollows.eq_of_ne_depth hcut).symm

end SumLang
