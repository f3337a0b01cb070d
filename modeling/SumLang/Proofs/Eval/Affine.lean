import Mathlib.Algebra.BigOperators.Group.Finset.Basic
import Mathlib.Algebra.BigOperators.Fin
import SumLang.Proofs.Eval.Success

/-!
# Functions compute affine maps

A function is run on all choices of its arguments at once. Each variable then holds a
family of values, one for each choice, and a property of families that literals have and
sums keep is kept by a whole run. Depending on the arguments in an affine way is such a
property, so every function that returns at all returns a constant plus a multiple of each
of its arguments, reduced to a word.
-/

namespace SumLang

/-! ### Families of values -/

section

variable {ι : Type} {P : (ι → Value) → Prop} {fns : FunctionTable} {call : Caller}

/-- A sum of families with the property has the property wherever it exists. -/
def KeptBySums (P : (ι → Value) → Prop) : Prop :=
  ∀ u v w : ι → Value, P u → P v → (∀ a, (u a).add (v a) = .ok (w a)) → P w

/-- A name that is bound in all stores of a family stands for values with the property. -/
def Store.Holds (P : (ι → Value) → Prop) (vars : ι → Store) : Prop :=
  ∀ x w, (∀ a, (vars a).get? x = some (w a)) → P w

/-- Stores keep a property of families of values when a value with it is bound. -/
theorem Store.Holds.set {vars : ι → Store} (h : Store.Holds P vars) (name : Name) {v : ι → Value}
    (hv : P v) : Store.Holds P fun a => (vars a).set name (v a) := by
  intro x w hw
  by_cases hx : x = name
  · have hwv : w = v := by
      funext a
      have ha := hw a
      rw [get?_set, if_pos hx] at ha
      exact (Option.some.inj ha).symm
    rwa [hwv]
  · refine h x w fun a => ?_
    have ha := hw a
    rwa [get?_set, if_neg hx] at ha

/-- Parameters that are bound to arguments with the property stand for values with it. -/
theorem Store.holds_bind [Nonempty ι] (params : List Name) {us : List (ι → Value)}
    (h : ∀ u ∈ us, P u) : Store.Holds P fun a => bind params (us.map (· a)) := by
  have hfold {vars : ι → Store} (hvars : Store.Holds P vars) : Store.Holds P fun a =>
      (params.zip (us.map (· a))).foldl (fun s e => s.set e.1 e.2) (vars a) := by
    induction us generalizing params vars with
    | nil => simpa using hvars
    | cons u us ih =>
      rw [List.forall_mem_cons] at h
      cases params with
      | nil => exact hvars
      | cons x params => exact ih params h.2 (hvars.set x h.1)
  refine hfold fun x w hw => ?_
  obtain ⟨a⟩ := ‹Nonempty ι›
  exact absurd (hw a) nofun

/-- The variables of all frames of a family stand for values with the property, and so do their
results where each of them has one. -/
structure Frame.Holds (P : (ι → Value) → Prop) (frames : ι → Frame) : Prop where
  vars : Store.Holds P fun a => (frames a).vars
  result : (∀ a, (frames a).result.isNull = false) → P fun a => (frames a).result

/-- Calls with arguments that have the property return values that have it, where they return for
the whole family. -/
def CallsKeep (P : (ι → Value) → Prop) (fns : FunctionTable) (call : Caller) : Prop :=
  ∀ f ∈ fns, ∀ us : List (ι → Value), (∀ u ∈ us, P u) → ∀ w : ι → Value,
    (∀ a, call f (us.map (· a)) = .ok (w a)) → P w

/-! ### Runs on families -/

mutual

/-- The values of an expression in a family of stores have the property. -/
theorem Expr.eval_holds [Nonempty ι] (hP : KeptBySums P) (hc : CallsKeep P fns call)
    {vars : ι → Store} (hs : Store.Holds P vars) : ∀ e : Expr, e.Literals (fun v => P fun _ => v) →
    ∀ w : ι → Value, (∀ a, e.eval fns call (vars a) = .ok (w a)) → P w
  | .lit value line, hl, w, h => by
    have hw : w = fun _ => value := by
      funext a
      exact (Except.ok.inj (h a)).symm
    rw [hw]
    exact hl
  | .var name line, _, w, h => by
    refine hs name w fun a => ?_
    have ha := h a
    rw [Expr.eval] at ha
    split at ha
    · next v hv => rw [hv, Except.ok.inj ha]
    · contradiction
  | .add lhs rhs line, hl, w, h => by
    choose u v hu hv hsum using fun a => Expr.eval_add_eq_ok.mp (h a)
    exact hP u v w (lhs.eval_holds hP hc hs hl.1 u hu) (rhs.eval_holds hP hc hs hl.2 v hv) hsum
  | .call name args line, hl, w, h => by
    obtain ⟨a₀⟩ := ‹Nonempty ι›
    have hfound := h a₀
    simp only [Expr.eval] at h hfound
    cases hf : fns.function? name with
    | none => simp [hf] at hfound
    | some f =>
      simp only [hf] at h hfound
      by_cases hlen : args.length = f.params.length
      · simp only [if_pos hlen, bind_eq_ok] at h
        choose ws hws hcall using h
        obtain ⟨us, hus, rfl⟩ := Expr.evalAll_holds hP hc hs args hl ws hws
        exact hc f (List.mem_of_find?_eq_some hf) us hus w hcall
      · simp [if_neg hlen] at hfound
  | .alien tag fields line, _, w, h => by
    obtain ⟨a⟩ := ‹Nonempty ι›
    exact absurd (h a) nofun

private theorem Expr.evalAll_holds [Nonempty ι] (hP : KeptBySums P) (hc : CallsKeep P fns call)
    {vars : ι → Store} (hs : Store.Holds P vars) :
    ∀ es : List Expr, Expr.LiteralsAll (fun v => P fun _ => v) es →
    ∀ ws : ι → List Value, (∀ a, Expr.evalAll fns call (vars a) es = .ok (ws a)) →
    ∃ us : List (ι → Value), (∀ u ∈ us, P u) ∧ ws = fun a => us.map (· a)
  | [], _, ws, h => by
    refine ⟨[], nofun, funext fun a => ?_⟩
    exact (Except.ok.inj (h a)).symm
  | e :: es, hl, ws, h => by
    simp only [Expr.evalAll, bind_eq_ok] at h
    choose u hu vs hvs hws using h
    obtain ⟨us, hus, rfl⟩ := Expr.evalAll_holds hP hc hs es hl.2 vs hvs
    refine ⟨u :: us, List.forall_mem_cons.mpr ⟨e.eval_holds hP hc hs hl.1 u hu, hus⟩, ?_⟩
    exact funext fun a => (Except.ok.inj (hws a)).symm

end

namespace Frame

variable {frames frames' : ι → Frame}

/-- A statement keeps the property of a family of frames. -/
theorem Holds.exec [Nonempty ι] (hP : KeptBySums P) (hc : CallsKeep P fns call)
    (hf : Holds P frames) {s : Stmt} (hl : s.Literals fun v => P fun _ => v)
    (h : ∀ a, (frames a).exec fns call s = .ok (frames' a)) : Holds P frames' := by
  cases s with
  | decl name value line =>
    choose _ v hv hnext using fun a => exec_decl_eq_ok.mp (h a)
    obtain rfl : frames' = _ := funext hnext
    exact ⟨hf.vars.set name (value.eval_holds hP hc hf.vars hl v hv), hf.result⟩
  | assign name value line =>
    choose _ v hv hnext using fun a => exec_assign_eq_ok.mp (h a)
    obtain rfl : frames' = _ := funext hnext
    exact ⟨hf.vars.set name (value.eval_holds hP hc hf.vars hl v hv), hf.result⟩
  | ret value line =>
    choose _ v hv hnext using fun a => exec_ret_eq_ok.mp (h a)
    obtain rfl : frames' = _ := funext hnext
    exact ⟨hf.vars, fun _ => value.eval_holds hP hc hf.vars hl v hv⟩
  | alien tag fields line =>
    obtain ⟨a⟩ := ‹Nonempty ι›
    exact absurd (h a) nofun

/-- A block keeps the property of a family of frames. -/
theorem Holds.run [Nonempty ι] (hP : KeptBySums P) (hc : CallsKeep P fns call)
    (hf : Holds P frames) {body : List Stmt}
    (hl : ∀ s ∈ body, s.Literals fun v => P fun _ => v)
    (h : ∀ a, (frames a).run fns call body = .ok (frames' a)) : Holds P frames' := by
  induction body generalizing frames with
  | nil =>
    obtain rfl : frames = frames' := funext fun a => Except.ok.inj (h a)
    exact hf
  | cons s body ih =>
    rw [List.forall_mem_cons] at hl
    choose next hs hbody using fun a => run_cons_eq_ok.mp (h a)
    exact ih (hf.exec hP hc hl.1 hs) hl.2 hbody

end Frame

/-- Under every limit, calls return values with the property. -/
theorem Function.callsKeep [Nonempty ι] (hP : KeptBySums P)
    (hl : ∀ f ∈ fns, ∀ s ∈ f.body, s.Literals fun v => P fun _ => v) (limit : Nat) :
    CallsKeep P fns (Function.call fns limit) := by
  induction limit with
  | zero =>
    intro f _ us _ w h
    obtain ⟨a⟩ := ‹Nonempty ι›
    exact absurd (h a) nofun
  | succ limit ih =>
    intro f hf us hus w h
    choose final hrun hresult hw using fun a => Function.call_succ_eq_ok.mp (h a)
    have hstart : Frame.Holds P fun a => f.frame (us.map (· a)) := by
      refine ⟨Store.holds_bind f.params hus, fun hnull => ?_⟩
      obtain ⟨a⟩ := ‹Nonempty ι›
      exact absurd (hnull a) nofun
    obtain rfl : w = _ := funext hw
    exact (hstart.run hP ih (hl f hf) hrun).result hresult

end

/-! ### Affine families -/

/-- A choice of words for `m` parameters. -/
abbrev Words (m : Nat) := { a : Fin m → Nat // ∀ i, a i ≤ maxWord }

instance (m : Nat) : Nonempty (Words m) := ⟨⟨fun _ => 0, fun _ => Nat.zero_le _⟩⟩

/-- The value is a constant plus a multiple of each argument, reduced to a word. -/
def IsAffine {m : Nat} (w : Words m → Value) : Prop :=
  ∃ (c : Nat) (k : Fin m → Nat), ∀ a, w a = .int ((c + ∑ i, k i * a.1 i) % wordCount : Nat)

private theorem mod_wordCount {n : Nat} (h : n ≤ maxWord) : n % wordCount = n := by
  refine Nat.mod_eq_of_lt ?_
  have hpos : 0 < wordCount := by decide
  unfold maxWord at h
  omega

private theorem mod_add_mod_wordCount (x y : Nat) :
    (((x % wordCount : Nat) : Int) + (y % wordCount : Nat)) % wordCount =
      ((x + y) % wordCount : Nat) := by
  push_cast
  exact (Int.add_emod _ _ _).symm

/-- A word does not depend on the arguments. -/
theorem isAffine_const {m : Nat} {v : Value} (h : v.IsWord) : IsAffine fun _ : Words m => v := by
  obtain ⟨n, rfl, hn⟩ := h
  refine ⟨n, 0, fun a => ?_⟩
  simp [mod_wordCount hn]

/-- Each argument depends on itself only. -/
theorem isAffine_argument {m : Nat} (i : Fin m) : IsAffine fun a : Words m => .int (a.1 i) := by
  refine ⟨0, Pi.single i 1, fun a => ?_⟩
  simp [Pi.single_apply, mod_wordCount (a.2 i)]

/-- Sums of affine families are affine. -/
theorem keptBySums_isAffine (m : Nat) : KeptBySums (IsAffine (m := m)) := by
  rintro u v w ⟨c, k, hu⟩ ⟨d, l, hv⟩ hw
  refine ⟨c + d, k + l, fun a => ?_⟩
  have hsum := hw a
  rw [hu, hv] at hsum
  rw [← Except.ok.inj hsum]
  have hsplit : c + d + ∑ i, (k + l) i * a.1 i =
      (c + ∑ i, k i * a.1 i) + (d + ∑ i, l i * a.1 i) := by
    simp only [Pi.add_apply, add_mul, Finset.sum_add_distrib]
    omega
  rw [hsplit]
  exact congrArg Value.int (mod_add_mod_wordCount _ _)

/-- The constants of an affine family can be taken to be words. -/
theorem IsAffine.exists_words {m : Nat} {w : Words m → Value} (h : IsAffine w) :
    ∃ (c : Nat) (k : Fin m → Nat), c ≤ maxWord ∧ (∀ i, k i ≤ maxWord) ∧
      ∀ a, w a = .int ((c + ∑ i, k i * a.1 i) % wordCount : Nat) := by
  obtain ⟨c, k, hw⟩ := h
  have hmod (n : Nat) : n % wordCount ≤ maxWord :=
    Nat.le_sub_one_of_lt (Nat.mod_lt n (by decide))
  refine ⟨c % wordCount, fun i => k i % wordCount, hmod c, fun i => hmod (k i), fun a => ?_⟩
  have hterm (i : Fin m) : k i % wordCount * a.1 i % wordCount = k i * a.1 i % wordCount :=
    Nat.mod_mul_mod (k i) (a.1 i) wordCount
  have hsum : (∑ i, k i * a.1 i) % wordCount = (∑ i, k i % wordCount * a.1 i) % wordCount := by
    rw [Finset.sum_nat_mod, Finset.sum_nat_mod _ _ fun i => k i % wordCount * a.1 i]
    simp only [hterm]
  have htotal : (c + ∑ i, k i * a.1 i) % wordCount =
      (c % wordCount + ∑ i, k i % wordCount * a.1 i) % wordCount := by
    rw [Nat.add_mod, hsum, Nat.add_mod_mod]
  rw [hw a, htotal]

/-! ### Calls with words -/

/-- The words as arguments of a call. -/
def Words.args {m : Nat} (a : Words m) : List Value := List.ofFn fun i => .int (a.1 i)

/-- A call with as many words as there are parameters is proper. -/
theorem Words.properCall {fns : FunctionTable} {f : Function} (hf : f ∈ fns)
    (a : Words f.params.length) : ProperCall fns f a.args := by
  refine ⟨hf, List.length_ofFn, fun w hw => ?_⟩
  obtain ⟨i, rfl⟩ := List.mem_ofFn.mp hw
  exact ⟨a.1 i, rfl⟩

/-- Where one call with words returns, all of them do. -/
theorem Function.exists_ok_of_call {p : Program} (hp : p.WellWritten) {limit : Nat} {f : Function}
    (hf : f ∈ p.functions) {ws : List Value} (hlen : ws.length = f.params.length)
    (hws : ∀ w ∈ ws, w.IsWord) {v : Value} (hcall : Function.call p.functions limit f ws = .ok v)
    (a : Words f.params.length) : ∃ v', Function.call p.functions limit f a.args = .ok v' := by
  have hc := callersRelated_bothInt hp.numeric.functions limit
  have hproper : ProperCall p.functions f ws := ⟨hf, hlen, fun w hw => (hws w hw).bothInt.1⟩
  have hsucceeds := (succeeds_iff hc hproper).mpr ⟨v, hcall⟩
  exact (succeeds_iff hc (Words.properCall hf a)).mp hsucceeds

/-- The values that a function returns under one limit form an affine family. -/
theorem Function.isAffine_of_call {p : Program} (hp : p.WellWritten) {limit : Nat} {f : Function}
    (hf : f ∈ p.functions) {w : Words f.params.length → Value}
    (h : ∀ a, Function.call p.functions limit f a.args = .ok (w a)) : IsAffine w := by
  have hl := (hp.literals fun {v} hv => isAffine_const (m := f.params.length) hv).2
  have hkeep := Function.callsKeep (keptBySums_isAffine f.params.length) hl limit
  refine hkeep f hf (List.ofFn fun i a => .int (a.1 i)) (fun u hu => ?_) w fun a => ?_
  · obtain ⟨i, rfl⟩ := List.mem_ofFn.mp hu
    exact isAffine_argument i
  · rw [List.map_ofFn]
    exact h a

/-- For each function of a program that a text describes there are words, one for the constant and
one for each parameter, such that under every limit that lets some call with words return, and under
every higher one, all calls with words return the constant plus these multiples of the arguments,
reduced to a word. -/
theorem Function.call_is_affine {code : Text} {p : Program} (h : Program.ofText code = .ok p)
    {f : Function} (hf : f ∈ p.functions) :
    ∃ (c : Nat) (k : Fin f.params.length → Nat), c ≤ maxWord ∧ (∀ i, k i ≤ maxWord) ∧
      ∀ limit ws v, ws.length = f.params.length → (∀ w ∈ ws, w.IsWord) →
        Function.call p.functions limit f ws = .ok v →
        ∀ limit', limit ≤ limit' → ∀ a : Fin f.params.length → Nat, (∀ i, a i ≤ maxWord) →
          Function.call p.functions limit' f (List.ofFn fun i => .int (a i)) =
            .ok (.int ((c + ∑ i, k i * a i) % wordCount : Nat)) := by
  have hp := Program.wellWritten_ofText h
  by_cases hex : ∃ limit ws v, ws.length = f.params.length ∧ (∀ w ∈ ws, w.IsWord) ∧
      Function.call p.functions limit f ws = .ok v
  · obtain ⟨limit₀, ws₀, v₀, hlen₀, hws₀, hcall₀⟩ := hex
    choose w hw using Function.exists_ok_of_call hp hf hlen₀ hws₀ hcall₀
    obtain ⟨c, k, hc, hk, hvalue⟩ := (Function.isAffine_of_call hp hf hw).exists_words
    refine ⟨c, k, hc, hk, ?_⟩
    intro limit ws v hlen hws hcall limit' hle a ha
    -- The limit decides only whether the call is cut short, and it is not.
    obtain ⟨v', hv'⟩ := Function.exists_ok_of_call hp hf hlen hws hcall ⟨a, ha⟩
    have hne : Function.call p.functions limit' f (Words.args ⟨a, ha⟩) ≠ .error .depth := by
      rw [← (Function.call_follows p.functions hle f _).eq_of_ne_depth (by rw [hv']; nofun), hv']
      nofun
    have hsame := eq_ok_of_ne_depth (fun hmn => Function.call_follows p.functions hmn f _)
      (hw ⟨a, ha⟩) hne
    rwa [hvalue] at hsame
  · refine ⟨0, 0, Nat.zero_le _, fun _ => Nat.zero_le _, ?_⟩
    intro limit ws v hlen hws hcall
    exact absurd ⟨limit, ws, v, hlen, hws, hcall⟩ hex

/-- A function that reassigns a variable and calls another function returns seven, twice its first
argument and its second one: the constants are those of its calls with the words zero and one. -/
theorem Function.call_affine_through_calls :
    let code := "func g(a, b) \x7b return a + b; \x7d
      func f(a, b) \x7b var c = g(a, a); c = g(c, 7); return b + c; \x7d begin \x7b \x7d"
    ∃ p f, Program.ofText code = .ok p ∧ f ∈ p.functions ∧ f.params = ["a", "b"] ∧
      ∀ a b : Nat, a ≤ maxWord → b ≤ maxWord → Function.call p.functions 2 f [.int a, .int b] =
        .ok (.int ((7 + (2 * a + 1 * b)) % wordCount : Nat)) := by
  intro code
  let f : Function := ⟨"f", ["a", "b"], [.decl "c" (.call "g" [.var "a" 2, .var "a" 2] 2) 2,
    .assign "c" (.call "g" [.var "c" 2, .lit (.int 7) 2] 2) 2,
    .ret (.add (.var "b" 2) (.var "c" 2) 2) 2], 2⟩
  let p : Program := ⟨[], [⟨"g", ["a", "b"], [.ret (.add (.var "a" 1) (.var "b" 1) 1) 1], 1⟩, f]⟩
  have hp : Program.ofText code = .ok p := by decide +kernel
  have hf : f ∈ p.functions := List.mem_cons_of_mem _ List.mem_cons_self
  have hzeros : ∀ w ∈ [Value.int 0, .int 0], w.IsWord := by
    simp only [List.forall_mem_cons]
    exact ⟨⟨0, rfl, Nat.zero_le _⟩, ⟨0, rfl, Nat.zero_le _⟩, nofun⟩
  obtain ⟨c, k, hc, hk, hcall⟩ := Function.call_is_affine hp hf
  obtain ⟨hk₀, hk₁⟩ := Fin.forall_fin_two.mp hk
  have hvalue (a b : Nat) (ha : a ≤ maxWord) (hb : b ≤ maxWord) :
      Function.call p.functions 2 f [.int a, .int b] =
        .ok (.int ((c + (k (0 : Fin 2) * a + k (1 : Fin 2) * b)) % wordCount : Nat)) := by
    have hab := hcall 2 [.int 0, .int 0] (.int 7) rfl hzeros (by decide +kernel) 2 (Nat.le_refl 2)
      ![a, b] (Fin.forall_fin_two.mpr ⟨ha, hb⟩)
    have hsum := Fin.sum_univ_two fun i => k i * ![a, b] i
    exact hab.trans
      (congrArg (fun n : Nat => Except.ok (Value.int ((c + n) % wordCount : Nat))) hsum)
  generalize k (0 : Fin 2) = k₀ at hk₀ hvalue
  generalize k (1 : Fin 2) = k₁ at hk₁ hvalue
  have hconstants {a b n : Nat} (ha : a ≤ maxWord) (hb : b ≤ maxWord)
      (h : Function.call p.functions 2 f [.int a, .int b] = .ok (.int n)) :
      (c + (k₀ * a + k₁ * b)) % 4294967296 = n :=
    Int.ofNat_inj.mp (Value.int.inj (Except.ok.inj ((hvalue a b ha hb).symm.trans h)))
  have hmax : maxWord = 4294967295 := rfl
  have h₀₀ := @hconstants 0 0 7 (by decide) (by decide) (by decide +kernel)
  have h₁₀ := @hconstants 1 0 9 (by decide) (by decide) (by decide +kernel)
  have h₀₁ := @hconstants 0 1 8 (by decide) (by decide) (by decide +kernel)
  obtain rfl : c = 7 := by omega
  obtain rfl : k₀ = 2 := by omega
  obtain rfl : k₁ = 1 := by omega
  exact ⟨p, f, hp, hf, rfl, hvalue⟩

end SumLang
