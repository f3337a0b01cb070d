import SumLang.Proofs.Eval.Depth
import SumLang.Proofs.Syntax.Scope

/-!
# Runs that end well

On integers, well-written code ends well exactly when its variables are bound, its
declarations are new, its calls name functions with the right number of parameters, and
these functions end well themselves. A block moreover returns at most once, and the body
of a function exactly once.
-/

namespace SumLang

variable {fns : FunctionTable} {call : Caller}

/-- Calls of a function with integers end well. -/
def Succeeds (call : Caller) (f : Function) : Prop := ∃ v, call f f.zeros = .ok v

/-- One call with integers shows whether all of them end well. -/
theorem succeeds_iff (hc : CallersRelated False Value.BothInt fns call call) {f : Function}
    {ws : List Value} (h : ProperCall fns f ws) : Succeeds call f ↔ ∃ v, call f ws = .ok v := by
  have hzeros := h.forall₂ (Function.properCall_zeros h.mem)
  exact (hc f h.mem ws f.zeros hzeros h.length).ok_iff.symm

/-- A call of a known function with the right number of arguments, where calls of the function
end well. -/
def GoodCall (fns : FunctionTable) (call : Caller) (c : Name × Nat) : Prop :=
  ∃ f, fns.function? c.1 = some f ∧ f.params.length = c.2 ∧ Succeeds call f

/-! ### Expressions -/

section

variable {vars : Store}

/-- The value of a well-written expression is an integer. -/
theorem Expr.isInt_of_eval (hc : CallersRelated False Value.BothInt fns call call)
    (hv : vars.Related Value.BothInt vars) {e : Expr} (hw : e.WellWritten) {v : Value}
    (h : e.eval fns call vars = .ok v) : v.IsInt := by
  have hrel := e.eval_related valueRelation_bothInt hc hv (hw.literals Value.IsWord.bothInt)
  rw [h] at hrel
  exact hrel.of_ok.1

mutual

/-- An expression has a value exactly when its variables are bound and its calls are good. -/
theorem Expr.eval_ok_iff (hc : CallersRelated False Value.BothInt fns call call)
    (hv : vars.Related Value.BothInt vars) : ∀ e : Expr, e.WellWritten →
    ((∃ v, e.eval fns call vars = .ok v) ↔
      (∀ x ∈ e.vars, x ∈ vars.names) ∧ ∀ c ∈ e.calls, GoodCall fns call c)
  | .lit value line, _ => by
    simp [Expr.eval, Expr.vars, Expr.calls]
  | .var name line, _ => by
    rw [Expr.eval, Expr.vars, Expr.calls]
    have hbound : (∃ v, vars.get? name = some v) ↔ name ∈ vars.names := by
      rw [← Store.contains_iff, Store.contains, Option.isSome_iff_exists]
    cases hget : vars.get? name with
    | none => simpa [hget] using hbound
    | some v => simpa [hget] using hbound
  | .add lhs rhs line, hw => by
    have hl := lhs.eval_ok_iff hc hv hw.1
    have hr := rhs.eval_ok_iff hc hv hw.2
    have hsum : (∃ v, (Expr.add lhs rhs line).eval fns call vars = .ok v) ↔
        (∃ v, lhs.eval fns call vars = .ok v) ∧ ∃ v, rhs.eval fns call vars = .ok v := by
      constructor
      · rintro ⟨v, h⟩
        rw [Expr.eval, bind_eq_ok] at h
        obtain ⟨a, ha, h⟩ := h
        obtain ⟨b, hb, -⟩ := bind_eq_ok.mp h
        exact ⟨⟨a, ha⟩, b, hb⟩
      · rintro ⟨⟨a, ha⟩, b, hb⟩
        obtain ⟨m, rfl⟩ := Expr.isInt_of_eval hc hv hw.1 ha
        obtain ⟨n, rfl⟩ := Expr.isInt_of_eval hc hv hw.2 hb
        exact ⟨_, by rw [Expr.eval, ha, hb]; rfl⟩
    rw [hsum, hl, hr, Expr.vars, Expr.calls, List.forall_mem_append, List.forall_mem_append]
    exact and_and_and_comm
  | .call name args line, hw => by
    have hlit : Expr.LiteralsAll (fun v => v.BothInt v) args := hw.2.literals Value.IsWord.bothInt
    have hargs := Expr.evalAll_ok_iff hc hv args hw.2
    rw [Expr.vars, Expr.calls, List.forall_mem_cons, and_left_comm, ← hargs]
    constructor
    · rintro ⟨v, h⟩
      rw [Expr.eval] at h
      split at h
      · contradiction
      · next f hf =>
        split at h
        · next hlen =>
          obtain ⟨ws, hws, hcall⟩ := bind_eq_ok.mp h
          have hproper :=
            Expr.properCall_of_evalAll hc hv hlit hws (List.mem_of_find?_eq_some hf) hlen
          exact ⟨⟨f, hf, hlen.symm, (succeeds_iff hc hproper).mpr ⟨v, hcall⟩⟩, ws, hws⟩
        · contradiction
    · rintro ⟨⟨f, hf, hlen, hs⟩, ws, hws⟩
      have hlen' : args.length = f.params.length := hlen.symm
      have hproper := Expr.properCall_of_evalAll hc hv hlit hws (List.mem_of_find?_eq_some hf) hlen'
      obtain ⟨v, hcall⟩ := (succeeds_iff hc hproper).mp hs
      refine ⟨v, ?_⟩
      simp only [Expr.eval, hf, if_pos hlen']
      exact bind_eq_ok.mpr ⟨ws, hws, hcall⟩
  | .alien tag fields line, hw => hw.elim

private theorem Expr.evalAll_ok_iff (hc : CallersRelated False Value.BothInt fns call call)
    (hv : vars.Related Value.BothInt vars) : ∀ es : List Expr, Expr.WellWrittenAll es →
    ((∃ ws, Expr.evalAll fns call vars es = .ok ws) ↔
      (∀ x ∈ Expr.varsAll es, x ∈ vars.names) ∧ ∀ c ∈ Expr.callsAll es, GoodCall fns call c)
  | [], _ => by
    simp [Expr.evalAll, Expr.varsAll, Expr.callsAll]
  | e :: es, hw => by
    have he := e.eval_ok_iff hc hv hw.1
    have hes := Expr.evalAll_ok_iff hc hv es hw.2
    have hall : (∃ ws, Expr.evalAll fns call vars (e :: es) = .ok ws) ↔
        (∃ v, e.eval fns call vars = .ok v) ∧ ∃ ws, Expr.evalAll fns call vars es = .ok ws := by
      constructor
      · rintro ⟨ws, h⟩
        rw [Expr.evalAll, bind_eq_ok] at h
        obtain ⟨v, hv, h⟩ := h
        obtain ⟨vs, hvs, -⟩ := bind_eq_ok.mp h
        exact ⟨⟨v, hv⟩, vs, hvs⟩
      · rintro ⟨⟨v, hv⟩, vs, hvs⟩
        exact ⟨v :: vs, by rw [Expr.evalAll, hv, hvs]; rfl⟩
    rw [hall, he, hes, Expr.varsAll, Expr.callsAll, List.forall_mem_append, List.forall_mem_append]
    exact and_and_and_comm

end

end

/-! ### Statements -/

namespace Frame

variable {frame frame' : Frame}

/-- A declaration succeeds when its name is new and its expression has a value. -/
theorem exec_decl_eq_ok {name : Name} {value : Expr} {line : Int} :
    frame.exec fns call (.decl name value line) = .ok frame' ↔
      frame.vars.contains name = false ∧ ∃ v, value.eval fns call frame.vars = .ok v ∧
        frame' = { frame with vars := frame.vars.set name v } := by
  rw [exec]
  cases frame.vars.contains name with
  | true => simp
  | false =>
    rw [if_neg Bool.false_ne_true, bind_return_eq_ok]
    simp

/-- An assignment succeeds when its name is bound and its expression has a value. -/
theorem exec_assign_eq_ok {name : Name} {value : Expr} {line : Int} :
    frame.exec fns call (.assign name value line) = .ok frame' ↔
      frame.vars.contains name = true ∧ ∃ v, value.eval fns call frame.vars = .ok v ∧
        frame' = { frame with vars := frame.vars.set name v } := by
  rw [exec]
  cases frame.vars.contains name with
  | false => simp
  | true =>
    rw [if_pos rfl, bind_return_eq_ok]
    simp

/-- A return statement succeeds when it is the first and its expression has a value. -/
theorem exec_ret_eq_ok {value : Expr} {line : Int} :
    frame.exec fns call (.ret value line) = .ok frame' ↔
      frame.result.isNull = true ∧ ∃ v, value.eval fns call frame.vars = .ok v ∧
        frame' = { frame with result := v } := by
  rw [exec]
  cases frame.result.isNull with
  | false => simp
  | true =>
    rw [if_pos rfl, bind_return_eq_ok]
    simp

/-- A statement that ends well adds the name it declares. -/
theorem names_of_exec {s : Stmt} (h : frame.exec fns call s = .ok frame') :
    frame'.vars.names = frame.vars.names ++ s.declared?.toList := by
  cases s with
  | decl name value line =>
    obtain ⟨hn, v, -, rfl⟩ := exec_decl_eq_ok.mp h
    rw [Store.names_set, hn, if_neg Bool.false_ne_true]
    rfl
  | assign name value line =>
    obtain ⟨hn, v, -, rfl⟩ := exec_assign_eq_ok.mp h
    rw [Store.names_set, hn, if_pos rfl]
    exact (List.append_nil _).symm
  | ret value line =>
    obtain ⟨-, v, -, rfl⟩ := exec_ret_eq_ok.mp h
    exact (List.append_nil _).symm
  | alien tag fields line => contradiction

section

variable (hc : CallersRelated False Value.BothInt fns call call)
  (hf : frame.Related Value.BothInt frame)

include hc hf

/-- A statement keeps a frame of integers. -/
theorem related_of_exec {s : Stmt} (hw : s.WellWritten)
    (h : frame.exec fns call s = .ok frame') : frame'.Related Value.BothInt frame' := by
  have hrel := exec_related valueRelation_bothInt hc hf (hw.literals Value.IsWord.bothInt)
  rw [h] at hrel
  exact hrel.of_ok

/-- There is no result after a statement exactly when there was none and it does not return. -/
theorem isNull_of_exec {s : Stmt} (hw : s.WellWritten)
    (h : frame.exec fns call s = .ok frame') :
    frame'.result.isNull = (frame.result.isNull && !s.isReturn) := by
  cases s with
  | decl name value line =>
    obtain ⟨-, v, -, rfl⟩ := exec_decl_eq_ok.mp h
    exact (Bool.and_true _).symm
  | assign name value line =>
    obtain ⟨-, v, -, rfl⟩ := exec_assign_eq_ok.mp h
    exact (Bool.and_true _).symm
  | ret value line =>
    obtain ⟨-, v, hv, rfl⟩ := exec_ret_eq_ok.mp h
    obtain ⟨n, rfl⟩ := Expr.isInt_of_eval hc hf.vars hw hv
    exact (Bool.and_false _).symm
  | alien tag fields line => contradiction

end

end Frame

/-- Calls are good when their functions exist, fit in number and succeed. -/
theorem goodCalls_iff {cs : List (Name × Nat)} : (∀ c ∈ cs, GoodCall fns call c) ↔
    (∀ c ∈ cs, ∃ f, fns.function? c.1 = some f ∧ f.params.length = c.2) ∧
      ∀ c ∈ cs, ∀ g, fns.function? c.1 = some g → Succeeds call g := by
  constructor
  · intro h
    constructor
    · intro c hc
      obtain ⟨f, hf, hlen, -⟩ := h c hc
      exact ⟨f, hf, hlen⟩
    · intro c hc g hg
      obtain ⟨f, hf, -, hs⟩ := h c hc
      rwa [Option.some.inj (hg.symm.trans hf)]
  · rintro ⟨hknown, hs⟩ c hc
    obtain ⟨f, hf, hlen⟩ := hknown c hc
    exact ⟨f, hf, hlen, hs c hc f hf⟩

/-- A statement ends well exactly when it fits among the bound names, the functions it calls end
well, and it does not return a second time. -/
theorem Frame.exec_ok_iff (hc : CallersRelated False Value.BothInt fns call call) {frame : Frame}
    (hf : frame.Related Value.BothInt frame) {s : Stmt} (hw : s.WellWritten) :
    (∃ frame', frame.exec fns call s = .ok frame') ↔ s.FitsIn fns frame.vars.names ∧
      (∀ c ∈ s.calls, ∀ g, fns.function? c.1 = some g → Succeeds call g) ∧
      (s.isReturn = true → frame.result.isNull = true) := by
  have heval {value : Expr} (hv : value.WellWritten) :=
    (value.eval_ok_iff hc hf.vars hv).trans (and_congr_right' goodCalls_iff)
  cases s with
  | decl name value line =>
    simp only [exec_decl_eq_ok]
    constructor
    · rintro ⟨frame', hn, v, hv, -⟩
      obtain ⟨hvars, hcalls, hs⟩ := (heval hw.2).mp ⟨v, hv⟩
      refine ⟨⟨hvars, hcalls, nofun, ?_⟩, hs, nofun⟩
      rintro x ⟨⟩ hx
      rw [← Store.contains_iff, hn] at hx
      contradiction
    · rintro ⟨hfits, hs, -⟩
      obtain ⟨v, hv⟩ := (heval hw.2).mpr ⟨hfits.vars, hfits.calls, hs⟩
      refine ⟨_, ?_, v, hv, rfl⟩
      rw [← Bool.not_eq_true, Store.contains_iff]
      exact hfits.declared name rfl
  | assign name value line =>
    simp only [exec_assign_eq_ok]
    constructor
    · rintro ⟨frame', hn, v, hv, -⟩
      obtain ⟨hvars, hcalls, hs⟩ := (heval hw.2).mp ⟨v, hv⟩
      refine ⟨⟨hvars, hcalls, ?_, nofun⟩, hs, nofun⟩
      rintro x ⟨⟩
      rwa [← Store.contains_iff]
    · rintro ⟨hfits, hs, -⟩
      obtain ⟨v, hv⟩ := (heval hw.2).mpr ⟨hfits.vars, hfits.calls, hs⟩
      refine ⟨_, ?_, v, hv, rfl⟩
      rw [Store.contains_iff]
      exact hfits.assigned name rfl
  | ret value line =>
    simp only [exec_ret_eq_ok]
    constructor
    · rintro ⟨frame', hn, v, hv, -⟩
      obtain ⟨hvars, hcalls, hs⟩ := (heval hw).mp ⟨v, hv⟩
      exact ⟨⟨hvars, hcalls, nofun, nofun⟩, hs, fun _ => hn⟩
    · rintro ⟨hfits, hs, hn⟩
      obtain ⟨v, hv⟩ := (heval hw).mpr ⟨hfits.vars, hfits.calls, hs⟩
      exact ⟨_, hn rfl, v, hv, rfl⟩
  | alien tag fields line => exact hw.elim

/-! ### Blocks -/

namespace Frame

/-- A block succeeds when its first statement does and the rest does after it. -/
theorem run_cons_eq_ok {frame frame' : Frame} {s : Stmt} {body : List Stmt} :
    frame.run fns call (s :: body) = .ok frame' ↔
      ∃ next, frame.exec fns call s = .ok next ∧ next.run fns call body = .ok frame' := by
  rw [run, List.foldlM_cons, bind_eq_ok]
  rfl

/-- A block that ends well adds the names it declares, in order. -/
theorem names_of_run {frame frame' : Frame} {body : List Stmt}
    (h : frame.run fns call body = .ok frame') :
    frame'.vars.names = frame.vars.names ++ declared body := by
  induction body generalizing frame with
  | nil =>
    rw [← Except.ok.inj h]
    exact (List.append_nil _).symm
  | cons s body ih =>
    obtain ⟨next, hs, hbody⟩ := run_cons_eq_ok.mp h
    rw [ih hbody, names_of_exec hs, declared_cons, List.append_assoc]

/-- There is no result after a block exactly when there was none and no statement returns. -/
theorem isNull_of_run (hc : CallersRelated False Value.BothInt fns call call)
    {frame frame' : Frame} (hf : frame.Related Value.BothInt frame) {body : List Stmt}
    (hw : ∀ s ∈ body, s.WellWritten) (h : frame.run fns call body = .ok frame') :
    frame'.result.isNull = (frame.result.isNull && body.all (!·.isReturn)) := by
  induction body generalizing frame with
  | nil =>
    rw [← Except.ok.inj h]
    exact (Bool.and_true _).symm
  | cons s body ih =>
    rw [List.forall_mem_cons] at hw
    obtain ⟨next, hs, hbody⟩ := run_cons_eq_ok.mp h
    rw [ih (related_of_exec hc hf hw.1 hs) hw.2 hbody, isNull_of_exec hc hf hw.1 hs,
      List.all_cons, Bool.and_assoc]

/-- A block ends well exactly when it is well scoped, the functions it calls end well, and it
returns no more often than the frame admits. -/
theorem run_ok_iff (hc : CallersRelated False Value.BothInt fns call call) {frame : Frame}
    (hf : frame.Related Value.BothInt frame) {scope : List Name}
    (hscope : ∀ x, x ∈ frame.vars.names ↔ x ∈ scope) {body : List Stmt}
    (hw : ∀ s ∈ body, s.WellWritten) :
    (∃ frame', frame.run fns call body = .ok frame') ↔ WellScoped fns scope body ∧
      (∀ g, CallsIn fns body g → Succeeds call g) ∧
      body.countP Stmt.isReturn ≤ if frame.result.isNull then 1 else 0 := by
  induction body generalizing frame scope with
  | nil =>
    refine ⟨fun _ => ⟨wellScoped_nil, ?_, Nat.zero_le _⟩, fun _ => ⟨frame, rfl⟩⟩
    rintro g ⟨s, hs, -⟩
    contradiction
  | cons s body ih =>
    rw [List.forall_mem_cons] at hw
    have hstep {next : Frame} (hs : frame.exec fns call s = .ok next) :
        (∃ frame', next.run fns call body = .ok frame') ↔
          WellScoped fns (scope ++ s.declared?.toList) body ∧
            (∀ g, CallsIn fns body g → Succeeds call g) ∧
            body.countP Stmt.isReturn ≤ if frame.result.isNull && !s.isReturn then 1 else 0 := by
      rw [← isNull_of_exec hc hf hw.1 hs]
      refine ih (related_of_exec hc hf hw.1 hs) (fun x => ?_) hw.2
      rw [names_of_exec hs, List.mem_append, List.mem_append, hscope x]
    have hexec := exec_ok_iff hc hf hw.1
    rw [wellScoped_cons, List.countP_cons]
    constructor
    · rintro ⟨frame', h⟩
      obtain ⟨next, hs, hbody⟩ := run_cons_eq_ok.mp h
      obtain ⟨hfits, hcalls, hret⟩ := hexec.mp ⟨next, hs⟩
      obtain ⟨hscoped, hcalls', hcount⟩ := (hstep hs).mp ⟨frame', hbody⟩
      refine ⟨⟨hfits.congr hscope, hscoped⟩, fun g hg => ?_, ?_⟩
      · rcases callsIn_cons.mp hg with ⟨c, hc, hg⟩ | hg
        · exact hcalls c hc g hg
        · exact hcalls' g hg
      · cases hr : s.isReturn with
        | true => simp_all
        | false => simpa [hr] using hcount
    · rintro ⟨⟨hfits, hscoped⟩, hcalls, hcount⟩
      have hret : s.isReturn = true → frame.result.isNull = true := by
        intro hr
        by_contra hn
        rw [if_pos hr, if_neg hn] at hcount
        contradiction
      obtain ⟨next, hs⟩ := hexec.mpr ⟨hfits.congr fun x => (hscope x).symm,
        fun c hc g hg => hcalls g (callsIn_cons.mpr (Or.inl ⟨c, hc, hg⟩)), hret⟩
      obtain ⟨frame', hbody⟩ := (hstep hs).mpr ⟨hscoped,
        fun g hg => hcalls g (callsIn_cons.mpr (Or.inr hg)), by
          cases hr : s.isReturn with
          | true => simpa [hr, hret hr] using hcount
          | false => simpa [hr] using hcount⟩
      exact ⟨frame', run_cons_eq_ok.mpr ⟨next, hs, hbody⟩⟩

end Frame

/-! ### Calls -/

/-- Binding as many values as there are parameters binds exactly the parameters. -/
theorem Store.mem_names_bind {params : List Name} {ws : List Value}
    (h : ws.length = params.length) (x : Name) : x ∈ (bind params ws).names ↔ x ∈ params := by
  have hfold (s : Store) : x ∈ ((params.zip ws).foldl (fun s e => s.set e.1 e.2) s).names ↔
      x ∈ s.names ∨ x ∈ params := by
    induction params generalizing ws s with
    | nil => simp
    | cons y params ih =>
      cases ws with
      | nil => contradiction
      | cons w ws =>
        rw [List.zip_cons_cons, List.foldl_cons, ih (Nat.succ.inj h), names_set]
        split
        · next hy =>
          rw [contains_iff] at hy
          simp only [List.mem_cons]
          constructor
          · rintro (hx | hx)
            · exact Or.inl hx
            · exact Or.inr (Or.inr hx)
          · rintro (hx | rfl | hx)
            · exact Or.inl hx
            · exact Or.inl hy
            · exact Or.inr hx
        · simp [or_assoc]
  rw [bind, hfold]
  simp [names]

/-- A call returns the result of its body. -/
theorem Function.call_succ_eq_ok {n : Nat} {f : Function} {ws : List Value} {v : Value} :
    Function.call fns (n + 1) f ws = .ok v ↔ ∃ final,
      (f.frame ws).run fns (Function.call fns n) f.body = .ok final ∧
        final.result.isNull = false ∧ v = final.result := by
  rw [Function.call, bind_eq_ok]
  refine exists_congr fun final => and_congr_right' ?_
  cases final.result.isNull with
  | true => simp
  | false => exact ⟨fun h => ⟨rfl, (Except.ok.inj h).symm⟩, fun h => congrArg Except.ok h.2.symm⟩

/-- Calls of a function end well exactly when its body is well scoped, returns once, and calls
only functions that end well one level further down. -/
theorem succeeds_succ_iff {n : Nat}
    (hc : CallersRelated False Value.BothInt fns (Function.call fns n) (Function.call fns n))
    {f : Function} (hf : f ∈ fns) (hw : ∀ s ∈ f.body, s.WellWritten) :
    Succeeds (Function.call fns (n + 1)) f ↔
      WellScoped fns f.params f.body ∧ f.body.countP Stmt.isReturn = 1 ∧
        ∀ g, CallsIn fns f.body g → Succeeds (Function.call fns n) g := by
  have hzeros := Function.properCall_zeros hf
  have hstart := f.frame_related (hzeros.forall₂ hzeros)
  have hrun := Frame.run_ok_iff hc hstart (Store.mem_names_bind hzeros.length) hw
  have hreturns {final : Frame}
      (h : (f.frame f.zeros).run fns (Function.call fns n) f.body = .ok final) :
      final.result.isNull = false ↔ f.body.countP Stmt.isReturn ≠ 0 := by
    rw [Frame.isNull_of_run hc hstart hw h, ne_eq, List.countP_eq_zero]
    simp [Function.frame, Value.isNull]
  constructor
  · rintro ⟨v, hv⟩
    obtain ⟨final, hfinal, hresult, -⟩ := Function.call_succ_eq_ok.mp hv
    obtain ⟨hscoped, hcalls, hcount⟩ := hrun.mp ⟨final, hfinal⟩
    have hne := (hreturns hfinal).mp hresult
    exact ⟨hscoped, Nat.le_antisymm hcount (Nat.pos_of_ne_zero hne), hcalls⟩
  · rintro ⟨hscoped, hcount, hcalls⟩
    obtain ⟨final, hfinal⟩ := hrun.mpr ⟨hscoped, hcalls, Nat.le_of_eq hcount⟩
    have hresult := (hreturns hfinal).mpr (by rw [hcount]; exact Nat.one_ne_zero)
    exact ⟨final.result, Function.call_succ_eq_ok.mpr ⟨final, hfinal, hresult, rfl⟩⟩

/-! ### Programs -/

/-- No line of a return statement is found exactly when there is no such statement. -/
theorem findSome?_returnLine? {body : List Stmt} :
    body.findSome? Stmt.returnLine? = none ↔ body.countP Stmt.isReturn = 0 := by
  rw [List.findSome?_eq_none_iff, List.countP_eq_zero]
  refine forall₂_congr fun s _ => ?_
  cases s <;> simp [Stmt.returnLine?, Stmt.isReturn]

/-- A program ends well exactly when its entry block does not return, is well scoped, and calls
only functions that end well. -/
theorem Program.executeWithin_ok_iff {p : Program} (hp : p.WellWritten) {n : Nat} :
    (∃ frame, p.executeWithin n = .ok frame) ↔ p.entry.countP Stmt.isReturn = 0 ∧
      WellScoped p.functions [] p.entry ∧
      ∀ g, CallsIn p.functions p.entry g → Succeeds (Function.call p.functions n) g := by
  have hc := callersRelated_bothInt hp.numeric.functions n
  have hscope (x : Name) : x ∈ ({} : Frame).vars.names ↔ x ∈ ([] : List Name) := Iff.rfl
  have hrun := Frame.run_ok_iff hc (Frame.related_empty _) hscope hp.entry
  rw [executeWithin]
  cases hret : p.entry.findSome? Stmt.returnLine? with
  | some line =>
    have hcount : p.entry.countP Stmt.isReturn ≠ 0 := by
      rw [ne_eq, ← findSome?_returnLine?, hret]
      exact Option.some_ne_none line
    simp [hcount]
  | none =>
    have hcount := findSome?_returnLine?.mp hret
    rw [hcount] at hrun
    rw [hcount]
    simpa using hrun

/-- The frame of a program that ends well has the names that the entry block declares, in order,
and no result. -/
theorem Program.frame_of_executeWithin {p : Program} (hp : p.WellWritten) {n : Nat}
    {frame : Frame} (h : p.executeWithin n = .ok frame) :
    frame.vars.names = declared p.entry ∧ frame.result = .null := by
  have hcount := ((p.executeWithin_ok_iff hp).mp ⟨frame, h⟩).1
  rw [executeWithin, findSome?_returnLine?.mpr hcount] at h
  have hc := callersRelated_bothInt hp.numeric.functions n
  have hnull := Frame.isNull_of_run hc (Frame.related_empty _) hp.entry h
  rw [List.countP_eq_zero] at hcount
  have hall : p.entry.all (!·.isReturn) = true := by simpa using hcount
  rw [hall] at hnull
  refine ⟨Frame.names_of_run h, ?_⟩
  cases hr : frame.result with
  | null => rfl
  | int | bool | text | list =>
    rw [hr] at hnull
    contradiction

end SumLang
