import SumLang.Proofs.Eval.Binding
import SumLang.Proofs.Eval.Machine

/-!
# Statements are atomic

A statement either has its whole effect on a frame or none at all, however deep in the
calls that it makes it fails. So a run that goes on after failures ends with the frame
that the statements which ended well give on their own. Frames only grow on the way: names
keep their places, and a result that is there stays.
-/

namespace SumLang

variable {fns : FunctionTable} {call : Caller} {frame frame' : Frame}

/-- Binding a bound name replaces its entry and keeps the others. -/
theorem Store.set_of_entries_eq {s : Store} (hn : s.names.Nodup) {front back : List (Name × Value)}
    {name : Name} {old : Value} (h : s.entries = front ++ (name, old) :: back) (value : Value) :
    s.set name value = ⟨front ++ (name, value) :: back⟩ := by
  have hnames : s.names = front.map Prod.fst ++ name :: back.map Prod.fst := by
    rw [names, h, List.map_append, List.map_cons]
  have hbound : s.contains name = true := by
    rw [contains_iff, hnames]
    exact List.mem_append_right _ List.mem_cons_self
  have hkeep (es : List (Name × Value)) (hes : name ∉ es.map Prod.fst) :
      (es.map fun e => if e.1 = name then (name, value) else e) = es := by
    refine (List.map_congr_left fun e he => if_neg ?_).trans (List.map_id es)
    rintro rfl
    exact hes (List.mem_map_of_mem he)
  rw [hnames, List.nodup_middle, List.nodup_cons, List.mem_append, not_or] at hn
  rw [set, if_pos hbound, h, List.map_append, List.map_cons, hkeep front hn.1.1,
    hkeep back hn.1.2, if_pos rfl]

namespace Frame

/-! ### The effect of a statement -/

/-- How a statement that ends well changes its frame. -/
inductive Effect (fns : FunctionTable) (call : Caller) (before : Frame) : Stmt → Frame → Prop
  /-- A declaration puts a new name last. -/
  | decl {name : Name} {value : Expr} {line : Int} {v : Value} (hnew : name ∉ before.vars.names)
      (hvalue : value.eval fns call before.vars = .ok v) :
      Effect fns call before (.decl name value line)
        { before with vars := ⟨before.vars.entries ++ [(name, v)]⟩ }
  /-- An assignment replaces the value of a name at its place. -/
  | assign {name : Name} {value : Expr} {line : Int} {v old : Value}
      {front back : List (Name × Value)}
      (hplace : before.vars.entries = front ++ (name, old) :: back)
      (hvalue : value.eval fns call before.vars = .ok v) :
      Effect fns call before (.assign name value line)
        { before with vars := ⟨front ++ (name, v) :: back⟩ }
  /-- A return statement gives the result when there is none. -/
  | ret {value : Expr} {line : Int} {v : Value} (hnone : before.result.isNull = true)
      (hvalue : value.eval fns call before.vars = .ok v) :
      Effect fns call before (.ret value line) { before with result := v }

/-- A statement ends well exactly with its effect. -/
theorem exec_eq_ok_iff_effect (hn : frame.vars.names.Nodup) {s : Stmt} :
    frame.exec fns call s = .ok frame' ↔ Effect fns call frame s frame' := by
  constructor
  · intro h
    cases s with
    | decl name value line =>
      obtain ⟨hnew, v, hv, rfl⟩ := exec_decl_eq_ok.mp h
      have hnot := Bool.eq_false_iff.mp hnew
      rw [Store.set, if_neg hnot]
      exact .decl (hnot ∘ Store.contains_iff.mpr) hv
    | assign name value line =>
      obtain ⟨hbound, v, hv, rfl⟩ := exec_assign_eq_ok.mp h
      obtain ⟨⟨_, old⟩, hmem, rfl⟩ := List.mem_map.mp (Store.contains_iff.mp hbound)
      obtain ⟨front, back, hplace⟩ := List.append_of_mem hmem
      rw [Store.set_of_entries_eq hn hplace]
      exact .assign hplace hv
    | ret value line =>
      obtain ⟨hnone, v, hv, rfl⟩ := exec_ret_eq_ok.mp h
      exact .ret hnone hv
    | alien tag fields line => contradiction
  · intro h
    cases h with
    | decl hnew hv =>
      have hnot := hnew ∘ Store.contains_iff.mp
      refine exec_decl_eq_ok.mpr ⟨Bool.eq_false_iff.mpr hnot, _, hv, ?_⟩
      rw [Store.set, if_neg hnot]
    | assign hplace hv =>
      have hmem : (_, _) ∈ frame.vars.entries :=
        hplace ▸ List.mem_append_right _ List.mem_cons_self
      have hbound := List.mem_map_of_mem (f := Prod.fst) hmem
      refine exec_assign_eq_ok.mpr ⟨Store.contains_iff.mpr hbound, _, hv, ?_⟩
      rw [Store.set_of_entries_eq hn hplace]
    | ret hnone hv => exact exec_ret_eq_ok.mpr ⟨hnone, _, hv, rfl⟩

/-! ### Frames grow -/

/-- All names are still there at their places, and a result that was there too. -/
structure Grows (before after : Frame) : Prop where
  names : before.vars.names <+: after.vars.names
  result : before.result.isNull = false → after.result = before.result

/-- A frame grows from itself. -/
theorem Grows.refl (frame : Frame) : frame.Grows frame := ⟨List.prefix_rfl, fun _ => rfl⟩

/-- Growth over two stretches of a run is growth over both. -/
theorem Grows.trans {a b c : Frame} (hab : a.Grows b) (hbc : b.Grows c) : a.Grows c where
  names := hab.names.trans hbc.names
  result := by
    intro ha
    have hb := hab.result ha
    rw [← hb]
    exact hbc.result (by rw [hb, ha])

/-- A statement that ends well lets its frame grow. -/
theorem grows_of_exec {s : Stmt} (h : frame.exec fns call s = .ok frame') : frame.Grows frame' := by
  refine ⟨names_of_exec h ▸ List.prefix_append .., fun hresult => ?_⟩
  cases s with
  | decl name value line =>
    obtain ⟨-, v, -, rfl⟩ := exec_decl_eq_ok.mp h
    rfl
  | assign name value line =>
    obtain ⟨-, v, -, rfl⟩ := exec_assign_eq_ok.mp h
    rfl
  | ret value line =>
    obtain ⟨hnone, -⟩ := exec_ret_eq_ok.mp h
    rw [hnone] at hresult
    contradiction
  | alien tag fields line => contradiction

/-! ### Attempts -/

/-- An attempt fails and leaves the frame as it was, or it has the effect of its statement. -/
def Attempted (fns : FunctionTable) (call : Caller) (before : Frame) (step : TraceStep) : Prop :=
  match step.error with
  | some e => before.exec fns call step.stmt = .error e ∧ step.frame = before
  | none => Effect fns call before step.stmt step.frame

private theorem attempt_cases (fns : FunctionTable) (call : Caller) (frame : Frame) (s : Stmt) :
    (∃ after, frame.exec fns call s = .ok after ∧ frame.attempt fns call s = ⟨s, none, after⟩) ∨
    ∃ e, frame.exec fns call s = .error e ∧ frame.attempt fns call s = ⟨s, some e, frame⟩ := by
  cases h : frame.exec fns call s with
  | ok after => exact .inl ⟨after, rfl, by rw [attempt, h]⟩
  | error e => exact .inr ⟨e, rfl, by rw [attempt, h]⟩

private theorem attempted_attempt (hn : frame.vars.names.Nodup) (s : Stmt) :
    frame.Attempted fns call (frame.attempt fns call s) := by
  obtain ⟨after, hexec, h⟩ | ⟨e, hexec, h⟩ := frame.attempt_cases fns call s
  · rw [h]
    exact (exec_eq_ok_iff_effect hn).mp hexec
  · rw [h]
    exact ⟨hexec, rfl⟩

private theorem nodup_names_attempt (fns : FunctionTable) (call : Caller)
    (hn : frame.vars.names.Nodup) (s : Stmt) :
    (frame.attempt fns call s).frame.vars.names.Nodup := by
  obtain ⟨after, hexec, h⟩ | ⟨e, -, h⟩ := frame.attempt_cases fns call s
  · rw [h]
    exact nodup_names_of_exec hexec hn
  · rw [h]
    exact hn

private theorem grows_attempt (fns : FunctionTable) (call : Caller) (frame : Frame) (s : Stmt) :
    frame.Grows (frame.attempt fns call s).frame := by
  obtain ⟨after, hexec, h⟩ | ⟨e, -, h⟩ := frame.attempt_cases fns call s
  · rw [h]
    exact grows_of_exec hexec
  · rw [h]
    exact .refl frame

/-! ### Traces -/

/-- The frame after some steps. -/
def after (frame : Frame) (steps : List TraceStep) : Frame :=
  (steps.map TraceStep.frame).getLastD frame

/-- The outcome that a trace stands for when the first failure ends it. -/
def outcome (frame : Frame) (steps : List TraceStep) : Except RunError Frame :=
  match steps.findSome? TraceStep.error with
  | some e => .error e
  | none => .ok (frame.after steps)

private theorem after_cons (frame : Frame) (step : TraceStep) (steps : List TraceStep) :
    frame.after (step :: steps) = step.frame.after steps := by
  rw [after, List.map_cons, List.getLastD_cons, after]

private theorem map_stmt_trace (frame : Frame) (stmts : List Stmt) :
    (frame.trace fns call stmts).map TraceStep.stmt = stmts := by
  induction stmts generalizing frame with
  | nil => rfl
  | cons s stmts ih =>
    have hs : (frame.attempt fns call s).stmt = s := by
      obtain ⟨after, -, h⟩ | ⟨e, -, h⟩ := frame.attempt_cases fns call s <;> rw [h]
    rw [trace, List.map_cons, hs, ih]

private theorem nodup_names_trace (hn : frame.vars.names.Nodup) (stmts : List Stmt) :
    ∀ step ∈ frame.trace fns call stmts, step.frame.vars.names.Nodup := by
  induction stmts generalizing frame with
  | nil => exact fun _ h => absurd h List.not_mem_nil
  | cons s stmts ih =>
    have hs := nodup_names_attempt fns call hn s
    rw [trace, List.forall_mem_cons]
    exact ⟨hs, ih hs⟩

/-- Every step of a trace is an attempt on the frame that the steps before it have left. -/
theorem attempted_of_trace {stmts : List Stmt} (hn : frame.vars.names.Nodup)
    {done rest : List TraceStep} {step : TraceStep}
    (h : frame.trace fns call stmts = done ++ step :: rest) :
    (frame.after done).Attempted fns call step := by
  induction stmts generalizing frame done with
  | nil => simp [trace] at h
  | cons s stmts ih =>
    rw [trace] at h
    cases done with
    | nil =>
      obtain ⟨rfl, -⟩ := List.cons.inj h
      exact attempted_attempt hn s
    | cons first done =>
      obtain ⟨rfl, hrest⟩ := List.cons.inj h
      rw [after_cons]
      exact ih (nodup_names_attempt fns call hn s) hrest

/-- Along a trace, frames grow. -/
theorem pairwise_grows_trace (frame : Frame) (stmts : List Stmt) :
    (frame :: (frame.trace fns call stmts).map TraceStep.frame).Pairwise Grows := by
  induction stmts generalizing frame with
  | nil => exact List.pairwise_singleton ..
  | cons s stmts ih =>
    have hs := frame.grows_attempt fns call s
    have hrest := ih (frame.attempt fns call s).frame
    rw [trace, List.map_cons, List.pairwise_cons]
    refine ⟨?_, hrest⟩
    rw [List.forall_mem_cons]
    exact ⟨hs, fun later hl => hs.trans ((List.pairwise_cons.mp hrest).1 later hl)⟩

/-- The statements that ended well. -/
def succeeded (steps : List TraceStep) : List Stmt :=
  (steps.filter fun step => step.error.isNone).map TraceStep.stmt

/-- The statements that ended well lead to the last frame on their own. -/
theorem run_succeeded (frame : Frame) (stmts : List Stmt) :
    frame.run fns call (succeeded (frame.trace fns call stmts)) =
      .ok (frame.after (frame.trace fns call stmts)) := by
  induction stmts generalizing frame with
  | nil => rfl
  | cons s stmts ih =>
    rw [trace, after_cons]
    obtain ⟨next, hexec, h⟩ | ⟨e, -, h⟩ := frame.attempt_cases fns call s
    · rw [h]
      exact run_cons_eq_ok.mpr ⟨next, hexec, ih next⟩
    · rw [h]
      exact ih frame

/-- A run is its trace up to the first failure. -/
theorem run_eq_outcome (frame : Frame) (stmts : List Stmt) :
    frame.run fns call stmts = frame.outcome (frame.trace fns call stmts) := by
  induction stmts generalizing frame with
  | nil => rfl
  | cons s stmts ih =>
    rw [run, List.foldlM_cons, trace]
    obtain ⟨next, hexec, h⟩ | ⟨e, hexec, h⟩ := frame.attempt_cases fns call s
    · rw [hexec, h]
      refine (ih next).trans ?_
      rw [outcome, outcome, after_cons]
      rfl
    · rw [hexec, h]
      rfl

end Frame

/-- A program without a return statement in its entry block ends as the trace of that block. -/
theorem Program.executeWithin_eq_outcome {p : Program} {limit : Nat}
    (h : ∀ s ∈ p.entry, s.isReturn = false) :
    p.executeWithin limit =
      ({} : Frame).outcome (({} : Frame).trace p.functions (Function.call p.functions limit)
        p.entry) := by
  have hnone : p.entry.findSome? Stmt.returnLine? = none := by
    rw [findSome?_returnLine?, List.countP_eq_zero]
    exact fun s hs => Bool.eq_false_iff.mp (h s hs)
  rw [executeWithin, hnone, ← Frame.run_eq_outcome]

/-- Statements are executed in place, one after the other, also after failures. Each has its effect
or leaves the frame of its execution as it was, so what is left behind after a failure is what the
run goes on with. Names stay distinct and at their places, and a result stays. The last frame is
the one that the statements which ended well give on their own. A program whose entry block does not
return ends with that frame when all statements end well and otherwise with the first failure. -/
theorem Frame.statements_are_atomic (fns : FunctionTable) (limit : Nat) {frame : Frame}
    (hn : frame.vars.names.Nodup) (stmts : List Stmt) :
    let call := Function.call fns limit
    let steps := frame.trace fns call stmts
    frame.traceInPlace fns limit stmts = steps ∧
    steps.map TraceStep.stmt = stmts ∧
    (∀ done step rest, steps = done ++ step :: rest →
      (frame.after done).Attempted fns call step) ∧
    (∀ step ∈ steps, step.frame.vars.names.Nodup) ∧
    (frame :: steps.map TraceStep.frame).Pairwise Grows ∧
    frame.run fns call (succeeded steps) = .ok (frame.after steps) ∧
    ∀ p : Program, (∀ s ∈ p.entry, s.isReturn = false) →
      p.executeWithin limit = ({} : Frame).outcome
        (({} : Frame).trace p.functions (Function.call p.functions limit) p.entry) :=
  ⟨frame.traceInPlace_eq fns limit stmts, frame.map_stmt_trace stmts,
    fun _ _ _ => attempted_of_trace hn, nodup_names_trace hn stmts,
    frame.pairwise_grows_trace stmts, frame.run_succeeded stmts,
    fun _ => Program.executeWithin_eq_outcome⟩

/-- A frame of values of all sorts is changed by four statements out of eight; of the others, one
fails two calls down. -/
theorem Frame.four_statements_of_eight :
    let f : Function :=
      ⟨"f", ["x"], [.decl "y" (.add (.var "x" 2) (.lit (.int 1) 2) 2) 2, .ret (.var "y" 3) 3], 1⟩
    let g : Function := ⟨"g", ["x"], [.ret (.call "f" [.var "x" 6] 6) 6], 5⟩
    let frame : Frame := { vars := ⟨[("a", .null), ("b", .text "t"), ("c", .int (-5))]⟩ }
    let stmts : List Stmt := [.decl "a" (.lit (.int 1) 9) 9,
      .decl "d" (.call "g" [.var "c" 10] 10) 10, .assign "d" (.call "g" [.var "b" 11] 11) 11,
      .assign "a" (.var "b" 12) 12,
      .ret (.lit .null 13) 13, .ret (.var "b" 14) 14, .ret (.var "c" 15) 15, .alien "goto" [] 16]
    frame.vars.names.Nodup ∧
    (frame.traceInPlace [f, g] 2 stmts).map (fun step => step.error.isSome) =
      [true, false, true, false, false, false, true, true] ∧
    frame.run [f, g] (Function.call [f, g] 2) [.decl "d" (.call "g" [.var "c" 10] 10) 10,
        .assign "a" (.var "b" 12) 12, .ret (.lit .null 13) 13, .ret (.var "b" 14) 14] =
      .ok { vars := ⟨[("a", .text "t"), ("b", .text "t"), ("c", .int (-5)),
              ("d", .int 4294967292)]⟩, result := .text "t" } := by
  intro f g frame stmts
  have hn : frame.vars.names.Nodup := by decide
  obtain ⟨hplace, -, -, -, -, hrun, -⟩ := Frame.statements_are_atomic [f, g] 2 hn stmts
  refine ⟨hn, ?_, ?_⟩
  · rw [hplace]
    decide +kernel
  · have hsteps : succeeded (frame.trace [f, g] (Function.call [f, g] 2) stmts) =
        [.decl "d" (.call "g" [.var "c" 10] 10) 10, .assign "a" (.var "b" 12) 12,
          .ret (.lit .null 13) 13, .ret (.var "b" 14) 14] := by
      decide +kernel
    rw [← hsteps, hrun]
    decide +kernel

end SumLang
