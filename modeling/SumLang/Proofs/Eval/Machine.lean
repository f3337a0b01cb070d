import SumLang.Program.Run
import SumLang.Proofs.Eval.Simulation

/-!
# Execution in place

Here a program runs on one stack of frames that each action changes in place: statements
write into the frame on top, a call puts a frame on the stack and takes it off when it
returns, and a failure leaves the stack as it is at that moment, with all that was written
so far. No action is ever taken back. Nevertheless each statement that fails leaves its
frame untouched under the frames of the calls that it was in, so that going on from there
is the same as going on from the frame before it.
-/

namespace SumLang

/-- A computation on a stack of frames, the innermost first; a failure keeps the stack. -/
abbrev Machine := EStateM RunError (List Frame)

namespace Machine

/-- The frame on top of the stack. -/
def top : Machine Frame := return (← get).headD {}

/-- Changes the frame on top of the stack. -/
def update (change : Frame → Frame) : Machine Unit := modify (·.modifyHead change)

/-- Puts a frame on top of the stack. -/
def push (frame : Frame) : Machine Unit := modify (frame :: ·)

/-- Takes the frame on top off the stack. -/
def pop : Machine Unit := modify List.tail

end Machine

section

variable (fns : FunctionTable) (call : Function → List Value → Machine Value)

mutual

/-- Evaluates an expression in the frame on top. -/
def Expr.evalInPlace : Expr → Machine Value
  | .lit value _ => return value
  | .var name line => do
    match (← Machine.top).vars.get? name with
    | some v => return v
    | none => throw (.eval { fault := .undefinedVariable, name := name, line := line })
  | .add lhs rhs line => do
    let a ← lhs.evalInPlace
    let b ← rhs.evalInPlace
    match a.add b with
    | .ok v => return v
    | .error v => throw (.eval { fault := .operand, name := "+", line := line,
                                 detail := "can't add " ++ v.typeName })
  | .call name args line => do
    match fns.function? name with
    | none => throw (.eval { fault := .undefinedFunction, name := name, line := line })
    | some f =>
      if args.length = f.params.length then
        let values ← Expr.evalAllInPlace args
        call f values
      else
        throw (.eval { fault := .arity f.params.length args.length, name := name, line := line })
  | .alien tag fields line => throw (.alienExpr tag fields line)

/-- Evaluates expressions in the frame on top, from left to right. -/
def Expr.evalAllInPlace : List Expr → Machine (List Value)
  | [] => return []
  | e :: es => do
    let v ← e.evalInPlace
    let vs ← Expr.evalAllInPlace es
    return v :: vs

end

/-- Executes a statement on the frame on top. -/
def Stmt.execInPlace : Stmt → Machine Unit
  | .decl name value line => do
    if (← Machine.top).vars.contains name then
      throw (.eval { fault := .redeclaration, name := name, line := line })
    else
      let v ← value.evalInPlace fns call
      Machine.update fun frame => { frame with vars := frame.vars.set name v }
  | .assign name value line => do
    if (← Machine.top).vars.contains name then
      let v ← value.evalInPlace fns call
      Machine.update fun frame => { frame with vars := frame.vars.set name v }
    else
      throw (.eval { fault := .undeclaredAssignment, name := name, line := line })
  | .ret value line => do
    if (← Machine.top).result.isNull then
      let v ← value.evalInPlace fns call
      Machine.update fun frame => { frame with result := v }
    else
      throw (.eval { fault := .doubleReturn, name := (← Machine.top).owner, line := line })
  | .alien tag _ line => throw (.alienStmt tag line)

/-- Executes statements in order on the frame on top. -/
def Stmt.runInPlace : List Stmt → Machine Unit
  | [] => return
  | s :: rest => do
    s.execInPlace fns call
    Stmt.runInPlace rest

end

/-- Ends a call: takes its frame off the stack and gives the result. -/
def Function.finishInPlace (f : Function) : Machine Value := do
  let final ← Machine.top
  if final.result.isNull then
    throw (.eval { fault := .missingReturn, name := f.name, line := f.line })
  else
    Machine.pop
    return final.result

/-- Calls a function on a frame of its own on top of the stack. -/
def Function.callInPlace (fns : FunctionTable) :
    (limit : Nat) → Function → List Value → Machine Value
  | 0, _, _ => throw .depth
  | limit + 1, f, args => do
    Machine.push (f.frame args)
    Stmt.runInPlace fns (Function.callInPlace fns limit) f.body
    f.finishInPlace

namespace Frame

/-- Executes a statement in place on a stack with one frame. Whatever remains above that frame
after a failure is dropped, and the frame is taken as it was left. -/
def attemptInPlace (fns : FunctionTable) (limit : Nat) (frame : Frame) (s : Stmt) : TraceStep :=
  match s.execInPlace fns (Function.callInPlace fns limit) [frame] with
  | .ok _ stack => ⟨s, none, stack.getLastD {}⟩
  | .error e stack => ⟨s, some e, stack.getLastD {}⟩

/-- Executes statements in place in order and goes on after failures. -/
def traceInPlace (fns : FunctionTable) (limit : Nat) (frame : Frame) : List Stmt → List TraceStep
  | [] => []
  | s :: rest =>
    let step := frame.attemptInPlace fns limit s
    step :: traceInPlace fns limit step.frame rest

end Frame

/-! ### What a computation does to the stack -/

namespace Machine

variable {α β : Type} {m : Machine α} {frame : Frame} {x : Except RunError α}

/-- A sequence hands the stack on from its first part, also where that fails. -/
theorem bind_apply (m : Machine α) (k : α → Machine β) (stack : List Frame) :
    (m >>= k) stack = match m stack with
      | .ok a stack => k a stack
      | .error e stack => .error e stack := by
  change EStateM.bind m k stack = _
  unfold EStateM.bind
  cases m stack <;> rfl

private theorem top_apply (frame : Frame) (below : List Frame) :
    top (frame :: below) = .ok frame (frame :: below) := rfl

/-- With `frame` on top, the computation has the outcome `x` and leaves the stack as it is; when it
fails, further frames may remain above. -/
def Yields (m : Machine α) (frame : Frame) : Except RunError α → Prop
  | .ok a => ∀ below, m (frame :: below) = .ok a (frame :: below)
  | .error e => ∀ below, ∃ above, m (frame :: below) = .error e (above ++ frame :: below)

private theorem yields_throw (e : RunError) (frame : Frame) :
    Yields (throw e : Machine α) frame (.error e) := fun _ => ⟨[], rfl⟩

/-- A sequence of machines yields what the sequence of computations does. -/
theorem Yields.bind {k : α → Machine β} {f : α → Except RunError β} (h : Yields m frame x)
    (hk : ∀ a, Yields (k a) frame (f a)) : Yields (m >>= k) frame (x >>= f) := by
  cases x with
  | ok a =>
    have hm (below : List Frame) : (m >>= k) (frame :: below) = k a (frame :: below) := by
      rw [bind_apply, h below]
    have hnext := hk a
    change Yields (m >>= k) frame (f a)
    cases hf : f a with
    | ok b =>
      rw [hf] at hnext
      exact fun below => (hm below).trans (hnext below)
    | error e =>
      rw [hf] at hnext
      intro below
      rw [hm below]
      exact hnext below
  | error e =>
    intro below
    obtain ⟨above, hm⟩ := h below
    exact ⟨above, by rw [bind_apply, hm]⟩

/-- With `frame` on top, the computation changes it as `x` says; when it fails, it leaves the frame
as it is, and further frames may remain above. -/
def Changes (m : Machine Unit) (frame : Frame) : Except RunError Frame → Prop
  | .ok after => ∀ below, m (frame :: below) = .ok () (after :: below)
  | .error e => ∀ below, ∃ above, m (frame :: below) = .error e (above ++ frame :: below)

private theorem changes_throw (e : RunError) (frame : Frame) : Changes (throw e) frame (.error e) :=
  fun _ => ⟨[], rfl⟩

private theorem changes_top {k : Frame → Machine Unit} {x : Except RunError Frame}
    (h : Changes (k frame) frame x) : Changes (top >>= k) frame x := by
  cases x with
  | ok after => exact h
  | error e => exact h

/-- With `frame` on top, the computation leads to the frame that `x` says and leaves what is below
as it is; when it fails, any frames may remain above. -/
def Ends (m : Machine Unit) (frame : Frame) : Except RunError Frame → Prop
  | .ok after => ∀ below, m (frame :: below) = .ok () (after :: below)
  | .error e => ∀ below, ∃ above, m (frame :: below) = .error e (above ++ below)

/-- Where the first part changes the top frame, the second ends from the changed frame. -/
theorem Changes.bind {m k : Machine Unit} {x : Except RunError Frame}
    {f : Frame → Except RunError Frame} (h : Changes m frame x)
    (hk : ∀ next, Ends k next (f next)) : Ends (m >>= fun _ => k) frame (x >>= f) := by
  cases x with
  | ok next =>
    have hm (below : List Frame) : (m >>= fun _ => k) (frame :: below) = k (next :: below) := by
      rw [bind_apply, h below]
    have hnext := hk next
    change Ends (m >>= fun _ => k) frame (f next)
    cases hf : f next with
    | ok final =>
      rw [hf] at hnext
      exact fun below => (hm below).trans (hnext below)
    | error e =>
      rw [hf] at hnext
      intro below
      rw [hm below]
      exact hnext below
  | error e =>
    intro below
    obtain ⟨above, hm⟩ := h below
    refine ⟨above ++ [frame], ?_⟩
    rw [bind_apply, hm, List.append_assoc, List.singleton_append]

/-- A frame that is changed only after all computations have ended well is changed as a whole. -/
theorem Yields.changes (h : Yields m frame x) (change : α → Frame → Frame) :
    Changes (m >>= fun a => update (change a)) frame (do let a ← x; return change a frame) := by
  cases x with
  | ok a =>
    intro below
    rw [bind_apply, h below]
    rfl
  | error e =>
    intro below
    obtain ⟨above, hm⟩ := h below
    exact ⟨above, by rw [bind_apply, hm]⟩

end Machine

/-! ### Execution in place agrees with execution -/

section

variable {fns : FunctionTable} {call : Caller} {callInPlace : Function → List Value → Machine Value}

/-- Calls in place have the outcomes of calls and leave the stack below them as it is. -/
def CallsInPlace (call : Caller) (callInPlace : Function → List Value → Machine Value) : Prop :=
  ∀ f ws frame, Machine.Yields (callInPlace f ws) frame (call f ws)

mutual

/-- Evaluating in place has the outcome of evaluating and does not change the stack. -/
theorem Expr.yields_evalInPlace (hc : CallsInPlace call callInPlace) (frame : Frame) :
    ∀ e : Expr, Machine.Yields (e.evalInPlace fns callInPlace) frame (e.eval fns call frame.vars)
  | .lit value line => fun _ => rfl
  | .var name line => by
    rw [Expr.eval]
    cases hv : frame.vars.get? name with
    | some v =>
      intro below
      rw [Expr.evalInPlace, Machine.bind_apply]
      simp only [Machine.top_apply, hv]
      rfl
    | none =>
      intro below
      rw [Expr.evalInPlace, Machine.bind_apply]
      simp only [Machine.top_apply, hv]
      exact ⟨[], rfl⟩
  | .add lhs rhs line => by
    rw [Expr.eval, Expr.evalInPlace]
    refine (lhs.yields_evalInPlace hc frame).bind fun a => ?_
    refine (rhs.yields_evalInPlace hc frame).bind fun b => ?_
    cases a.add b with
    | ok v => exact fun _ => rfl
    | error v => exact Machine.yields_throw _ frame
  | .call name args line => by
    rw [Expr.eval, Expr.evalInPlace]
    cases fns.function? name with
    | none => exact Machine.yields_throw _ frame
    | some f =>
      dsimp only
      split
      · exact (Expr.yields_evalAllInPlace hc frame args).bind fun ws => hc f ws frame
      · exact Machine.yields_throw _ frame
  | .alien tag fields line => Machine.yields_throw _ frame

private theorem Expr.yields_evalAllInPlace (hc : CallsInPlace call callInPlace) (frame : Frame) :
    ∀ es : List Expr, Machine.Yields (Expr.evalAllInPlace fns callInPlace es) frame
      (Expr.evalAll fns call frame.vars es)
  | [] => fun _ => rfl
  | e :: es => by
    rw [Expr.evalAll, Expr.evalAllInPlace]
    refine (e.yields_evalInPlace hc frame).bind fun v => ?_
    exact (Expr.yields_evalAllInPlace hc frame es).bind fun vs _ => rfl

end

/-- Executing a statement in place changes the frame on top as executing it does, and not at all
when it fails. -/
theorem Stmt.changes_execInPlace (fns : FunctionTable) (hc : CallsInPlace call callInPlace)
    (frame : Frame) (s : Stmt) :
    Machine.Changes (s.execInPlace fns callInPlace) frame (frame.exec fns call s) := by
  cases s with
  | decl name value line =>
    rw [Frame.exec, Stmt.execInPlace]
    apply Machine.changes_top
    split
    · exact Machine.changes_throw _ frame
    · exact (value.yields_evalInPlace hc frame).changes fun v frame =>
        { frame with vars := frame.vars.set name v }
  | assign name value line =>
    rw [Frame.exec, Stmt.execInPlace]
    apply Machine.changes_top
    split
    · exact (value.yields_evalInPlace hc frame).changes fun v frame =>
        { frame with vars := frame.vars.set name v }
    · exact Machine.changes_throw _ frame
  | ret value line =>
    rw [Frame.exec, Stmt.execInPlace]
    apply Machine.changes_top
    split
    · exact (value.yields_evalInPlace hc frame).changes fun v frame => { frame with result := v }
    · apply Machine.changes_top
      exact Machine.changes_throw _ frame
  | alien tag fields line => exact Machine.changes_throw _ frame

/-- A block that runs in place leads to the frame that running it gives and leaves the stack below
that frame as it is. -/
theorem Stmt.ends_runInPlace (fns : FunctionTable) (hc : CallsInPlace call callInPlace)
    (frame : Frame) (body : List Stmt) :
    Machine.Ends (Stmt.runInPlace fns callInPlace body) frame (frame.run fns call body) := by
  induction body generalizing frame with
  | nil => exact fun _ => rfl
  | cons s body ih =>
    rw [Frame.run, List.foldlM_cons, Stmt.runInPlace]
    exact (Stmt.changes_execInPlace fns hc frame s).bind ih

/-- Under every limit, calls in place have the outcomes of calls. -/
theorem Function.callsInPlace (fns : FunctionTable) (limit : Nat) :
    CallsInPlace (Function.call fns limit) (Function.callInPlace fns limit) := by
  induction limit with
  | zero => exact fun _ _ frame => Machine.yields_throw _ frame
  | succ limit ih =>
    intro f ws frame
    have hbody := Stmt.ends_runInPlace fns ih (f.frame ws) f.body
    have hcall (below : List Frame) :
        Function.callInPlace fns (limit + 1) f ws (frame :: below) =
          (Stmt.runInPlace fns (Function.callInPlace fns limit) f.body >>= fun _ => f.finishInPlace)
            (f.frame ws :: frame :: below) := rfl
    rw [Function.call]
    change Machine.Yields _ frame ((f.frame ws).run fns (Function.call fns limit) f.body >>= _)
    cases hrun : (f.frame ws).run fns (Function.call fns limit) f.body with
    | error e =>
      rw [hrun] at hbody
      intro below
      obtain ⟨above, hbody⟩ := hbody (frame :: below)
      exact ⟨above, by rw [hcall, Machine.bind_apply, hbody]⟩
    | ok final =>
      rw [hrun] at hbody
      have hfinish (below : List Frame) :
          Function.callInPlace fns (limit + 1) f ws (frame :: below) =
            f.finishInPlace (final :: frame :: below) := by
        rw [hcall, Machine.bind_apply, hbody (frame :: below)]
      change Machine.Yields _ frame (ite _ _ _)
      split
      · next hnull =>
        -- The frame of a call without a result is not taken off the stack.
        intro below
        refine ⟨[final], ?_⟩
        rw [hfinish, Function.finishInPlace, Machine.bind_apply]
        simp only [Machine.top_apply, if_pos hnull]
        rfl
      · next hnull =>
        intro below
        rw [hfinish, Function.finishInPlace, Machine.bind_apply]
        simp only [Machine.top_apply, if_neg hnull]
        rfl

end

namespace Frame

/-- Executing a statement in place is an attempt at it. -/
theorem attemptInPlace_eq (fns : FunctionTable) (limit : Nat) (frame : Frame) (s : Stmt) :
    frame.attemptInPlace fns limit s = frame.attempt fns (Function.call fns limit) s := by
  have hs := Stmt.changes_execInPlace fns (Function.callsInPlace fns limit) frame s
  rw [attemptInPlace, attempt]
  cases hexec : frame.exec fns (Function.call fns limit) s with
  | ok after =>
    rw [hexec] at hs
    rw [hs []]
    rfl
  | error e =>
    rw [hexec] at hs
    obtain ⟨above, hs⟩ := hs []
    rw [hs]
    simp only [List.getLastD_eq_getLast?, List.getLast?_concat, Option.getD_some]

/-- Executing statements in place and going on from what each leaves behind is the same as going on
from the frame before each failure. -/
theorem traceInPlace_eq (fns : FunctionTable) (limit : Nat) (frame : Frame) (stmts : List Stmt) :
    frame.traceInPlace fns limit stmts = frame.trace fns (Function.call fns limit) stmts := by
  induction stmts generalizing frame with
  | nil => rfl
  | cons s stmts ih => rw [traceInPlace, trace, attemptInPlace_eq, ih]

end Frame

end SumLang
