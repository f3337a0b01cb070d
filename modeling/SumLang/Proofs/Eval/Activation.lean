import Mathlib.Data.List.Perm.Subperm
import SumLang.Proofs.Eval.Depth

/-!
# Active calls

A run carries out calls inside of calls. The stacks of calls that are active at once are
described by what each frame starts: the entry block starts a first call, and the body of
an active call starts the next one. A run is cut short exactly when it tries to start one
more call than its limit admits. A function that is started again while it is active
would be settled by a lower limit than itself, so it is never settled at all.
-/

namespace SumLang

/-! ### Calls that a block starts -/

section

variable (fns : FunctionTable) (call : Caller) (g : Function) (ws : List Value)

mutual

/-- Evaluating the expression starts the call of `g` with the arguments `ws`. -/
def Expr.Starts (vars : Store) : Expr → Prop
  | .lit .. | .var .. | .alien .. => False
  | .add lhs rhs _ =>
    lhs.Starts vars ∨ (∃ v, lhs.eval fns call vars = .ok v) ∧ rhs.Starts vars
  | .call name args _ => ∃ f, fns.function? name = some f ∧ args.length = f.params.length ∧
      (Expr.StartsAll vars args ∨ f = g ∧ Expr.evalAll fns call vars args = .ok ws)

/-- Evaluating the expressions from left to right starts the call of `g` with the arguments
`ws`. -/
def Expr.StartsAll (vars : Store) : List Expr → Prop
  | [] => False
  | e :: es => e.Starts vars ∨ (∃ v, e.eval fns call vars = .ok v) ∧ Expr.StartsAll vars es

end

/-- Executing the statement starts the call of `g` with the arguments `ws`. -/
def Stmt.Starts (frame : Frame) : Stmt → Prop
  | .decl name value _ =>
    frame.vars.contains name = false ∧ value.Starts fns call g ws frame.vars
  | .assign name value _ =>
    frame.vars.contains name = true ∧ value.Starts fns call g ws frame.vars
  | .ret value _ => frame.result.isNull = true ∧ value.Starts fns call g ws frame.vars
  | .alien .. => False

/-- Running the block starts the call of `g` with the arguments `ws`. -/
def Frame.Starts (frame : Frame) : List Stmt → Prop
  | [] => False
  | s :: rest => s.Starts fns call g ws frame ∨
      ∃ frame', frame.exec fns call s = .ok frame' ∧ frame'.Starts rest

end

/-- With the calls `stack` active, the innermost of which stands first, the run starts the call of
`g` with the arguments `ws`. -/
def Program.Attempts (p : Program) (limit : Nat) :
    List (Function × List Value) → Function → List Value → Prop
  | [], g, ws => p.entry.findSome? Stmt.returnLine? = none ∧
      ({} : Frame).Starts p.functions (Function.call p.functions limit) g ws p.entry
  | (f, args) :: stack, g, ws => (f.frame args).Starts p.functions
      (Function.call p.functions (limit - (stack.length + 1))) g ws f.body

/-- The stacks of calls that are active at once in the run of a program, the innermost call
first. -/
inductive Program.Active (p : Program) (limit : Nat) : List (Function × List Value) → Prop
  | entry : Active p limit []
  | call {stack : List (Function × List Value)} {g : Function} {ws : List Value}
      (h : Active p limit stack) (hl : stack.length < limit) (hs : p.Attempts limit stack g ws) :
      Active p limit ((g, ws) :: stack)

/-! ### A run is cut short at a call that it starts -/

section

variable {fns : FunctionTable} {call : Caller}

mutual

/-- Where an expression is cut short, it starts a call that is cut short. -/
theorem Expr.exists_starts {vars : Store} : ∀ e : Expr, e.eval fns call vars = .error .depth →
    ∃ g ws, e.Starts fns call g ws vars ∧ call g ws = .error .depth
  | .lit .., h => nomatch h
  | .var name line, h => by
    rw [Expr.eval] at h
    split at h <;> cases h
  | .add lhs rhs line, h => by
    rw [Expr.eval, bind_eq_error] at h
    rcases h with h | ⟨a, ha, h⟩
    · obtain ⟨g, ws, hs, hcut⟩ := lhs.exists_starts h
      exact ⟨g, ws, Or.inl hs, hcut⟩
    · rcases bind_eq_error.mp h with h | ⟨b, -, h⟩
      · obtain ⟨g, ws, hs, hcut⟩ := rhs.exists_starts h
        exact ⟨g, ws, Or.inr ⟨⟨a, ha⟩, hs⟩, hcut⟩
      · split at h <;> cases h
  | .call name args line, h => by
    rw [Expr.eval] at h
    split at h
    · cases h
    · next f hf =>
      split at h
      · next hlen =>
        rcases bind_eq_error.mp h with h | ⟨ws, hws, h⟩
        · obtain ⟨g, ws, hs, hcut⟩ := Expr.exists_startsAll args h
          exact ⟨g, ws, ⟨f, hf, hlen, Or.inl hs⟩, hcut⟩
        · exact ⟨f, ws, ⟨f, hf, hlen, Or.inr ⟨rfl, hws⟩⟩, h⟩
      · cases h
  | .alien tag fields line, h => nomatch h

private theorem Expr.exists_startsAll {vars : Store} :
    ∀ es : List Expr, Expr.evalAll fns call vars es = .error .depth →
    ∃ g ws, Expr.StartsAll fns call g ws vars es ∧ call g ws = .error .depth
  | [], h => nomatch h
  | e :: es, h => by
    rw [Expr.evalAll, bind_eq_error] at h
    rcases h with h | ⟨v, hv, h⟩
    · obtain ⟨g, ws, hs, hcut⟩ := e.exists_starts h
      exact ⟨g, ws, Or.inl hs, hcut⟩
    · rcases bind_eq_error.mp h with h | ⟨vs, -, h⟩
      · obtain ⟨g, ws, hs, hcut⟩ := Expr.exists_startsAll es h
        exact ⟨g, ws, Or.inr ⟨⟨v, hv⟩, hs⟩, hcut⟩
      · cases h

end

private theorem Stmt.exists_starts {frame : Frame} {s : Stmt}
    (h : frame.exec fns call s = .error .depth) :
    ∃ g ws, s.Starts fns call g ws frame ∧ call g ws = .error .depth := by
  have hvalue {value : Expr} {k : Value → Frame}
      (h : (do let v ← value.eval fns call frame.vars; return k v) = .error .depth) :
      ∃ g ws, value.Starts fns call g ws frame.vars ∧ call g ws = .error .depth := by
    rcases bind_eq_error.mp h with h | ⟨v, -, h⟩
    · exact value.exists_starts h
    · cases h
  cases s with
  | decl name value line =>
    rw [Frame.exec] at h
    split at h
    · cases h
    · next hn =>
      obtain ⟨g, ws, hs, hcut⟩ := hvalue h
      exact ⟨g, ws, ⟨Bool.eq_false_iff.mpr hn, hs⟩, hcut⟩
  | assign name value line =>
    rw [Frame.exec] at h
    split at h
    · next hn =>
      obtain ⟨g, ws, hs, hcut⟩ := hvalue h
      exact ⟨g, ws, ⟨hn, hs⟩, hcut⟩
    · cases h
  | ret value line =>
    rw [Frame.exec] at h
    split at h
    · next hn =>
      obtain ⟨g, ws, hs, hcut⟩ := hvalue h
      exact ⟨g, ws, ⟨hn, hs⟩, hcut⟩
    · cases h
  | alien tag fields line => cases h

/-- Where a block is cut short, it starts a call that is cut short. -/
theorem Frame.exists_starts {frame : Frame} {body : List Stmt}
    (h : frame.run fns call body = .error .depth) :
    ∃ g ws, frame.Starts fns call g ws body ∧ call g ws = .error .depth := by
  induction body generalizing frame with
  | nil => cases h
  | cons s body ih =>
    rw [run, List.foldlM_cons, bind_eq_error] at h
    rcases h with h | ⟨frame', hf, h⟩
    · obtain ⟨g, ws, hs, hcut⟩ := Stmt.exists_starts h
      exact ⟨g, ws, Or.inl hs, hcut⟩
    · obtain ⟨g, ws, hs, hcut⟩ := ih h
      exact ⟨g, ws, Or.inr ⟨frame', hf, hs⟩, hcut⟩

end

/-- Where a call is cut short that is itself admitted, its body starts a call that is cut short. -/
theorem Function.exists_starts {fns : FunctionTable} {n : Nat} {f : Function} {args : List Value}
    (h : Function.call fns (n + 1) f args = .error .depth) :
    ∃ g ws, (f.frame args).Starts fns (Function.call fns n) g ws f.body ∧
      Function.call fns n g ws = .error .depth := by
  rw [Function.call, bind_eq_error] at h
  rcases h with h | ⟨final, -, h⟩
  · exact Frame.exists_starts h
  · split at h <;> cases h

/-- A run that is cut short starts a call that is cut short. -/
theorem Program.exists_attempts {p : Program} {n : Nat} (h : p.executeWithin n = .error .depth) :
    ∃ g ws, p.Attempts n [] g ws ∧ Function.call p.functions n g ws = .error .depth := by
  rw [executeWithin] at h
  split at h
  · cases h
  · next hentry =>
    obtain ⟨g, ws, hs, hcut⟩ := Frame.exists_starts h
    exact ⟨g, ws, ⟨hentry, hs⟩, hcut⟩

/-! ### A call that is cut short cuts short what starts it -/

section

variable {fns : FunctionTable} {m n : Nat} {g : Function} {ws : List Value}

mutual

/-- What starts a call under one limit is cut short under every limit that cuts the call short. -/
theorem Expr.eval_eq_depth_of_starts {vars : Store}
    (hcut : Function.call fns n g ws = .error .depth) :
    ∀ e : Expr, e.Starts fns (Function.call fns m) g ws vars →
    e.eval fns (Function.call fns n) vars = .error .depth
  | .lit .., h | .var .., h | .alien .., h => h.elim
  | .add lhs rhs line, h => by
    rw [Expr.eval]
    rcases h with h | ⟨⟨v, hv⟩, h⟩
    · exact bind_eq_error.mpr (Or.inl (lhs.eval_eq_depth_of_starts hcut h))
    · refine bind_eq_depth (fun hle => lhs.eval_follows fns hle vars) hv ?_
      exact bind_eq_error.mpr (Or.inl (rhs.eval_eq_depth_of_starts hcut h))
  | .call name args line, ⟨f, hf, hlen, h⟩ => by
    simp only [Expr.eval, hf, if_pos hlen]
    rcases h with h | ⟨rfl, hws⟩
    · exact bind_eq_error.mpr (Or.inl (Expr.evalAll_eq_depth_of_starts hcut args h))
    · exact bind_eq_depth (fun hle => Expr.evalAll_follows fns hle vars args) hws hcut

private theorem Expr.evalAll_eq_depth_of_starts {vars : Store}
    (hcut : Function.call fns n g ws = .error .depth) :
    ∀ es : List Expr, Expr.StartsAll fns (Function.call fns m) g ws vars es →
    Expr.evalAll fns (Function.call fns n) vars es = .error .depth
  | [], h => h.elim
  | e :: es, h => by
    rw [Expr.evalAll]
    rcases h with h | ⟨⟨v, hv⟩, h⟩
    · exact bind_eq_error.mpr (Or.inl (e.eval_eq_depth_of_starts hcut h))
    · refine bind_eq_depth (fun hle => e.eval_follows fns hle vars) hv ?_
      exact bind_eq_error.mpr (Or.inl (Expr.evalAll_eq_depth_of_starts hcut es h))

end

private theorem Stmt.exec_eq_depth_of_starts (hcut : Function.call fns n g ws = .error .depth)
    {frame : Frame} {s : Stmt} (h : s.Starts fns (Function.call fns m) g ws frame) :
    frame.exec fns (Function.call fns n) s = .error .depth := by
  cases s with
  | decl name value line =>
    rw [Frame.exec, h.1, if_neg Bool.false_ne_true, bind_eq_error]
    exact Or.inl (value.eval_eq_depth_of_starts hcut h.2)
  | assign name value line =>
    rw [Frame.exec, h.1, if_pos rfl, bind_eq_error]
    exact Or.inl (value.eval_eq_depth_of_starts hcut h.2)
  | ret value line =>
    rw [Frame.exec, h.1, if_pos rfl, bind_eq_error]
    exact Or.inl (value.eval_eq_depth_of_starts hcut h.2)
  | alien tag fields line => exact h.elim

private theorem Frame.run_eq_depth_of_starts (hcut : Function.call fns n g ws = .error .depth)
    {frame : Frame} {body : List Stmt} (h : frame.Starts fns (Function.call fns m) g ws body) :
    frame.run fns (Function.call fns n) body = .error .depth := by
  induction body generalizing frame with
  | nil => exact h.elim
  | cons s body ih =>
    rw [run, List.foldlM_cons]
    rcases h with h | ⟨frame', hf, h⟩
    · exact bind_eq_error.mpr (Or.inl (Stmt.exec_eq_depth_of_starts hcut h))
    · exact bind_eq_depth (fun hle => frame.exec_follows fns hle s) hf (ih h)

/-- A call that is cut short cuts short the call that starts it, one level up. -/
theorem Function.call_eq_depth_of_starts (hcut : Function.call fns n g ws = .error .depth)
    {f : Function} {args : List Value}
    (h : (f.frame args).Starts fns (Function.call fns m) g ws f.body) :
    Function.call fns (n + 1) f args = .error .depth := by
  rw [Function.call, bind_eq_error]
  exact Or.inl (Frame.run_eq_depth_of_starts hcut h)

end

/-- A call of the entry block that is cut short cuts short the run. -/
theorem Program.executeWithin_eq_depth_of_attempts {p : Program} {m n : Nat} {g : Function}
    {ws : List Value} (hcut : Function.call p.functions n g ws = .error .depth)
    (h : p.Attempts m [] g ws) : p.executeWithin n = .error .depth := by
  rw [executeWithin, h.1]
  exact Frame.run_eq_depth_of_starts hcut h.2

/-! ### Stacks of calls -/

/-- A call that is cut short goes on to start calls until the limit is reached. -/
theorem Program.Active.exists_full {p : Program} {limit n : Nat}
    {stack : List (Function × List Value)} {g : Function} {ws : List Value}
    (ha : p.Active limit stack) (hlen : stack.length + n = limit) (hs : p.Attempts limit stack g ws)
    (hcut : Function.call p.functions n g ws = .error .depth) : ∃ stack g ws,
      p.Active limit stack ∧ stack.length = limit ∧ p.Attempts limit stack g ws := by
  induction n generalizing stack g ws with
  | zero => exact ⟨stack, g, ws, ha, hlen, hs⟩
  | succ n ih =>
    obtain ⟨g', ws', hs', hcut'⟩ := Function.exists_starts hcut
    have hn : limit - (stack.length + 1) = n := by omega
    refine ih (ha.call (by omega) hs) ?_ ?_ hcut'
    · rw [List.length_cons]
      omega
    · rw [Attempts, hn]
      exact hs'

/-- A call that is cut short cuts short the whole run that starts it. -/
theorem Program.Active.executeWithin_eq_depth {p : Program} {limit : Nat}
    {stack : List (Function × List Value)} {g : Function} {ws : List Value}
    (ha : p.Active limit stack) (hs : p.Attempts limit stack g ws)
    (hcut : Function.call p.functions (limit - stack.length) g ws = .error .depth) :
    p.executeWithin limit = .error .depth := by
  induction ha generalizing g ws with
  | entry => exact executeWithin_eq_depth_of_attempts hcut hs
  | @call stack f args _ hl hs' ih =>
    rw [List.length_cons] at hcut
    have hcall := Function.call_eq_depth_of_starts hcut hs
    have hlevel : limit - (stack.length + 1) + 1 = limit - stack.length := by omega
    rw [hlevel] at hcall
    exact ih hs' hcall

/-- A run is cut short exactly when, with as many calls active as its limit admits, it starts one
more. -/
theorem Program.executeWithin_eq_depth_iff {p : Program} {limit : Nat} :
    p.executeWithin limit = .error .depth ↔ ∃ stack g ws,
      p.Active limit stack ∧ stack.length = limit ∧ p.Attempts limit stack g ws := by
  constructor
  · intro h
    obtain ⟨g, ws, hs, hcut⟩ := p.exists_attempts h
    exact Active.entry.exists_full (Nat.zero_add limit) hs hcut
  · rintro ⟨stack, g, ws, ha, hlen, hs⟩
    refine ha.executeWithin_eq_depth hs ?_
    rw [hlen, Nat.sub_self]
    rfl

/-! ### Arguments of the calls that a run starts -/

section

variable {V : Value → Value → Prop} {fns : FunctionTable} {call : Caller} {g : Function}
  {ws : List Value}

mutual

/-- An expression starts calls of functions with the right number of arguments only. -/
theorem Expr.callWith_of_starts (hV : ValueRelation V) (hc : CallersRelated False V fns call call)
    {vars : Store} (hv : vars.Related V vars) : ∀ e : Expr, e.Literals (fun v => V v v) →
    e.Starts fns call g ws vars → CallWith V fns g ws
  | .lit .., _, h | .var .., _, h | .alien .., _, h => h.elim
  | .add lhs rhs line, hl, h => by
    rcases h with h | ⟨-, h⟩
    · exact lhs.callWith_of_starts hV hc hv hl.1 h
    · exact rhs.callWith_of_starts hV hc hv hl.2 h
  | .call name args line, hl, ⟨f, hf, hlen, h⟩ => by
    rcases h with h | ⟨rfl, hws⟩
    · exact Expr.callWith_of_startsAll hV hc hv args hl h
    · exact Expr.callWith_of_evalAll hV hc hv hl hws (List.mem_of_find?_eq_some hf) hlen

private theorem Expr.callWith_of_startsAll (hV : ValueRelation V)
    (hc : CallersRelated False V fns call call) {vars : Store} (hv : vars.Related V vars) :
    ∀ es : List Expr, Expr.LiteralsAll (fun v => V v v) es →
    Expr.StartsAll fns call g ws vars es → CallWith V fns g ws
  | [], _, h => h.elim
  | e :: es, hl, h => by
    rcases h with h | ⟨-, h⟩
    · exact e.callWith_of_starts hV hc hv hl.1 h
    · exact Expr.callWith_of_startsAll hV hc hv es hl.2 h

end

private theorem Stmt.callWith_of_starts (hV : ValueRelation V)
    (hc : CallersRelated False V fns call call) {frame : Frame} (hf : frame.Related V frame)
    {s : Stmt} (hl : s.Literals fun v => V v v) (h : s.Starts fns call g ws frame) :
    CallWith V fns g ws := by
  cases s with
  | decl name value line => exact value.callWith_of_starts hV hc hf.vars hl h.2
  | assign name value line => exact value.callWith_of_starts hV hc hf.vars hl h.2
  | ret value line => exact value.callWith_of_starts hV hc hf.vars hl h.2
  | alien tag fields line => exact h.elim

/-- A block starts calls of functions with the right number of arguments only. -/
theorem Frame.callWith_of_starts (hV : ValueRelation V) (hc : CallersRelated False V fns call call)
    {frame : Frame} (hf : frame.Related V frame) {body : List Stmt}
    (hl : ∀ s ∈ body, s.Literals fun v => V v v) (h : frame.Starts fns call g ws body) :
    CallWith V fns g ws := by
  induction body generalizing frame with
  | nil => exact h.elim
  | cons s body ih =>
    rw [List.forall_mem_cons] at hl
    rcases h with h | ⟨frame', hexec, h⟩
    · exact Stmt.callWith_of_starts hV hc hf hl.1 h
    · have hrel := Frame.exec_related hV hc hf hl.1
      rw [hexec] at hrel
      exact ih hrel.of_ok hl.2 h

end

namespace Program

variable {p : Program} {limit n : Nat} {stack : List (Function × List Value)}

section

variable {V : Value → Value → Prop} (hV : ValueRelation V)
  (hentry : ∀ s ∈ p.entry, s.Literals fun v => V v v)
  (hfns : ∀ f ∈ p.functions, ∀ s ∈ f.body, s.Literals fun v => V v v)

include hV hentry hfns

/-- A call that is started on top of calls with related arguments has related arguments too. -/
theorem Attempts.callWith {g : Function} {ws : List Value} (hs : p.Attempts limit stack g ws)
    (h : ∀ c ∈ stack, CallWith V p.functions c.1 c.2) : CallWith V p.functions g ws := by
  have hc := callersRelated_self hV hfns
  cases stack with
  | nil => exact Frame.callWith_of_starts hV (hc _) (Frame.related_empty V) hentry hs.2
  | cons c stack =>
    obtain ⟨f, args⟩ := c
    have hf := h (f, args) List.mem_cons_self
    exact Frame.callWith_of_starts hV (hc _) (f.frame_related hf.args) (hfns f hf.mem) hs

/-- The calls that are active have arguments that are related to themselves. -/
theorem Active.callWith (h : p.Active limit stack) :
    ∀ c ∈ stack, CallWith V p.functions c.1 c.2 := by
  induction h with
  | entry => nofun
  | call _ _ hs ih => exact List.forall_mem_cons.mpr ⟨hs.callWith hV hentry hfns ih, ih⟩

end

/-- The calls that are active in a numeric program are proper. -/
theorem Active.properCall (hp : p.Numeric) (h : p.Active limit stack) :
    ∀ c ∈ stack, ProperCall p.functions c.1 c.2 :=
  fun c hc => (h.callWith valueRelation_bothInt hp.entry hp.functions c hc).properCall

/-- A function is settled by a lower limit than each function that starts it. -/
def SettledBelow (p : Program) (g f : Function) : Prop :=
  ∀ n, f.settles p.functions (n + 1) = true → g.settles p.functions n = true

/-- Along a chain of starts, the last function is settled by a lower limit than the first. -/
theorem SettledBelow.trans {f g h : Function} (hgf : p.SettledBelow g f)
    (hfh : p.SettledBelow f h) : p.SettledBelow g h :=
  fun n hn => hgf n (Function.settles_mono (Nat.le_succ n) (hfh n hn))

/-- A function that would be settled by a lower limit than itself is never settled. -/
theorem SettledBelow.not_settles {f : Function} (h : p.SettledBelow f f) (n : Nat) :
    f.settles p.functions n = false := by
  induction n with
  | zero => exact f.not_settles_zero
  | succ n ih =>
    rw [Bool.eq_false_iff]
    intro hn
    rw [h n hn] at ih
    contradiction

private theorem Attempts.settledBelow (hp : p.Numeric) {f g : Function} {args ws : List Value}
    (hf : ProperCall p.functions f args) (hg : ProperCall p.functions g ws)
    (h : p.Attempts limit ((f, args) :: stack) g ws) : p.SettledBelow g f := by
  intro n hn
  rw [Function.settles_iff hp.functions hf] at hn
  rw [Function.settles_iff hp.functions hg]
  exact fun hcut => hn (Function.call_eq_depth_of_starts hcut h)

/-- Each active function is settled by a lower limit than every function below it on the stack. -/
theorem Active.pairwise_settledBelow (hp : p.Numeric) (h : p.Active limit stack) :
    (stack.map Prod.fst).Pairwise p.SettledBelow := by
  induction h with
  | entry => exact .nil
  | @call stack g ws h hl hs ih =>
    have hproper := (h.call hl hs).properCall hp
    rw [List.forall_mem_cons] at hproper
    refine List.pairwise_cons.mpr ⟨?_, ih⟩
    cases stack with
    | nil => nofun
    | cons c stack =>
      obtain ⟨f, args⟩ := c
      have hgf : p.SettledBelow g f :=
        Attempts.settledBelow hp (hproper.2 _ List.mem_cons_self) hproper.1 hs
      intro f' hf'
      rcases List.mem_cons.mp hf' with rfl | hf'
      · exact hgf
      · exact hgf.trans (List.rel_of_pairwise_cons ih hf')

/-- Where some limit does not cut the program short, every active function is settled by some
limit. -/
theorem Active.exists_settles (hp : p.Numeric) (hn : p.executeWithin n ≠ .error .depth)
    (h : p.Active limit stack) :
    ∀ f ∈ stack.map Prod.fst, ∃ k, f.settles p.functions k = true := by
  induction h with
  | entry => nofun
  | @call stack g ws h hl hs ih =>
    have hproper := (h.call hl hs).properCall hp
    rw [List.forall_mem_cons] at hproper
    refine List.forall_mem_cons.mpr ⟨?_, ih⟩
    cases stack with
    | nil =>
      refine ⟨n, ?_⟩
      rw [Function.settles_iff hp.functions hproper.1]
      exact fun hcut => hn (executeWithin_eq_depth_of_attempts hcut hs)
    | cons c stack =>
      obtain ⟨f, args⟩ := c
      obtain ⟨k, hk⟩ := ih f List.mem_cons_self
      cases k with
      | zero =>
        rw [Function.not_settles_zero] at hk
        contradiction
      | succ k =>
        have hf := hproper.2 _ List.mem_cons_self
        exact ⟨k, Attempts.settledBelow hp hf hproper.1 hs k hk⟩

/-- Where some limit does not cut the program short, no function is active twice at once. -/
theorem Active.nodup (hp : p.Numeric) (hn : p.executeWithin n ≠ .error .depth)
    (h : p.Active limit stack) : (stack.map Prod.fst).Nodup := by
  refine (h.pairwise_settledBelow hp).imp_of_mem ?_
  rintro g f hg hf hgf rfl
  obtain ⟨k, hk⟩ := h.exists_settles hp hn g hg
  rw [hgf.not_settles k] at hk
  contradiction

/-- Where some limit does not cut the program short, no more calls are active at once than there
are functions. -/
theorem Active.length_le (hp : p.Numeric) (hn : p.executeWithin n ≠ .error .depth)
    (h : p.Active limit stack) : stack.length ≤ p.functions.length := by
  have hsub : stack.map Prod.fst ⊆ p.functions := by
    intro f hf
    obtain ⟨c, hc, rfl⟩ := List.mem_map.mp hf
    exact (h.properCall hp c hc).mem
  have hlen := (List.subperm_of_subset (h.nodup hp hn) hsub).length_le
  rwa [List.length_map] at hlen

/-- For a program that a text describes, the number of its functions is a limit beyond which no
limit changes the outcome. A run is cut short exactly when it starts one more call than its limit
admits; once some run enters a function that is already active, every limit cuts the program short;
and a run that is not cut short never has more calls active than there are functions. -/
theorem executeWithin_decided_by_functions {code : Text} {p : Program}
    (h : Program.ofText code = .ok p) :
    (∀ limit, p.functions.length ≤ limit →
      p.executeWithin limit = p.executeWithin p.functions.length) ∧
    (∀ limit, p.executeWithin limit = .error .depth ↔ ∃ stack g ws,
      p.Active limit stack ∧ stack.length = limit ∧ p.Attempts limit stack g ws) ∧
    (∀ limit limit' stack, p.Active limit stack → ¬ (stack.map Prod.fst).Nodup →
      p.executeWithin limit' = .error .depth) ∧
    ∀ limit stack, p.executeWithin limit ≠ .error .depth → p.Active limit stack →
      stack.length ≤ p.functions.length := by
  have hp := (wellWritten_ofText h).numeric
  refine ⟨fun limit hle => executeWithin_length_eq hp hle, fun limit => executeWithin_eq_depth_iff,
    ?_, fun limit stack hn ha => ha.length_le hp hn⟩
  intro limit limit' stack ha hdup
  by_contra hn
  exact hdup (ha.nodup hp hn)

/-- A function that calls itself is cut short by the usual limit because it is by the limit one. -/
theorem execute_self_call_eq_depth :
    let code := "func f(a) \x7b return f(a + 1); \x7d begin \x7b var x = f(0); \x7d"
    ∃ p, Program.ofText code = .ok p ∧ p.execute = .error .depth := by
  intro code
  have hp : Program.ofText code =
      .ok ⟨[.decl "x" (.call "f" [.lit (.int 0) 1] 1) 1],
        [⟨"f", ["a"], [.ret (.call "f" [.add (.var "a" 1) (.lit (.int 1) 1) 1] 1) 1], 1⟩]⟩ := by
    decide +kernel
  refine ⟨_, hp, ?_⟩
  rw [execute, (executeWithin_decided_by_functions hp).1 callLimit (by decide)]
  decide +kernel

end Program

end SumLang
