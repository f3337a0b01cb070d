import Mathlib.Data.List.Dedup
import SumLang.Proofs.Eval.Safety

/-!
# Parameters and the variables of a frame

A frame starts with its parameters bound to the arguments of the call, from left to right.
No definition is refused for a parameter that occurs twice, and of two bindings of one name
the later takes the place of the earlier. Parameters and arguments thus correspond one to
one exactly when no parameter occurs twice, and as long as it runs a frame has as many
variables as it has different parameters and has executed declarations.
-/

namespace SumLang

/-! ### Stores that parameters make -/

namespace Store

/-- The last binding of a name is the one that stays. -/
theorem get?_bind (params : List Name) (args : List Value) (x : Name) :
    (bind params args).get? x = (params.zip args).reverse.lookup x := by
  have hfold (es : List (Name × Value)) (s : Store) :
      (es.foldl (fun s e => s.set e.1 e.2) s).get? x = (es.reverse.lookup x).or (s.get? x) := by
    induction es generalizing s with
    | nil => rfl
    | cons e es ih =>
      obtain ⟨y, v⟩ := e
      rw [List.foldl_cons, ih, get?_set, List.reverse_cons, List.lookup_append, Option.or_assoc,
        List.lookup_cons]
      by_cases hx : x = y
      · simp [hx]
      · simp [hx, beq_eq_false_iff_ne.mpr hx]
  rw [bind, hfold]
  exact Option.or_none

/-- A parameter that does not come again keeps the argument at its place. -/
theorem get?_bind_of_last {before after : List Name} {x : Name} {vs ws : List Value} {v : Value}
    (hlen : before.length = vs.length) (hx : x ∉ after) :
    (bind (before ++ x :: after) (vs ++ v :: ws)).get? x = some v := by
  have hnone : (after.zip ws).reverse.lookup x = none := by
    rw [List.lookup_eq_none_iff]
    intro e he
    have hmem := List.of_mem_zip (List.mem_reverse.mp he)
    exact bne_iff_ne.mpr fun heq => hx (heq ▸ hmem.1)
  rw [get?_bind, List.zip_append hlen, List.zip_cons_cons, List.reverse_append, List.reverse_cons,
    List.append_assoc, List.lookup_append, hnone]
  simp

/-- Each parameter has the argument at its place, whatever the arguments are, exactly when no
parameter occurs twice. -/
theorem bind_one_to_one_iff (params : List Name) :
    (∀ args : List Value, args.length = params.length → ∀ (i : Nat) (x : Name),
      params[i]? = some x → (bind params args).get? x = args[i]?) ↔ params.Nodup := by
  constructor
  · intro h
    -- Arguments that tell their places apart cannot share one variable.
    let places : List Value := (List.range params.length).map fun k : Nat => .int k
    have hget {i : Nat} (hi : i < params.length) :
        (bind params places).get? params[i] = some (.int i) := by
      rw [h places (by simp [places]) i _ (List.getElem?_eq_getElem hi)]
      simp [places, hi]
    rw [List.nodup_iff_injective_get]
    rintro ⟨i, hi⟩ ⟨j, hj⟩ hij
    have hsame := hget hi
    rw [show params[i] = params[j] from hij, hget hj] at hsame
    have hint := Value.int.inj (Option.some.inj hsame)
    exact Fin.ext (Int.ofNat_inj.mp hint.symm)
  · intro h args hlen i x hx
    obtain ⟨hi, rfl⟩ := List.getElem?_eq_some_iff.mp hx
    have hi' : i < args.length := hlen ▸ hi
    have hnot : params[i] ∉ params.drop (i + 1) := by
      rw [← List.take_append_drop i params, List.drop_eq_getElem_cons hi] at h
      exact (List.nodup_cons.mp (List.nodup_append.mp h).2.1).1
    have hlast : (bind (params.take i ++ params[i] :: params.drop (i + 1))
        (args.take i ++ args[i] :: args.drop (i + 1))).get? params[i] = some args[i] :=
      get?_bind_of_last (by simp [hlen]) hnot
    rw [← List.drop_eq_getElem_cons hi, ← List.drop_eq_getElem_cons hi', List.take_append_drop,
      List.take_append_drop] at hlast
    rw [hlast, List.getElem?_eq_getElem hi']

/-- Binding a name repeats none. -/
theorem nodup_names_set {s : Store} (h : s.names.Nodup) (name : Name) (value : Value) :
    (s.set name value).names.Nodup := by
  rw [names_set]
  split
  · exact h
  · next hn =>
    rw [contains_iff] at hn
    rw [← List.concat_eq_append]
    exact h.concat hn

/-- The frame of a call has each name once, also where parameters repeat. -/
theorem nodup_names_bind (params : List Name) (args : List Value) :
    (bind params args).names.Nodup := by
  have hfold (es : List (Name × Value)) {s : Store} (h : s.names.Nodup) :
      (es.foldl (fun s e => s.set e.1 e.2) s).names.Nodup := by
    induction es generalizing s with
    | nil => exact h
    | cons e es ih => exact ih (nodup_names_set h e.1 e.2)
  exact hfold _ List.nodup_nil

/-- There are as many variables as different parameters. -/
theorem length_names_bind {params : List Name} {args : List Value}
    (h : args.length = params.length) :
    (bind params args).names.length = params.dedup.length := by
  apply List.Perm.length_eq
  rw [List.perm_ext_iff_of_nodup (nodup_names_bind params args) (List.nodup_dedup params)]
  intro x
  rw [mem_names_bind h, List.mem_dedup]

end Store

/-! ### Frames of a run -/

namespace Frame

variable {fns : FunctionTable} {call : Caller} {frame frame' : Frame}

/-- A statement repeats no name of its frame. -/
theorem nodup_names_of_exec {s : Stmt} (h : frame.exec fns call s = .ok frame')
    (hn : frame.vars.names.Nodup) : frame'.vars.names.Nodup := by
  cases s with
  | decl name value line =>
    obtain ⟨-, v, -, rfl⟩ := exec_decl_eq_ok.mp h
    exact Store.nodup_names_set hn name v
  | assign name value line =>
    obtain ⟨-, v, -, rfl⟩ := exec_assign_eq_ok.mp h
    exact Store.nodup_names_set hn name v
  | ret value line =>
    obtain ⟨-, v, -, rfl⟩ := exec_ret_eq_ok.mp h
    exact hn
  | alien tag fields line => contradiction

/-- No statement binds a name a second time. -/
theorem nodup_names_of_run {body : List Stmt} (h : frame.run fns call body = .ok frame')
    (hn : frame.vars.names.Nodup) : frame'.vars.names.Nodup := by
  induction body generalizing frame with
  | nil =>
    rw [← Except.ok.inj h]
    exact hn
  | cons s body ih =>
    obtain ⟨next, hs, hbody⟩ := run_cons_eq_ok.mp h
    exact ih hbody (nodup_names_of_exec hs hn)

end Frame

private theorem length_dedup_eq_iff {xs : List Name} : xs.dedup.length = xs.length ↔ xs.Nodup := by
  constructor
  · intro h
    exact List.dedup_eq_self.mp ((List.dedup_sublist xs).eq_of_length h)
  · intro h
    rw [h.dedup]

namespace Program

/-- The parameters of the frame on top of the active calls; the entry block has none. -/
def topParams : List (Function × List Value) → List Name
  | [] => []
  | (f, _) :: _ => f.params

/-- With the calls `stack` active, the innermost of which stands first, the frame on top comes to
be `frame` when it has executed `done`. -/
def VisitsAfter (p : Program) (limit : Nat) :
    List (Function × List Value) → List Stmt → Frame → Prop
  | [], done, frame => p.entry.findSome? Stmt.returnLine? = none ∧ done <+: p.entry ∧
      ({} : Frame).run p.functions (Function.call p.functions limit) done = .ok frame
  | (f, args) :: stack, done, frame => done <+: f.body ∧
      (f.frame args).run p.functions (Function.call p.functions (limit - (stack.length + 1))) done =
        .ok frame

variable {p : Program} {limit : Nat} {stack : List (Function × List Value)}

/-- The frame on top starts with its different parameters and adds what it declares. -/
theorem Active.length_names (hp : p.WellWritten) (h : p.Active limit stack) {done : List Stmt}
    {frame : Frame} (hv : p.VisitsAfter limit stack done frame) : frame.vars.names.Nodup ∧
      frame.vars.names.length = (topParams stack).dedup.length + (declared done).length := by
  cases stack with
  | nil =>
    obtain ⟨-, -, hrun⟩ := hv
    refine ⟨Frame.nodup_names_of_run hrun List.nodup_nil, ?_⟩
    rw [Frame.names_of_run hrun, List.length_append]
    rfl
  | cons c stack =>
    obtain ⟨f, args⟩ := c
    obtain ⟨-, hrun⟩ := hv
    have hcall := h.callWith_sameWord hp (f, args) List.mem_cons_self
    refine ⟨Frame.nodup_names_of_run hrun (Store.nodup_names_bind f.params args), ?_⟩
    rw [Frame.names_of_run hrun, List.length_append]
    exact congrArg (· + (declared done).length) (Store.length_names_bind hcall.length)

/-- In a program that a text describes, the arguments of a call are bound in order, and where a
parameter occurs twice the last argument for it stays. So each parameter has the argument at its
place, whatever the arguments are, exactly when no parameter of the function occurs twice; and the
frame on top of each stack of active calls has at any time as many variables as it has parameters
and has executed declarations exactly when no parameter of its function occurs twice, and otherwise
as many fewer as there are repetitions. -/
theorem parameters_one_to_one_iff_nodup {code : Text} {p : Program}
    (h : Program.ofText code = .ok p) :
    (∀ f ∈ p.functions, ∀ (args : List Value) (x : Name),
      (f.frame args).vars.get? x = (f.params.zip args).reverse.lookup x) ∧
    (∀ f ∈ p.functions,
      (∀ args : List Value, args.length = f.params.length → ∀ (i : Nat) (x : Name),
        f.params[i]? = some x → (f.frame args).vars.get? x = args[i]?) ↔ f.params.Nodup) ∧
    ∀ limit stack done frame, p.Active limit stack → p.VisitsAfter limit stack done frame →
      frame.vars.names.Nodup ∧
      frame.vars.names.length = (topParams stack).dedup.length + (declared done).length ∧
      (frame.vars.names.length = (topParams stack).length + (declared done).length ↔
        (topParams stack).Nodup) := by
  have hp := wellWritten_ofText h
  refine ⟨fun f _ args x => Store.get?_bind f.params args x,
    fun f _ => Store.bind_one_to_one_iff f.params, ?_⟩
  intro limit stack done frame ha hv
  obtain ⟨hnodup, hlen⟩ := ha.length_names hp hv
  refine ⟨hnodup, hlen, ?_⟩
  rw [hlen, Nat.add_right_cancel_iff, length_dedup_eq_iff]

/-- Two different parameters have the arguments at their places. -/
theorem parameters_bound_in_order :
    let code := "func f(a, b) \x7b return b; \x7d begin \x7b var r = f(1, 2); \x7d"
    ∃ p, Program.ofText code = .ok p ∧
      ∃ f ∈ p.functions, f.params = ["a", "b"] ∧
        (f.frame [.int 1, .int 2]).vars.get? "a" = some (.int 1) ∧
        (f.frame [.int 1, .int 2]).vars.get? "b" = some (.int 2) := by
  intro code
  have hp : Program.ofText code =
      .ok ⟨[.decl "r" (.call "f" [.lit (.int 1) 1, .lit (.int 2) 1] 1) 1],
        [⟨"f", ["a", "b"], [.ret (.var "b" 1) 1], 1⟩]⟩ := by
    decide +kernel
  have hone := ((parameters_one_to_one_iff_nodup hp).2.1 _ List.mem_cons_self).mpr (by decide)
  refine ⟨_, hp, _, List.mem_cons_self, rfl, ?_, ?_⟩
  · exact hone [.int 1, .int 2] rfl 0 "a" rfl
  · exact hone [.int 1, .int 2] rfl 1 "b" rfl

/-- A definition with the same parameter twice is accepted, and a call of it with two arguments
loses the first: its frame has one variable, and the call returns the second argument. -/
theorem repeated_parameter_loses_argument :
    let code := "func f(a, a) \x7b return a; \x7d begin \x7b var r = f(1, 2); \x7d"
    ∃ p, Program.ofText code = .ok p ∧
      ∃ f ∈ p.functions, f.params = ["a", "a"] ∧
        (f.frame [.int 1, .int 2]).vars.entries = [(("a" : Name), Value.int 2)] ∧
        p.executeWithin 1 = .ok { vars := ⟨[(("r" : Name), .int 2)]⟩ } := by
  intro code
  have hp : Program.ofText code =
      .ok ⟨[.decl "r" (.call "f" [.lit (.int 1) 1, .lit (.int 2) 1] 1) 1],
        [⟨"f", ["a", "a"], [.ret (.var "a" 1) 1], 1⟩]⟩ := by
    decide +kernel
  exact ⟨_, hp, _, List.mem_cons_self, rfl, rfl, rfl⟩

end Program

end SumLang
