import SumLang.Proofs.Eval.Renaming
import SumLang.Proofs.Program.Reachability

/-!
# The names of variables are private to their frames

Renaming the variables of a program, those of the entry block and of each function by a
renaming of its own, changes nothing but the names that are shown: the variables of the
entry block have the same values in the same order under their new names, and an error
about a variable names it as the frame does that raised the error. No two frames share a
variable, and a variable that has the name of a function is not confused with it.
-/

namespace SumLang

/-- The program with the variables of its entry block and of each function renamed. -/
def Program.rename (ρ : Renaming) (p : Program) : Program :=
  ⟨p.entry.map (Stmt.rename (ρ none)), p.functions.rename ρ⟩

/-- The item with its variables renamed as in the frames it describes. -/
def Item.rename (ρ : Renaming) : Item → Item
  | .entry body line => .entry (body.map (Stmt.rename (ρ none))) line
  | .func name params body line =>
    .func name (params.map (ρ name)) (body.map (Stmt.rename (ρ name))) line
  | .alien tag fields line => .alien tag fields line

/-- Within the entry block and within each function, different variables get different names. -/
structure Program.SeparatedBy (ρ : Renaming) (p : Program) : Prop where
  entry : KeepsApart (ρ none) (p.entry.flatMap Stmt.variables)
  functions : ∀ f ∈ p.functions, KeepsApart (ρ f.name) f.variables

/-! ### Running a renamed program -/

private theorem Stmt.returnLine?_rename (σ : Name → Name) (s : Stmt) :
    (s.rename σ).returnLine? = s.returnLine? := by
  cases s <;> rfl

/-- A renamed program ends as the program does, with the names that are shown renamed. -/
theorem Program.executeWithin_rename {ρ : Renaming} {p : Program} (h : p.SeparatedBy ρ)
    (limit : Nat) : (p.rename ρ).executeWithin limit =
      ((p.executeMarked limit).map (Frame.rename (ρ none))).mapError (Raised.rename ρ) := by
  have hreturn : (p.rename ρ).entry.findSome? Stmt.returnLine? =
      p.entry.findSome? Stmt.returnLine? := by
    simp only [rename, List.findSome?_map, Function.comp_def, Stmt.returnLine?_rename]
  rw [executeWithin, executeMarked, hreturn]
  cases p.entry.findSome? Stmt.returnLine? with
  | some line => rfl
  | none =>
    have hstart : ({} : Frame).Belongs none (p.entry.flatMap Stmt.variables) :=
      ⟨rfl, List.nil_subset _⟩
    have hbody : ∀ s ∈ p.entry, s.variables ⊆ p.entry.flatMap Stmt.variables := fun s hs x hx =>
      List.mem_flatMap.mpr ⟨s, hs, hx⟩
    exact Frame.run_rename (renamesCalls h.functions limit) h.entry hstart hbody

/-! ### The renaming that changes nothing -/

mutual

private theorem Expr.rename_id : ∀ e : Expr, e.rename id = e
  | .lit .. | .var .. | .alien .. => rfl
  | .add lhs rhs line => by rw [Expr.rename, lhs.rename_id, rhs.rename_id]
  | .call name args line => by rw [Expr.rename, Expr.renameAll_id args]

private theorem Expr.renameAll_id : ∀ es : List Expr, Expr.renameAll id es = es
  | [] => rfl
  | e :: es => by rw [Expr.renameAll, e.rename_id, Expr.renameAll_id es]

end

private theorem Stmt.map_rename_id (body : List Stmt) : body.map (Stmt.rename id) = body := by
  refine (List.map_congr_left fun s _ => ?_).trans (List.map_id body)
  cases s with
  | decl name value line => rw [Stmt.rename, value.rename_id]; rfl
  | assign name value line => rw [Stmt.rename, value.rename_id]; rfl
  | ret value line => rw [Stmt.rename, value.rename_id]; rfl
  | alien tag fields line => rfl

private theorem Program.rename_id (p : Program) : p.rename (fun _ => id) = p := by
  have hfunction (f : Function) : f.rename (fun _ => id) = f := by
    rw [Function.rename, List.map_id, Stmt.map_rename_id]
  rw [rename, Stmt.map_rename_id, FunctionTable.rename, List.map_congr_left fun f _ => hfunction f,
    List.map_id']

private theorem Frame.rename_id : Frame.rename id = id := by
  funext frame
  simp [rename, Store.rename]

private theorem Raised.rename_id : Raised.rename (fun _ => id) = Raised.error := by
  funext r
  obtain ⟨owner, error⟩ := r
  cases error <;> simp [Raised.rename, RunError.rename]

/-- A run with marked errors is the run, apart from the marks. -/
theorem Program.executeWithin_eq_marked (p : Program) (limit : Nat) :
    p.executeWithin limit = (p.executeMarked limit).mapError Raised.error := by
  have h : p.SeparatedBy fun _ => id := ⟨Set.injOn_id _, fun _ _ => Set.injOn_id _⟩
  have hrun := executeWithin_rename h limit
  rw [rename_id, Frame.rename_id, Raised.rename_id, Except.map_id] at hrun
  exact hrun

/-! ### Assembling a renamed program -/

private theorem Item.RepeatedAs.of_rename {ρ : Renaming} {i j : Item} {e : ProgramError}
    (h : (i.rename ρ).RepeatedAs (j.rename ρ) e) : i.RepeatedAs j e := by
  cases i <;> cases j <;> cases h
  · exact .entry
  · exact .func

/-- Renamed items define the renamed functions. -/
theorem functionsOf_rename (ρ : Renaming) (items : List Item) :
    functionsOf (items.map (Item.rename ρ)) = (functionsOf items).rename ρ := by
  rw [functionsOf, functionsOf, FunctionTable.rename, List.filterMap_map, List.map_filterMap]
  refine List.filterMap_congr fun i _ => ?_
  cases i <;> rfl

/-- Renamed items form the renamed program. -/
theorem Program.ofItems_rename {items : List Item} {p : Program} (h : ofItems items = .ok p)
    (ρ : Renaming) : ofItems (items.map (Item.rename ρ)) = .ok (p.rename ρ) := by
  obtain ⟨hg, hd, ⟨line, he⟩, hf⟩ := ofItems_eq_ok_iff.mp h
  refine ofItems_eq_ok_iff.mpr ⟨?_, ?_, ⟨line, List.mem_map_of_mem (f := Item.rename ρ) he⟩, ?_⟩
  · intro j hj
    obtain ⟨i, hi, rfl⟩ := List.mem_map.mp hj
    have hgenuine := hg i hi
    cases i with
    | entry | func => trivial
    | alien => exact hgenuine
  · exact List.pairwise_map.mpr (hd.imp fun hij e he => hij e he.of_rename)
  · rw [functionsOf_rename, ← hf]
    rfl

/-- Only a feed that no failure ends forms a program. -/
theorem Program.ofItems_of_ofFeed {feed : ItemFeed} {p : Program} (h : ofFeed feed = .ok p) :
    ofItems feed.items = .ok p := by
  obtain ⟨items, error⟩ := feed
  cases error with
  | none => exact h
  | some e =>
    obtain ⟨a, -, ha⟩ := bind_eq_ok.mp h
    contradiction

/-- The variables of an accepted program can be renamed, in the entry block and in each function by
a renaming of its own that gives different variables of the block different names, whatever
functions and other variables are called. The renamed items form the renamed program. Under every
limit on the calls it ends with the same values in the same order under the new names, with the same
error, where a variable is named as in the frame that raised it, or with too deep calls as the
program does. -/
theorem Program.rename_keeps_outcome {feed : ItemFeed} {p : Program} (h : ofFeed feed = .ok p)
    {ρ : Renaming} (hρ : p.SeparatedBy ρ) :
    ofItems (feed.items.map (Item.rename ρ)) = .ok (p.rename ρ) ∧
    ∀ limit, p.executeWithin limit = (p.executeMarked limit).mapError Raised.error ∧
      (p.rename ρ).executeWithin limit =
        ((p.executeMarked limit).map (Frame.rename (ρ none))).mapError (Raised.rename ρ) :=
  ⟨ofItems_rename (ofItems_of_ofFeed h) ρ, fun limit =>
    ⟨p.executeWithin_eq_marked limit, executeWithin_rename hρ limit⟩⟩

/-- A call that misses the variable `c` of its frame misses `x` when `c` is renamed to it there. The
entry block has a `c` of its own, and variables of both blocks get the name of the function. -/
theorem Program.execute_renamed_missing_variable :
    let p : Program := ⟨[.decl "c" (.lit (.int 1) 1) 1, .decl "d" (.call "f" [.var "c" 2] 2) 2],
      [⟨"f", ["a"], [.decl "b" (.var "a" 3) 3, .ret (.add (.var "b" 4) (.var "c" 4) 4) 4], 3⟩]⟩
    let ρ : Renaming := fun owner name =>
      if owner = some ("f" : Text) then
        if name = "a" then "f" else if name = "b" then "a" else if name = "c" then "x" else name
      else if name = "c" then "f" else name
    p.execute = .error (.eval { fault := .undefinedVariable, name := "c", line := some 4 }) ∧
    (p.rename ρ).execute =
      .error (.eval { fault := .undefinedVariable, name := "x", line := some 4 }) := by
  intro p ρ
  have hread : Program.ofText "begin \x7b var c = 1;
      var d = f(c); \x7d
      func f(a) \x7b var b = a;
      return b + c; \x7d" = .ok p := by decide +kernel
  have hentry : ∀ x ∈ p.entry.flatMap Stmt.variables, ∀ y ∈ p.entry.flatMap Stmt.variables,
      ρ none x = ρ none y → x = y := by decide
  have hfunctions : ∀ f ∈ p.functions, ∀ x ∈ f.variables, ∀ y ∈ f.variables,
      ρ f.name x = ρ f.name y → x = y := by decide
  have hρ : p.SeparatedBy ρ := ⟨fun x hx y hy => hentry x hx y hy,
    fun f hf x hx y hy => hfunctions f hf x hx y hy⟩
  have houtcome := (rename_keeps_outcome hread hρ).2 callLimit
  have hmarked : p.executeMarked callLimit = .error
      ⟨"f", .eval { fault := .undefinedVariable, name := "c", line := some 4 }⟩ := rfl
  rw [hmarked] at houtcome
  exact houtcome

end SumLang
