import Mathlib.Data.List.Forall2
import SumLang.Eval.Frame

/-!
# Related runs

Two runs of the same code on related values take the same path: they fail in the same
way or end with related answers. What counts as related is a parameter. With equality it
compares runs under different limits, where the one with the lower limit may be cut
short; with "both are integers" it says that no value decides what a run does.
-/

namespace SumLang

/-! ### Outcomes -/

/-- A sequence of two computations ends well exactly when both do. -/
theorem bind_eq_ok {ε α β : Type} {x : Except ε α} {f : α → Except ε β} {b : β} :
    x >>= f = .ok b ↔ ∃ a, x = .ok a ∧ f a = .ok b := by
  cases x with
  | ok a => exact ⟨fun h => ⟨a, rfl, h⟩, fun ⟨_, ha, h⟩ => Except.ok.inj ha ▸ h⟩
  | error e => exact ⟨nofun, nofun⟩

/-- A computation followed by a function has a result when the computation has one. -/
theorem bind_return_eq_ok {ε α β : Type} {x : Except ε α} {k : α → β} {b : β} :
    (do let a ← x; return k a) = .ok b ↔ ∃ a, x = .ok a ∧ b = k a := by
  rw [bind_eq_ok]
  refine exists_congr fun a => and_congr_right' ?_
  exact ⟨fun h => (Except.ok.inj h).symm, fun h => congrArg Except.ok h.symm⟩

/-- A sequence of two computations fails when the first fails or the second does after it. -/
theorem bind_eq_error {ε α β : Type} {x : Except ε α} {f : α → Except ε β} {e : ε} :
    x >>= f = .error e ↔ x = .error e ∨ ∃ a, x = .ok a ∧ f a = .error e := by
  cases x with
  | ok a => exact ⟨fun h => Or.inr ⟨a, rfl, h⟩,
      fun h => h.elim nofun fun ⟨_, ha, h⟩ => Except.ok.inj ha ▸ h⟩
  | error e' => exact ⟨fun h => Or.inl (congrArg Except.error (Except.error.inj h)),
      fun h => h.elim (fun h => congrArg Except.error (Except.error.inj h)) nofun⟩

/-- A sum has a value exactly when both operands have one and these can be added. -/
theorem Expr.eval_add_eq_ok {fns : FunctionTable} {call : Caller} {vars : Store} {lhs rhs : Expr}
    {line : Int} {v : Value} : (Expr.add lhs rhs line).eval fns call vars = .ok v ↔
      ∃ a b, lhs.eval fns call vars = .ok a ∧ rhs.eval fns call vars = .ok b ∧
        a.add b = .ok v := by
  simp only [Expr.eval, bind_eq_ok]
  constructor
  · rintro ⟨a, ha, b, hb, h⟩
    refine ⟨a, b, ha, hb, ?_⟩
    split at h
    · next w hw => rw [hw, Except.ok.inj h]
    · contradiction
  · rintro ⟨a, b, ha, hb, h⟩
    exact ⟨a, ha, b, hb, by rw [h]⟩

/-- The second computation fails in the same way as the first or gives a related answer. Where
`cut` holds, the first may also have been cut short by its limit. -/
inductive Follows {α β : Type} (cut : Prop) (S : α → β → Prop) :
    Except RunError α → Except RunError β → Prop
  | ok {a : α} {b : β} (h : S a b) : Follows cut S (.ok a) (.ok b)
  | error (e : RunError) : Follows cut S (.error e) (.error e)
  | cutShort (h : cut) (y : Except RunError β) : Follows cut S (.error .depth) y

namespace Follows

variable {α β α' β' : Type} {cut : Prop} {S : α → β → Prop} {T : α' → β' → Prop}

/-- Computations that go on from related answers in related ways are related. -/
theorem bind {x : Except RunError α} {y : Except RunError β} {f : α → Except RunError α'}
    {g : β → Except RunError β'} (h : Follows cut S x y)
    (hf : ∀ a b, S a b → Follows cut T (f a) (g b)) : Follows cut T (x >>= f) (y >>= g) := by
  cases h with
  | ok h => exact hf _ _ h
  | error e => exact .error e
  | cutShort h y => exact .cutShort h _

/-- What holds of related results can be weakened. -/
theorem mono {S' : α → β → Prop} {x : Except RunError α} {y : Except RunError β}
    (h : Follows cut S x y) (hs : ∀ a b, S a b → S' a b) : Follows cut S' x y := by
  cases h with
  | ok h => exact .ok (hs _ _ h)
  | error e => exact .error e
  | cutShort h y => exact .cutShort h y

/-- Results of two computations of which one follows the other are related. -/
theorem of_ok {a : α} {b : β} (h : Follows cut S (.ok a) (.ok b)) : S a b := by
  cases h with
  | ok h => exact h

/-- Without cuts, a run and the one it is compared with are cut short together. -/
theorem depth_iff {x : Except RunError α} {y : Except RunError β} (h : Follows False S x y) :
    x = .error .depth ↔ y = .error .depth := by
  cases h with
  | ok h => exact ⟨nofun, nofun⟩
  | error e => simp
  | cutShort h y => exact h.elim

/-- Without cuts, a run ends well exactly when the one it is compared with does. -/
theorem ok_iff {x : Except RunError α} {y : Except RunError β} (h : Follows False S x y) :
    (∃ a, x = .ok a) ↔ ∃ b, y = .ok b := by
  cases h with
  | @ok a b h => exact ⟨fun _ => ⟨b, rfl⟩, fun _ => ⟨a, rfl⟩⟩
  | error e => simp
  | cutShort h y => exact h.elim

/-- Up to equality, a run that is not cut short determines the one it is compared with. -/
theorem eq_of_ne_depth {x y : Except RunError α} (h : Follows cut Eq x y)
    (hx : x ≠ .error .depth) : x = y := by
  cases h with
  | ok h => rw [h]
  | error e => rfl
  | cutShort h y => exact absurd rfl hx

end Follows

/-! ### Related values -/

/-- Related values are null together, and their sums are related or fail alike. -/
structure ValueRelation (V : Value → Value → Prop) : Prop where
  isNull {v w : Value} (h : V v w) : v.isNull = w.isNull
  add {a b a' b' : Value} (ha : V a a') (hb : V b b') :
    (∃ v w, a.add b = .ok v ∧ a'.add b' = .ok w ∧ V v w) ∨
      ∃ v w, a.add b = .error v ∧ a'.add b' = .error w ∧ v.typeName = w.typeName

/-- Operations on equal values agree. -/
theorem valueRelation_eq : ValueRelation Eq where
  isNull h := congrArg Value.isNull h
  add {a b a' b'} ha hb := by
    subst ha hb
    cases h : a.add b with
    | ok v => exact Or.inl ⟨v, v, rfl, rfl, rfl⟩
    | error v => exact Or.inr ⟨v, v, rfl, rfl, rfl⟩

/-- A value that is an integer. -/
def Value.IsInt (v : Value) : Prop := ∃ n : Int, v = .int n

/-- Both values are integers. -/
def Value.BothInt (v w : Value) : Prop := v.IsInt ∧ w.IsInt

/-- Operations on integers do not fail, whichever integers they are. -/
theorem valueRelation_bothInt : ValueRelation Value.BothInt where
  isNull h := by
    obtain ⟨⟨m, rfl⟩, n, rfl⟩ := h
    rfl
  add ha hb := by
    obtain ⟨⟨m, rfl⟩, m', rfl⟩ := ha
    obtain ⟨⟨n, rfl⟩, n', rfl⟩ := hb
    exact Or.inl ⟨_, _, rfl, rfl, ⟨_, rfl⟩, _, rfl⟩

/-! ### Related stores and frames -/

/-- Stores with the same names in the same order and related values. -/
def Store.Related (V : Value → Value → Prop) (s s' : Store) : Prop :=
  List.Forall₂ (fun e e' => e.1 = e'.1 ∧ V e.2 e'.2) s.entries s'.entries

namespace Store.Related

variable {V : Value → Value → Prop} {s s' : Store}

private theorem names_eq (h : s.Related V s') : s.names = s'.names := by
  obtain ⟨entries⟩ := s
  obtain ⟨entries'⟩ := s'
  simp only [Store.Related, names] at h ⊢
  induction h with
  | nil => rfl
  | cons he _ ih => rw [List.map_cons, List.map_cons, he.1, ih]

/-- Related stores bind the same names. -/
theorem contains_eq (h : s.Related V s') (name : Name) : s.contains name = s'.contains name := by
  rw [Bool.eq_iff_iff, contains_iff, contains_iff, h.names_eq]

/-- A name is unbound in both stores or bound to related values. -/
theorem get? (h : s.Related V s') (name : Name) :
    (s.get? name = none ∧ s'.get? name = none) ∨
      ∃ v w, s.get? name = some v ∧ s'.get? name = some w ∧ V v w := by
  obtain ⟨entries⟩ := s
  obtain ⟨entries'⟩ := s'
  simp only [Store.Related, Store.get?] at h ⊢
  induction h with
  | nil => exact Or.inl ⟨rfl, rfl⟩
  | @cons e e' rest rest' he _ ih =>
    rw [List.lookup_cons, List.lookup_cons, ← he.1]
    cases name == e.1 with
    | true => exact Or.inr ⟨e.2, e'.2, rfl, rfl, he.2⟩
    | false => exact ih

/-- Binding a name to related values keeps stores related. -/
theorem set (h : s.Related V s') (name : Name) {v w : Value} (hv : V v w) :
    (s.set name v).Related V (s'.set name w) := by
  unfold Store.set
  rw [h.contains_eq name]
  split
  · refine List.rel_map (fun e e' he => ?_) h
    rw [he.1]
    split
    · exact ⟨rfl, hv⟩
    · exact he
  · exact List.rel_append h (.cons ⟨rfl, hv⟩ .nil)

/-- Stores with equal values under the same names are equal. -/
theorem eq (h : s.Related Eq s') : s = s' := by
  obtain ⟨entries⟩ := s
  obtain ⟨entries'⟩ := s'
  have heq : List.Forall₂ Eq entries entries' := h.imp fun e e' he => Prod.ext he.1 he.2
  rw [List.forall₂_eq_eq_eq] at heq
  rw [heq]

end Store.Related

/-- Related arguments are bound to the parameters in related ways. -/
theorem Store.related_bind {V : Value → Value → Prop} (params : List Name) {ws ws' : List Value}
    (h : List.Forall₂ V ws ws') : (bind params ws).Related V (bind params ws') := by
  have hfold {s s' : Store} (hs : s.Related V s') :
      ((params.zip ws).foldl (fun s e => s.set e.1 e.2) s).Related V
        ((params.zip ws').foldl (fun s e => s.set e.1 e.2) s') := by
    induction h generalizing params s s' with
    | nil =>
      rw [List.zip_nil_right]
      exact hs
    | cons hv _ ih =>
      cases params with
      | nil => exact hs
      | cons x params => exact ih params (hs.set x hv)
  exact hfold .nil

/-- Frames of one owner with related variables and related results, or no result in both. -/
structure Frame.Related (V : Value → Value → Prop) (f f' : Frame) : Prop where
  vars : f.vars.Related V f'.vars
  result : (f.result = .null ∧ f'.result = .null) ∨ V f.result f'.result
  owner : f.owner = f'.owner

/-- Related frames have returned both or neither. -/
theorem Frame.Related.isNull_eq {V : Value → Value → Prop} (hV : ValueRelation V) {f f' : Frame}
    (h : f.Related V f') : f.result.isNull = f'.result.isNull := by
  rcases h.result with ⟨hf, hf'⟩ | hv
  · rw [hf, hf']
  · exact hV.isNull hv

/-- Frames that agree in all values are equal. -/
theorem Frame.Related.eq {f f' : Frame} (h : f.Related Eq f') : f = f' := by
  obtain ⟨vars, result, owner⟩ := f
  obtain ⟨vars', result', owner'⟩ := f'
  obtain ⟨hvars, hresult, howner⟩ := h
  have hv : vars = vars' := hvars.eq
  have hr : result = result' := hresult.elim (fun hn => hn.1.trans hn.2.symm) id
  have ho : owner = owner' := howner
  rw [hv, hr, ho]

/-- Empty frames are related. -/
theorem Frame.related_empty (V : Value → Value → Prop) : ({} : Frame).Related V {} :=
  ⟨.nil, Or.inl ⟨rfl, rfl⟩, rfl⟩

/-- The frame in which the body of a function starts. -/
def Function.frame (f : Function) (args : List Value) : Frame :=
  { vars := Store.bind f.params args, owner := f.name }

/-- Calls with related arguments start in related frames. -/
theorem Function.frame_related {V : Value → Value → Prop} (f : Function) {ws ws' : List Value}
    (h : List.Forall₂ V ws ws') : (f.frame ws).Related V (f.frame ws') :=
  ⟨Store.related_bind f.params h, Or.inl ⟨rfl, rfl⟩, rfl⟩

/-! ### Literals -/

mutual

/-- All literals of an expression have a property. -/
def Expr.Literals (P : Value → Prop) : Expr → Prop
  | .lit value _ => P value
  | .var .. | .alien .. => True
  | .add lhs rhs _ => lhs.Literals P ∧ rhs.Literals P
  | .call _ args _ => Expr.LiteralsAll P args

/-- All literals of some expressions have a property. -/
def Expr.LiteralsAll (P : Value → Prop) : List Expr → Prop
  | [] => True
  | e :: es => e.Literals P ∧ Expr.LiteralsAll P es

end

/-- All literals of a statement have a property. -/
def Stmt.Literals (P : Value → Prop) : Stmt → Prop
  | .decl _ value _ | .assign _ value _ | .ret value _ => value.Literals P
  | .alien .. => True

mutual

/-- What holds of all values holds of the literals of an expression. -/
theorem Expr.literals_of_forall {P : Value → Prop} (h : ∀ v, P v) : ∀ e : Expr, e.Literals P
  | .lit value _ => h value
  | .var .. | .alien .. => trivial
  | .add lhs rhs _ => ⟨lhs.literals_of_forall h, rhs.literals_of_forall h⟩
  | .call _ args _ => Expr.literalsAll_of_forall h args

/-- What holds of all values holds of the literals of some expressions. -/
theorem Expr.literalsAll_of_forall {P : Value → Prop} (h : ∀ v, P v) :
    ∀ es : List Expr, Expr.LiteralsAll P es
  | [] => trivial
  | e :: es => ⟨e.literals_of_forall h, Expr.literalsAll_of_forall h es⟩

end

/-- What holds of all values holds of the literals of a statement. -/
theorem Stmt.literals_of_forall {P : Value → Prop} (h : ∀ v, P v) (s : Stmt) : s.Literals P := by
  cases s with
  | decl _ value _ => exact value.literals_of_forall h
  | assign _ value _ => exact value.literals_of_forall h
  | ret value _ => exact value.literals_of_forall h
  | alien => trivial

/-! ### Related runs -/

/-- Calls of the functions of a table with related arguments are related. -/
def CallersRelated (cut : Prop) (V : Value → Value → Prop) (fns : FunctionTable)
    (call call' : Caller) : Prop :=
  ∀ f ∈ fns, ∀ ws ws', List.Forall₂ V ws ws' → ws.length = f.params.length →
    Follows cut V (call f ws) (call' f ws')

/-- A function of a table with as many arguments as it has parameters, each of them related to
itself. -/
structure CallWith (V : Value → Value → Prop) (fns : FunctionTable) (f : Function)
    (ws : List Value) : Prop where
  mem : f ∈ fns
  length : ws.length = f.params.length
  args : List.Forall₂ V ws ws

section

variable {cut : Prop} {V : Value → Value → Prop} {fns : FunctionTable} {call call' : Caller}

mutual

/-- An expression has related values in related stores. -/
theorem Expr.eval_related (hV : ValueRelation V) (hc : CallersRelated cut V fns call call')
    {vars vars' : Store} (hs : vars.Related V vars') : ∀ e : Expr, e.Literals (fun v => V v v) →
    Follows cut V (e.eval fns call vars) (e.eval fns call' vars')
  | .lit value _, h => .ok h
  | .var name line, _ => by
    rw [Expr.eval, Expr.eval]
    rcases hs.get? name with ⟨hn, hn'⟩ | ⟨v, w, hv, hw, hr⟩
    · rw [hn, hn']
      exact .error _
    · rw [hv, hw]
      exact .ok hr
  | .add lhs rhs line, h => by
    rw [Expr.eval, Expr.eval]
    refine (lhs.eval_related hV hc hs h.1).bind fun a a' ha => ?_
    refine (rhs.eval_related hV hc hs h.2).bind fun b b' hb => ?_
    rcases hV.add ha hb with ⟨v, w, hv, hw, hr⟩ | ⟨v, w, hv, hw, ht⟩
    · rw [hv, hw]
      exact .ok hr
    · simp only [hv, hw, ht]
      exact .error _
  | .call name args line, h => by
    rw [Expr.eval, Expr.eval]
    cases hf : fns.function? name with
    | none => exact .error _
    | some f =>
      dsimp only
      split
      · next hlen =>
        refine (Expr.evalAll_related hV hc hs args h).bind fun ws ws' hws => ?_
        exact hc f (List.mem_of_find?_eq_some hf) ws ws' hws.1 (hws.2.trans hlen)
      · exact .error _
  | .alien tag fields line, _ => .error _

/-- Expressions have related values in related stores, as many as there are expressions. -/
theorem Expr.evalAll_related (hV : ValueRelation V) (hc : CallersRelated cut V fns call call')
    {vars vars' : Store} (hs : vars.Related V vars') :
    ∀ es : List Expr, Expr.LiteralsAll (fun v => V v v) es →
    Follows cut (fun ws ws' => List.Forall₂ V ws ws' ∧ ws.length = es.length)
      (Expr.evalAll fns call vars es) (Expr.evalAll fns call' vars' es)
  | [], _ => .ok ⟨.nil, rfl⟩
  | e :: es, h => by
    rw [Expr.evalAll, Expr.evalAll]
    refine (e.eval_related hV hc hs h.1).bind fun v w hv => ?_
    refine (Expr.evalAll_related hV hc hs es h.2).bind fun ws ws' hws => ?_
    exact .ok ⟨.cons hv hws.1, congrArg (· + 1) hws.2⟩

end

/-- The values of arguments in the right number make a call. -/
theorem Expr.callWith_of_evalAll (hV : ValueRelation V) (hc : CallersRelated False V fns call call)
    {vars : Store} (hs : vars.Related V vars) {es : List Expr}
    (hl : Expr.LiteralsAll (fun v => V v v) es) {ws : List Value}
    (h : Expr.evalAll fns call vars es = .ok ws) {f : Function} (hf : f ∈ fns)
    (hlen : es.length = f.params.length) : CallWith V fns f ws := by
  have hrel := Expr.evalAll_related hV hc hs es hl
  rw [h] at hrel
  obtain ⟨hargs, hcount⟩ := hrel.of_ok
  exact ⟨hf, hcount.trans hlen, hargs⟩

namespace Frame

/-- A statement leads from related frames to related frames. -/
theorem exec_related (hV : ValueRelation V) (hc : CallersRelated cut V fns call call')
    {frame frame' : Frame} (hf : frame.Related V frame') {s : Stmt}
    (h : s.Literals fun v => V v v) :
    Follows cut (Frame.Related V) (frame.exec fns call s) (frame'.exec fns call' s) := by
  cases s with
  | decl name value line =>
    rw [exec, exec, hf.vars.contains_eq name]
    split
    · exact .error _
    · refine (value.eval_related hV hc hf.vars h).bind fun v w hv => ?_
      exact .ok ⟨hf.vars.set name hv, hf.result, hf.owner⟩
  | assign name value line =>
    rw [exec, exec, hf.vars.contains_eq name]
    split
    · refine (value.eval_related hV hc hf.vars h).bind fun v w hv => ?_
      exact .ok ⟨hf.vars.set name hv, hf.result, hf.owner⟩
    · exact .error _
  | ret value line =>
    rw [exec, exec, hf.isNull_eq hV, hf.owner]
    split
    · refine (value.eval_related hV hc hf.vars h).bind fun v w hv => ?_
      exact .ok ⟨hf.vars, Or.inr hv, rfl⟩
    · exact .error _
  | alien tag fields line => exact .error _

/-- A block leads from related frames to related frames. -/
theorem run_related (hV : ValueRelation V) (hc : CallersRelated cut V fns call call')
    {frame frame' : Frame} (hf : frame.Related V frame') {body : List Stmt}
    (h : ∀ s ∈ body, s.Literals fun v => V v v) :
    Follows cut (Frame.Related V) (frame.run fns call body) (frame'.run fns call' body) := by
  induction body generalizing frame frame' with
  | nil => exact .ok hf
  | cons s body ih =>
    rw [List.forall_mem_cons] at h
    rw [run, run, List.foldlM_cons, List.foldlM_cons]
    exact (exec_related hV hc hf h.1).bind fun g g' hg => ih hg h.2

end Frame

/-- One level further down, calls with related arguments are related when the ones they make are. -/
theorem Function.call_succ_related (hV : ValueRelation V) {m n : Nat}
    (hc : CallersRelated cut V fns (Function.call fns m) (Function.call fns n)) {f : Function}
    (h : ∀ s ∈ f.body, s.Literals fun v => V v v) {ws ws' : List Value}
    (hws : List.Forall₂ V ws ws') :
    Follows cut V (Function.call fns (m + 1) f ws) (Function.call fns (n + 1) f ws') := by
  rw [Function.call, Function.call]
  refine (Frame.run_related hV hc (f.frame_related hws) h).bind fun g g' hg => ?_
  rw [hg.isNull_eq hV]
  split
  · exact .error _
  · next hn =>
    rcases hg.result with ⟨-, hnull⟩ | hv
    · rw [hnull] at hn
      exact absurd rfl hn
    · exact .ok hv

/-- Under every limit, calls with related arguments are related. -/
theorem callersRelated_self (hV : ValueRelation V)
    (h : ∀ f ∈ fns, ∀ s ∈ f.body, s.Literals fun v => V v v) (n : Nat) :
    CallersRelated False V fns (Function.call fns n) (Function.call fns n) := by
  induction n with
  | zero => exact fun _ _ _ _ _ _ => .error _
  | succ n ih =>
    intro f hf ws ws' hws _
    exact Function.call_succ_related hV ih (h f hf) hws

end

end SumLang
