import Mathlib.Data.List.Perm.Basic
import SumLang.Proofs.Program.Assembly
import SumLang.Proofs.Program.WellFormed

/-!
# Only functions that can be reached matter

A run looks up a function only by a name that the entry block or a function that can be
reached mentions in a call. Programs with the same entry block that agree on these names
therefore end in the same way under every limit. In particular neither the order of the
items matters nor what is defined under a name that is never mentioned.
-/

namespace SumLang

/-! ### Runs that look up the same functions -/

section

variable {fns fns' : FunctionTable} {call call' : Caller}

/-- Both tables have the same function under a name, or none, and both callers carry out its calls
in the same way. -/
def SameCalls (fns fns' : FunctionTable) (call call' : Caller) (name : Name) : Prop :=
  fns.function? name = fns'.function? name ∧
    ∀ f, fns.function? name = some f → ∀ ws, call f ws = call' f ws

mutual

/-- An expression has the same value where its calls are the same. -/
theorem Expr.eval_congr {vars : Store} :
    ∀ e : Expr, (∀ c ∈ e.calls, SameCalls fns fns' call call' c.1) →
    e.eval fns call vars = e.eval fns' call' vars
  | .lit .., _ | .alien .., _ => rfl
  | .var name line, _ => by rw [Expr.eval, Expr.eval]
  | .add lhs rhs line, h => by
    rw [Expr.calls, List.forall_mem_append] at h
    rw [Expr.eval, Expr.eval, lhs.eval_congr h.1, rhs.eval_congr h.2]
  | .call name args line, h => by
    rw [Expr.calls, List.forall_mem_cons] at h
    obtain ⟨⟨htable, hcall⟩, hargs⟩ := h
    rw [Expr.eval, Expr.eval, ← htable, Expr.evalAll_congr args hargs]
    cases hf : fns.function? name with
    | none => rfl
    | some f => simp only [hcall f hf]

private theorem Expr.evalAll_congr {vars : Store} :
    ∀ es : List Expr, (∀ c ∈ Expr.callsAll es, SameCalls fns fns' call call' c.1) →
    Expr.evalAll fns call vars es = Expr.evalAll fns' call' vars es
  | [], _ => rfl
  | e :: es, h => by
    rw [Expr.callsAll, List.forall_mem_append] at h
    rw [Expr.evalAll, Expr.evalAll, e.eval_congr h.1, Expr.evalAll_congr es h.2]

end

namespace Frame

/-- A statement leads to the same frame where its calls are the same. -/
theorem exec_congr (frame : Frame) {s : Stmt}
    (h : ∀ c ∈ s.calls, SameCalls fns fns' call call' c.1) :
    frame.exec fns call s = frame.exec fns' call' s := by
  cases s with
  | decl name value line => rw [exec, exec, value.eval_congr h]
  | assign name value line => rw [exec, exec, value.eval_congr h]
  | ret value line => rw [exec, exec, value.eval_congr h]
  | alien tag fields line => rfl

/-- A block leads to the same frame where its calls are the same. -/
theorem run_congr (frame : Frame) {body : List Stmt}
    (h : ∀ s ∈ body, ∀ c ∈ s.calls, SameCalls fns fns' call call' c.1) :
    frame.run fns call body = frame.run fns' call' body := by
  induction body generalizing frame with
  | nil => rfl
  | cons s body ih =>
    rw [List.forall_mem_cons] at h
    rw [run, run, List.foldlM_cons, List.foldlM_cons, frame.exec_congr h.1]
    exact bind_congr fun next => ih next h.2

end Frame

end

/-! ### Names that a program mentions -/

/-- The block has a call of a function of this name. -/
def CallsName (body : List Stmt) (name : Name) : Prop := ∃ s ∈ body, ∃ c ∈ s.calls, c.1 = name

namespace Program

variable {p q : Program}

/-- The entry block or a function that can be reached has a call of a function of this name. The
name need not be defined. -/
def Mentions (p : Program) (name : Name) : Prop :=
  CallsName p.entry name ∨ ∃ f, p.Reaches f ∧ CallsName f.body name

/-- Both programs have the same function, or none, under each name that the first mentions. -/
def AgreesWith (p q : Program) : Prop :=
  ∀ name, p.Mentions name → p.functions.function? name = q.functions.function? name

/-- Under every limit, both programs end in the same way. -/
def SameOutcome (p q : Program) : Prop := ∀ limit, p.executeWithin limit = q.executeWithin limit

/-- Calls of a function that can be reached are the same in both programs. -/
theorem AgreesWith.call_eq (h : p.AgreesWith q) (n : Nat) {f : Function} (hf : p.Reaches f)
    (ws : List Value) : Function.call p.functions n f ws = Function.call q.functions n f ws := by
  induction n generalizing f ws with
  | zero => rfl
  | succ n ih =>
    rw [Function.call, Function.call]
    have hrun := (f.frame ws).run_congr fun s hs c hc => ⟨h c.1 (Or.inr ⟨f, hf, s, hs, c, hc, rfl⟩),
      fun g hg ws => ih (hf.call ⟨s, hs, c, hc, hg⟩) ws⟩
    exact congrArg (· >>= _) hrun

/-- Programs with one entry block that agree on what it mentions have the same outcomes. -/
theorem AgreesWith.sameOutcome (h : p.AgreesWith q) (hentry : p.entry = q.entry) :
    p.SameOutcome q := by
  intro limit
  rw [executeWithin, executeWithin, ← hentry]
  split
  · rfl
  · exact Frame.run_congr {} fun s hs c hc => ⟨h c.1 (Or.inl ⟨s, hs, c, hc, rfl⟩),
      fun g hg ws => h.call_eq limit (.entry ⟨s, hs, c, hc, hg⟩) ws⟩

end Program

/-! ### Lists of items that form programs -/

/-- Only items of the language can be taken. -/
theorem Assembly.isGenuine_of_takeAll {items : List Item} {a b : Assembly}
    (h : items.foldlM Assembly.take a = .ok b) : ∀ i ∈ items, i.IsGenuine := by
  induction items generalizing a with
  | nil => nofun
  | cons i items ih =>
    rw [List.foldlM_cons, bind_eq_ok] at h
    obtain ⟨c, hi, hrest⟩ := h
    refine List.forall_mem_cons.mpr ⟨?_, ih hrest⟩
    cases i with
    | entry | func => trivial
    | alien => contradiction

/-- Items form a program exactly when they are items of the language without repetitions, its entry
block among them and its functions those that they define. -/
theorem Program.ofItems_eq_ok_iff {items : List Item} {p : Program} :
    ofItems items = .ok p ↔ (∀ i ∈ items, i.IsGenuine) ∧ Distinct items ∧
      (∃ line, .entry p.entry line ∈ items) ∧ p.functions = functionsOf items := by
  constructor
  · intro h
    have hg : ∀ i ∈ items, i.IsGenuine := by
      obtain ⟨a, ha, -⟩ := bind_eq_ok.mp h
      exact Assembly.isGenuine_of_takeAll ha
    cases (@ofFeed_eq_iff_assembles ⟨items, none⟩ hg _).mp h with
    | program hd he => exact ⟨hg, hd, ⟨_, he⟩, rfl⟩
  · rintro ⟨hg, hd, ⟨line, he⟩, hf⟩
    obtain ⟨entry, functions⟩ := p
    obtain rfl : functions = functionsOf items := hf
    exact (@ofFeed_eq_iff_assembles ⟨items, none⟩ hg _).mpr (.program hd he)

private theorem Distinct.perm {items items' : List Item} (h : Distinct items)
    (hp : items.Perm items') : Distinct items' :=
  (hp.pairwise_iff Item.not_repeatedAs_symm).mp h

/-- Two lists of items have no repetition when neither has one and none is across. -/
theorem Distinct.append {items items' : List Item} :
    Distinct (items ++ items') ↔ Distinct items ∧ Distinct items' ∧
      ∀ i ∈ items, ∀ j ∈ items', ∀ e, ¬ i.RepeatedAs j e :=
  List.pairwise_append

/-- What repeats the definition of a function is a definition of the same name. -/
theorem Function.exists_of_repeatedAs {f : Function} {j : Item} {e : ProgramError}
    (h : f.item.RepeatedAs j e) : ∃ g : Function, j = g.item ∧ g.name = f.name := by
  cases h with
  | @func _ _ params _ body _ line => exact ⟨⟨f.name, params, body, line⟩, rfl, rfl⟩

/-- Definitions of functions with different names are free of repetitions. -/
theorem distinct_map_item {fs : List Function} (h : (fs.map Function.name).Nodup) :
    Distinct (fs.map Function.item) := by
  rw [Distinct, List.pairwise_map]
  rw [List.Nodup, List.pairwise_map] at h
  refine h.imp fun {f g} hne e he => ?_
  obtain ⟨g', hg, hname⟩ := Function.exists_of_repeatedAs he
  rw [Function.item_inj.mp hg] at hne
  exact hne hname.symm

namespace Program

/-- Items without repetitions that keep the entry block of a program, and what it has under the
names that it mentions, form a program that ends in the same way. -/
theorem exists_sameOutcome {items items' : List Item} {p : Program} (hp : ofItems items = .ok p)
    (hg : ∀ i ∈ items', i.IsGenuine) (hd : Distinct items')
    (he : ∀ body line, .entry body line ∈ items → .entry body line ∈ items')
    (hf : ∀ f : Function, p.Mentions f.name → (f.item ∈ items ↔ f.item ∈ items')) :
    ∃ q, ofItems items' = .ok q ∧ p.SameOutcome q := by
  obtain ⟨-, hdistinct, ⟨line, hentry⟩, hfns⟩ := ofItems_eq_ok_iff.mp hp
  refine ⟨⟨p.entry, functionsOf items'⟩, ?_, AgreesWith.sameOutcome ?_ rfl⟩
  · exact ofItems_eq_ok_iff.mpr ⟨hg, hd, ⟨line, he _ _ hentry⟩, rfl⟩
  · intro name hname
    rw [hfns]
    apply Option.ext
    intro f
    rw [hdistinct.function?_eq_some, hd.function?_eq_some]
    refine and_congr_right fun hfname => ?_
    subst hfname
    exact hf f hname

/-- In place of functions under names that are never mentioned there can be others, or none, and
the items can stand in any order. -/
theorem exists_sameOutcome_of_unmentioned {items items' rest : List Item} {p : Program}
    (hp : ofItems items = .ok p) {gs fs : List Function}
    (hgs : items.Perm (gs.map Function.item ++ rest))
    (hfs : items'.Perm (fs.map Function.item ++ rest))
    (hunmentioned : ∀ f ∈ gs ++ fs, ¬ p.Mentions f.name) (hnodup : (fs.map Function.name).Nodup)
    (hnew : ∀ f ∈ fs, ∀ g ∈ functionsOf rest, f.name ≠ g.name) :
    ∃ q, ofItems items' = .ok q ∧ p.SameOutcome q := by
  obtain ⟨hg, hd, -, -⟩ := ofItems_eq_ok_iff.mp hp
  have hrest : ∀ i ∈ rest, i.IsGenuine := fun i hi => hg i (hgs.mem_iff.mpr (by simp [hi]))
  -- A definition under a mentioned name is neither one of `gs` nor one of `fs`.
  have hmem {l : List Function} (hl : l ⊆ gs ++ fs) {f : Function} (hm : p.Mentions f.name) :
      f.item ∉ l.map Function.item := by
    intro hf
    obtain ⟨g, hgl, hitem⟩ := List.mem_map.mp hf
    rw [Function.item_inj] at hitem
    exact hunmentioned g (hl hgl) (hitem ▸ hm)
  apply exists_sameOutcome hp
  · intro i hi
    rcases List.mem_append.mp (hfs.mem_iff.mp hi) with hi | hi
    · obtain ⟨f, -, rfl⟩ := List.mem_map.mp hi
      trivial
    · exact hrest i hi
  · have hdrest := (Distinct.append.mp (hd.perm hgs)).2.1
    refine (Distinct.append.mpr ⟨distinct_map_item hnodup, hdrest, ?_⟩).perm hfs.symm
    intro i hi j hj e hrep
    obtain ⟨f, hf, rfl⟩ := List.mem_map.mp hi
    obtain ⟨g, rfl, hname⟩ := Function.exists_of_repeatedAs hrep
    exact hnew f hf g (mem_functionsOf.mpr hj) hname.symm
  · intro body line hentry
    rcases List.mem_append.mp (hgs.mem_iff.mp hentry) with hi | hi
    · obtain ⟨g, -, hitem⟩ := List.mem_map.mp hi
      exact nomatch hitem
    · exact hfs.mem_iff.mpr (List.mem_append_right _ hi)
  · intro f hm
    rw [hgs.mem_iff, hfs.mem_iff, List.mem_append, List.mem_append]
    rw [or_iff_right (hmem (List.subset_append_left ..) hm)]
    rw [or_iff_right (hmem (List.subset_append_right ..) hm)]

/-- Two programs with the same entry block that agree on all names that the first mentions end in
the same way under every limit. In particular this holds for the items of a program in another
order, and when functions under names that are never mentioned are added, left out or replaced. -/
theorem executeWithin_decided_by_reachable {items : List Item} {p : Program}
    (hp : ofItems items = .ok p) :
    (∀ items' q, ofItems items' = .ok q → p.entry = q.entry →
      (∀ name, p.Mentions name → p.functions.function? name = q.functions.function? name) →
      ∀ limit, p.executeWithin limit = q.executeWithin limit) ∧
    (∀ items', items.Perm items' →
      ∃ q, ofItems items' = .ok q ∧ ∀ limit, p.executeWithin limit = q.executeWithin limit) ∧
    ∀ (items' rest : List Item) (gs fs : List Function),
      items.Perm (gs.map Function.item ++ rest) → items'.Perm (fs.map Function.item ++ rest) →
      (∀ f ∈ gs ++ fs, ¬ p.Mentions f.name) → (fs.map Function.name).Nodup →
      (∀ f ∈ fs, ∀ g ∈ functionsOf rest, f.name ≠ g.name) →
      ∃ q, ofItems items' = .ok q ∧ ∀ limit, p.executeWithin limit = q.executeWithin limit := by
  refine ⟨fun items' q _ hentry h => AgreesWith.sameOutcome h hentry, fun items' hperm => ?_, ?_⟩
  · exact @exists_sameOutcome_of_unmentioned items items' items' p hp [] [] hperm (.refl items')
      nofun .nil nofun
  · intro items' rest gs fs hgs hfs hunmentioned hnodup hnew
    exact exists_sameOutcome_of_unmentioned hp hgs hfs hunmentioned hnodup hnew

/-- A function that is never reached can lose its body, and the items can change places: both
programs end with one for `x`. -/
theorem executeWithin_eq_of_broken_unreached :
    let body : List Stmt := [.decl "x" (.call "f" [.lit (.int 1) 2] 2) 2]
    let f : Function := ⟨"f", ["a"], [.ret (.var "a" 3) 3], 3⟩
    let whole : Function := ⟨"h", [], [.ret (.call "h" [] 1) 1], 1⟩
    let broken : Function := ⟨"h", ["b"], [], 1⟩
    ∃ p q, ofItems [whole.item, .entry body 2, f.item] = .ok p ∧
      ofItems [f.item, broken.item, .entry body 2] = .ok q ∧
      (∀ limit, p.executeWithin limit = q.executeWithin limit) ∧
      q.executeWithin 1 = .ok { vars := ⟨[("x", .int 1)]⟩ } := by
  intro body f whole broken
  have hp : ofItems [whole.item, .entry body 2, f.item] = .ok ⟨body, [whole, f]⟩ := rfl
  generalize hprogram : Program.mk body [whole, f] = p at hp
  have hreaches (g : Function) (h : p.Reaches g) : g = f := by
    induction h with
    | entry h =>
      subst hprogram
      obtain ⟨s, hs, c, hc, hg⟩ := h
      obtain rfl := List.mem_singleton.mp hs
      obtain rfl := List.mem_singleton.mp hc
      exact (Option.some.inj hg).symm
    | call _ h ih =>
      subst ih
      simp [Calls, CallsIn, f, Stmt.calls, Expr.calls] at h
  have hunmentioned : ¬ p.Mentions "h" := by
    rintro (h | ⟨g, hg, h⟩)
    · subst hprogram
      simp [CallsName, body, Stmt.calls, Expr.calls, Expr.callsAll] at h
    · rw [hreaches g hg] at h
      simp [CallsName, f, Stmt.calls, Expr.calls] at h
  obtain ⟨q, hq, hsame⟩ := (executeWithin_decided_by_reachable hp).2.2
    [f.item, broken.item, .entry body 2] [.entry body 2, f.item] [whole] [broken]
    (by decide) (by decide) (by simp [whole, broken, hunmentioned]) (by decide) (by decide)
  refine ⟨p, q, hp, hq, hsame, ?_⟩
  rw [← hsame 1, ← hprogram]
  decide +kernel

end Program

end SumLang
