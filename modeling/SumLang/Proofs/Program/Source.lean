import SumLang.Program.Basic
import SumLang.Proofs.Eval.Simulation
import SumLang.Proofs.Reading.SourceShape

/-!
# Programs of texts

The blocks of a program that a text describes are well written, since assembling a
program takes over the blocks of its items as they are. In particular all of its
literals are words.
-/

namespace SumLang

/-- A program whose blocks are well written. -/
structure Program.WellWritten (p : Program) : Prop where
  entry : ∀ s ∈ p.entry, s.WellWritten
  functions : ∀ f ∈ p.functions, ∀ s ∈ f.body, s.WellWritten

/-! ### Assembling well-written items -/

/-- The blocks that were taken so far are well written. -/
structure Assembly.WellWritten (a : Assembly) : Prop where
  entry : ∀ body, a.entry = some body → ∀ s ∈ body, s.WellWritten
  functions : ∀ f ∈ a.functions, ∀ s ∈ f.body, s.WellWritten

/-- Taking a well-written item keeps what was taken well written. -/
theorem Assembly.WellWritten.take {a b : Assembly} {i : Item} (ha : a.WellWritten)
    (hi : i.WellWritten) (h : a.take i = .ok b) : b.WellWritten := by
  cases i with
  | entry body line =>
    rw [Assembly.take] at h
    split at h
    · contradiction
    · obtain rfl := Except.ok.inj h
      refine ⟨fun body' hbody => ?_, ha.functions⟩
      rw [← Option.some.inj hbody]
      exact hi
  | func name params body line =>
    rw [Assembly.take] at h
    split at h
    · contradiction
    · obtain rfl := Except.ok.inj h
      refine ⟨ha.entry, ?_⟩
      intro f hf
      rcases List.mem_append.mp hf with hf | hf
      · exact ha.functions f hf
      · rw [List.mem_singleton.mp hf]
        exact hi.2.2
  | alien tag fields line => contradiction

private theorem Assembly.WellWritten.takeAll {items : List Item} {a b : Assembly}
    (ha : a.WellWritten) (hw : ∀ i ∈ items, i.WellWritten)
    (h : items.foldlM Assembly.take a = .ok b) : b.WellWritten := by
  induction items generalizing a with
  | nil =>
    obtain rfl := Except.ok.inj h
    exact ha
  | cons i items ih =>
    rw [List.forall_mem_cons] at hw
    rw [List.foldlM_cons, bind_eq_ok] at h
    obtain ⟨c, hi, hrest⟩ := h
    exact ih (ha.take hw.1 hi) hw.2 hrest

/-- A program that is assembled from well-written items is well written. -/
theorem Program.wellWritten_ofFeed {feed : ItemFeed} {p : Program}
    (hw : ∀ i ∈ feed.items, i.WellWritten) (h : Program.ofFeed feed = .ok p) : p.WellWritten := by
  rw [ofFeed, bind_eq_ok] at h
  obtain ⟨a, htaken, h⟩ := h
  have hempty : Assembly.WellWritten {} := ⟨fun _ h => absurd h nofun, fun _ h => absurd h nofun⟩
  have ha := hempty.takeAll hw htaken
  split at h
  · contradiction
  · rw [Assembly.finish] at h
    split at h
    · next body hbody =>
      obtain rfl := Except.ok.inj h
      exact ⟨ha.entry body hbody, ha.functions⟩
    · contradiction

/-- A program that a text describes is well written. -/
theorem Program.wellWritten_ofText {code : Text} {p : Program}
    (h : Program.ofText code = .ok p) : p.WellWritten :=
  wellWritten_ofFeed (ItemFeed.wellWritten_items code) h

/-! ### Literals of well-written syntax -/

/-- A word is an integer. -/
theorem Value.IsWord.bothInt {v : Value} (h : v.IsWord) : v.BothInt v := by
  obtain ⟨n, rfl, -⟩ := h
  exact ⟨⟨n, rfl⟩, n, rfl⟩

section

variable {P : Value → Prop}

mutual

/-- The literals of a well-written expression are words. -/
theorem Expr.WellWritten.literals (hP : ∀ {v : Value}, v.IsWord → P v) :
    ∀ {e : Expr}, e.WellWritten → e.Literals P
  | .lit .., h => hP h
  | .var .., _ | .alien .., _ => trivial
  | .add _ _ _, h => ⟨Expr.WellWritten.literals hP h.1, Expr.WellWritten.literals hP h.2⟩
  | .call _ _ _, h => Expr.WellWrittenAll.literals hP h.2

/-- The literals of well-written expressions are words. -/
theorem Expr.WellWrittenAll.literals (hP : ∀ {v : Value}, v.IsWord → P v) :
    ∀ {es : List Expr}, Expr.WellWrittenAll es → Expr.LiteralsAll P es
  | [], _ => trivial
  | _ :: _, h => ⟨Expr.WellWritten.literals hP h.1, Expr.WellWrittenAll.literals hP h.2⟩

end

/-- The literals of a well-written statement are words. -/
theorem Stmt.WellWritten.literals (hP : ∀ {v : Value}, v.IsWord → P v) {s : Stmt}
    (h : s.WellWritten) : s.Literals P := by
  cases s with
  | decl name value line => exact Expr.WellWritten.literals hP h.2
  | assign name value line => exact Expr.WellWritten.literals hP h.2
  | ret value line => exact Expr.WellWritten.literals hP h
  | alien tag fields line => trivial

/-- What holds of all words holds of all literals of a well-written program. -/
theorem Program.WellWritten.literals {p : Program} (h : p.WellWritten)
    (hP : ∀ {v : Value}, v.IsWord → P v) : (∀ s ∈ p.entry, s.Literals P) ∧
      ∀ f ∈ p.functions, ∀ s ∈ f.body, s.Literals P :=
  ⟨fun s hs => (h.entry s hs).literals hP, fun f hf s hs => (h.functions f hf s hs).literals hP⟩

end

end SumLang
