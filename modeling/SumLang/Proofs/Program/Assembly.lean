import Mathlib.Data.List.Induction
import Mathlib.Data.List.Pairwise
import SumLang.Program.Run
import SumLang.Proofs.Program.Source

/-!
# Assembling programs

Which program a feed of items forms, and what is reported when it forms none: the first
item that repeats an earlier one, else the failure that follows the items, else a missing
entry block. A text is therefore run as if all of its items were read first, unless reading
fails after an item that repeats another one.
-/

namespace SumLang

/-! ### Items that repeat others -/

/-- An item of the language. -/
def Item.IsGenuine : Item → Prop
  | .entry .. | .func .. => True
  | .alien .. => False

/-- No program has both of the items, which are two entry blocks or functions of one name; the error
is the report of the second. -/
inductive Item.RepeatedAs : Item → Item → ProgramError → Prop
  | entry {body body' : List Stmt} {line line' : Int} :
      RepeatedAs (.entry body line) (.entry body' line')
        { fault := .repeatedEntry, line := line' }
  | func {name : Name} {params params' : List Name} {body body' : List Stmt} {line line' : Int} :
      RepeatedAs (.func name params body line) (.func name params' body' line')
        { fault := .repeatedFunction name, name := name, line := line' }

/-- No item repeats an earlier one. -/
def Distinct (items : List Item) : Prop := items.Pairwise fun i j => ∀ e, ¬ i.RepeatedAs j e

/-- The error is the report of the first item that repeats an earlier one. -/
def FirstRepetition (items : List Item) (e : ProgramError) : Prop :=
  ∃ before i after, items = before ++ i :: after ∧ Distinct before ∧ ∃ j ∈ before, j.RepeatedAs i e

/-- Two items that can stand together can do so in both orders. -/
theorem Item.not_repeatedAs_symm {i j : Item} (h : ∀ e, ¬ i.RepeatedAs j e) :
    ∀ e, ¬ j.RepeatedAs i e := by
  rintro e (_ | _)
  · exact h _ .entry
  · exact h _ .func

/-- A further item repeats none when it repeats none of the items before it. -/
theorem distinct_concat {items : List Item} {i : Item} :
    Distinct (items ++ [i]) ↔ Distinct items ∧ ∀ j ∈ items, ∀ e, ¬ j.RepeatedAs i e := by
  simp [Distinct, List.pairwise_append]

instance : Std.Symm fun i j : Item => ∀ e, ¬ i.RepeatedAs j e :=
  ⟨fun _ _ => Item.not_repeatedAs_symm⟩

/-- In a list without repetitions, an item repeats no other one. -/
theorem Distinct.eq_of_repeatedAs {items : List Item} (h : Distinct items) {i j : Item}
    (hi : i ∈ items) (hj : j ∈ items) {e : ProgramError} (hij : i.RepeatedAs j e) : i = j := by
  by_contra hne
  exact List.Pairwise.forall h hi hj hne e hij

/-- Items are free of repetitions, or one of them is the first to repeat an earlier one. -/
theorem distinct_or_firstRepetition (items : List Item) :
    Distinct items ∨ ∃ e, FirstRepetition items e := by
  induction items using List.reverseRecOn with
  | nil => exact Or.inl .nil
  | append_singleton items i ih =>
    rcases ih with hd | ⟨e, before, j, after, rfl, hfirst⟩
    · by_cases hnew : ∀ j ∈ items, ∀ e, ¬ j.RepeatedAs i e
      · exact Or.inl (distinct_concat.mpr ⟨hd, hnew⟩)
      · push Not at hnew
        obtain ⟨j, hj, e, hrep⟩ := hnew
        exact Or.inr ⟨e, items, i, [], rfl, hd, j, hj, hrep⟩
    · refine Or.inr ⟨e, before, j, after ++ [i], ?_, hfirst⟩
      simp

/-! ### Taking items -/

/-- The block of an entry item. -/
def Item.entry? : Item → Option (List Stmt)
  | .entry body _ => some body
  | .func .. | .alien .. => none

/-- The function that an item defines. -/
def Item.function? : Item → Option Function
  | .func name params body line => some ⟨name, params, body, line⟩
  | .entry .. | .alien .. => none

/-- The definition of a function. -/
def Function.item (f : Function) : Item := .func f.name f.params f.body f.line

/-- Entry items alone have an entry block. -/
@[simp] theorem Item.entry?_eq_some {i : Item} {body : List Stmt} :
    i.entry? = some body ↔ ∃ line, i = .entry body line := by
  cases i <;> simp [Item.entry?]

/-- The definition of a function alone defines it. -/
@[simp] theorem Item.function?_eq_some {i : Item} {f : Function} :
    i.function? = some f ↔ i = f.item := by
  cases i <;> cases f <;> simp [Item.function?, Function.item]

/-- Different functions have different definitions. -/
theorem Function.item_inj {f g : Function} : f.item = g.item ↔ f = g := by
  cases f
  cases g
  simp [Function.item]

/-- The functions that items define, in order. -/
def functionsOf (items : List Item) : FunctionTable := items.filterMap Item.function?

/-- Items define a function when its definition is among them. -/
theorem mem_functionsOf {items : List Item} {f : Function} :
    f ∈ functionsOf items ↔ f.item ∈ items := by
  simp [functionsOf]

/-- A function of a name is found exactly when an item defines one. -/
theorem isSome_function?_functionsOf {items : List Item} {name : Name} :
    ((functionsOf items).function? name).isSome ↔
      ∃ params body line, .func name params body line ∈ items := by
  rw [FunctionTable.function?, List.find?_isSome]
  constructor
  · rintro ⟨f, hf, hname⟩
    obtain rfl : f.name = name := eq_of_beq hname
    exact ⟨f.params, f.body, f.line, mem_functionsOf.mp hf⟩
  · rintro ⟨params, body, line, h⟩
    exact ⟨⟨name, params, body, line⟩, mem_functionsOf.mpr h, beq_self_eq_true name⟩

/-- The function of a name has this name. -/
theorem FunctionTable.name_of_function? {fns : FunctionTable} {name : Name} {f : Function}
    (h : fns.function? name = some f) : f.name = name := by
  have hb := List.find?_some h
  exact eq_of_beq hb

/-- Without repetitions, the function of a name is the one that an item defines. -/
theorem Distinct.function?_eq_some {items : List Item} (h : Distinct items) {name : Name}
    {f : Function} :
    (functionsOf items).function? name = some f ↔ f.name = name ∧ f.item ∈ items := by
  have hmem {g : Function} (hg : (functionsOf items).function? name = some g) : g.item ∈ items :=
    mem_functionsOf.mp (List.mem_of_find?_eq_some hg)
  constructor
  · intro hf
    exact ⟨FunctionTable.name_of_function? hf, hmem hf⟩
  · rintro ⟨rfl, hf⟩
    obtain ⟨g, hg⟩ := Option.isSome_iff_exists.mp
      (isSome_function?_functionsOf.mpr ⟨f.params, f.body, f.line, hf⟩)
    have hrep : g.item.RepeatedAs f.item
        { fault := .repeatedFunction f.name, name := f.name, line := f.line } := by
      rw [Function.item, FunctionTable.name_of_function? hg]
      exact .func
    rw [hg, Function.item_inj.mp (h.eq_of_repeatedAs (hmem hg) hf hrep)]

namespace Assembly

/-- What has been taken once all of the items are. -/
def ofTaken (items : List Item) : Assembly := ⟨items.findSome? Item.entry?, functionsOf items⟩

/-- The entry block of items is that of the first entry item. -/
@[simp] theorem entry_ofTaken (items : List Item) :
    (ofTaken items).entry = items.findSome? Item.entry? := rfl

/-- The functions of items that have been taken are those that they define. -/
@[simp] theorem functions_ofTaken (items : List Item) :
    (ofTaken items).functions = functionsOf items := rfl

/-- There is an entry block once an entry item has been taken. -/
theorem isSome_entry_ofTaken {items : List Item} :
    (ofTaken items).entry.isSome ↔ ∃ body line, .entry body line ∈ items := by
  rw [entry_ofTaken, List.findSome?_isSome_iff]
  simp only [Option.isSome_iff_exists, Item.entry?_eq_some]
  constructor
  · rintro ⟨i, hi, body, line, rfl⟩
    exact ⟨body, line, hi⟩
  · rintro ⟨body, line, hi⟩
    exact ⟨_, hi, body, line, rfl⟩

/-- An item that repeats an earlier one is reported. -/
theorem take_of_repeated {before : List Item} {i : Item} {e : ProgramError}
    (h : ∃ j ∈ before, j.RepeatedAs i e) : (ofTaken before).take i = .error (.program e) := by
  obtain ⟨j, hj, hrep⟩ := h
  cases hrep with
  | entry =>
    rw [take, if_pos]
    exact isSome_entry_ofTaken.mpr ⟨_, _, hj⟩
  | func =>
    rw [take, if_pos]
    exact isSome_function?_functionsOf.mpr ⟨_, _, _, hj⟩

/-- An item that repeats none is taken. -/
theorem take_of_new {before : List Item} {i : Item} (hi : i.IsGenuine)
    (h : ∀ j ∈ before, ∀ e, ¬ j.RepeatedAs i e) :
    (ofTaken before).take i = .ok (ofTaken (before ++ [i])) := by
  cases i with
  | entry body line =>
    have hnone : ¬ (ofTaken before).entry.isSome := by
      rw [isSome_entry_ofTaken]
      rintro ⟨body', line', hj⟩
      exact h _ hj _ .entry
    rw [take, if_neg hnone]
    rw [Option.not_isSome_iff_eq_none, entry_ofTaken] at hnone
    simp [ofTaken, functionsOf, Item.function?, Item.entry?, hnone]
  | func name params body line =>
    have hnone : ¬ ((ofTaken before).functions.function? name).isSome := by
      rw [functions_ofTaken, isSome_function?_functionsOf]
      rintro ⟨params', body', line', hj⟩
      exact h _ hj _ .func
    rw [take, if_neg hnone]
    simp [ofTaken, functionsOf, Item.function?, Item.entry?]
  | alien tag fields line => exact hi.elim

/-- Items without repetitions are all taken. -/
theorem takeAll_of_distinct {items : List Item} (hg : ∀ i ∈ items, i.IsGenuine)
    (h : Distinct items) : items.foldlM Assembly.take {} = .ok (ofTaken items) := by
  induction items using List.reverseRecOn with
  | nil => rfl
  | append_singleton items i ih =>
    rw [List.forall_mem_append, List.forall_mem_singleton] at hg
    obtain ⟨hd, hnew⟩ := distinct_concat.mp h
    rw [List.foldlM_append, ih hg.1 hd]
    refine bind_eq_ok.mpr ⟨_, rfl, ?_⟩
    rw [List.foldlM_cons, take_of_new hg.2 hnew]
    rfl

/-- The first item that repeats an earlier one is reported. -/
theorem takeAll_of_firstRepetition {items : List Item} (hg : ∀ i ∈ items, i.IsGenuine)
    {e : ProgramError} (h : FirstRepetition items e) :
    items.foldlM Assembly.take {} = .error (.program e) := by
  obtain ⟨before, i, after, rfl, hd, hrep⟩ := h
  rw [List.forall_mem_append] at hg
  rw [List.foldlM_append, takeAll_of_distinct hg.1 hd]
  refine bind_eq_error.mpr (Or.inr ⟨_, rfl, ?_⟩)
  rw [List.foldlM_cons, take_of_repeated hrep]
  rfl

end Assembly

/-! ### Programs of feeds -/

/-- What a feed of items forms: a repetition is reported before a failure of the feed, and a missing
entry block after both. -/
inductive Assembles : ItemFeed → Except Failure Program → Prop
  | repetition {items : List Item} {error : Option ReadError} {e : ProgramError}
      (h : FirstRepetition items e) : Assembles ⟨items, error⟩ (.error (.program e))
  | unread {items : List Item} {e : ReadError} (h : Distinct items) :
      Assembles ⟨items, some e⟩ (.error (.read e))
  | noEntry {items : List Item} (h : Distinct items) (hn : ∀ body line, .entry body line ∉ items) :
      Assembles ⟨items, none⟩ (.error (.program { fault := .noEntry }))
  | program {items : List Item} {body : List Stmt} {line : Int} (h : Distinct items)
      (he : .entry body line ∈ items) : Assembles ⟨items, none⟩ (.ok ⟨body, functionsOf items⟩)

namespace Program

variable {feed : ItemFeed}

/-- What a feed forms by the rules is what it forms. -/
theorem ofFeed_of_assembles (hg : ∀ i ∈ feed.items, i.IsGenuine) {r : Except Failure Program}
    (h : Assembles feed r) : ofFeed feed = r := by
  cases h with
  | repetition h =>
    rw [ofFeed, Assembly.takeAll_of_firstRepetition hg h]
    rfl
  | unread h =>
    rw [ofFeed, Assembly.takeAll_of_distinct hg h]
    rfl
  | @noEntry items h hn =>
    have hnone : ¬ (Assembly.ofTaken items).entry.isSome := by
      rw [Assembly.isSome_entry_ofTaken]
      rintro ⟨body, line, he⟩
      exact hn body line he
    rw [Option.not_isSome_iff_eq_none] at hnone
    rw [ofFeed, Assembly.takeAll_of_distinct hg h]
    change (Assembly.ofTaken items).finish = _
    rw [Assembly.finish, hnone]
  | @program items body line h he =>
    have hentry : (Assembly.ofTaken items).entry = some body := by
      obtain ⟨body', hbody'⟩ :=
        Option.isSome_iff_exists.mp (Assembly.isSome_entry_ofTaken.mpr ⟨body, line, he⟩)
      obtain ⟨i, hi, hib⟩ := List.exists_of_findSome?_eq_some hbody'
      obtain ⟨line', rfl⟩ := Item.entry?_eq_some.mp hib
      obtain ⟨rfl, -⟩ := Item.entry.inj (h.eq_of_repeatedAs hi he .entry)
      exact hbody'
    rw [ofFeed, Assembly.takeAll_of_distinct hg h]
    change (Assembly.ofTaken items).finish = _
    rw [Assembly.finish, hentry]
    rfl

/-- Every feed forms a program or has something to report. -/
theorem exists_assembles (feed : ItemFeed) : ∃ r, Assembles feed r := by
  obtain ⟨items, error⟩ := feed
  rcases distinct_or_firstRepetition items with hd | ⟨e, he⟩
  · cases error with
    | some e => exact ⟨_, .unread hd⟩
    | none =>
      by_cases hentry : ∃ body line, Item.entry body line ∈ items
      · obtain ⟨body, line, he⟩ := hentry
        exact ⟨_, .program hd he⟩
      · push Not at hentry
        exact ⟨_, .noEntry hd hentry⟩
  · exact ⟨_, .repetition he⟩

/-- A feed of items of the language forms exactly what the rules say. -/
theorem ofFeed_eq_iff_assembles (hg : ∀ i ∈ feed.items, i.IsGenuine)
    {r : Except Failure Program} : ofFeed feed = r ↔ Assembles feed r := by
  constructor
  · rintro rfl
    obtain ⟨r, hr⟩ := exists_assembles feed
    rwa [ofFeed_of_assembles hg hr]
  · exact ofFeed_of_assembles hg

/-- In a program that a feed forms, the function of a name is the one that an item defines. -/
theorem function?_of_ofFeed (hg : ∀ i ∈ feed.items, i.IsGenuine) {p : Program}
    (h : ofFeed feed = .ok p) (f : Function) :
    p.functions.function? f.name = some f ↔ f.item ∈ feed.items := by
  cases (ofFeed_eq_iff_assembles hg).mp h with
  | program hd he => simp [hd.function?_eq_some]

end Program

/-! ### Running texts -/

section

variable {code : Text}

/-- A well-written item is one of the language. -/
theorem Item.WellWritten.isGenuine {i : Item} (h : i.WellWritten) : i.IsGenuine := by
  cases i with
  | entry | func => trivial
  | alien => exact h.elim

/-- All items of a text are items of the language. -/
theorem ItemFeed.isGenuine_ofText (code : Text) : ∀ i ∈ (ofText code).items, i.IsGenuine :=
  fun i hi => (wellWritten_items code i hi).isGenuine

/-- A text that can be read is run in the same way when its items are read first. -/
theorem runText_eq_eagerly (h : (ItemFeed.ofText code).error = none) :
    runText code = runTextEagerly code := by
  rw [runText, runTextEagerly, Program.ofText, Program.ofTextEagerly]
  generalize ItemFeed.ofText code = feed at h
  obtain ⟨items, error⟩ := feed
  obtain rfl : error = none := h
  rfl

/-- Where all items are read first, a failure to read them is what is reported. -/
theorem runTextEagerly_of_error {e : ReadError} (h : (ItemFeed.ofText code).error = some e) :
    runTextEagerly code = .error (.read e) := by
  rw [runTextEagerly, Program.ofTextEagerly, ItemFeed.toExcept, h]
  rfl

/-- Where a text cannot be read, running it reports this or an item that repeats an earlier one. -/
theorem runText_of_error {e : ReadError} (h : (ItemFeed.ofText code).error = some e) :
    runText code = .error (.read e) ∨
      ∃ e', FirstRepetition (ItemFeed.ofText code).items e' ∧
        runText code = .error (.program e') := by
  rw [runText, Program.ofText]
  generalize hfeed : ItemFeed.ofText code = feed at h
  obtain ⟨items, error⟩ := feed
  obtain rfl : error = some e := h
  have hg := ItemFeed.isGenuine_ofText code
  rw [hfeed] at hg
  rcases distinct_or_firstRepetition items with hd | ⟨e', he'⟩
  · rw [Program.ofFeed_of_assembles hg (.unread hd)]
    exact Or.inl rfl
  · rw [Program.ofFeed_of_assembles hg (.repetition he')]
    exact Or.inr ⟨e', he', rfl⟩

/-- Only a text that can be read and forms a program fails while it runs. -/
theorem ofText_of_runText_error {e : RunError} (h : runText code = .error (.run e)) :
    (ItemFeed.ofText code).error = none ∧ ∃ p, Program.ofText code = .ok p := by
  have hg := ItemFeed.isGenuine_ofText code
  rw [runText, Program.ofText] at h
  rw [Program.ofText]
  generalize ItemFeed.ofText code = feed at h hg
  rcases bind_eq_error.mp h with hfail | ⟨p, hp, -⟩
  · exact nomatch (Program.ofFeed_eq_iff_assembles hg).mp hfail
  · cases (Program.ofFeed_eq_iff_assembles hg).mp hp with
    | program hd he => exact ⟨rfl, _, hp⟩

end

namespace Program

/-- Items of the language, followed by the end or by a failure to read on, form exactly what
`Assembles` says, and each function of the program is the one that an item defines. Hence a text
that can be read is run as if all of its items were read first; one that cannot be read is refused
in the same way, unless an item in front of the failure repeats an earlier one; and only a text that
can be read and forms a program fails while it runs. -/
theorem ofFeed_reports_first_fault {feed : ItemFeed} (hg : ∀ i ∈ feed.items, i.IsGenuine)
    (code : Text) :
    (∀ r, ofFeed feed = r ↔ Assembles feed r) ∧
    (∀ p, ofFeed feed = .ok p → ∀ f : Function,
      p.functions.function? f.name = some f ↔ f.item ∈ feed.items) ∧
    ((ItemFeed.ofText code).error = none → runText code = runTextEagerly code) ∧
    (∀ e, (ItemFeed.ofText code).error = some e → runTextEagerly code = .error (.read e) ∧
      (runText code = .error (.read e) ∨
        ∃ e', FirstRepetition (ItemFeed.ofText code).items e' ∧
          runText code = .error (.program e'))) ∧
    ∀ e, runText code = .error (.run e) ∨ runTextEagerly code = .error (.run e) →
      (ItemFeed.ofText code).error = none ∧ ∃ p, Program.ofText code = .ok p := by
  refine ⟨fun r => ofFeed_eq_iff_assembles hg, fun p hp => function?_of_ofFeed hg hp,
    runText_eq_eagerly, fun e he => ⟨runTextEagerly_of_error he, runText_of_error he⟩, ?_⟩
  rintro e (h | h)
  · exact ofText_of_runText_error h
  · cases herror : (ItemFeed.ofText code).error with
    | none =>
      rw [← runText_eq_eagerly herror] at h
      exact ⟨rfl, (ofText_of_runText_error h).2⟩
    | some e' => exact nomatch (runTextEagerly_of_error herror).symm.trans h

/-- A function that is defined twice is reported before the illegal character behind it, which is
reported where all items are read first. -/
theorem ofText_repetition_before_illegal :
    let code := "func f() \x7b return 1; \x7d
      func f() \x7b return 2; \x7d begin \x7b \x7d #"
    Program.ofText code =
      .error (.program { fault := .repeatedFunction "f", name := "f", line := some 2 }) ∧
    runTextEagerly code = .error (.read (.feed (.illegal ⟨"#", 62, some 2⟩))) := by
  intro code
  have hfeed : ItemFeed.ofText code =
      ⟨[.func "f" [] [.ret (.lit (.int 1) 1) 1] 1, .func "f" [] [.ret (.lit (.int 2) 2) 2] 2],
        some (.feed (.illegal ⟨"#", 62, some 2⟩))⟩ := by
    decide +kernel
  obtain ⟨hforms, -, -, hfail, -⟩ :=
    ofFeed_reports_first_fault (ItemFeed.isGenuine_ofText code) code
  have herror := congrArg ItemFeed.error hfeed
  refine ⟨(hforms _).mpr ?_, (hfail _ herror).1⟩
  rw [hfeed]
  exact .repetition ⟨[_], _, [], rfl, List.pairwise_singleton _ _, _, List.mem_cons_self, .func⟩

end Program

end SumLang
