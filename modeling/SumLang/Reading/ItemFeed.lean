import SumLang.Reading.Grammar

/-!
# Item feeds

Items are read one after the other up to the end mark or up to the first failure. The
feed keeps both parts: the items that were completed, and the failure that comes after
the last of them.
-/

namespace SumLang

/-- Items in order, and the failure, if any, that follows the last one. -/
structure ItemFeed where
  items : List Item
  error : Option ReadError := none
  deriving DecidableEq

namespace ItemFeed

/-- A feed with one more item in front. -/
def cons (i : Item) (f : ItemFeed) : ItemFeed := ⟨i :: f.items, f.error⟩

/-- Reads at most `n` items, with the cursor where reading stopped. -/
def readWithin : Nat → Cursor → ItemFeed × Cursor
  | 0, c => (⟨[], some .depth⟩, c)
  | n + 1, c =>
    if c.curr.kind = .eof then (⟨[], none⟩, c)
    else match Reader.item c with
      | .ok i c =>
        let (feed, c) := readWithin n c
        (feed.cons i, c)
      | .error e c => (⟨[], some e⟩, c)

/-- Reads all items from a cursor on. -/
def read (c : Cursor) : ItemFeed × Cursor := readWithin (c.remaining + 1) c

/-- The items of a token feed. -/
def ofTokenFeed (feed : TokenFeed) : ItemFeed :=
  match Cursor.ofFeed feed with
  | .ok c => (read c).1
  | .error e => ⟨[], some (.feed e)⟩

/-- The items of a text, read together with its tokens. -/
def ofText (code : Text) : ItemFeed := ofTokenFeed (TokenFeed.ofText code)

/-- All items of a feed that has no failure. -/
def toExcept (f : ItemFeed) : Except ReadError (List Item) :=
  match f.error with
  | some e => .error e
  | none => .ok f.items

end ItemFeed

/-- Reads all items that remain, or fails as the first of them that fails. -/
def Reader.items : Reader (List Item) := fun c =>
  match ItemFeed.read c with
  | (⟨items, none⟩, c) => .ok items c
  | (⟨_, some e⟩, c) => .error e c

end SumLang
