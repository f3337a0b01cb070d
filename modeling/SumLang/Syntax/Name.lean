import SumLang.Text.Quoted

/-!
# Names

Variables and functions are named by words. A name is kept as the text of the token it
was read from; a host can supply a token without text, whose name has none either.
-/

namespace SumLang

/-- The name of a variable or function. -/
abbrev Name := Option Text

/-- A name as texts show it. -/
def Name.shown (name : Name) : String := (name.map Text.shown).getD "None"

end SumLang
