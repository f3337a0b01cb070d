/-!
# Places in reports

A report ends by naming the line and the file that it is about, as far as they are
known.
-/

namespace SumLang

/-- The tail of a report that names the line and the file where they are known. -/
def placeSuffix (line : Option Int) (file : Option String) : String :=
  (match line with
    | some l => " on line " ++ toString l
    | none => "") ++
  (match file with
    | some f => " in " ++ f
    | none => "")

end SumLang
