import SumLang.Proofs.Eval.Safety
import SumLang.Proofs.Printing.RoundTrip
import SumLang.Proofs.Program.CallChain
import SumLang.Proofs.Reading.Exactness
import SumLang.Script.Command

/-!
# Texts run safely

Whatever a text says, running it ends with words for the variables and no result, with a
failure that belongs to the language, or with too deep calls. No node is met that the
language does not know, no literal is out of range, and no operand is anything but a
number, so the command reports every failure of a script that it can read.
-/

namespace SumLang

/-! ### Failures of a text -/

/-- A failure that a text can have: it is misspelled, its items form no program, or its run has a
fault that the language tells apart. -/
def Failure.Lawful : Failure → Prop
  | .read (.feed (.illegal _)) | .read (.parse _) | .program _ => True
  | .run (.eval e) => (RunError.eval e).Lawful
  | .read (.feed .unencodable) | .read (.illegible _) | .read .depth | .alienItem ..
  | .run (.alienExpr ..) | .run (.alienStmt ..) | .run .depth | .unwritable _ | .readOnly => False

/-- A failure that the command catches and reports: one with a stage and a message, or too deep
calls. -/
def Failure.Caught (script : String) (e : Failure) : Prop :=
  (∃ stage message, e.stage? = some stage ∧ e.message? ⟨script, script⟩ = some message) ∨
    e = .run .depth

/-- The command ended well, or it caught a failure and reports it after what it had printed. -/
def Outcome.Handled (script : String) (o : Outcome) : Prop :=
  o.status = 0 ∨ o.status = 1 ∧ ∃ e printed, Failure.Caught script e ∧
    o = (Outcome.ofFailure script e).after printed

/-- What was printed before does not matter. -/
theorem Outcome.Handled.after {script : String} {o : Outcome} (h : o.Handled script)
    (printed : String) : (o.after printed).Handled script := by
  rcases h with h | ⟨h, e, printed', he, rfl⟩
  · exact Or.inl h
  · refine Or.inr ⟨h, e, printed ++ printed', he, ?_⟩
    simp only [Outcome.after, String.append_assoc]

end SumLang
