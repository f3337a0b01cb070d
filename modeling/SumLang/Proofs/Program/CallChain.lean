import Mathlib.Data.Nat.Digits.Lemmas
import SumLang.Proofs.Eval.Activation
import SumLang.Proofs.Eval.ArgumentOrder
import SumLang.Proofs.Printing.Meaning
import SumLang.Proofs.Program.Reachability

/-!
# Chains of calls

In a chain of functions the first returns zero and every other one calls the function before
it. The entry block calls the last one, so that as many calls are active at once as there are
functions. A run of the chain ends well when its limit admits all of them, and it is cut
short under every smaller limit although no function is ever entered twice.
-/

namespace SumLang

end SumLang
