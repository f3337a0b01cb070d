import SumLang.Main
import SumLang.Program.Workbench
import SumLang.Proofs.Eval.Affine
import SumLang.Proofs.Eval.ArgumentOrder
import SumLang.Proofs.Eval.Atomicity
import SumLang.Proofs.Eval.Binding
import SumLang.Proofs.Eval.Independence
import SumLang.Proofs.Eval.Summation
import SumLang.Proofs.Printing.Meaning
import SumLang.Proofs.Program.Blame
import SumLang.Proofs.Program.LayoutIndependence
import SumLang.Proofs.Program.Reachability
import SumLang.Proofs.Program.Renaming
import SumLang.Proofs.Reading.Concatenation
import SumLang.Proofs.Reading.Lines
import SumLang.Proofs.Reading.Literal
import SumLang.Proofs.Reading.Session
import SumLang.Proofs.Reading.Viability
import SumLang.Proofs.Script.Debug
import SumLang.Proofs.Script.Safety
import SumLang.Proofs.Token.Illegal
import SumLang.Reading.Session
