import SumLang.Program.Report
import SumLang.Script.File

/-!
# The command line

A command runs a script or prints its items. Running prints the variables of the
entry block; in debug mode the tokens and the formatted items come first. Every failure
is one line of output and the exit status one.
-/

namespace SumLang

/-- What the command line asks for. -/
inductive Invocation where
  | help
  | run (script : String)
  /-- Prints the items of a script. -/
  | showItems (script : String)
  /-- The arguments fit no form of the command. -/
  | misuse
  deriving DecidableEq, Repr

namespace Invocation

/-- The invocation that the arguments after the program's name form. -/
def ofArgs : List String → Invocation
  | [arg] =>
    if arg = "-h" ∨ arg = "--help" then help
    else if arg.toList.head? = some '-' then misuse
    else run arg
  | ["--ast", script] => showItems script
  | _ => misuse

/-- The script that an invocation reads. -/
def script? : Invocation → Option String
  | run script | showItems script => some script
  | help | misuse => none

end Invocation

/-- An exit status and what was printed. -/
structure Outcome where
  status : Nat
  output : String
  deriving DecidableEq, Repr

namespace Outcome

/-- The same outcome with something printed before it. -/
def after (printed : String) (o : Outcome) : Outcome := { o with output := printed ++ o.output }

/-- The outcome of a failure in a script. -/
def ofFailure (script : String) (e : Failure) : Outcome :=
  ⟨1,
    match e with
    | .read .depth | .run .depth => "fatal error: maximum call depth exceeded in " ++ script ++ "\n"
    | e =>
      match e.stage?, e.message? ⟨script, script⟩ with
      | some stage, some message => stage ++ " error: " ++ e.label ++ ": " ++ message ++ "\n"
      | _, _ => ""⟩

/-- The outcome of a run: a line for each variable. -/
def ofRun (script : String) : Except Failure Frame → Outcome
  | .ok frame =>
    ⟨0, String.join (frame.vars.entries.map fun e => e.1.shown ++ " = " ++ e.2.display ++ "\n")⟩
  | .error e => ofFailure script e

end Outcome

/-- The lines of the help text. -/
def usageLines : List String :=
  ["",
    "foolang Interpreter",
    "",
    "Usage:",
    "    foo [--ast] <script.foo>",
    "",
    "Arguments:",
    "    <script.foo>",
    "        Path to a foolang source file to execute. The file must contain",
    "        exactly one 'begin \x7b ... \x7d' block.",
    "",
    "Example:",
    "    foo add.foo",
    "",
    "Options:",
    "    --ast",
    "        Print the parsed items instead of running the script.",
    "    -h, --help",
    "        Show this help message and exit.",
    "",
    "Environment:",
    "    FOODEBUG",
    "        When set, print the tokens and parsed items before running."]

/-- The help text. -/
def usage : String := String.join (usageLines.map (· ++ "\n"))

/-- Tokens and items as debug mode shows them. -/
def debugDump (tokens : List Token) (items : List Item) : String :=
  "\nTokens:\n\n[" ++ ", ".intercalate (tokens.map Token.display) ++ "]\n\nAST:\n\n" ++
    formatItems items ++ "\n \n"

/-- Runs the text of a script. -/
def runScript (script code : String) : Outcome := .ofRun script (runText code)

/-- Runs the text of a script after showing its tokens and items. -/
def debugScript (script code : String) : Outcome :=
  let feed := TokenFeed.ofText code
  match feed.error with
  | some e => .ofFailure script (.read (.feed e))
  | none =>
    match (ItemFeed.ofTokenFeed feed).toExcept with
    | .error e => .ofFailure script (.read e)
    | .ok items =>
      (Outcome.ofRun script (do
        let p ← Program.ofItems items
        p.execute.mapError Failure.run)).after (debugDump feed.tokens items)

/-- Prints the items of the text of a script. -/
def showScript (script code : String) : Outcome :=
  match (ItemFeed.ofText code).toExcept with
  | .ok items => ⟨0, formatItems items ++ "\n"⟩
  | .error e => .ofFailure script (.read e)

/-- Carries out an invocation, with the bytes of its script. -/
def Invocation.perform (debug : Bool) (read : String → Except FileError (List UInt8)) :
    Invocation → Outcome
  | .help => ⟨0, usage⟩
  | .misuse => ⟨2, usage⟩
  | .run script => withText script (if debug then debugScript script else runScript script)
  | .showItems script => withText script (showScript script)
where
  /-- Goes on with the text of the script, if it can be read. -/
  withText (script : String) (next : String → Outcome) : Outcome :=
    match read script >>= scriptText with
    | .ok code => next code
    | .error e => ⟨1, "error: cannot read " ++ script ++ ": " ++ e.message script ++ "\n"⟩

end SumLang
