import SumLang.Syntax.Basic

/-!
# Formatted text

The text of a program in one fixed layout: one statement on a line, indented by four
blanks, and a blank line between items. Sums are written without parentheses, so the
grouping of their operands is not part of the text.
-/

namespace SumLang

mutual

/-- The text of an expression. -/
def Expr.format : Expr → String
  | .lit value _ => value.display
  | .var name _ => name.shown
  | .add lhs rhs _ => lhs.format ++ " + " ++ rhs.format
  | .call name args _ => name.shown ++ "(" ++ ", ".intercalate (Expr.formatAll args) ++ ")"
  | .alien tag _ _ => "<expr " ++ tag ++ ">"

/-- The texts of some expressions. -/
def Expr.formatAll : List Expr → List String
  | [] => []
  | e :: es => e.format :: Expr.formatAll es

end

/-- The text of a statement. -/
def Stmt.format : Stmt → String
  | .decl name value _ => "var " ++ name.shown ++ " = " ++ value.format ++ ";"
  | .assign name value _ => name.shown ++ " = " ++ value.format ++ ";"
  | .ret value _ => "return " ++ value.format ++ ";"
  | .alien tag _ _ => "<stmt " ++ tag ++ ">"

/-- A block whose opening brace stands after `head`. -/
def formatBlock (head : String) (body : List Stmt) : String :=
  "\n".intercalate ((head ++ " \x7b") :: (body.map ("    " ++ ·.format) ++ ["\x7d"]))

/-- The text of an item. -/
def Item.format : Item → String
  | .entry body _ => formatBlock "begin" body
  | .func name params body _ =>
    formatBlock
      ("func " ++ name.shown ++ "(" ++ ", ".intercalate (params.map Name.shown) ++ ")") body
  | .alien tag _ _ => "<item " ++ tag ++ ">"

/-- The text of a sequence of items. -/
def formatItems (items : List Item) : String := "\n\n".intercalate (items.map Item.format)

end SumLang
