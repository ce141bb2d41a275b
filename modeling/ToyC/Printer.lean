import ToyC.Program

/-! The text of a tree, laid out in a fixed way. Operands are grouped by
parentheses, but for the top of a condition, so the text shows how a program
was grouped. A block starts on the line of its `if`, `else` or `while`; any
other body stands on a line of its own, one step further in. -/
namespace ToyC

namespace Expr

/-- The text of an expression, an operator's application in parentheses. -/
def text : Expr → String
  | int value => toString value.toInt
  | float value => value.text
  | char value => "'" ++ value.toString ++ "'"
  | boolean true => "true"
  | boolean false => "false"
  | identifier name => name
  | not operand => "!" ++ operand.text
  | negate operand => "-" ++ operand.text
  | binary operator left right =>
    "(" ++ (left.text ++ " " ++ operator.symbol ++ " " ++ right.text) ++ ")"
  | arrayLookup array index => array.text ++ "[" ++ index.text ++ "]"
  | arrayLength array => array.text ++ ".length"
  | newArray size => "new int[" ++ size.text ++ "]"
  | error => "<error>"

/-- The text of a condition: its outermost operator needs no parentheses. -/
def conditionText : Expr → String
  | binary operator left right => left.text ++ " " ++ operator.symbol ++ " " ++ right.text
  | other => other.text

end Expr

/-- Four spaces for each step. -/
def indentation (depth : Nat) : String := String.ofList (List.replicate (4 * depth) ' ')

namespace Stmt

/-- What stands between the head of a statement and its body. -/
def bodyLead (depth : Nat) (body : Stmt) : String :=
  if body.isBlock then " " else "\n" ++ indentation (depth + 1)

def bodyDepth (depth : Nat) (body : Stmt) : Nat := if body.isBlock then depth else depth + 1

mutual
/-- The text of a statement from where it starts to the end of its last line. -/
def text (depth : Nat) : Stmt → String
  | block body => "\x7b\n" ++ linesText (depth + 1) body ++ indentation depth ++ "\x7d\n"
  | ifThen condition thenBody =>
    "if (" ++ condition.conditionText ++ ")" ++ thenBody.bodyLead depth ++
      thenBody.text (thenBody.bodyDepth depth)
  | ifThenElse condition thenBody elseBody =>
    "if (" ++ condition.conditionText ++ ")" ++ thenBody.bodyLead depth ++
      thenBody.text (thenBody.bodyDepth depth) ++ indentation depth ++ "else" ++
      elseBody.bodyLead depth ++ elseBody.text (elseBody.bodyDepth depth)
  | whileDo condition body =>
    "while (" ++ condition.conditionText ++ ")" ++ body.bodyLead depth ++
      body.text (body.bodyDepth depth)
  | assign target value => target ++ " = " ++ value.text ++ ";\n"
  | arrayAssign target index value =>
    target ++ "[" ++ index.text ++ "] = " ++ value.text ++ ";\n"
  | error => "<error>;\n"
/-- The texts of statements, each on lines of its own. -/
def linesText (depth : Nat) : List Stmt → String
  | [] => ""
  | stmt :: rest => indentation depth ++ stmt.text depth ++ linesText depth rest
end

end Stmt

/-- A declaration statement; one that declares nothing has no text. -/
def declarationText (group : List VarDecl) : String :=
  match group with
  | [] => ""
  | first :: _ =>
    indentation 1 ++ first.type.text ++ " " ++ String.intercalate ", " (group.map VarDecl.name) ++ ";\n"

namespace Program

def text (program : Program) : String :=
  "int main() \x7b\n" ++ String.join (program.declarations.map declarationText) ++
    Stmt.linesText 1 program.statements ++ "\x7d\n"

end Program

end ToyC
