import ToyC.Program

/-! What stands in a tree, in the order of its text. The statements of a tree
are listed one by one, each before those inside it; what is asked of a tree is
asked of the statements in this list. -/
namespace ToyC

/-- The names in an expression, from left to right. -/
def Expr.names : Expr → List String
  | identifier name => [name]
  | not operand | negate operand => operand.names
  | binary _ left right => left.names ++ right.names
  | arrayLookup array index => array.names ++ index.names
  | arrayLength array => array.names
  | newArray size => size.names
  | int _ | float _ | char _ | boolean _ | error => []

namespace Stmt

mutual
/-- A statement and those inside it; the body of an `else` comes last. -/
def nodes : Stmt → List Stmt
  | block body => block body :: allNodes body
  | ifThen condition thenBody => ifThen condition thenBody :: thenBody.nodes
  | ifThenElse condition thenBody elseBody =>
    ifThenElse condition thenBody elseBody :: (thenBody.nodes ++ elseBody.nodes)
  | whileDo condition body => whileDo condition body :: body.nodes
  | assign target value => [assign target value]
  | arrayAssign target index value => [arrayAssign target index value]
  | error => [error]
def allNodes : List Stmt → List Stmt
  | [] => []
  | stmt :: rest => stmt.nodes ++ allNodes rest
end

def condition? : Stmt → Option Expr
  | ifThen condition _ | ifThenElse condition _ _ | whileDo condition _ => some condition
  | block _ | assign .. | arrayAssign .. | error => none

/-- What a statement assigns; an assignment to an array element gives its array. -/
def assignment? : Stmt → Option Assignment
  | assign target value | arrayAssign target _ value => some ⟨target, value⟩
  | block _ | ifThen .. | ifThenElse .. | whileDo .. | error => none

/-- The names in a statement that stand in no statement inside it. -/
def ownNames : Stmt → List String
  | ifThen condition _ | ifThenElse condition _ _ | whileDo condition _ => condition.names
  | assign target value => target :: value.names
  | arrayAssign target index value => target :: (index.names ++ value.names)
  | block _ | error => []

end Stmt

namespace Program

/-- All statements of a program, each before those inside it. -/
def nodes (program : Program) : List Stmt := Stmt.allNodes program.statements

def conditions (program : Program) : List Expr := program.nodes.filterMap Stmt.condition?

def assignments (program : Program) : List Assignment :=
  program.nodes.filterMap Stmt.assignment?

/-- The names in the statements of a program. -/
def names (program : Program) : List String := program.nodes.flatMap Stmt.ownNames

end Program

end ToyC
