import ToyC.Assignability
import ToyC.Program

/-! The checks after parsing, over flat lists: what a program declares, which
names it refers to, what it assigns, and its conditions. There is one scope,
and the first declaration of a name gives its type. -/
namespace ToyC

/-- The type of the first declaration of a name. -/
def typeOf? (declarations : List VarDecl) (name : String) : Option Ty :=
  (declarations.find? fun declaration => declaration.name == name).map VarDecl.type

/-- One error for each pair of declarations of one name, in the order of the
earlier one, then of the later one. -/
def declarationErrors : List VarDecl → List SemanticError
  | [] => []
  | declaration :: later =>
    (later.filter fun other => other.name == declaration.name).map
      (fun other => .misuse .multipleDeclaration other.name) ++ declarationErrors later

/-- One error for each reference to a name that is not declared. -/
def referenceErrors (declarations : List VarDecl) (names : List String) : List SemanticError :=
  (names.filter fun name => (typeOf? declarations name).isNone).map (.misuse .noDeclaration)

/-- What an expression assigns. Only constants and declared variables have a
type that is checked. -/
def assignedValue? (declarations : List VarDecl) : Expr → Option AssignedValue
  | .identifier name => (typeOf? declarations name).map .reference
  | value => value.literalType?.map .constant

def assignmentErrorsOf (declarations : List VarDecl) (assignment : Assignment) : List SemanticError :=
  match typeOf? declarations assignment.target, assignedValue? declarations assignment.value with
  | some target, some value =>
    (assignmentFaults target value).map fun fault => .misuse fault assignment.target
  | _, _ => []

def assignmentErrors (declarations : List VarDecl) (assignments : List Assignment) :
    List SemanticError :=
  assignments.flatMap (assignmentErrorsOf declarations)

/-- Whether an expression may not be a condition: a comparison may not. -/
def isInvalidCondition : Expr → Bool
  | .binary operator _ _ => operator.isComparison
  | _ => false

def conditionErrors (conditions : List Expr) : List SemanticError :=
  (conditions.filter isInvalidCondition).map fun _ => .invalidCondition

/-- All errors: those of declarations, references, assignments, conditions. -/
def semanticErrors (declarations : List VarDecl) (names : List String)
    (assignments : List Assignment) (conditions : List Expr) : List SemanticError :=
  declarationErrors declarations ++ referenceErrors declarations names ++
    assignmentErrors declarations assignments ++ conditionErrors conditions

end ToyC
