import ToyC.Token
import ToyC.Ty

/-! What can be wrong with a program, and how it is said. Syntax errors name
the token that was found and the kind that was expected, at the token's place;
semantic errors name a variable, or a condition, and have no place. -/
namespace ToyC

/-- What is wrong with the use of a variable. A cast goes from the base type of
the value to that of the target, always two different ones. -/
inductive Fault where
  | noDeclaration
  | multipleDeclaration
  | cast (value target : BaseType) (differ : value ≠ target)
  | arrayToSingle
  | singleToArray
  | invalidCondition
deriving DecidableEq

namespace Fault

def baseName : BaseType → String
  | .int => "INT"
  | .float => "FLOAT"
  | .char => "CHAR"
  | .boolean => "BOOLEAN"

def name : Fault → String
  | noDeclaration => "NO_DECLARATION"
  | multipleDeclaration => "MULTIPLE_DECLARATION"
  | cast value target _ => baseName value ++ "_" ++ baseName target ++ "_CASTING"
  | arrayToSingle => "ARRAY_TO_SINGLE"
  | singleToArray => "SINGLE_TO_ARRAY"
  | invalidCondition => "INVALID_CONDITION"

def category : Fault → String
  | noDeclaration | multipleDeclaration => "Declaration Error"
  | cast .. => "Casting Error"
  | arrayToSingle | singleToArray => "Invalid Assignment"
  | invalidCondition => "Invalid Condition"

/-- A sentence about a variable with this fault. -/
def tip (name : String) : Fault → String
  | noDeclaration => "Variable `" ++ name ++ "` not declared"
  | multipleDeclaration => "Variable `" ++ name ++ "` already declared"
  | arrayToSingle => "Array value assigned to single variable `" ++ name ++ "`"
  | singleToArray => "Single value assigned to array `" ++ name ++ "`"
  | cast .. | invalidCondition => "Value assigned to `" ++ name ++ "` does not match its declared type"

end Fault

inductive SemanticError where
  | misuse (fault : Fault) (name : String)
  | invalidCondition
deriving DecidableEq

namespace SemanticError

def fault : SemanticError → Fault
  | misuse fault _ => fault
  | invalidCondition => .invalidCondition

def text : SemanticError → String
  | misuse fault name => fault.category ++ ": " ++ fault.name ++ ", variable (" ++ name ++ ")"
  | invalidCondition => "Invalid Condition: INVALID_CONDITION"

def tip? : SemanticError → Option String
  | misuse fault name => some (fault.tip name)
  | invalidCondition => none

end SemanticError

/-- Why a token was refused: no rule takes it there, or what it belongs to is
nested too deep. The texts do not tell one from the other. -/
inductive SyntaxCause where
  | unexpected
  | tooDeep
deriving DecidableEq, Repr

/-- A token that was refused: the one after the first `index` of the program. -/
structure SyntaxError where
  found : TokenKind
  expected : TokenKind
  position : Position
  index : Nat
  cause : SyntaxCause
deriving DecidableEq, Repr

inductive Problem where
  | unexpectedToken (found expected : TokenKind)
  | semantic (error : SemanticError)
deriving DecidableEq

namespace Problem

def text : Problem → String
  | unexpectedToken found expected => "unexpected token " ++ found.name ++ ", expected " ++ expected.name
  | semantic error => error.text

def name : Problem → String
  | unexpectedToken _ _ => "UnexpectedToken"
  | semantic error => error.fault.name

def tip? : Problem → Option String
  | unexpectedToken found expected => some ("expected " ++ expected.name ++ ", found " ++ found.name)
  | semantic error => error.tip?

def fault? : Problem → Option Fault
  | unexpectedToken _ _ => none
  | semantic error => some error.fault

def isSyntax : Problem → Bool
  | unexpectedToken _ _ => true
  | semantic _ => false

end Problem

/-- A problem, and the place it is at if it has one. -/
structure Diagnostic where
  problem : Problem
  position : Option Position
deriving DecidableEq

namespace Diagnostic

def ofSyntax (error : SyntaxError) : Diagnostic :=
  ⟨.unexpectedToken error.found error.expected, some error.position⟩

def ofSemantic (error : SemanticError) : Diagnostic := ⟨.semantic error, none⟩

/-- One line: only an unexpected token is said together with its place. -/
def text (diagnostic : Diagnostic) : String :=
  match diagnostic.problem, diagnostic.position with
  | .unexpectedToken found expected, some place =>
    "ERROR: " ++ found.name ++ " at " ++ place.text ++ "; Expected " ++ expected.name
  | problem, _ => problem.text

end Diagnostic

end ToyC
