import ToyC.Token
import ToyC.Ty

/-! Expressions. -/
namespace ToyC

inductive BinaryOp where
  | and | or
  | equal | notEqual | less | lessEqual | greater | greaterEqual
  | plus | minus | times | divide | modulo
deriving DecidableEq, Repr

namespace BinaryOp

/-- The operator that a token stands for between two operands. -/
def ofKind? : TokenKind → Option BinaryOp
  | .and => some and
  | .or => some or
  | .equal => some equal
  | .notEqual => some notEqual
  | .less => some less
  | .lessEqual => some lessEqual
  | .greater => some greater
  | .greaterEqual => some greaterEqual
  | .plus => some plus
  | .minus => some minus
  | .times => some times
  | .divide => some divide
  | .modulo => some modulo
  | _ => none

def symbol : BinaryOp → String
  | and => "&&"
  | or => "||"
  | equal => "=="
  | notEqual => "!="
  | less => "<"
  | lessEqual => "<="
  | greater => ">"
  | greaterEqual => ">="
  | plus => "+"
  | minus => "-"
  | times => "*"
  | divide => "/"
  | modulo => "%"

def isComparison : BinaryOp → Bool
  | equal | notEqual | less | lessEqual | greater | greaterEqual => true
  | and | or | plus | minus | times | divide | modulo => false

end BinaryOp

/-- An expression. No source contains the length of an array or a new array;
`error` stands for an expression that could not be read. -/
inductive Expr where
  | int (value : Int32)
  | float (value : Binary32)
  | char (value : Char)
  | boolean (value : Bool)
  | identifier (name : String)
  | not (operand : Expr)
  | negate (operand : Expr)
  | binary (operator : BinaryOp) (left right : Expr)
  | arrayLookup (array index : Expr)
  | arrayLength (array : Expr)
  | newArray (size : Expr)
  | error
deriving DecidableEq, Repr

namespace Expr

/-- The type of a constant. -/
def literalType? : Expr → Option BaseType
  | int _ => some .int
  | float _ => some .float
  | char _ => some .char
  | boolean _ => some .boolean
  | _ => none

/-- The expression that a constant token stands for. -/
def ofConstant? : Literal → Option Expr
  | .int value => some (int value)
  | .float value => some (float value)
  | .char value => some (char value)
  | .boolean value => some (boolean value)
  | .identifier _ => none

end Expr

end ToyC
