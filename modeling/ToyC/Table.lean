import ToyC.Token

/-! Which tokens start an operand, continue an expression or start a statement,
and the rule that reads on from there. -/
namespace ToyC

/-- How tight an operator binds. -/
inductive Precedence where
  | lowest | logical | comparison | additive | multiplicative | index
deriving DecidableEq, Repr

namespace Precedence

def level : Precedence → Int
  | lowest => 0
  | logical => 10
  | comparison => 20
  | additive => 30
  | multiplicative => 40
  | index => 50

end Precedence

/-- How an operand is read from its first token on. -/
inductive OperandRule where
  /-- A constant. -/
  | constant
  /-- The name of a variable. -/
  | name
  /-- `!` or `-`, applied to the whole expression after it. -/
  | sign
  /-- An expression in parentheses. -/
  | group
  /-- An expression of its own, one level deeper. -/
  | expression
deriving DecidableEq, Repr

/-- How an expression goes on after an operand. -/
inductive OperatorRule where
  /-- A binary operator and its right operand. -/
  | binary
  /-- An index in brackets. -/
  | index
deriving DecidableEq, Repr

/-- How a statement is read from its first token on. -/
inductive StatementRule where
  | conditional
  | loop
  | block
  | assignment
  /-- A statement of its own, one level deeper. -/
  | statement
deriving DecidableEq, Repr

structure Table where
  operand : TokenKind → Option OperandRule
  operator : TokenKind → Option (Precedence × OperatorRule)
  statement : TokenKind → Option StatementRule

namespace Table

def standard : Table where
  operand
    | .intConst | .floatConst | .charConst | .booleanConst => some .constant
    | .identifier => some .name
    | .not | .minus => some .sign
    | .openParen => some .group
    | _ => none
  operator
    | .and | .or => some (.logical, .binary)
    | .less | .lessEqual | .greater | .greaterEqual | .equal | .notEqual => some (.comparison, .binary)
    | .plus | .minus => some (.additive, .binary)
    | .times | .divide | .modulo => some (.multiplicative, .binary)
    | .openBracket => some (.index, .index)
    | _ => none
  statement
    | .ifWord => some .conditional
    | .whileWord => some .loop
    | .openBrace => some .block
    | .identifier => some .assignment
    | _ => none

def withOperand (table : Table) (kind : TokenKind) (rule : OperandRule) : Table :=
  { table with operand := fun other => if other = kind then some rule else table.operand other }

def withOperator (table : Table) (kind : TokenKind) (precedence : Precedence) (rule : OperatorRule) :
    Table :=
  { table with
    operator := fun other => if other = kind then some (precedence, rule) else table.operator other }

def withStatement (table : Table) (kind : TokenKind) (rule : StatementRule) : Table :=
  { table with statement := fun other => if other = kind then some rule else table.statement other }

end Table

end ToyC
