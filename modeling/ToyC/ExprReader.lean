import ToyC.Parser
import ToyC.Table

/-! Reading expressions by precedence. Each expression takes a level of
nesting, and so does each operator that is folded into it until it ends. The
readers recurse on the number of levels left; what they read one level deeper
is a parameter of the rules. -/
namespace ToyC

/-- Reads an operand, when expressions inside it are read by `expr`. -/
def OperandRule.read (expr : Parser → Expr × Parser) (rule : OperandRule) (parser : Parser) :
    Expr × Parser :=
  match rule with
  | .constant => ((parser.current.literal.bind Expr.ofConstant?).getD .error, parser.advance)
  | .name =>
    let name := parser.current.identifier?.getD ""
    (.identifier name, parser.advance.recordIdentifier name)
  | .sign =>
    let operand := expr parser.advance
    (if parser.kind = .minus then .negate operand.1 else .not operand.1, operand.2)
  | .group =>
    let inner := expr parser.advance
    (inner.1, inner.2.expect .closeParen)
  | .expression => expr parser

/-- Reads the operand that starts at the current token. A token that starts
none is reported, consumed and replaced. -/
def Table.readOperand (table : Table) (expr : Parser → Expr × Parser) (parser : Parser) :
    Expr × Parser :=
  match table.operand parser.kind with
  | some rule => rule.read expr parser
  | none => (.error, (parser.report .expression).advance)

/-- Reads on from an operator: `left` is what stands before it. A right operand
takes the operators after it that bind tighter, which `operators` reads. -/
def OperatorRule.read (table : Table) (expr : Parser → Expr × Parser)
    (operators : Int → Expr → Parser → Expr × Parser) (rule : OperatorRule)
    (precedence : Precedence) (left : Expr) (parser : Parser) : Expr × Parser :=
  match rule with
  | .binary =>
    match BinaryOp.ofKind? parser.kind with
    | none => (left, (parser.report .operator).advance)
    | some operator =>
      let operand := table.readOperand expr parser.advance
      let right := operators (precedence.level + 1) operand.1 operand.2
      (.binary operator left right.1, right.2)
  | .index =>
    let index := expr parser.advance
    (.arrayLookup left index.1, index.2.expect .closeBracket)

mutual
/-- Reads an expression when `levels` more levels may be opened. -/
def Table.exprWithin (table : Table) : Nat → Parser → Expr × Parser
  | 0, parser => (.error, parser.refuse .expression)
  | levels + 1, parser =>
    let operand := table.readOperand (table.exprWithin levels) parser.enter
    let whole := table.operatorsWithin levels 0 operand.1 operand.2
    (whole.1, whole.2.leave 1)
/-- Folds the operators of level `floor` or higher that follow into `left`,
when `levels` more levels may be opened. -/
def Table.operatorsWithin (table : Table) : Nat → Int → Expr → Parser → Expr × Parser
  | 0, floor, left, parser =>
    match table.operator parser.kind with
    | none => (left, parser)
    | some (precedence, _) =>
      if precedence.level < floor then (left, parser) else (left, parser.refuse .expression)
  | levels + 1, floor, left, parser =>
    match table.operator parser.kind with
    | none => (left, parser)
    | some (precedence, rule) =>
      if precedence.level < floor then (left, parser)
      else
        let folded := rule.read table (table.exprWithin levels) (table.operatorsWithin levels)
          precedence left parser.enter
        let whole := table.operatorsWithin levels floor folded.1 folded.2
        (whole.1, whole.2.leave 1)
end

namespace Parser

/-- Reads an expression. -/
def expr (table : Table) (parser : Parser) : Expr × Parser :=
  table.exprWithin parser.nesting.levelsLeft parser

/-- Folds the operators of level `floor` or higher that follow into `left`. -/
def operators (table : Table) (floor : Int) (left : Expr) (parser : Parser) : Expr × Parser :=
  table.operatorsWithin parser.nesting.levelsLeft floor left parser

/-- Reads an operand. -/
def operand (table : Table) (parser : Parser) : Expr × Parser :=
  table.readOperand (table.exprWithin parser.nesting.levelsLeft) parser

/-- Reads an operand by a rule, whatever the current token is. -/
def operandBy (table : Table) (rule : OperandRule) (parser : Parser) : Expr × Parser :=
  rule.read (table.exprWithin parser.nesting.levelsLeft) parser

/-- Reads on after `left` by a rule, whatever the current token is. -/
def operatorBy (table : Table) (rule : OperatorRule) (precedence : Precedence) (left : Expr)
    (parser : Parser) : Expr × Parser :=
  rule.read table (table.exprWithin parser.nesting.levelsLeft)
    (table.operatorsWithin parser.nesting.levelsLeft) precedence left parser

end Parser

end ToyC
