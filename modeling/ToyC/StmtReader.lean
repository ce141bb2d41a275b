import ToyC.ExprReader

/-! Reading statements. Each statement takes a level of nesting. -/
namespace ToyC

/-- The tokens that may start a statement in the list of a program. No
statement starts with `;` or `(`: they are taken to be reported. -/
def startsStatement : TokenKind → Bool
  | .semicolon | .ifWord | .whileWord | .openParen | .openBrace | .identifier => true
  | _ => false

/-- The tokens up to which the statements of a block go on. -/
def continuesBlock : TokenKind → Bool
  | .closeBrace | .eof => false
  | _ => true

/-- A token that starts no statement is reported, consumed and replaced. -/
def Parser.unknownStatement (parser : Parser) : Stmt × Parser :=
  (.error, (parser.report .statement).advance)

/-- Reads a condition in parentheses, and records it. -/
def Parser.condition (expr : Parser → Expr × Parser) (parser : Parser) : Expr × Parser :=
  let inner := expr (parser.expectOr .openParen [.closeParen, .openBrace, .closeBrace])
  (inner.1, (inner.2.recordCondition inner.1).expectOr .closeParen [.openBrace, .semicolon, .closeBrace])

/-- Reads on after the name of an assignment's target. -/
def Parser.assignmentTo (expr : Parser → Expr × Parser) (target : String) (parser : Parser) :
    Stmt × Parser :=
  match parser.kind with
  | .assign =>
    let value := expr parser.advance
    (.assign target value.1, (value.2.expect .semicolon).recordAssignment ⟨target, value.1⟩)
  | .openBracket =>
    let index := expr parser.advance
    let value := expr ((index.2.expectOr .closeBracket [.assign, .semicolon]).expectOr .assign [.semicolon])
    (.arrayAssign target index.1 value.1,
      (value.2.expect .semicolon).recordAssignment ⟨target, value.1⟩)
  | _ => parser.unknownStatement

/-- Reads a statement, when the expressions and statements inside it are read
by `expr` and `stmt`. -/
def StatementRule.read (expr : Parser → Expr × Parser) (stmt : Parser → Stmt × Parser)
    (rule : StatementRule) (parser : Parser) : Stmt × Parser :=
  match rule with
  | .conditional =>
    let condition := parser.advance.condition expr
    let thenBody := stmt condition.2
    if thenBody.2.kind = .elseWord then
      let elseBody := stmt thenBody.2.advance
      (.ifThenElse condition.1 thenBody.1 elseBody.1, elseBody.2)
    else (.ifThen condition.1 thenBody.1, thenBody.2)
  | .loop =>
    let condition := parser.advance.condition expr
    let body := stmt condition.2
    (.whileDo condition.1 body.1, body.2)
  | .block =>
    let body := parser.advance.repeatWhile continuesBlock stmt
    (.block body.1, body.2.expectOr .closeBrace [.closeBrace, .semicolon])
  | .assignment =>
    let name := parser.current.identifier?.getD ""
    (parser.advance.recordIdentifier name).assignmentTo expr name
  | .statement => stmt parser

/-- Reads a statement when `levels` more levels may be opened. A statement that
gets no level is skipped, with its semicolon. -/
def Table.stmtWithin (table : Table) : Nat → Parser → Stmt × Parser
  | 0, parser =>
    let skipped := parser.refuse .statement
    (.error, if skipped.kind = .semicolon then skipped.advance else skipped)
  | levels + 1, parser =>
    let entered := parser.enter
    let stmt := match table.statement entered.kind with
      | some rule => rule.read (table.exprWithin levels) (table.stmtWithin levels) entered
      | none => entered.unknownStatement
    (stmt.1, stmt.2.leave 1)

namespace Parser

/-- Reads a statement. -/
def stmt (table : Table) (parser : Parser) : Stmt × Parser :=
  table.stmtWithin parser.nesting.levelsLeft parser

/-- Reads a statement by a rule, whatever the current token is. -/
def stmtBy (table : Table) (rule : StatementRule) (parser : Parser) : Stmt × Parser :=
  rule.read (table.exprWithin parser.nesting.levelsLeft)
    (table.stmtWithin parser.nesting.levelsLeft) parser

/-- Reads statements as long as tokens start one. -/
def statements (table : Table) (parser : Parser) : List Stmt × Parser :=
  parser.repeatWhile startsStatement (table.stmtWithin parser.nesting.levelsLeft)

end Parser

end ToyC
