import ToyC.StmtReader

/-! Reading declarations and whole programs. -/
namespace ToyC

/-- The base type that a token names. -/
def baseTypeOfKind? : TokenKind → Option BaseType
  | .intWord => some .int
  | .floatWord => some .float
  | .charWord => some .char
  | .booleanWord => some .boolean
  | _ => none

def startsType (kind : TokenKind) : Bool := (baseTypeOfKind? kind).isSome

namespace Parser

/-- Reads a type: the name of a base type, and for an array a length in
brackets. -/
def type (parser : Parser) : Ty × Parser :=
  match baseTypeOfKind? parser.kind with
  | none => (.error, parser.report .type)
  | some base =>
    if parser.advance.kind = .openBracket then
      let length := parser.advance.advance
      if length.kind = .intConst ∧ length.advance.kind = .closeBracket then
        (.array base, length.advance.advance)
      else (.error, (length.expect .intConst).report .type)
    else (.scalar base, parser.advance)

/-- Reads a name. A token that is none is reported and stays. -/
def identifier (parser : Parser) : Option String × Parser :=
  if parser.kind = .identifier then (some (parser.current.identifier?.getD ""), parser.advance)
  else (none, parser.report .identifier)

/-- Reads a declaration statement: a type and names separated by commas. A name
that is missing declares nothing. -/
def declaration (parser : Parser) : List VarDecl × Parser :=
  let type := parser.type
  let first := type.2.identifier
  let others := first.2.repeatWhile (· = .comma) fun comma => comma.advance.identifier
  let declared := (first.1 :: others.1).reduceOption.map fun name => ⟨type.1, name⟩
  (declared, (others.2.recordDeclarations declared).expect .semicolon)

/-- Reads declaration statements as long as tokens start one. -/
def declarations (parser : Parser) : List (List VarDecl) × Parser :=
  parser.repeatWhile startsType declaration

/-- Reads `int main() { ... }`, then consumes whatever is left. -/
def program (table : Table) (parser : Parser) : Program × Parser :=
  let opened := ((((parser.expect .intWord).expect .mainWord).expect .openParen).expect
    .closeParen).expect .openBrace
  let declarations := opened.declarations
  let statements := declarations.2.statements table
  (⟨declarations.1, statements.1⟩,
    ((statements.2.expect .closeBrace).expect .eof).skipTo [])

end Parser

/-- What parsing a whole text gives. -/
structure ParsedProgram where
  program : Program
  inventory : Inventory
  errors : List SyntaxError
  /-- How many unknown tokens the text has. -/
  lexicalErrors : Nat
deriving DecidableEq, Repr

namespace Parser

/-- Reads a program to the end of the text. -/
def finishProgram (table : Table) (parser : Parser) : ParsedProgram :=
  let program := parser.program table
  ⟨program.1, program.2.inventory.reverse, program.2.errors.reverse, program.2.unknowns⟩

end Parser

/-- Parses a text. -/
def parse (source : String) : ParsedProgram := (Parser.ofSource source).finishProgram .standard

end ToyC
