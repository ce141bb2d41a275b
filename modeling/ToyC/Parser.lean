import ToyC.Diagnostic
import ToyC.Inventory
import ToyC.Lexer
import ToyC.Nesting

/-! A parser between two steps, and the steps that all rules are made of. A
parser never fails: a token that no rule takes is reported, once, and reading
goes on, there or at a token to recover at. Behind the last token stands `eof`
for ever; to consume it changes nothing but the count. -/
namespace ToyC

structure Parser where
  /-- The tokens from the current one on, without the closing `eof`. -/
  ahead : List Token
  /-- The place of the closing `eof`. -/
  finish : Position
  /-- How many tokens were consumed; `eof` counts each time. -/
  consumed : Nat
  /-- The value of `consumed` at the last report. -/
  reportedAt : Option Nat
  nesting : Nesting
  /-- How many of the consumed tokens were unknown. -/
  unknowns : Nat
  /-- The reports, the last one first. -/
  errors : List SyntaxError
  /-- What was recorded, in each list the last entry first. -/
  inventory : Inventory
deriving DecidableEq, Repr

namespace Parser

/-- A parser at the first token of a stream, behind `unknowns` unknown ones. -/
def start (stream : TokenStream) (unknowns : Nat) : Parser where
  ahead := stream.tokens
  finish := stream.finish
  consumed := 0
  reportedAt := none
  nesting := .none
  unknowns := unknowns
  errors := []
  inventory := .empty

def ofLexer (lexer : Lexer) : Parser := start lexer.stream lexer.unknownsTaken

def ofSource (source : String) : Parser := ofLexer (.start source)

def current (parser : Parser) : Token := parser.ahead.head?.getD ⟨.eof, none, parser.finish⟩

def kind (parser : Parser) : TokenKind := parser.current.kind

/-- Consumes `count` tokens. -/
def pass (parser : Parser) (count : Nat) : Parser :=
  { parser with
    ahead := parser.ahead.drop count
    consumed := parser.consumed + count
    unknowns := parser.unknowns + (parser.ahead.take count).countP Token.isUnknown }

/-- Consumes the current token. -/
def advance (parser : Parser) : Parser := parser.pass 1

/-- Reports the current token, if that was not done before. -/
def reportAs (parser : Parser) (cause : SyntaxCause) (expected : TokenKind) : Parser :=
  if parser.reportedAt = some parser.consumed then parser
  else
    { parser with
      reportedAt := some parser.consumed
      errors :=
        ⟨parser.kind, expected, parser.current.position, parser.consumed, cause⟩ :: parser.errors }

def report (parser : Parser) (expected : TokenKind) : Parser := parser.reportAs .unexpected expected

/-- Consumes tokens up to one of `follow`, or up to the end. -/
def skipTo (parser : Parser) (follow : List TokenKind) : Parser :=
  parser.pass (parser.ahead.takeWhile fun token => !token.isOneOf follow).length

/-- Consumes a token of the expected kind; any other is reported and stays. -/
def expect (parser : Parser) (expected : TokenKind) : Parser :=
  if parser.kind = expected then parser.advance else parser.report expected

/-- Consumes a token of the expected kind; any other is reported, and tokens
are skipped up to one to recover at. -/
def expectOr (parser : Parser) (expected : TokenKind) (follow : List TokenKind) : Parser :=
  if parser.kind = expected then parser.advance else (parser.report expected).skipTo follow

def enter (parser : Parser) : Parser := { parser with nesting := parser.nesting.enter }

def leave (parser : Parser) (levels : Nat) : Parser :=
  { parser with nesting := parser.nesting.leave levels }

/-- What happens instead of entering when no level is left: the current token
is reported, and the rest of the construct is skipped. -/
def refuse (parser : Parser) (expected : TokenKind) : Parser :=
  let reported := parser.reportAs .tooDeep expected
  { reported with nesting := reported.nesting.refuse }.skipTo [.semicolon, .closeBrace]

/-- Opens a level if there is one left. -/
def tryEnter (parser : Parser) (expected : TokenKind) : Bool × Parser :=
  if parser.nesting.depth < maxNesting then (true, parser.enter) else (false, parser.refuse expected)

def recordDeclarations (parser : Parser) (declarations : List VarDecl) : Parser :=
  { parser with
    inventory.declarations := declarations.reverse ++ parser.inventory.declarations }

def recordIdentifier (parser : Parser) (name : String) : Parser :=
  { parser with inventory.identifiers := name :: parser.inventory.identifiers }

def recordAssignment (parser : Parser) (assignment : Assignment) : Parser :=
  { parser with inventory.assignments := assignment :: parser.inventory.assignments }

def recordCondition (parser : Parser) (condition : Expr) : Parser :=
  { parser with inventory.conditions := condition :: parser.inventory.conditions }

/-- Takes steps as long as the current token is one of those that ask for
another, and at most `bound` of them. -/
def repeatUpTo (goesOn : TokenKind → Bool) (step : Parser → α × Parser) :
    Nat → Parser → List α × Parser
  | 0, parser => ([], parser)
  | bound + 1, parser =>
    if goesOn parser.kind then
      let first := step parser
      let others := repeatUpTo goesOn step bound first.2
      (first.1 :: others.1, others.2)
    else ([], parser)

/-- Takes steps as long as the current token asks for another. A step that
consumes a token each time is never cut short by the bound. -/
def repeatWhile (goesOn : TokenKind → Bool) (step : Parser → α × Parser) (parser : Parser) :
    List α × Parser :=
  repeatUpTo goesOn step parser.ahead.length parser

end Parser

end ToyC
