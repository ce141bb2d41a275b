import ToyC.Position
import ToyC.ShortestDecimal

/-! Tokens: a kind, the value that a constant or a name carries, and the place
of the first character. The last four kinds belong to no token of a source;
they name what was expected where several tokens would have done. -/
namespace ToyC

inductive TokenKind where
  | identifier | intConst | floatConst | charConst | booleanConst | eof | unknown
  | and | or | equal | notEqual | less | greater | lessEqual | greaterEqual
  | plus | minus | times | divide | modulo
  | mainWord | intWord | charWord | floatWord | booleanWord | ifWord | elseWord | whileWord
  | openParen | closeParen | openBracket | closeBracket | openBrace | closeBrace
  | semicolon | comma | assign | not
  | statement | expression | operator | type
deriving DecidableEq, Repr

namespace TokenKind

/-- The name of a kind in listings and diagnostics. -/
def name : TokenKind → String
  | identifier => "ID"
  | intConst => "INT_CONST"
  | floatConst => "FLOAT_CONST"
  | charConst => "CHAR_CONST"
  | booleanConst => "BOOLEAN_CONST"
  | eof => "EOF"
  | unknown => "UNKNOWN"
  | and => "AND"
  | or => "OR"
  | equal => "EQ"
  | notEqual => "NEQ"
  | less => "LT"
  | greater => "RT"
  | lessEqual => "LT_EQ"
  | greaterEqual => "RT_EQ"
  | plus => "PLUS"
  | minus => "MINUS"
  | times => "TIMES"
  | divide => "DIV"
  | modulo => "MOD"
  | mainWord => "MAIN"
  | intWord => "INT"
  | charWord => "CHAR"
  | floatWord => "FLOAT"
  | booleanWord => "BOOLEAN"
  | ifWord => "IF"
  | elseWord => "ELSE"
  | whileWord => "WHILE"
  | openParen => "LPAREN"
  | closeParen => "RPAREN"
  | openBracket => "LBRACKET"
  | closeBracket => "RBRACKET"
  | openBrace => "LBRACE"
  | closeBrace => "RBRACE"
  | semicolon => "SEMI"
  | comma => "COMMA"
  | assign => "ASSIGN"
  | not => "NOT"
  | statement => "STATEMENT"
  | expression => "EXPRESSION"
  | operator => "OPERATOR"
  | type => "TYPE"

end TokenKind

/-- The value of a constant, or the name of an identifier. -/
inductive Literal where
  | int (value : Int32)
  | float (value : Binary32)
  | char (value : Char)
  | boolean (value : Bool)
  | identifier (name : String)
deriving DecidableEq, Repr

namespace Literal

def text : Literal → String
  | int value => toString value.toInt
  | float value => value.text
  | char value => value.toString
  | boolean true => "true"
  | boolean false => "false"
  | identifier name => name

end Literal

structure Token where
  kind : TokenKind
  literal : Option Literal
  position : Position
deriving DecidableEq, Repr

namespace Token

/-- The line of a token in a listing: its kind, its place, its value if any. -/
def text (token : Token) : String :=
  token.kind.name ++ " (" ++ toString token.position.line.toNat ++ "," ++
    toString token.position.column.toNat ++ ")" ++
    match token.literal with
    | some literal => ": " ++ literal.text
    | none => ""

/-- The name that a token carries, whatever its kind. -/
def identifier? (token : Token) : Option String :=
  match token.literal with
  | some (.identifier name) => some name
  | _ => none

def isOneOf (token : Token) (kinds : List TokenKind) : Bool := kinds.contains token.kind

def isUnknown (token : Token) : Bool := token.kind = .unknown

end Token

end ToyC
