import ToyC.Alphabetic
import ToyC.Blank
import ToyC.Numeral
import ToyC.Token

/-! Cutting one lexeme off a text that starts with a character other than a
blank. A lexeme does not depend on its place. It is the longest word or number
there, one character literal, or the longest symbol; whatever starts no lexeme
is cut off as an unknown one, never empty. -/
namespace ToyC

/-- The first characters of a text, read as a token that has no place yet. -/
structure Lexeme where
  kind : TokenKind
  literal : Option Literal
  text : List Char
deriving DecidableEq, Repr

def reservedWords : List (List Char × TokenKind) :=
  [(['i', 'n', 't'], .intWord), (['f', 'l', 'o', 'a', 't'], .floatWord),
    (['c', 'h', 'a', 'r'], .charWord), (['b', 'o', 'o', 'l', 'e', 'a', 'n'], .booleanWord),
    (['i', 'f'], .ifWord), (['e', 'l', 's', 'e'], .elseWord),
    (['w', 'h', 'i', 'l', 'e'], .whileWord), (['m', 'a', 'i', 'n'], .mainWord)]

def booleanWords : List (List Char × Bool) :=
  [(['t', 'r', 'u', 'e'], true), (['f', 'a', 'l', 's', 'e'], false)]

/-- The symbols, those of two characters first: a text is cut at the first
symbol of this list that it starts with. -/
def symbols : List (List Char × TokenKind) :=
  [(['&', '&'], .and), (['|', '|'], .or), (['=', '='], .equal), (['!', '='], .notEqual),
    (['<', '='], .lessEqual), (['>', '='], .greaterEqual),
    (['='], .assign), (['!'], .not), (['<'], .less), (['>'], .greater),
    (['+'], .plus), (['-'], .minus), (['*'], .times), (['/'], .divide), (['%'], .modulo),
    (['('], .openParen), ([')'], .closeParen), (['['], .openBracket), ([']'], .closeBracket),
    (['\x7b'], .openBrace), (['\x7d'], .closeBrace), ([';'], .semicolon), ([','], .comma)]

/-- The greatest value of an integer constant. -/
def greatestInt : Nat := 2147483647

namespace Lexeme

def unknown (text : List Char) : Lexeme := ⟨.unknown, none, text⟩

/-- A run of letters and digits: a reserved word, a truth value or a name. -/
def word (run : List Char) : Lexeme :=
  match reservedWords.lookup run, booleanWords.lookup run with
  | some kind, _ => ⟨kind, none, run⟩
  | none, some value => ⟨.booleanConst, some (.boolean value), run⟩
  | none, none => ⟨.identifier, some (.identifier (String.ofList run)), run⟩

/-- A text that starts with a digit. After the digits and a point there must be
another digit: otherwise all up to the next blank is one unknown lexeme. An
integer that is too great is unknown as well. -/
def number (text : List Char) : Lexeme :=
  let digits := text.takeWhile Char.isDigit
  match text.dropWhile Char.isDigit with
  | '.' :: rest =>
    let fraction := rest.takeWhile Char.isDigit
    if fraction.isEmpty then unknown (digits ++ '.' :: rest.takeWhile fun c => !isBlank c)
    else ⟨.floatConst, some (.float (.ofDigits digits fraction)), digits ++ '.' :: fraction⟩
  | _ =>
    if digitsValue digits ≤ greatestInt then
      ⟨.intConst, some (.int (Int32.ofNat (digitsValue digits))), digits⟩
    else unknown digits

/-- What follows a quote: one letter and a closing quote. A quote that opens no
literal is unknown, together with a letter right after it. -/
def quoted : List Char → Lexeme
  | c :: '\'' :: _ =>
    if isAlphabetic c then ⟨.charConst, some (.char c), ['\'', c, '\'']⟩ else unknown ['\'']
  | c :: _ => unknown (if isAlphabetic c then ['\'', c] else ['\''])
  | [] => unknown ['\'']

def symbol (first : Char) (rest : List Char) : Lexeme :=
  match symbols.find? fun entry => entry.1.isPrefixOf (first :: rest) with
  | some (text, kind) => ⟨kind, none, text⟩
  | none => unknown [first]

/-- The lexeme at the start of the text `first :: rest`. -/
def cut (first : Char) (rest : List Char) : Lexeme :=
  if first.isAlpha then word ((first :: rest).takeWhile Char.isAlphanum)
  else if first.isDigit then number (first :: rest)
  else if first = '\'' then quoted rest
  else symbol first rest

def place (lexeme : Lexeme) (position : Position) : Token :=
  ⟨lexeme.kind, lexeme.literal, position⟩

end Lexeme

end ToyC
