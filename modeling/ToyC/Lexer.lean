import ToyC.Lexeme
import ToyC.Lines

/-! From a text to its tokens. A cursor stands at a place of the text; it skips
blanks and cuts one lexeme after the other. A token stream holds all tokens
that are left, and the place of the end. A lexer hands the tokens out one by
one and may look one token ahead; peeking changes no later answer. -/
namespace ToyC

structure Cursor where
  rest : List Char
  position : Position
deriving DecidableEq, Repr

namespace Cursor

def start (source : String) : Cursor := ⟨source.toList, .start⟩

/-- The place after the blank `c`, which stands before `rest`. -/
def pastBlank (c : Char) (rest : List Char) (place : Position) : Position :=
  if endsLine c rest then place.nextLine
  else if c = '\r' then place
  else if c = '\t' then place.along tabWidth
  else place.along 1

def skipBlanksFrom : List Char → Position → Cursor
  | [], place => ⟨[], place⟩
  | c :: rest, place =>
    if isBlank c then skipBlanksFrom rest (pastBlank c rest place) else ⟨c :: rest, place⟩

/-- The cursor at the next character that is no blank, or at the end. -/
def skipBlanks (cursor : Cursor) : Cursor := skipBlanksFrom cursor.rest cursor.position

/-- The cursor behind a lexeme that starts at it. -/
def past (cursor : Cursor) (lexeme : Lexeme) : Cursor :=
  ⟨cursor.rest.drop lexeme.text.length, cursor.position.along lexeme.text.length⟩

/-- The next token and the cursor behind it; at the end, again and again `eof`. -/
def next (cursor : Cursor) : Token × Cursor :=
  let here := cursor.skipBlanks
  match here.rest with
  | [] => (⟨.eof, none, here.position⟩, here)
  | first :: rest =>
    let lexeme := Lexeme.cut first rest
    (lexeme.place here.position, here.past lexeme)

end Cursor

/-- The tokens of a text but the last, which is `eof` at the place `finish`. -/
structure TokenStream where
  tokens : List Token
  finish : Position
deriving DecidableEq, Repr

namespace TokenStream

/-- All tokens, the last one `eof`. -/
def toList (stream : TokenStream) : List Token :=
  stream.tokens ++ [⟨.eof, none, stream.finish⟩]

/-- A token in front of a stream; in front of `eof` there is no stream left. -/
def cons (token : Token) (stream : TokenStream) : TokenStream :=
  if token.kind = .eof then ⟨[], token.position⟩ else ⟨token :: stream.tokens, stream.finish⟩

/-- The stream of at most `bound` tokens from a cursor on. -/
def scanUpTo : Nat → Cursor → TokenStream
  | 0, cursor => ⟨[], cursor.position⟩
  | bound + 1, cursor =>
    let (token, after) := cursor.next
    if token.kind = .eof then ⟨[], token.position⟩
    else
      let stream := scanUpTo bound after
      ⟨token :: stream.tokens, stream.finish⟩

/-- The tokens from a cursor on: no more than there are characters, for every
lexeme takes one at least. -/
def scan (cursor : Cursor) : TokenStream := scanUpTo cursor.rest.length cursor

end TokenStream

/-- The tokens of a text, with the closing `eof`. -/
def tokenize (source : String) : List Token := (TokenStream.scan (.start source)).toList

/-- A lexer between two calls: where it stands, the token it has looked at, and
how many unknown tokens it has handed out. -/
structure Lexer where
  cursor : Cursor
  peeked : Option Token
  unknownsTaken : Nat
deriving DecidableEq, Repr

namespace Lexer

def start (source : String) : Lexer := ⟨.start source, none, 0⟩

/-- The token that comes next, and the cursor behind it. -/
def ahead (lexer : Lexer) : Token × Cursor :=
  match lexer.peeked with
  | some token => (token, lexer.cursor)
  | none => lexer.cursor.next

/-- Looks at the next token without taking it. -/
def peek (lexer : Lexer) : Token × Lexer :=
  let (token, cursor) := lexer.ahead
  (token, ⟨cursor, some token, lexer.unknownsTaken⟩)

/-- Takes the next token. -/
def next (lexer : Lexer) : Token × Lexer :=
  let (token, cursor) := lexer.ahead
  (token, ⟨cursor, none, lexer.unknownsTaken + token.isUnknown.toNat⟩)

/-- The unknown tokens met so far, the one looked at included. -/
def unknownCount (lexer : Lexer) : Nat :=
  lexer.unknownsTaken + (lexer.peeked.any Token.isUnknown).toNat

/-- Behind the last token that was met. -/
def position (lexer : Lexer) : Position := lexer.cursor.position

/-- The tokens that are left. -/
def stream (lexer : Lexer) : TokenStream :=
  match lexer.peeked with
  | some token => .cons token (.scan lexer.cursor)
  | none => .scan lexer.cursor

end Lexer

end ToyC
