import Mathlib.Computability.Language
import Mathlib.Order.CompletePartialOrder
import ToyC.Token

/-! The grammar of programs, over the kinds of their tokens, and the languages
of its phrases. The grammar is ambiguous in two places: a sign may take less
than the rest of its expression, and an `else` may belong to an outer `if`.
The equations at the end tell, for each token that may come next, what may
follow it; they are what the readers are compared with. -/
namespace ToyC

open scoped Computability

/-- The operators between two operands. -/
def isBinaryOperator : TokenKind → Bool
  | .and | .or => true
  | .equal | .notEqual | .less | .lessEqual | .greater | .greaterEqual => true
  | .plus | .minus | .times | .divide | .modulo => true
  | _ => false

def isSign : TokenKind → Bool
  | .not | .minus => true
  | _ => false

def isConstant : TokenKind → Bool
  | .intConst | .floatConst | .charConst | .booleanConst => true
  | _ => false

/-- The names of base types. -/
def isTypeWord : TokenKind → Bool
  | .intWord | .floatWord | .charWord | .booleanWord => true
  | _ => false

/-- What goes on an expression after an operand. -/
def continuesExpression (kind : TokenKind) : Bool := isBinaryOperator kind || kind == .openBracket

inductive Phrase where
  | program | declaration | dimension | furtherName
  | statement
  | expression | operation | operand | index | closed
deriving DecidableEq, Repr

/-- Which kinds of tokens, one after the other, make up a phrase. A list of
`pieces` stands for a repetition. -/
inductive Derives : Phrase → List TokenKind → Prop
  /-- `Program ::= INT MAIN LPAREN RPAREN LBRACE Decl* Stmt* RBRACE EOF` -/
  | program {declared stated : List (List TokenKind)}
      (declarations : ∀ piece ∈ declared, Derives .declaration piece)
      (statements : ∀ piece ∈ stated, Derives .statement piece) :
      Derives .program ([.intWord, .mainWord, .openParen, .closeParen, .openBrace] ++
        (declared.flatten ++ (stated.flatten ++ [.closeBrace, .eof])))
  /-- `Decl ::= (INT|FLOAT|CHAR|BOOLEAN) [Dimension] ID (COMMA ID)* SEMI` -/
  | declaration {pieces : List (List TokenKind)} (base : isTypeWord kind)
      (length : Derives .dimension size) (names : ∀ piece ∈ pieces, Derives .furtherName piece) :
      Derives .declaration (kind :: (size ++ (.identifier :: (pieces.flatten ++ [.semicolon]))))
  /-- `[LBRACKET INT_CONST RBRACKET]` -/
  | scalar : Derives .dimension []
  | array : Derives .dimension [.openBracket, .intConst, .closeBracket]
  /-- `COMMA ID` -/
  | furtherName : Derives .furtherName [.comma, .identifier]
  /-- `Stmt ::= LBRACE Stmt* RBRACE` -/
  | block {pieces : List (List TokenKind)}
      (statements : ∀ piece ∈ pieces, Derives .statement piece) :
      Derives .statement (.openBrace :: (pieces.flatten ++ [.closeBrace]))
  /-- `Stmt ::= IF LPAREN Exp RPAREN Stmt` -/
  | ifThen (condition : Derives .expression kinds) (thenBody : Derives .statement first) :
      Derives .statement (.ifWord :: .openParen :: (kinds ++ (.closeParen :: first)))
  /-- `Stmt ::= IF LPAREN Exp RPAREN Stmt ELSE Stmt` -/
  | ifThenElse (condition : Derives .expression kinds) (thenBody : Derives .statement first)
      (elseBody : Derives .statement second) :
      Derives .statement
        (.ifWord :: .openParen :: (kinds ++ (.closeParen :: (first ++ (.elseWord :: second)))))
  /-- `Stmt ::= WHILE LPAREN Exp RPAREN Stmt` -/
  | whileDo (condition : Derives .expression kinds) (body : Derives .statement first) :
      Derives .statement (.whileWord :: .openParen :: (kinds ++ (.closeParen :: first)))
  /-- `Stmt ::= ID ASSIGN Exp SEMI` -/
  | assign (value : Derives .expression kinds) :
      Derives .statement (.identifier :: .assign :: (kinds ++ [.semicolon]))
  /-- `Stmt ::= ID LBRACKET Exp RBRACKET ASSIGN Exp SEMI` -/
  | arrayAssign (index : Derives .expression inside) (value : Derives .expression kinds) :
      Derives .statement (.identifier :: .openBracket ::
        (inside ++ (.closeBracket :: .assign :: (kinds ++ [.semicolon]))))
  /-- `Exp ::= Operand (BinOp Operand)*` -/
  | expression {pieces : List (List TokenKind)} (first : Derives .operand kinds)
      (others : ∀ piece ∈ pieces, Derives .operation piece) :
      Derives .expression (kinds ++ pieces.flatten)
  | operation (binary : isBinaryOperator kind) (operand : Derives .operand kinds) :
      Derives .operation (kind :: kinds)
  /-- `Operand ::= Closed (LBRACKET Exp RBRACKET)*` -/
  | operand {pieces : List (List TokenKind)} (base : Derives .closed kinds)
      (indices : ∀ piece ∈ pieces, Derives .index piece) :
      Derives .operand (kinds ++ pieces.flatten)
  | index (inside : Derives .expression kinds) :
      Derives .index (.openBracket :: (kinds ++ [.closeBracket]))
  /-- `Operand ::= (NOT|MINUS) Exp` -/
  | sign (sign : isSign kind) (inside : Derives .expression kinds) :
      Derives .operand (kind :: kinds)
  /-- `Closed ::= literal constant | ID | LPAREN Exp RPAREN` -/
  | constant (constant : isConstant kind) : Derives .closed [kind]
  | name : Derives .closed [.identifier]
  | group (inside : Derives .expression kinds) :
      Derives .closed (.openParen :: (kinds ++ [.closeParen]))

/-- The kinds of a whole program, `eof` included. -/
def Sentence (kinds : List TokenKind) : Prop := Derives .program kinds

/-- What is no lexeme is no part of a program. -/
theorem Derives.known (derived : Derives phrase kinds) : .unknown ∉ kinds := by
  have pieces {rest : List (List TokenKind)} (each : ∀ piece ∈ rest, .unknown ∉ piece) :
      .unknown ∉ rest.flatten := by
    rw [List.mem_flatten]
    rintro ⟨piece, within, member⟩
    exact each piece within member
  have other {accepts : TokenKind → Bool} {kind : TokenKind} (accepted : accepts kind)
      (refused : accepts .unknown = false) : .unknown ≠ kind := by
    rintro rfl
    simp [refused] at accepted
  induction derived with
  | declaration base _ _ lengthIH namesIH => simp [other base rfl, lengthIH, pieces namesIH]
  | operation binary _ ih => simp [other binary rfl, ih]
  | sign sign _ ih => simp [other sign rfl, ih]
  | constant constant => simp [other constant rfl]
  | program _ _ declared stated => simp [pieces declared, pieces stated]
  | block _ ih => simp [pieces ih]
  | expression _ _ first others | operand _ _ first others => simp [first, pieces others]
  | _ => simp_all

/-! ### Languages -/

/-- The words of a phrase. -/
def Phrase.words (phrase : Phrase) : Language TokenKind := {kinds | Derives phrase kinds}

/-- The words of one kind that is accepted. -/
def oneOf (accepts : TokenKind → Bool) : Language TokenKind :=
  {kinds | ∃ kind, accepts kind ∧ kinds = [kind]}

def only (kind : TokenKind) : Language TokenKind := {[kind]}

theorem mem_words {phrase : Phrase} {kinds : List TokenKind} :
    kinds ∈ phrase.words ↔ Derives phrase kinds := Iff.rfl

@[simp] theorem cons_mem_oneOf_mul {accepts : TokenKind → Bool} {follow : Language TokenKind} :
    kind :: rest ∈ oneOf accepts * follow ↔ accepts kind ∧ rest ∈ follow := by
  constructor
  · rintro ⟨_, ⟨_, accepted, rfl⟩, after, member, same⟩
    cases same
    exact ⟨accepted, member⟩
  · rintro ⟨accepted, member⟩
    exact ⟨[kind], ⟨kind, accepted, rfl⟩, rest, member, rfl⟩

@[simp] theorem cons_mem_only_mul {expected : TokenKind} {follow : Language TokenKind} :
    kind :: rest ∈ only expected * follow ↔ kind = expected ∧ rest ∈ follow := by
  constructor
  · rintro ⟨_, rfl, after, member, same⟩
    cases same
    exact ⟨rfl, member⟩
  · rintro ⟨rfl, member⟩
    exact ⟨_, rfl, rest, member, rfl⟩

theorem mem_oneOf {accepts : TokenKind → Bool} (accepted : accepts kind) : [kind] ∈ oneOf accepts :=
  ⟨kind, accepted, rfl⟩

theorem mem_only (kind : TokenKind) : [kind] ∈ only kind := rfl

/-! ### The rules as equations -/

namespace Phrase

theorem expression_words : expression.words = operand.words * operation.words∗ := by
  ext kinds
  constructor
  · intro derived
    cases derived with
    | expression first others => exact ⟨_, first, _, ⟨_, rfl, others⟩, rfl⟩
  · rintro ⟨_, first, _, ⟨_, rfl, others⟩, rfl⟩
    exact .expression first others

theorem operation_words : operation.words = oneOf isBinaryOperator * operand.words := by
  ext kinds
  constructor
  · intro derived
    cases derived with
    | operation binary operand => exact ⟨_, mem_oneOf binary, _, operand, rfl⟩
  · rintro ⟨_, ⟨kind, binary, rfl⟩, _, operand, rfl⟩
    exact .operation binary operand

theorem operand_words :
    operand.words = closed.words * index.words∗ + oneOf isSign * expression.words := by
  ext kinds
  constructor
  · intro derived
    cases derived with
    | operand base indices => exact .inl ⟨_, base, _, ⟨_, rfl, indices⟩, rfl⟩
    | sign sign inside => exact .inr ⟨_, mem_oneOf sign, _, inside, rfl⟩
  · rintro (⟨_, base, _, ⟨_, rfl, indices⟩, rfl⟩ | ⟨_, ⟨kind, sign, rfl⟩, _, inside, rfl⟩)
    · exact .operand base indices
    · exact .sign sign inside

theorem index_words :
    index.words = only .openBracket * (expression.words * only .closeBracket) := by
  ext kinds
  constructor
  · intro derived
    cases derived with
    | index inside => exact ⟨_, mem_only _, _, ⟨_, inside, _, mem_only _, rfl⟩, rfl⟩
  · rintro ⟨_, rfl, _, ⟨_, inside, _, rfl, rfl⟩, rfl⟩
    exact .index inside

theorem closed_words :
    closed.words = oneOf isConstant + (only .identifier +
      only .openParen * (expression.words * only .closeParen)) := by
  ext kinds
  constructor
  · intro derived
    cases derived with
    | constant constant => exact .inl (mem_oneOf constant)
    | name => exact .inr (.inl (mem_only _))
    | group inside => exact .inr (.inr ⟨_, mem_only _, _, ⟨_, inside, _, mem_only _, rfl⟩, rfl⟩)
  · rintro (⟨_, constant, rfl⟩ | rfl | ⟨_, rfl, _, ⟨_, inside, _, rfl, rfl⟩, rfl⟩)
    · exact .constant constant
    · exact .name
    · exact .group inside

/-- What may stand between the `then` body of a conditional and its end. -/
def elsePart : Language TokenKind := 1 + only .elseWord * statement.words

/-- What stands behind the name of an assignment's target. -/
def assignmentRest : Language TokenKind :=
  only .assign * (expression.words * only .semicolon) +
    only .openBracket * (expression.words * (only .closeBracket *
      (only .assign * (expression.words * only .semicolon))))

theorem statement_words :
    statement.words = only .openBrace * (statement.words∗ * only .closeBrace) +
      (only .ifWord * (only .openParen * (expression.words * (only .closeParen *
          (statement.words * elsePart)))) +
        (only .whileWord * (only .openParen * (expression.words * (only .closeParen *
            statement.words))) +
          only .identifier * assignmentRest)) := by
  ext kinds
  constructor
  · intro derived
    cases derived with
    | block statements => exact .inl ⟨_, rfl, _, ⟨_, ⟨_, rfl, statements⟩, _, rfl, rfl⟩, rfl⟩
    | ifThen condition thenBody =>
      exact .inr (.inl ⟨_, rfl, _, ⟨_, rfl, _, ⟨_, condition, _, ⟨_, rfl, _,
        ⟨_, thenBody, _, .inl rfl, List.append_nil _⟩, rfl⟩, rfl⟩, rfl⟩, rfl⟩)
    | ifThenElse condition thenBody elseBody =>
      exact .inr (.inl ⟨_, rfl, _, ⟨_, rfl, _, ⟨_, condition, _, ⟨_, rfl, _,
        ⟨_, thenBody, _, .inr ⟨_, rfl, _, elseBody, rfl⟩, rfl⟩, rfl⟩, rfl⟩, rfl⟩, rfl⟩)
    | whileDo condition body =>
      exact .inr (.inr (.inl ⟨_, rfl, _, ⟨_, rfl, _, ⟨_, condition, _,
        ⟨_, rfl, _, body, rfl⟩, rfl⟩, rfl⟩, rfl⟩))
    | assign value =>
      exact .inr (.inr (.inr ⟨_, rfl, _, .inl ⟨_, rfl, _, ⟨_, value, _, rfl, rfl⟩, rfl⟩, rfl⟩))
    | arrayAssign index value =>
      exact .inr (.inr (.inr ⟨_, rfl, _, .inr ⟨_, rfl, _, ⟨_, index, _, ⟨_, rfl, _,
        ⟨_, rfl, _, ⟨_, value, _, rfl, rfl⟩, rfl⟩, rfl⟩, rfl⟩, rfl⟩, rfl⟩))
  · rintro (⟨_, rfl, _, ⟨_, ⟨_, rfl, statements⟩, _, rfl, rfl⟩, rfl⟩ |
      ⟨_, rfl, _, ⟨_, rfl, _, ⟨_, condition, _, ⟨_, rfl, _,
        ⟨_, thenBody, _, rfl | ⟨_, rfl, _, elseBody, rfl⟩, rfl⟩, rfl⟩, rfl⟩, rfl⟩, rfl⟩ |
      ⟨_, rfl, _, ⟨_, rfl, _, ⟨_, condition, _, ⟨_, rfl, _, body, rfl⟩, rfl⟩, rfl⟩, rfl⟩ |
      ⟨_, rfl, _, ⟨_, rfl, _, ⟨_, value, _, rfl, rfl⟩, rfl⟩ | ⟨_, rfl, _, ⟨_, index, _, ⟨_, rfl, _,
        ⟨_, rfl, _, ⟨_, value, _, rfl, rfl⟩, rfl⟩, rfl⟩, rfl⟩, rfl⟩, rfl⟩)
    · exact .block statements
    · simpa [mem_words] using Derives.ifThen condition thenBody
    · exact .ifThenElse condition thenBody elseBody
    · exact .whileDo condition body
    · exact .assign value
    · exact .arrayAssign index value

theorem furtherName_words : furtherName.words = only .comma * only .identifier := by
  ext kinds
  constructor
  · rintro ⟨⟩
    exact ⟨_, rfl, _, rfl, rfl⟩
  · rintro ⟨_, rfl, _, rfl, rfl⟩
    exact .furtherName

theorem dimension_words :
    dimension.words = 1 + only .openBracket * (only .intConst * only .closeBracket) := by
  ext kinds
  constructor
  · intro derived
    cases derived with
    | scalar => exact .inl rfl
    | array => exact .inr ⟨_, rfl, _, ⟨_, rfl, _, rfl, rfl⟩, rfl⟩
  · rintro (rfl | ⟨_, rfl, _, ⟨_, rfl, _, rfl, rfl⟩, rfl⟩)
    · exact .scalar
    · exact .array

theorem declaration_words :
    declaration.words = oneOf isTypeWord * (dimension.words * (only .identifier *
      (furtherName.words∗ * only .semicolon))) := by
  ext kinds
  constructor
  · intro derived
    cases derived with
    | declaration base length names =>
      exact ⟨_, mem_oneOf base, _, ⟨_, length, _, ⟨_, rfl, _, ⟨_, ⟨_, rfl, names⟩, _, rfl, rfl⟩, rfl⟩,
        rfl⟩, rfl⟩
  · rintro ⟨_, ⟨kind, base, rfl⟩, _, ⟨_, length, _, ⟨_, rfl, _, ⟨_, ⟨_, rfl, names⟩, _, rfl, rfl⟩, rfl⟩,
      rfl⟩, rfl⟩
    exact .declaration base length names

theorem program_words :
    program.words = only .intWord * (only .mainWord * (only .openParen * (only .closeParen *
      (only .openBrace * (declaration.words∗ * (statement.words∗ *
        (only .closeBrace * only .eof))))))) := by
  ext kinds
  constructor
  · intro derived
    cases derived with
    | program declarations statements =>
      exact ⟨_, rfl, _, ⟨_, rfl, _, ⟨_, rfl, _, ⟨_, rfl, _, ⟨_, rfl, _, ⟨_, ⟨_, rfl, declarations⟩, _,
        ⟨_, ⟨_, rfl, statements⟩, _, ⟨_, rfl, _, rfl, rfl⟩, rfl⟩, rfl⟩, rfl⟩, rfl⟩, rfl⟩, rfl⟩, rfl⟩
  · rintro ⟨_, rfl, _, ⟨_, rfl, _, ⟨_, rfl, _, ⟨_, rfl, _, ⟨_, rfl, _, ⟨_, ⟨_, rfl, declarations⟩, _,
      ⟨_, ⟨_, rfl, statements⟩, _, ⟨_, rfl, _, rfl, rfl⟩, rfl⟩, rfl⟩, rfl⟩, rfl⟩, rfl⟩, rfl⟩, rfl⟩
    exact .program declarations statements

end Phrase

end ToyC
