import ToyC.Proofs.Lexemes
import ToyC.Report

/-! Layout does not matter. Places are carried from tokens to reports, and no
reader looks at them: to forget all places before reading comes to the same as
to forget them afterwards. So two texts whose tokens say the same are read
alike, and a gap between tokens may be any other gap. -/
namespace ToyC

def Token.erase (token : Token) : Token := { token with position := .start }

def SyntaxError.erase (error : SyntaxError) : SyntaxError := { error with position := .start }

namespace Parser

/-- The parser when all places are forgotten. -/
def erase (parser : Parser) : Parser :=
  { parser with
    ahead := parser.ahead.map Token.erase
    finish := .start
    errors := parser.errors.map SyntaxError.erase }

/-! ### Steps -/

variable (parser : Parser)

@[simp] theorem erase_current : parser.erase.current = parser.current.erase := by
  cases next : parser.ahead <;> simp [current, erase, next, Token.erase]

@[simp] theorem erase_kind : parser.erase.kind = parser.kind := by
  rw [kind, erase_current]
  rfl

theorem erase_length : parser.erase.ahead.length = parser.ahead.length := List.length_map _

@[simp] theorem erase_pass (count : Nat) : parser.erase.pass count = (parser.pass count).erase := by
  have unknown : Token.isUnknown ∘ Token.erase = Token.isUnknown := rfl
  simp [pass, erase, ← List.map_take, List.countP_map, unknown]

@[simp] theorem erase_advance : parser.erase.advance = parser.advance.erase := erase_pass parser 1

@[simp] theorem erase_reportAs (cause : SyntaxCause) (expected : TokenKind) :
    parser.erase.reportAs cause expected = (parser.reportAs cause expected).erase := by
  rw [reportAs, reportAs, erase_kind, erase_current]
  change (if parser.reportedAt = some parser.consumed then _ else _) = _
  split <;> rfl

@[simp] theorem erase_report (expected : TokenKind) :
    parser.erase.report expected = (parser.report expected).erase :=
  erase_reportAs parser .unexpected expected

@[simp] theorem erase_skipTo (follow : List TokenKind) :
    parser.erase.skipTo follow = (parser.skipTo follow).erase := by
  have stops : ((fun token => !token.isOneOf follow) ∘ Token.erase) =
      fun token => !token.isOneOf follow := rfl
  rw [skipTo, skipTo, erase_pass]
  simp [erase, List.takeWhile_map, stops]

@[simp] theorem erase_expect (expected : TokenKind) :
    parser.erase.expect expected = (parser.expect expected).erase := by
  rw [expect, expect, erase_kind]
  split <;> simp

@[simp] theorem erase_expectOr (expected : TokenKind) (follow : List TokenKind) :
    parser.erase.expectOr expected follow = (parser.expectOr expected follow).erase := by
  rw [expectOr, expectOr, erase_kind]
  split <;> simp

@[simp] theorem erase_enter : parser.erase.enter = parser.enter.erase := rfl

@[simp] theorem erase_leave (levels : Nat) :
    parser.erase.leave levels = (parser.leave levels).erase := rfl

@[simp] theorem erase_refuse (expected : TokenKind) :
    parser.erase.refuse expected = (parser.refuse expected).erase := by
  rw [refuse, refuse, erase_reportAs, ← erase_skipTo]
  rfl

@[simp] theorem erase_recordIdentifier (name : String) :
    parser.erase.recordIdentifier name = (parser.recordIdentifier name).erase := rfl

@[simp] theorem erase_recordAssignment (assignment : Assignment) :
    parser.erase.recordAssignment assignment = (parser.recordAssignment assignment).erase := rfl

@[simp] theorem erase_recordCondition (condition : Expr) :
    parser.erase.recordCondition condition = (parser.recordCondition condition).erase := rfl

@[simp] theorem erase_recordDeclarations (declarations : List VarDecl) :
    parser.erase.recordDeclarations declarations =
      (parser.recordDeclarations declarations).erase := rfl

end Parser

/-- Reading gives the same, and leaves the same, when places are forgotten. -/
def IgnoresPlaces (read : Parser → α × Parser) : Prop :=
  ∀ parser, read parser.erase = ((read parser).1, (read parser).2.erase)

variable {expr : Parser → Expr × Parser} {operators : Int → Expr → Parser → Expr × Parser}
  {stmt : Parser → Stmt × Parser}

theorem ignoresPlaces_repeatWhile {step : Parser → α × Parser} (ignores : IgnoresPlaces step)
    (goesOn : TokenKind → Bool) : IgnoresPlaces (Parser.repeatWhile goesOn step) := by
  intro parser
  rw [Parser.repeatWhile, Parser.repeatWhile, Parser.erase_length]
  generalize parser.ahead.length = bound
  induction bound generalizing parser with
  | zero => rfl
  | succ bound ih =>
    rw [Parser.repeatUpTo, Parser.repeatUpTo, Parser.erase_kind]
    split
    · simp only [ignores parser, ih]
    · rfl

/-! ### Expressions -/

theorem OperandRule.read_ignoresPlaces (rule : OperandRule) (ignores : IgnoresPlaces expr) :
    IgnoresPlaces (rule.read expr) := by
  intro parser
  cases rule <;> simp [read, ignores _, Token.erase, Token.identifier?]

theorem Table.readOperand_ignoresPlaces (table : Table) (ignores : IgnoresPlaces expr) :
    IgnoresPlaces (table.readOperand expr) := by
  intro parser
  rw [readOperand, readOperand, Parser.erase_kind]
  split
  · exact OperandRule.read_ignoresPlaces _ ignores parser
  · simp

theorem OperatorRule.read_ignoresPlaces (table : Table) (rule : OperatorRule)
    (precedence : Precedence) (left : Expr) (ignores : IgnoresPlaces expr)
    (folds : ∀ floor left, IgnoresPlaces (operators floor left)) :
    IgnoresPlaces (rule.read table expr operators precedence left) := by
  intro parser
  cases rule with
  | binary =>
    simp only [read, Parser.erase_kind]
    split
    · simp
    · have operand := table.readOperand_ignoresPlaces ignores parser.advance
      simp [operand, folds _ _ _]
  | index => simp [read, ignores _]

private theorem within_ignoresPlaces (table : Table) (levels : Nat) :
    IgnoresPlaces (table.exprWithin levels) ∧
      ∀ floor left, IgnoresPlaces (table.operatorsWithin levels floor left) := by
  induction levels with
  | zero =>
    refine ⟨fun parser => ?_, fun floor left parser => ?_⟩
    · simp [Table.exprWithin]
    · rw [Table.operatorsWithin, Table.operatorsWithin, Parser.erase_kind]
      split
      · rfl
      · split <;> simp
  | succ levels ih =>
    obtain ⟨ignores, folds⟩ := ih
    refine ⟨fun parser => ?_, fun floor left parser => ?_⟩
    · have operand := table.readOperand_ignoresPlaces ignores parser.enter
      simp [Table.exprWithin, operand, folds _ _ _]
    · rw [Table.operatorsWithin, Table.operatorsWithin, Parser.erase_kind]
      split
      · rfl
      · split
        · rfl
        · rename_i precedence rule _ _
          have folded := rule.read_ignoresPlaces table precedence left ignores folds parser.enter
          simp [folded, folds _ _ _]

theorem exprWithin_ignoresPlaces (table : Table) (levels : Nat) :
    IgnoresPlaces (table.exprWithin levels) := (within_ignoresPlaces table levels).1

/-! ### Statements -/

theorem condition_ignoresPlaces (ignores : IgnoresPlaces expr) :
    IgnoresPlaces (Parser.condition expr) := by
  intro parser
  simp [Parser.condition, ignores _]

private theorem assignmentTo_ignoresPlaces (ignores : IgnoresPlaces expr) (target : String) :
    IgnoresPlaces (Parser.assignmentTo expr target) := by
  intro parser
  rw [Parser.assignmentTo, Parser.assignmentTo, Parser.erase_kind]
  split <;> simp [ignores _, Parser.unknownStatement]

theorem StatementRule.read_ignoresPlaces (rule : StatementRule) (ignores : IgnoresPlaces expr)
    (body : IgnoresPlaces stmt) : IgnoresPlaces (rule.read expr stmt) := by
  intro parser
  have condition := condition_ignoresPlaces ignores parser.advance
  cases rule with
  | conditional =>
    simp only [read, Parser.erase_advance, condition, body _, Parser.erase_kind]
    split <;> rfl
  | loop => simp only [read, Parser.erase_advance, condition, body _]
  | block =>
    have stmts := ignoresPlaces_repeatWhile body continuesBlock parser.advance
    simp [read, stmts]
  | assignment =>
    simp [read, assignmentTo_ignoresPlaces ignores _ _, Token.erase, Token.identifier?]
  | statement => exact body parser

theorem stmtWithin_ignoresPlaces (table : Table) (levels : Nat) :
    IgnoresPlaces (table.stmtWithin levels) := by
  intro parser
  induction levels generalizing parser with
  | zero =>
    simp only [Table.stmtWithin, Parser.erase_refuse, Parser.erase_kind]
    split <;> simp
  | succ levels ih =>
    simp only [Table.stmtWithin, Parser.erase_enter, Parser.erase_kind]
    split
    · rename_i rule _
      simp [rule.read_ignoresPlaces (exprWithin_ignoresPlaces table levels) ih parser.enter]
    · simp [Parser.unknownStatement]

/-! ### Declarations and programs -/

private theorem type_ignoresPlaces : IgnoresPlaces Parser.type := by
  intro parser
  rw [Parser.type, Parser.type, Parser.erase_kind]
  split
  · simp
  · simp only [Parser.erase_advance, Parser.erase_kind]
    split
    · split <;> simp
    · rfl

private theorem identifier_ignoresPlaces : IgnoresPlaces Parser.identifier := by
  intro parser
  rw [Parser.identifier, Parser.identifier, Parser.erase_kind]
  split <;> simp [Token.erase, Token.identifier?]

private theorem declaration_ignoresPlaces : IgnoresPlaces Parser.declaration := by
  intro parser
  have furtherName : IgnoresPlaces fun parser : Parser => parser.advance.identifier := by
    intro parser
    simp [identifier_ignoresPlaces _]
  have others := ignoresPlaces_repeatWhile furtherName (· = .comma)
  simp [Parser.declaration, type_ignoresPlaces _, identifier_ignoresPlaces _, others _]

theorem program_ignoresPlaces (table : Table) : IgnoresPlaces (Parser.program table) := by
  intro parser
  have declarations := ignoresPlaces_repeatWhile declaration_ignoresPlaces startsType
  have statements (levels : Nat) :=
    ignoresPlaces_repeatWhile (stmtWithin_ignoresPlaces table levels) startsStatement
  have nesting (parser : Parser) : parser.erase.nesting = parser.nesting := rfl
  simp [Parser.program, Parser.declarations, Parser.statements, declarations _, statements _ _,
    nesting]

/-! ### Texts -/

/-- What was read, when the places of the reports are forgotten. -/
def ParsedProgram.erase (parsed : ParsedProgram) : ParsedProgram :=
  { parsed with errors := parsed.errors.map SyntaxError.erase }

private theorem map_erase_eq {tokens others : List Token}
    (same : tokens.map Token.content = others.map Token.content) :
    tokens.map Token.erase = others.map Token.erase := by
  have fromContent : Token.erase = (fun content => ⟨content.kind, content.literal, .start⟩) ∘
      Token.content := rfl
  rw [fromContent, ← List.map_map, ← List.map_map, same]

private theorem ofSource_erase_eq {source source' : String}
    (same : (tokenize source).map Token.content = (tokenize source').map Token.content) :
    (Parser.ofSource source).erase = (Parser.ofSource source').erase := by
  simp only [tokenize, TokenStream.toList, List.map_append] at same
  have ahead := map_erase_eq (List.append_inj_left' same rfl)
  simp only [Parser.ofSource, Parser.ofLexer, Parser.start, Parser.erase, Lexer.stream, Lexer.start,
    ahead]

theorem finishProgram_erase (table : Table) (parser : Parser) :
    parser.erase.finishProgram table = (parser.finishProgram table).erase := by
  rw [Parser.finishProgram, Parser.finishProgram, program_ignoresPlaces]
  simp only [ParsedProgram.erase, Parser.erase, List.map_reverse]

/-- Texts whose tokens say the same are read alike. -/
theorem parse_erase_eq {source source' : String}
    (same : (tokenize source).map Token.content = (tokenize source').map Token.content) :
    (parse source).erase = (parse source').erase := by
  rw [parse, parse, ← finishProgram_erase, ← finishProgram_erase, ofSource_erase_eq same]

/-- Layout does not matter. Texts whose tokens say the same have the same
program and the same records, as many unknown tokens, reports with the same
findings and expectations in the same order, and the same semantic errors. And
the tokens say the same if one gap is put for another. -/
theorem parse_ignores_layout :
    (∀ source source' : String,
      (tokenize source).map Token.content = (tokenize source').map Token.content →
        (parse source).program = (parse source').program ∧
        (parse source).inventory = (parse source').inventory ∧
        (parse source).lexicalErrors = (parse source').lexicalErrors ∧
        ((parse source).errors.map fun error => (error.found, error.expected)) =
          ((parse source').errors.map fun error => (error.found, error.expected)) ∧
        (check source).semantic = (check source').semantic) ∧
    (∀ before gap gap' behind : String, gap ≠ "" → gap' ≠ "" →
      (∀ c ∈ gap.toList, isBlank c) → (∀ c ∈ gap'.toList, isBlank c) →
        (tokenize (before ++ gap ++ behind)).map Token.content =
          (tokenize (before ++ gap' ++ behind)).map Token.content) := by
  refine ⟨fun source source' same => ?_, fun before gap gap' behind some some' blank blank' =>
    tokenize_gap some some' blank blank'⟩
  have alike := parse_erase_eq same
  simp only [ParsedProgram.erase, ParsedProgram.mk.injEq] at alike
  obtain ⟨program, inventory, errors, lexicalErrors⟩ := alike
  refine ⟨program, inventory, lexicalErrors, ?_, ?_⟩
  · have kinds : (fun error : SyntaxError => (error.found, error.expected)) =
        (fun error => (error.found, error.expected)) ∘ SyntaxError.erase := rfl
    rw [kinds, ← List.map_map, ← List.map_map, errors]
  · rw [check, check, inventory]

/-- A line break and a tab for a space, behind a point that no digit follows. -/
theorem gap_behind_point :
    let source := "int main() \x7b a = 12.;" ++ " " ++ "'x' \x7d"
    let source' := "int main() \x7b a = 12.;" ++ "\r\n\t" ++ "'x' \x7d"
    (tokenize source).map Token.content = (tokenize source').map Token.content ∧
      ((parse source).errors.map fun error => (error.found, error.expected)) =
        ((parse source').errors.map fun error => (error.found, error.expected)) := by
  intro source source'
  have blank : " ".toList.all isBlank := by decide +kernel
  have blank' : "\r\n\t".toList.all isBlank := by decide +kernel
  have same := parse_ignores_layout.2 "int main() \x7b a = 12.;" " " "\r\n\t" "'x' \x7d"
    (by decide) (by decide) (List.all_eq_true.mp blank) (List.all_eq_true.mp blank')
  exact ⟨same, (parse_ignores_layout.1 source source' same).2.2.2.1⟩

end ToyC
