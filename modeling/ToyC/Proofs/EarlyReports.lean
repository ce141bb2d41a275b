import ToyC.Proofs.Online
import ToyC.Proofs.Reports

/-! Reports are made as the text is read. All readers only look at the current
token, so what is reported about the first tokens of a text is known before the
tokens behind them are: these only add reports of their own. -/
namespace ToyC

variable {expr : Parser → Expr × Parser} {operators : Int → Expr → Parser → Expr × Parser}
  {stmt : Parser → Stmt × Parser}

/-! ### Expressions -/

theorem OperandRule.read_online (rule : OperandRule) (online : Online expr) :
    Online (rule.read expr) := by
  cases rule with
  | constant =>
    refine .of_current fun token => ⟨_, .returning .advance
      ((token.literal.bind Expr.ofConstant?).getD .error), fun parser same => ?_⟩
    rw [read, same]
  | name =>
    refine .of_current fun token => ⟨_, .returning (.comp (.recordIdentifier
      (token.identifier?.getD "")) .advance) (.identifier (token.identifier?.getD "")),
      fun parser same => ?_⟩
    rw [read, same]
  | sign =>
    refine .of_kind fun kind => ⟨_, (online.behind .advance).map fun operand =>
      if kind = .minus then .negate operand else .not operand, fun parser same => ?_⟩
    rw [read, same]
  | group => exact (online.behind .advance).before (.expect .closeParen)
  | expression => exact online

theorem Table.readOperand_online (table : Table) (online : Online expr) :
    Online (table.readOperand expr) := by
  refine .of_kind fun kind => ?_
  cases found : table.operand kind with
  | none =>
    refine ⟨_, .returning (.comp .advance (.report .expression)) .error, fun parser same => ?_⟩
    rw [readOperand, same, found]
  | some rule =>
    refine ⟨_, rule.read_online online, fun parser same => ?_⟩
    rw [readOperand, same, found]

theorem OperatorRule.read_online (table : Table) (rule : OperatorRule) (precedence : Precedence)
    (left : Expr) (online : Online expr) (folds : ∀ floor left, Online (operators floor left)) :
    Online (rule.read table expr operators precedence left) := by
  cases rule with
  | binary =>
    refine .of_kind fun kind => ?_
    cases found : BinaryOp.ofKind? kind with
    | none =>
      refine ⟨_, .returning (.comp .advance (.report .operator)) left, fun parser same => ?_⟩
      simp only [read, same, found]
    | some operator =>
      have operand := (table.readOperand_online online).behind .advance
      have right := operand.bind fun value => folds (precedence.level + 1) value
      refine ⟨_, right.map (Expr.binary operator left), fun parser same => ?_⟩
      simp only [read, same, found]
  | index =>
    have index := (online.behind .advance).before (.expect .closeBracket)
    exact index.map (Expr.arrayLookup left)

private theorem within_online (levels : Nat) :
    Online (Table.standard.exprWithin levels) ∧
      ∀ floor left, Online (Table.standard.operatorsWithin levels floor left) := by
  induction levels with
  | zero =>
    refine ⟨.returning (.refuse .expression) Expr.error, fun floor left => .of_kind fun kind => ?_⟩
    rcases stopsAt_or_operator floor kind with stops | ⟨precedence, rule, found, high⟩
    · exact ⟨_, .pure left, fun parser same => operatorsWithin_of_stop (same ▸ stops) 0 left⟩
    · exact ⟨_, .returning (.refuse .expression) left, fun parser same =>
        operatorsWithin_zero left (same ▸ found) high⟩
  | succ levels ih =>
    obtain ⟨online, folds⟩ := ih
    have operand := (Table.standard.readOperand_online online).behind .enter
    refine ⟨(operand.bind (folds 0)).before (.leave 1), fun floor left => .of_kind fun kind => ?_⟩
    rcases stopsAt_or_operator floor kind with stops | ⟨precedence, rule, found, high⟩
    · exact ⟨_, .pure left, fun parser same => operatorsWithin_of_stop (same ▸ stops) _ left⟩
    · have folded := (rule.read_online .standard precedence left online folds).behind .enter
      exact ⟨_, (folded.bind (folds floor)).before (.leave 1), fun parser same =>
        operatorsWithin_succ levels left (same ▸ found) high⟩

theorem exprWithin_online (levels : Nat) : Online (Table.standard.exprWithin levels) :=
  (within_online levels).1

/-! ### Statements -/

theorem condition_online (online : Online expr) : Online (Parser.condition expr) := by
  have inner := online.behind (.expectOr .openParen [.closeParen, .openBrace, .closeBrace])
  exact inner.bind fun value => .returning (.comp
    (.expectOr .closeParen [.openBrace, .semicolon, .closeBrace]) (.recordCondition value)) value

theorem unknownStatement_online : Online Parser.unknownStatement :=
  .returning (.comp .advance (.report .statement)) Stmt.error

theorem assignmentTo_online (online : Online expr) (target : String) :
    Online (Parser.assignmentTo expr target) := by
  have value := online.behind .advance
  refine .of_kind fun kind => ?_
  by_cases assign : kind = .assign
  · refine ⟨_, value.bind fun value => .returning (.comp (.recordAssignment ⟨target, value⟩)
      (.expect .semicolon)) (.assign target value), fun parser same => ?_⟩
    simp only [Parser.assignmentTo, same, assign]
  · by_cases bracket : kind = .openBracket
    · have equals : OnlineStep fun parser =>
          (parser.expectOr .closeBracket [.assign, .semicolon]).expectOr .assign [.semicolon] :=
        .comp (.expectOr .assign [.semicolon]) (.expectOr .closeBracket [.assign, .semicolon])
      refine ⟨_, value.bind fun index => (online.behind equals).bind fun value =>
        .returning (.comp (.recordAssignment ⟨target, value⟩) (.expect .semicolon))
          (.arrayAssign target index value), fun parser same => ?_⟩
      simp only [Parser.assignmentTo, same, bracket]
    · refine ⟨_, unknownStatement_online, fun parser same => ?_⟩
      rw [Parser.assignmentTo, same]
      split <;> simp_all

theorem StatementRule.read_online (rule : StatementRule) (online : Online expr)
    (body : Online stmt)
    (shorter : ∀ parser, continuesBlock parser.kind →
      (stmt parser).2.ahead.length < parser.ahead.length) :
    Online (rule.read expr stmt) := by
  have condition := (condition_online online).behind .advance
  cases rule with
  | conditional =>
    have elseBody := body.behind .advance
    exact condition.bind fun condition => body.bind fun thenBody =>
      .ite (· = .elseWord) (elseBody.map (Stmt.ifThenElse condition thenBody))
        (.pure (.ifThen condition thenBody))
  | loop => exact condition.bind fun condition => body.map (Stmt.whileDo condition)
  | block =>
    have stmts := (online_repeatWhile body shorter rfl).behind .advance
    exact (stmts.before (.expectOr .closeBrace [.closeBrace, .semicolon])).map Stmt.block
  | assignment =>
    refine .of_current fun token => ?_
    have target : OnlineStep fun parser =>
        parser.advance.recordIdentifier (token.identifier?.getD "") :=
      .comp (.recordIdentifier _) .advance
    have reading := (assignmentTo_online online (token.identifier?.getD "")).behind target
    refine ⟨_, reading, fun parser same => ?_⟩
    rw [read, same]
  | statement => exact body

theorem stmtWithin_online (levels : Nat) : Online (Table.standard.stmtWithin levels) := by
  induction levels with
  | zero =>
    have skip : OnlineStep fun parser =>
        if parser.kind = .semicolon then parser.advance else parser :=
      .ite (· = .semicolon) .advance (.pure ())
    exact .returning (.comp skip (.refuse .statement)) Stmt.error
  | succ levels ih =>
    refine .of_kind fun kind => ?_
    cases found : Table.standard.statement kind with
    | none =>
      refine ⟨_, (unknownStatement_online.behind .enter).before (.leave 1), fun parser same => ?_⟩
      have entered : parser.enter.kind = kind := same
      simp only [Table.stmtWithin, entered, found]
    | some rule =>
      have ruled := rule.read_online (exprWithin_online levels) ih
        (stmtWithin_shorter rfl rfl levels)
      refine ⟨_, (ruled.behind .enter).before (.leave 1), fun parser same => ?_⟩
      have entered : parser.enter.kind = kind := same
      simp only [Table.stmtWithin, entered, found]

/-! ### Declarations and programs -/

/-- To find an array's length and its bracket is to find one behind the other. -/
private theorem type_online : Online Parser.type := by
  have closing (base : BaseType) : Online fun length : Parser =>
      if length.kind = .closeBracket then (Ty.array base, length.advance)
      else (.error, length.report .type) :=
    .ite (· = .closeBracket) (.returning .advance _) (.returning (.report .type) _)
  refine .of_kind fun kind => ?_
  cases named : baseTypeOfKind? kind with
  | none =>
    refine ⟨_, .returning (.report .type) .error, fun parser same => ?_⟩
    rw [Parser.type, same, named]
  | some base =>
    have length : Online fun length : Parser =>
        if length.kind = .intConst then
          if length.advance.kind = .closeBracket then (Ty.array base, length.advance.advance)
          else (.error, length.advance.report .type)
        else (.error, (length.report .intConst).report .type) :=
      .ite (· = .intConst) ((closing base).behind .advance)
        (.returning (.comp (.report .type) (.report .intConst)) _)
    have bracket := Online.ite (· = .openBracket) (length.behind .advance) (.pure (.scalar base))
    refine ⟨_, bracket.behind .advance, fun parser same => ?_⟩
    simp only [Parser.type, same, named]
    split
    · by_cases found : parser.advance.advance.kind = .intConst
      · by_cases closed : parser.advance.advance.advance.kind = .closeBracket
        · simp [found, closed]
        · simp [found, closed, Parser.expect]
      · simp [found, Parser.expect]
    · rfl

private theorem identifier_online : Online Parser.identifier := by
  refine .of_current fun token => ?_
  by_cases name : token.kind = .identifier
  · refine ⟨_, .returning .advance (some (token.identifier?.getD "")), fun parser same => ?_⟩
    rw [Parser.identifier, Parser.kind, same, if_pos name]
  · refine ⟨_, .returning (.report .identifier) none, fun parser same => ?_⟩
    rw [Parser.identifier, Parser.kind, same, if_neg name]

private theorem declaration_online : Online Parser.declaration := by
  have others : Online fun parser : Parser =>
      parser.repeatWhile (· = .comma) fun comma => comma.advance.identifier :=
    online_repeatWhile (identifier_online.behind .advance)
      (fun parser comma => (furtherName_takes parser (by simpa using comma)).shorter) rfl
  have closing (declared : List VarDecl) : Online fun parser =>
      (declared, (parser.recordDeclarations declared).expect .semicolon) :=
    .returning (.comp (.expect .semicolon) (.recordDeclarations declared)) declared
  exact type_online.bind fun type => identifier_online.bind fun first => others.bind fun names =>
    closing ((first :: names).reduceOption.map (VarDecl.mk type))

private theorem statements_online : Online (Parser.statements .standard) := by
  have nesting (parser : Parser) (rest : List Token) (finish : Position)
      (_ : parser.ahead ≠ []) : (parser.onto rest finish).nesting = parser.nesting := rfl
  have repeated (levels : Nat) : Online fun parser : Parser =>
      parser.repeatWhile startsStatement (Table.standard.stmtWithin levels) :=
    online_repeatWhile (stmtWithin_online levels) (stmtWithin_shorter rfl rfl levels) rfl
  refine .of_look nesting fun nesting => ⟨_, repeated nesting.levelsLeft, fun parser same => ?_⟩
  rw [Parser.statements, same]

/-- Reading a program up to its last brace is online. -/
theorem programBody_online : Online Parser.programBody := by
  have header : OnlineStep fun parser => ((((parser.expect .intWord).expect .mainWord).expect
      .openParen).expect .closeParen).expect .openBrace :=
    .comp (.expect .openBrace) (.comp (.expect .closeParen) (.comp (.expect .openParen)
      (.comp (.expect .mainWord) (.expect .intWord))))
  have declarations : Online Parser.declarations := online_repeatWhile declaration_online
    (fun parser starts => (declaration_takes parser starts).shorter) rfl
  have whole := (declarations.behind header).bind fun declared =>
    statements_online.map (Program.mk declared)
  exact whole

/-- Reading a program is online. -/
theorem program_online : Online (Parser.program .standard) := by
  have footer : OnlineStep fun parser => ((parser.expect .closeBrace).expect .eof).skipTo [] :=
    .comp (.skipTo []) (.comp (.expect .eof) (.expect .closeBrace))
  have whole := programBody_online.before footer
  rwa [← funext Parser.program_eq] at whole

/-! ### Texts -/

/-- A list of tokens ends with its only `eof`: nothing agrees with all of it but itself. -/
theorem TokenStream.eq_of_take_eq {stream stream' : TokenStream}
    (present : ∀ token ∈ stream'.tokens, token.kind ≠ .eof)
    (agree : stream.toList.take count = stream'.toList.take count)
    (whole : stream.tokens.length < count) : stream = stream' := by
  have all : stream.toList.length ≤ count := by
    rw [toList, List.length_append]
    exact whole
  rw [List.take_of_length_le all] at agree
  have split : stream.toList ++ stream'.toList.drop count = stream'.toList := by
    rw [agree, List.take_append_drop]
  rcases List.eq_nil_or_concat' (stream'.toList.drop count) with nothing | ⟨between, last, more⟩
  · rw [nothing, List.append_nil] at split
    obtain ⟨same, closing⟩ := List.append_inj' split rfl
    cases stream
    cases stream'
    simp_all
  · -- Then `eof` would stand among the tokens before the last one.
    rw [more, ← List.append_assoc] at split
    have inside := (List.append_inj' split rfl).1
    refine absurd rfl (present ⟨.eof, none, stream.finish⟩ ?_)
    rw [← inside]
    exact List.mem_append_left _ (List.mem_append_right _ List.mem_cons_self)

/-- The parser at the start of a text, if only these first tokens are known. -/
def Parser.knowing (tokens : List Token) : Parser := start ⟨tokens, .start⟩ 0

theorem Parser.knowing_horizon (tokens : List Token) : (knowing tokens).horizon = tokens.length :=
  Nat.zero_add _

private theorem ofSource_eq_onto (source : String) (count : Nat) :
    .ofSource source = (Parser.knowing ((TokenStream.scan (.start source)).tokens.take count)).onto
      ((TokenStream.scan (.start source)).tokens.drop count)
      (TokenStream.scan (.start source)).finish := by
  simp [Parser.ofSource, Parser.ofLexer, Parser.knowing, Parser.start, Parser.onto, Lexer.stream,
    Lexer.start]

/-- The first tokens of a text settle the reports about them. -/
private theorem program_reportsBefore_eq {source source' : String}
    (agree : (tokenize source).take count = (tokenize source').take count) :
    ((Parser.ofSource source).program .standard).2.reportsBefore count =
      ((Parser.ofSource source').program .standard).2.reportsBefore count := by
  have present (source : String) (token : Token)
      (member : token ∈ (TokenStream.scan (.start source)).tokens) : token.kind ≠ .eof :=
    (scan_cut source token member).present
  have whole (same : TokenStream.scan (.start source) = TokenStream.scan (.start source')) :
      Parser.ofSource source = Parser.ofSource source' := congrArg (Parser.start · 0) same
  -- If the closing token is among them, the texts have all tokens in common.
  rcases Nat.lt_or_ge (TokenStream.scan (.start source)).tokens.length count with all | within
  · rw [whole (TokenStream.eq_of_take_eq (present source') agree all)]
  rcases Nat.lt_or_ge (TokenStream.scan (.start source')).tokens.length count with all | within'
  · rw [whole (TokenStream.eq_of_take_eq (present source) agree.symm all).symm]
  rw [tokenize, tokenize, TokenStream.toList, TokenStream.toList,
    List.take_append_of_le_length within, List.take_append_of_le_length within'] at agree
  rw [ofSource_eq_onto source count, ofSource_eq_onto source' count, ← agree]
  have length := List.length_take_of_le within
  generalize (TokenStream.scan (.start source)).tokens.take count = first at length
  subst length
  by_cases some : first = []
  · simp [some, Parser.reportsBefore]
  · have settled := program_online.settled (.knowing first) some
    rw [Parser.knowing_horizon] at settled
    exact settled.reportsBefore_eq _ _ _ _

/-- In a list with rising indices the lower ones come first. -/
private theorem filter_append_filter {errors : List SyntaxError}
    (ordered : errors.Pairwise fun earlier later => earlier.index < later.index) (count : Nat) :
    (errors.filter fun error => error.index < count) ++
      (errors.filter fun error => count ≤ error.index) = errors := by
  induction ordered with
  | nil => rfl
  | @cons error errors before _ ih =>
    rcases Nat.lt_or_ge error.index count with below | above
    · rw [List.filter_cons_of_pos (by simpa using below),
        List.filter_cons_of_neg (by simpa using below), List.cons_append, ih]
    · have none : (errors.filter fun error => error.index < count) = [] :=
        List.filter_eq_nil_iff.mpr fun later member => by
          have := before later member
          simp only [decide_eq_true_eq]
          omega
      rw [none, List.nil_append] at ih
      rw [List.filter_cons_of_neg (by simpa using above), none, List.nil_append,
        List.filter_cons_of_pos (by simpa using above), ih]

/-- The report names the token that its index tells. -/
def SyntaxError.IsAbout (error : SyntaxError) (tokens : List Token) : Prop :=
  ∃ token, tokens[error.index]? = some token ∧ error.found = token.kind ∧
    error.position = token.position

theorem parse_errors_about (source : String) :
    ((parse source).errors.Pairwise fun earlier later => earlier.index < later.index) ∧
      ∀ error ∈ (parse source).errors, error.found ≠ .eof → error.IsAbout (tokenize source) := by
  obtain ⟨parser, tracks, errors, _⟩ := parse_tracks source
  rw [errors]
  refine ⟨List.pairwise_reverse.mpr tracks.ordered, fun error member other => ?_⟩
  obtain ⟨found, position, -⟩ := tracks.faithful error (List.mem_reverse.mp member)
  rcases Nat.lt_or_ge error.index (TokenStream.scan (.start source)).tokens.length with
    present | beyond
  · refine ⟨_, ?_, found, position⟩
    rw [tokenize, TokenStream.toList, List.getElem?_append_left present,
      List.getElem?_eq_getElem present, TokenStream.tokenAt_of_lt present]
  · rw [TokenStream.tokenAt_of_le beyond] at found
    exact absurd found other

/-- Texts with the same first tokens have the same reports about them, in the
same order, and what follows these tokens only adds reports behind. -/
theorem reports_are_online {source source' : String} {count : Nat}
    (agree : (tokenize source).take count = (tokenize source').take count) :
    ∃ shared later later', (parse source).errors = shared ++ later ∧
      (parse source').errors = shared ++ later' ∧
      (∀ error ∈ shared, error.index < count) ∧ (∀ error ∈ later, count ≤ error.index) ∧
      (∀ error ∈ later', count ≤ error.index) ∧
      (∀ error ∈ shared ++ later, error.found ≠ .eof → error.IsAbout (tokenize source)) ∧
      (∀ error ∈ shared ++ later', error.found ≠ .eof → error.IsAbout (tokenize source')) := by
  have shared (source : String) : ((parse source).errors.filter fun error => error.index < count) =
      (((Parser.ofSource source).program .standard).2.reportsBefore count).reverse := by
    rw [parse, Parser.finishProgram, List.filter_reverse, Parser.reportsBefore]
  obtain ⟨ordered, about⟩ := parse_errors_about source
  obtain ⟨ordered', about'⟩ := parse_errors_about source'
  have split := filter_append_filter ordered count
  have split' := filter_append_filter ordered' count
  rw [shared source', ← program_reportsBefore_eq agree, ← shared source] at split'
  rw [← split] at about
  rw [← split'] at about'
  refine ⟨_, _, _, split.symm, split'.symm, ?_, ?_, ?_, about, about'⟩
  all_goals
    intro error member
    exact of_decide_eq_true (List.mem_filter.mp member).2

/-- Five reports, the last one about the last token that the texts share: the one
text ends its blocks behind it, the other one goes on with errors of its own. -/
theorem reports_before_texts_part :
    let start := "int main() \x7b while (a) \x7b b = ); if c) d[ = 1;"
    let source := start ++ " e = 2; \x7d \x7d"
    let source' := start ++ "; if (a) ) [ + while"
    (tokenize source).take 22 = (tokenize source').take 22 ∧
      ∃ shared later later', (parse source).errors = shared ++ later ∧
        (parse source').errors = shared ++ later' ∧
        shared.map SyntaxError.index = [12, 15, 16, 17, 21] ∧
        (∀ error ∈ later, 22 ≤ error.index) ∧ (∀ error ∈ later', 22 ≤ error.index) := by
  intro start source source'
  have agree : (tokenize source).take 22 = (tokenize source').take 22 := by decide +kernel
  have indices : ((parse source).errors.filter fun error => error.index < 22).map
      SyntaxError.index = [12, 15, 16, 17, 21] := by decide +kernel
  obtain ⟨shared, later, later', split, split', below, above, above', _⟩ :=
    reports_are_online agree
  have early : ((parse source).errors.filter fun error => error.index < 22) = shared := by
    rw [split, List.filter_append, List.filter_eq_self.mpr (by simpa using below),
      List.filter_eq_nil_iff.mpr (by simpa using above), List.append_nil]
  rw [early] at indices
  exact ⟨agree, shared, later, later', split, split', indices, above, above'⟩

end ToyC
