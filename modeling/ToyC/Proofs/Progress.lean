import ToyC.Proofs.Runs

/-! Reading comes to its end. Every reader is a run that passes the end of the
text only where something is missing: an expression or a statement has one
place for that, a statement with expressions inside it two. Whatever may start
a statement is consumed at least in part, so that no repetition goes on for
ever, and none is cut short. -/
namespace ToyC

variable {parser before between after : Parser} {limit : Nat}
  {expr : Parser → Expr × Parser} {operators : Int → Expr → Parser → Expr × Parser}
  {stmt : Parser → Stmt × Parser}

/-! ### Expressions -/

/-- The reader passes the end at most once. -/
def PassesOnce (read : Parser → α × Parser) : Prop := ∀ parser, Spends 1 parser (read parser).2

/-- So does one that folds what follows, and at the end nothing follows. -/
def FoldsOnce (operators : Int → Expr → Parser → Expr × Parser) : Prop :=
  ∀ floor left parser, Spends 1 parser (operators floor left parser).2 ∧
    (parser.ahead = [] → operators floor left parser = (left, parser))

theorem FoldsOnce.after_operand (folds : FoldsOnce operators) (floor : Int) (left : Expr)
    (operand : Spends 1 before between) : Spends 1 before (operators floor left between).2 := by
  obtain ⟨tail, idle⟩ := folds floor left between
  refine operand.andThen tail (fun atEnd => ?_) (Nat.le_refl (1 + 0))
  rw [idle atEnd]
  exact .refl 0 between

theorem OperandRule.read_spends (rule : OperandRule) (once : PassesOnce expr)
    (present : parser.ahead ≠ []) : Spends 1 parser (rule.read expr parser).2 := by
  cases rule with
  | constant => exact (Spends.take present).mono (Nat.zero_le 1)
  | name => exact ((Spends.take present).after_quiet (.note _)).mono (Nat.zero_le 1)
  | sign => exact (Spends.take present).after_quiet (once _)
  | group =>
    exact ((Spends.take present).after_quiet (once _)).before_quiet (.expect _ (by simp))
  | expression => exact once parser

theorem readOperand_passesOnce (once : PassesOnce expr) :
    PassesOnce (Table.standard.readOperand expr) := by
  intro parser
  rw [Table.readOperand]
  split
  · rename_i rule found
    exact rule.read_spends once (ahead_ne_nil_of_rule found rfl)
  · exact (Spends.reportNamed parser .unexpected rfl).after_quiet (.advance _)

theorem OperatorRule.read_spends (rule : OperatorRule) (precedence : Precedence) (left : Expr)
    (once : PassesOnce expr) (folds : FoldsOnce operators) (present : parser.ahead ≠ []) :
    Spends 1 parser (rule.read .standard expr operators precedence left parser).2 := by
  cases rule with
  | binary =>
    simp only [read]
    split
    · exact (Spends.reportNamed parser .unexpected rfl).after_quiet (.advance _)
    · exact folds.after_operand _ _
        ((Spends.take present).after_quiet (readOperand_passesOnce once _))
  | index =>
    exact ((Spends.take present).after_quiet (once _)).before_quiet (.expect _ (by simp))

private theorem within_passesOnce (levels : Nat) :
    PassesOnce (Table.standard.exprWithin levels) ∧
      FoldsOnce (Table.standard.operatorsWithin levels) := by
  induction levels with
  | zero =>
    refine ⟨fun parser => (Spends.refuse parser rfl).mono (Nat.zero_le 1),
      fun floor left parser => ⟨?_, fun atEnd => ?_⟩⟩
    · rw [Table.operatorsWithin]
      split
      · exact .refl 1 parser
      · split
        · exact .refl 1 parser
        · exact (Spends.refuse parser rfl).mono (Nat.zero_le 1)
    · rw [Table.operatorsWithin, kind_of_atEnd atEnd]
      rfl
  | succ levels ih =>
    obtain ⟨once, folds⟩ := ih
    refine ⟨fun parser => ?_, fun floor left parser => ⟨?_, fun atEnd => ?_⟩⟩
    · have operand := readOperand_passesOnce once parser.enter
      exact (folds.after_operand 0 _ operand).nested 1
    · rw [Table.operatorsWithin]
      split
      · exact .refl 1 parser
      · rename_i precedence rule found
        split
        · exact .refl 1 parser
        · have present : parser.ahead ≠ [] := ahead_ne_nil_of_rule found rfl
          have folded : Spends 1 parser.enter _ :=
            rule.read_spends precedence left once folds present
          exact (folds.after_operand floor _ folded).nested 1
    · rw [Table.operatorsWithin, kind_of_atEnd atEnd]
      rfl

/-- To read an expression passes the end at most once: where an operand is
missing. -/
theorem exprWithin_passesOnce (levels : Nat) : PassesOnce (Table.standard.exprWithin levels) :=
  (within_passesOnce levels).1

/-! ### Statements -/

/-- The reader passes the end at most twice, and once if it starts there; it
takes a token if one is ahead that does not close a block. -/
structure PassesTwice (stmt : Parser → Stmt × Parser) : Prop where
  spends : ∀ parser, Spends 2 parser (stmt parser).2
  fromEnd : ∀ parser, parser.ahead = [] → Spends 1 parser (stmt parser).2
  takes : ∀ parser, parser.kind ≠ .closeBrace → parser.ahead ≠ [] →
    Takes 2 parser (stmt parser).2

theorem condition_passesOnce (once : PassesOnce expr) : PassesOnce (Parser.condition expr) :=
  fun parser => ((Spends.expectOr parser _ (by simp)).after_quiet (once _)).before_quiet
    ((Spends.note _).after_quiet (.expectOr _ _ (by simp)))

/-- A condition and a body: if the condition passes the end, the body starts
there. -/
private theorem spends_body (once : PassesOnce expr) (twice : PassesTwice stmt) (parser : Parser) :
    Spends 2 parser (stmt (parser.condition expr).2).2 :=
  (condition_passesOnce once parser).andThen (twice.spends _) (twice.fromEnd _)
    (Nat.le_refl (1 + 1))

private theorem spends_conditional (once : PassesOnce expr) (twice : PassesTwice stmt)
    (parser : Parser) :
    Spends 2 parser.advance (StatementRule.conditional.read expr stmt parser).2 := by
  have body := spends_body once twice parser.advance
  simp only [StatementRule.read]
  split
  · rename_i otherwise
    have present : (stmt (parser.advance.condition expr).2).2.ahead ≠ [] :=
      ahead_ne_nil_of_kind (by simp [otherwise])
    exact body.andThen ((Spends.take present).after_quiet (twice.spends _))
      (fun atEnd => absurd atEnd present) (Nat.le_refl (2 + 0))
  · exact body

private theorem spends_unknownStatement (parser : Parser) :
    Spends 1 parser parser.unknownStatement.2 :=
  (Spends.reportNamed parser .unexpected rfl).after_quiet (.advance _)

private theorem spends_assignmentTo (once : PassesOnce expr) (target : String) (parser : Parser) :
    Spends 2 parser (parser.assignmentTo expr target).2 := by
  rw [Parser.assignmentTo]
  split
  · rename_i assign
    have present : parser.ahead ≠ [] := ahead_ne_nil_of_kind (by simp [assign])
    have value := (Spends.take present).after_quiet (once parser.advance)
    exact ((value.before_quiet (.expect _ (by simp))).before_quiet (.note _)).mono (by decide)
  · rename_i bracket
    have present : parser.ahead ≠ [] := ahead_ne_nil_of_kind (by simp [bracket])
    have middle (behind : Parser) : Spends 0 behind ((behind.expectOr .closeBracket
        [.assign, .semicolon]).expectOr .assign [.semicolon]) :=
      (Spends.expectOr behind _ (by simp)).after_quiet (.expectOr _ _ (by simp))
    have index := ((Spends.take present).after_quiet (once parser.advance)).before_quiet (middle _)
    have value := once (((expr parser.advance).2.expectOr .closeBracket
      [.assign, .semicolon]).expectOr .assign [.semicolon])
    have both := index.andThen (value.mono (by decide)) (fun _ => value) (Nat.le_refl (1 + 1))
    exact (both.before_quiet (.expect _ (by simp))).before_quiet (.note _)
  · exact (spends_unknownStatement parser).mono (by decide)

private theorem spends_block (twice : PassesTwice stmt) (parser : Parser) :
    Spends 2 parser.advance (StatementRule.block.read expr stmt parser).2 :=
  (spends_repeatWhile (fun parser _ => twice.spends parser) rfl parser.advance).before_quiet
    (.expectOr _ _ (by simp))

theorem StatementRule.read_takes (rule : StatementRule) (once : PassesOnce expr)
    (twice : PassesTwice stmt) (present : parser.ahead ≠ [])
    (notBrace : parser.kind ≠ .closeBrace) :
    Takes 2 parser (rule.read expr stmt parser).2 := by
  cases rule with
  | conditional => exact .of_advance present (spends_conditional once twice parser)
  | loop => exact .of_advance present (spends_body once twice parser.advance)
  | block => exact .of_advance present (spends_block twice parser)
  | assignment =>
    exact .of_advance present ((Spends.note _).after_quiet (spends_assignmentTo once _ _))
  | statement => exact twice.takes parser notBrace present

/-- A statement that gets no level is skipped, but for a brace that closes a
block. -/
private theorem takes_refused (present : parser.ahead ≠ []) (notBrace : parser.kind ≠ .closeBrace) :
    Takes 2 parser (Table.standard.stmtWithin 0 parser).2 := by
  have skips : Spends 0 parser (parser.refuse .statement) := .refuse parser rfl
  rw [Table.stmtWithin]
  dsimp only
  split
  · rename_i semicolon
    have more : (parser.refuse .statement).ahead ≠ [] :=
      ahead_ne_nil_of_kind (by simp [semicolon])
    exact .after_quiet skips (.of_advance more (.refl 2 _))
  · rename_i other
    obtain ⟨taken, beyond, runs, bound⟩ := skips
    refine ⟨taken, beyond, runs, Nat.le_trans bound (by decide), ?_⟩
    -- If nothing was skipped, the token ahead is still the first one.
    rintro rfl
    obtain ⟨more, kind⟩ := runs.kind_of_nil present
    have stopped : (parser.refuse .statement).kind ∈ [.semicolon, .closeBrace] :=
      Parser.skipTo_kind _ _ more
    simp only [List.mem_cons, List.not_mem_nil, or_false] at stopped
    rcases stopped with semicolon | brace
    · exact other semicolon
    · exact notBrace (kind.symm.trans brace)

private theorem spends_refused (parser : Parser) :
    Spends 0 parser (Table.standard.stmtWithin 0 parser).2 := by
  rw [Table.stmtWithin]
  dsimp only
  split
  · rename_i semicolon
    exact (Spends.refuse parser rfl).after_quiet
      (.take (ahead_ne_nil_of_kind (by simp [semicolon])))
  · exact .refuse parser rfl

/-- A token that starts a statement is taken with it; any other is consumed. -/
private theorem ruled_passesTwice (once : PassesOnce expr) (twice : PassesTwice stmt) :
    PassesTwice fun parser => match Table.standard.statement parser.kind with
      | some rule => rule.read expr stmt parser
      | none => parser.unknownStatement := by
  have known {parser : Parser} {rule : StatementRule}
      (found : Table.standard.statement parser.kind = some rule) :
      Takes 2 parser (rule.read expr stmt parser).2 := by
    refine rule.read_takes once twice (ahead_ne_nil_of_rule found rfl) fun brace => ?_
    rw [brace] at found
    cases found
  refine ⟨fun parser => ?_, fun parser atEnd => ?_, fun parser _ present => ?_⟩
  · split
    · rename_i found
      exact (known found).spends
    · exact (spends_unknownStatement parser).mono (by decide)
  · rw [kind_of_atEnd atEnd]
    exact spends_unknownStatement parser
  · split
    · rename_i found
      exact known found
    · have more : (parser.report .statement).ahead ≠ [] := by simpa [Parser.report] using present
      exact .after_quiet (.reportNamed parser .unexpected rfl) (.of_advance more (.refl 2 _))

/-- To read a statement passes the end at most twice, and consumes a token of
it. -/
theorem stmtWithin_passesTwice (levels : Nat) : PassesTwice (Table.standard.stmtWithin levels) := by
  induction levels with
  | zero =>
    exact ⟨fun parser => (spends_refused parser).mono (by decide),
      fun parser _ => (spends_refused parser).mono (by decide),
      fun parser notBrace present => takes_refused present notBrace⟩
  | succ levels ih =>
    have ruled := ruled_passesTwice (exprWithin_passesOnce levels) ih
    exact ⟨fun parser => (ruled.spends parser.enter).nested 1,
      fun parser atEnd => (ruled.fromEnd parser.enter atEnd).nested 1,
      fun parser notBrace present => (ruled.takes parser.enter notBrace present).nested 1⟩

/-! ### Declarations and programs -/

private theorem type_takes (starts : startsType parser.kind) : Takes 0 parser parser.type.2 := by
  obtain ⟨base, named⟩ := Option.isSome_iff_exists.mp starts
  refine .of_advance (ahead_ne_nil_of_rule named rfl) ?_
  rw [Parser.type, named]
  dsimp only
  split
  · rename_i bracket
    have opening : Spends 0 parser.advance parser.advance.advance :=
      .take (ahead_ne_nil_of_kind (by simp [bracket]))
    split
    · rename_i array
      have length := opening.after_quiet (.take (ahead_ne_nil_of_kind (by simp [array.1])))
      exact length.after_quiet (.take (ahead_ne_nil_of_kind (by simp [array.2])))
    · exact opening.after_quiet ((Spends.expect _ (by simp)).after_quiet
        (.reportNamed _ .unexpected rfl))
  · exact .refl 0 parser.advance

private theorem identifier_spends (parser : Parser) : Spends 0 parser parser.identifier.2 := by
  rw [Parser.identifier]
  split
  · rename_i name
    exact .take (ahead_ne_nil_of_kind (by simp [name]))
  · rename_i other
    exact .report parser .unexpected fun _ => other

theorem furtherName_takes (parser : Parser) (comma : parser.kind = .comma) :
    Takes 0 parser parser.advance.identifier.2 :=
  .of_advance (ahead_ne_nil_of_kind (by simp [comma])) (identifier_spends _)

theorem declaration_takes (parser : Parser) (starts : startsType parser.kind) :
    Takes 0 parser parser.declaration.2 := by
  have first := (type_takes starts).before_quiet (identifier_spends _)
  have others : Spends 0 parser.type.2.identifier.2 (parser.type.2.identifier.2.repeatWhile
      (· = .comma) fun comma => comma.advance.identifier).2 :=
    spends_repeatWhile
      (fun parser comma => (furtherName_takes parser (by simpa using comma)).spends) rfl _
  exact (first.before_quiet others).before_quiet ((Spends.note _).after_quiet
    (.expect _ (by simp)))

private theorem header_spends (parser : Parser) :
    Spends 0 parser (((((parser.expect .intWord).expect .mainWord).expect .openParen).expect
      .closeParen).expect .openBrace) :=
  ((((Spends.expect parser (by simp)).after_quiet (.expect _ (by simp))).after_quiet
    (.expect _ (by simp))).after_quiet (.expect _ (by simp))).after_quiet (.expect _ (by simp))

/-- All of a program up to its last brace passes the end at most twice. -/
theorem program_spends (parser : Parser) :
    ∃ closed, (parser.program .standard).2 = (closed.expect .eof).skipTo [] ∧
      Spends 2 parser closed := by
  refine ⟨_, rfl, ?_⟩
  have declarations := (header_spends parser).after_quiet (spends_repeatWhile
    (fun parser starts => (declaration_takes parser starts).spends) rfl _)
  exact (declarations.after_quiet (spends_repeatWhile
    (fun parser _ => (stmtWithin_passesTwice _).spends parser) rfl _)).before_quiet
      (.expect _ (by simp))

theorem Parser.skipTo_nil_ahead (parser : Parser) : (parser.skipTo []).ahead = [] :=
  Classical.byContradiction fun more => List.not_mem_nil (parser.skipTo_kind [] more)

/-- The end itself is expected at the end, and passed once more. -/
private theorem spends_finish (parser : Parser) :
    Spends 1 parser ((parser.expect .eof).skipTo []) := by
  rw [Parser.expect]
  split
  · exact (Spends.advance parser).before_quiet (.skipTo _ [])
  · rename_i more
    exact ((Spends.report parser .unexpected fun _ => more).after_quiet (.skipTo _ [])).mono
      (Nat.zero_le 1)

/-- A whole program takes all tokens that are ahead, each one once. -/
theorem program_runs (parser : Parser) :
    ∃ beyond ≤ 3, Runs parser parser.ahead beyond (parser.program .standard).2 ∧
      (parser.program .standard).2.ahead = [] := by
  obtain ⟨closed, last, spends⟩ := program_spends parser
  obtain ⟨taken, beyond, runs, bound⟩ := spends.andThen
    ((spends_finish closed).mono (by decide)) (fun _ => spends_finish closed) (Nat.le_refl (2 + 1))
  have nothing : (parser.program .standard).2.ahead = [] := last ▸ Parser.skipTo_nil_ahead _
  rw [← last] at runs
  have all := runs.ahead
  rw [nothing, List.append_nil] at all
  exact ⟨beyond, bound, all ▸ runs, nothing⟩

/-! ### Whole texts -/

/-- A statement that is not at a closing brace or at the end leaves less to read. -/
theorem stmtWithin_shorter {goesOn : TokenKind → Bool} (closed : goesOn .closeBrace = false)
    (finite : goesOn .eof = false) (levels : Nat) (parser : Parser)
    (continues : goesOn parser.kind) :
    (Table.standard.stmtWithin levels parser).2.ahead.length < parser.ahead.length := by
  have notBrace : parser.kind ≠ .closeBrace := by
    intro brace
    simp [brace, closed] at continues
  have present : parser.ahead ≠ [] := by
    intro atEnd
    simp [kind_of_atEnd atEnd, finite] at continues
  exact ((stmtWithin_passesTwice levels).takes parser notBrace present).shorter

/-- So statements that are repeated up to there are all read. -/
private theorem loops_stmtWithin {goesOn : TokenKind → Bool} (closed : goesOn .closeBrace = false)
    (finite : goesOn .eof = false) (levels : Nat) (parser : Parser) :
    Loops goesOn (Table.standard.stmtWithin levels) parser
      (parser.repeatWhile goesOn (Table.standard.stmtWithin levels)) :=
  loops_repeatWhile (stmtWithin_shorter closed finite levels) finite parser

/-- Parsing comes to its end. Each token of the text is taken once, the closing
one at most three times; no statement is read without a token; and every
repetition goes on until a token stops it. -/
theorem parse_runs_to_end (source : String) :
    (∃ beyond ≤ 3,
      Runs (.ofSource source) (TokenStream.scan (.start source)).tokens beyond
        ((Parser.ofSource source).program .standard).2 ∧
      ((Parser.ofSource source).program .standard).2.ahead = [] ∧
      ((Parser.ofSource source).program .standard).2.consumed =
        (TokenStream.scan (.start source)).tokens.length + beyond) ∧
    (∀ levels (parser : Parser), parser.kind ≠ .closeBrace → parser.kind ≠ .eof →
      (Table.standard.stmtWithin levels parser).2.ahead.length < parser.ahead.length) ∧
    (∀ levels parser, Loops continuesBlock (Table.standard.stmtWithin levels) parser
      (parser.repeatWhile continuesBlock (Table.standard.stmtWithin levels))) ∧
    (∀ parser : Parser, Loops startsStatement
      (Table.standard.stmtWithin parser.nesting.levelsLeft) parser
      (parser.statements .standard)) ∧
    (∀ parser : Parser, Loops startsType Parser.declaration parser parser.declarations) ∧
    (∀ parser : Parser, Loops (· = .comma) (fun comma => comma.advance.identifier) parser
      (parser.repeatWhile (· = .comma) fun comma => comma.advance.identifier)) := by
  refine ⟨?_, fun levels parser notBrace notEof => ?_, loops_stmtWithin rfl rfl,
    fun parser => loops_stmtWithin rfl rfl _ parser, fun parser => ?_, fun parser => ?_⟩
  · obtain ⟨beyond, bound, runs, nothing⟩ := program_runs (.ofSource source)
    have consumed := runs.consumed
    refine ⟨beyond, bound, runs, nothing, consumed.trans ?_⟩
    simp [Parser.ofSource, Parser.ofLexer, Parser.start, Lexer.stream, Lexer.start]
  · exact ((stmtWithin_passesTwice levels).takes parser notBrace
      (ahead_ne_nil_of_kind notEof)).shorter
  · exact loops_repeatWhile (fun parser starts => (declaration_takes parser starts).shorter) rfl _
  · exact loops_repeatWhile
      (fun parser comma => (furtherName_takes parser (by simpa using comma)).shorter) rfl _

/-- A statement that gets no level is skipped with its semicolon. -/
theorem refused_statement_is_taken :
    let parser := Parser.ofSource "a = 1; \x7d"
    parser.kind ≠ .closeBrace ∧ parser.kind ≠ .eof ∧
      (Table.standard.stmtWithin 0 parser).2.ahead.length < parser.ahead.length := by
  have notBrace : (Parser.ofSource "a = 1; \x7d").kind ≠ .closeBrace := by decide +kernel
  have notEof : (Parser.ofSource "a = 1; \x7d").kind ≠ .eof := by decide +kernel
  exact ⟨notBrace, notEof, (parse_runs_to_end "").2.1 0 _ notBrace notEof⟩

/-- The bound is met: an index is missing, then a value, and then the brace. -/
example : ((Parser.ofSource "int main() \x7b a[").program .standard).2.consumed = 7 + 3 := by
  decide +kernel

end ToyC
