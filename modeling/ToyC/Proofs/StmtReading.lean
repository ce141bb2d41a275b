import ToyC.Proofs.ExprReading

/-! Reading statements. From any parser on, a statement is read if one can
stand there, and gets the tree of its tokens: an `else` behind it is taken by
the nearest conditional that can take it. -/
namespace ToyC

open Phrase
open scoped Computability

/-- A statement was read from these tokens; if it could take an `else`, there
is none behind it. -/
def StatementRead (read : Stmt × Parser) (taken : List Token) : Prop :=
  StatementTree taken read.1 ∧ (read.1.endsWithoutElse → read.2.kind ≠ .elseWord)

/-- The reader reads statements. -/
def ReadsStatements (stmt : Parser → Stmt × Parser) : Prop :=
  ∀ follow parser, EndsStatement follow →
    Reads (statement.words * follow) follow parser (stmt parser).2 (StatementRead (stmt parser))

theorem standard_statement (kind : TokenKind) :
    Table.standard.statement kind =
      if kind = .ifWord then some .conditional
      else if kind = .whileWord then some .loop
      else if kind = .openBrace then some .block
      else if kind = .identifier then some .assignment
      else none := by
  cases kind <;> rfl

theorem not_mem_statement_mul (none : Table.standard.statement kind = none) :
    kind :: rest ∉ statement.words * follow := by
  rw [cons_mem_statement_mul]
  rintro (⟨rfl, _⟩ | ⟨rfl, _⟩ | ⟨rfl, _⟩ | ⟨rfl, _⟩) <;> cases none

theorem StatementTree.ne_nil (tree : StatementTree tokens stmt) : tokens ≠ [] := by
  cases tree <;> nofun

variable {pending remaining follow : Language TokenKind} {parser : Parser}
  {expr : Parser → Expr × Parser} {stmt : Parser → Stmt × Parser}

/-- A condition in parentheses. -/
private theorem reads_condition (exprReads : ReadsExpressions expr)
    (inhabited : ∃ word, word ∈ follow) (parser : Parser) :
    Reads (only .openParen * (expression.words * (only .closeParen * follow))) follow parser
      (parser.condition expr).2
      (Enclosed .openParen .closeParen (ExprTree · (parser.condition expr).1)) := by
  have opening := Reads.expectOr parser .openParen [.closeParen, .openBrace, .closeBrace]
    (by simp) (expression_inhabited (only_inhabited .closeParen inhabited))
  exact (reads_enclosed exprReads opening rfl inhabited
    (.recordCondition _ (parser.condition expr).1)
    (.expectOr _ _ _ (by simp) inhabited)).mono fun _ _ enclosed => enclosed

/-- A keyword and a condition in parentheses. -/
private theorem reads_head (exprReads : ReadsExpressions expr)
    (inhabited : ∃ word, word ∈ remaining) (keyword : parser.kind = kind) (present : kind ≠ .eof)
    (next : ∀ rest, kind :: rest ∈ pending ↔
      rest ∈ only .openParen * (expression.words * (only .closeParen * remaining))) :
    Reads pending remaining parser (parser.advance.condition expr).2 fun taken =>
      ∃ word rest, taken = word :: rest ∧ word.kind = kind ∧
        Enclosed .openParen .closeParen (ExprTree · (parser.advance.condition expr).1) rest := by
  refine ((Reads.take keyword present next).andThen
    (reads_condition exprReads inhabited _)).mono ?_
  rintro _ _ ⟨_, rest, rfl, _, ⟨word, rfl, key, _⟩, _, enclosed⟩
  exact ⟨word, rest, rfl, key, enclosed⟩

private theorem reads_conditional (exprReads : ReadsExpressions expr)
    (stmtReads : ReadsStatements stmt) (ends : EndsStatement follow)
    (keyword : parser.kind = .ifWord) :
    Reads (statement.words * follow) follow parser
      (StatementRule.conditional.read expr stmt parser).2
      (StatementRead (StatementRule.conditional.read expr stmt parser)) := by
  have head : Reads (statement.words * follow) (statement.words * (elsePart * follow)) parser
      (parser.advance.condition expr).2 _ :=
    reads_head exprReads (statement_inhabited ends.elsePart_mul.inhabited) keyword (by simp)
      fun rest => by rw [cons_mem_statement_mul]; simp
  have thenBody := head.andThen (stmtReads _ (parser.advance.condition expr).2 ends.elsePart_mul)
  simp only [StatementRule.read]
  split
  · rename_i otherwise
    have between : Reads (elsePart * follow) (statement.words * follow)
        (stmt (parser.advance.condition expr).2).2 _ _ := .take otherwise (by simp) fun rest => by
      rw [cons_mem_elsePart_mul]
      simpa using ends.otherwise rest
    refine ((thenBody.andThen between).andThen (stmtReads follow _ ends)).mono ?_
    rintro _ _ ⟨_, second, rfl, _, ⟨_, _, rfl, _, ⟨_, first, rfl, _, ⟨word, _, rfl, key, opener,
      tokens, closer, rfl, opens, closes, condition⟩, _, thenTree, noElse⟩, _, middle, rfl, between,
      _⟩, _, elseTree, elseOpen⟩
    have nearest : (stmt (parser.advance.condition expr).2).1.endsWithoutElse = false := by
      by_contra! could
      exact noElse (by simpa using could) otherwise
    refine ⟨?_, elseOpen⟩
    simpa using StatementTree.ifThenElse key opens condition closes thenTree nearest between
      elseTree
  · rename_i noElse
    have look : Reads (elsePart * follow) follow (stmt (parser.advance.condition expr).2).2 _ _ :=
      .look (fun rest member => le_elsePart_mul member) fun rest member =>
        (cons_mem_elsePart_mul.mp member).resolve_right fun held => noElse held.1
    refine (thenBody.andThen look).mono ?_
    rintro _ _ ⟨_, _, rfl, _, ⟨_, first, rfl, _, ⟨word, _, rfl, key, opener, tokens, closer, rfl,
      opens, closes, condition⟩, _, thenTree, _⟩, _, rfl⟩
    refine ⟨?_, fun _ => noElse⟩
    simpa using StatementTree.ifThen key opens condition closes thenTree

private theorem reads_loop (exprReads : ReadsExpressions expr)
    (stmtReads : ReadsStatements stmt) (ends : EndsStatement follow)
    (keyword : parser.kind = .whileWord) :
    Reads (statement.words * follow) follow parser (StatementRule.loop.read expr stmt parser).2
      (StatementRead (StatementRule.loop.read expr stmt parser)) := by
  have head : Reads (statement.words * follow) (statement.words * follow) parser
      (parser.advance.condition expr).2 _ :=
    reads_head exprReads (statement_inhabited ends.inhabited) keyword (by simp)
      fun rest => by rw [cons_mem_statement_mul]; simp
  simp only [StatementRule.read]
  refine (head.andThen (stmtReads follow _ ends)).mono ?_
  rintro _ _ ⟨_, first, rfl, _, ⟨word, _, rfl, key, opener, tokens, closer, rfl, opens, closes,
    condition⟩, _, body, bodyOpen⟩
  have tree := StatementTree.whileDo key opens condition closes body
  exact ⟨by simpa using tree, bodyOpen⟩

/-- Statements up to a closing brace. -/
theorem reads_statements {goesOn : TokenKind → Bool} (stmtReads : ReadsStatements stmt)
    (inhabited : ∃ word, word ∈ follow) (closed : goesOn .closeBrace = false)
    (finite : goesOn .eof = false)
    (stops : ∀ kind, goesOn kind = false → Table.standard.statement kind = none) (parser : Parser) :
    Reads (statement.words∗ * (only .closeBrace * follow)) (only .closeBrace * follow) parser
      (parser.repeatWhile goesOn stmt).2 fun taken =>
        Sequence StatementTree taken (parser.repeatWhile goesOn stmt).1 := by
  have ends : EndsStatement (statement.words∗ * (only .closeBrace * follow)) :=
    .statements_mul (fun rest => by simp) (only_inhabited _ inhabited)
  refine reads_repeatWhile (fun parser _ => ?_) (fun kind rest goes => ?_)
    (fun kind rest stopped => not_mem_statement_mul (stops kind stopped)) finite parser
  · exact (stmtReads _ parser ends).mono fun _ _ held => ⟨held.1.ne_nil, held.1⟩
  · rw [cons_mem_only_mul]
    rintro ⟨rfl, _⟩
    simp [closed] at goes

private theorem reads_block (stmtReads : ReadsStatements stmt) (inhabited : ∃ word, word ∈ follow)
    (brace : parser.kind = .openBrace) :
    Reads (statement.words * follow) follow parser (StatementRule.block.read expr stmt parser).2
      (StatementRead (StatementRule.block.read expr stmt parser)) := by
  have opening : Reads (statement.words * follow)
      (statement.words∗ * (only .closeBrace * follow)) parser parser.advance _ :=
    .take brace (by simp) fun rest => by rw [cons_mem_statement_mul]; simp
  have stops : ∀ kind, continuesBlock kind = false → Table.standard.statement kind = none := by
    intro kind stopped
    cases kind <;> first | rfl | cases stopped
  refine ((opening.andThen (reads_statements stmtReads inhabited rfl rfl stops _)).andThen
    (.expectOr _ _ _ (by simp) inhabited)).mono ?_
  rintro _ _ ⟨_, _, rfl, _, ⟨_, tokens, rfl, _, ⟨opener, rfl, opens, _⟩, _, stmts⟩, _, closer, rfl,
    closes, _⟩
  exact ⟨.block opens stmts closes, nofun⟩

private theorem reads_unknownStatement (inhabited : ∃ word, word ∈ pending)
    (stuck : ∀ rest, parser.kind :: rest ∉ pending) :
    Reads pending remaining parser parser.unknownStatement.2 good :=
  .fail .statement inhabited stuck (grows_pass _ _)

private theorem reads_assignmentTo (exprReads : ReadsExpressions expr)
    (inhabited : ∃ word, word ∈ follow) (target : String) (parser : Parser) :
    Reads (assignmentRest * follow) follow parser (parser.assignmentTo expr target).2 fun taken =>
      ∀ word : Token, word.Names target →
        StatementRead (parser.assignmentTo expr target) (word :: taken) := by
  rw [Parser.assignmentTo]
  split
  · rename_i assign
    have equals : Reads (assignmentRest * follow) (expression.words * (only .semicolon * follow))
        parser parser.advance _ :=
      .take assign (by simp) fun rest => by rw [cons_mem_assignmentRest_mul]; simp
    refine ((reads_enclosed exprReads equals rfl inhabited (.refl _)
      (.expect _ _ (by simp) inhabited)).before_quiet (.recordAssignment _ _)).mono ?_
    rintro _ _ ⟨_, _, _, rfl, assigns, stops, value⟩ word named
    exact ⟨.assign named assigns value stops, nofun⟩
  · rename_i bracket
    have valued : ∃ word, word ∈ expression.words * (only .semicolon * follow) :=
      expression_inhabited (only_inhabited _ inhabited)
    have assigned := only_inhabited .assign valued
    have opening : Reads (assignmentRest * follow) (expression.words * (only .closeBracket *
        (only .assign * (expression.words * (only .semicolon * follow))))) parser
        parser.advance _ :=
      .take bracket (by simp) fun rest => by rw [cons_mem_assignmentRest_mul]; simp
    have index := reads_enclosed exprReads opening rfl assigned (.refl _)
      (.expectOr _ _ [.assign, .semicolon] (by simp) assigned)
    have value := index.andThen (reads_enclosed exprReads
      (.expectOr _ .assign [.semicolon] (by simp) valued) rfl inhabited (.refl _)
      (.expect _ _ (by simp) inhabited))
    refine (value.before_quiet (.recordAssignment _ _)).mono ?_
    rintro _ _ ⟨_, _, rfl, _, ⟨opener, inside, closer, rfl, opens, closes, index⟩, _, equals,
      tokens, stop, rfl, assigns, stops, value⟩ word named
    refine ⟨?_, nofun⟩
    simpa using StatementTree.arrayAssign named opens index closes assigns value stops
  · rename_i notAssign notBracket
    refine reads_unknownStatement ?_ fun rest => ?_
    · obtain ⟨word, member⟩ :=
        only_inhabited .assign (expression_inhabited (only_inhabited .semicolon inhabited))
      refine ⟨word, ?_⟩
      rw [assignmentRest, add_mul, mul_assoc, mul_assoc]
      exact .inl member
    · rw [cons_mem_assignmentRest_mul]
      rintro (⟨same, _⟩ | ⟨same, _⟩)
      · exact notAssign same
      · exact notBracket same

private theorem reads_assignment (exprReads : ReadsExpressions expr)
    (inhabited : ∃ word, word ∈ follow) (name : parser.kind = .identifier) :
    Reads (statement.words * follow) follow parser
      (StatementRule.assignment.read expr stmt parser).2
      (StatementRead (StatementRule.assignment.read expr stmt parser)) := by
  have present : parser.kind ≠ .eof := by simp [name]
  have target : Reads (statement.words * follow) (assignmentRest * follow) parser
      parser.advance _ :=
    .advance present fun rest => by rw [cons_mem_statement_mul]; simp [name]
  refine ((target.before_quiet (.recordIdentifier parser.advance _)).andThen
    (reads_assignmentTo exprReads inhabited _ _)).mono ?_
  rintro _ _ ⟨_, tokens, rfl, _, ⟨rfl, wellFormed⟩, _, read⟩
  exact read _ (names_of_identifier wellFormed name)

/-! ### Whole statements -/

private theorem reads_stmtWithin_succ
    (stmtReads : ReadsStatements (Table.standard.stmtWithin levels)) :
    ReadsStatements (Table.standard.stmtWithin (levels + 1)) := by
  intro follow parser ends
  have exprReads := reads_exprWithin levels
  rw [Table.stmtWithin]
  refine Reads.after_quiet (.enter parser) (Reads.before_quiet ?_ (.leave _ 1))
  rw [standard_statement parser.enter.kind]
  split_ifs with conditional loop block assignment
  · exact reads_conditional exprReads stmtReads ends conditional
  · exact reads_loop exprReads stmtReads ends loop
  · exact reads_block stmtReads ends.inhabited block
  · exact reads_assignment exprReads ends.inhabited assignment
  · refine reads_unknownStatement (statement_inhabited ends.inhabited) fun rest => ?_
    apply not_mem_statement_mul
    rw [standard_statement]
    simp [conditional, loop, block, assignment]

/-- Whatever the number of levels left, a statement is read with all `else`
parts that may belong to it, and gets the tree of its tokens. -/
theorem reads_stmtWithin (levels : Nat) : ReadsStatements (Table.standard.stmtWithin levels) := by
  induction levels with
  | zero =>
    intro follow parser ends
    rw [Table.stmtWithin]
    refine .refuse .statement ?_
    dsimp only
    split
    · exact grows_pass _ 1
    · exact .refl _
  | succ levels ih => exact reads_stmtWithin_succ ih

end ToyC
