import ToyC.Proofs.Folding
import ToyC.Proofs.Runs

/-! Reading where levels run out. What is refused a level is reported and skipped
up to the next semicolon; what was read before stays. Of the groups that are
open then, the inmost one reports that it is not closed, and the others are
silent, for the semicolon was reported. All this is told from every state in
which the current token has not been reported. -/
namespace ToyC

/-- These tokens were taken and these reports made, the last one first. -/
structure Passes (before after : Parser) (taken : List Token) (reports : List SyntaxError) :
    Prop where
  ahead : before.ahead = taken ++ after.ahead
  consumed : after.consumed = before.consumed + taken.length
  errors : after.errors = reports ++ before.errors
  reportedAt : after.reportedAt = (reports.head?.map SyntaxError.index).or before.reportedAt
  reached : ∀ report ∈ reports, report.index ≤ after.consumed

theorem Consumes.passes (consumes : Consumes before after taken) :
    Passes before after taken [] where
  ahead := consumes.ahead
  consumed := consumes.consumed
  errors := consumes.errors
  reportedAt := consumes.reportedAt
  reached := List.forall_mem_nil _

namespace Passes

theorem trans (first : Passes before between taken reports)
    (second : Passes between after taken' reports') :
    Passes before after (taken ++ taken') (reports' ++ reports) where
  ahead := by rw [first.ahead, second.ahead, List.append_assoc]
  consumed := by rw [second.consumed, first.consumed, List.length_append, Nat.add_assoc]
  errors := by rw [second.errors, first.errors, List.append_assoc]
  reportedAt := by
    rw [second.reportedAt, first.reportedAt, List.head?_append]
    cases reports'.head? <;> rfl
  reached report member := by
    rcases List.mem_append.mp member with later | earlier
    · exact second.reached report later
    · have := first.reached report earlier
      have := second.consumed
      omega

theorem leaves (passes : Passes before after taken reports)
    (ahead : before.ahead = taken ++ rest) : after.ahead = rest :=
  List.append_cancel_left (passes.ahead.symm.trans ahead)

/-- A level that is opened before a stretch and closed after it. -/
theorem nested {parser : Parser} (inside : Passes parser.enter after taken reports) :
    Passes parser (after.leave 1) taken reports := by
  simpa using ((Consumes.enter parser).passes.trans inside).trans (Consumes.leave after 1).passes

/-- Once another token is taken, what was reported is behind. -/
theorem unreported (passes : Passes before between taken reports)
    (consumes : Consumes between after (token :: more)) (unreported : before.Unreported) :
    after.Unreported := by
  intro index reported
  have consumed := passes.consumed
  have consumed' := consumes.consumed
  rw [List.length_cons] at consumed'
  rw [consumes.reportedAt, passes.reportedAt] at reported
  cases last : reports.head? with
  | none =>
    rw [last] at reported
    have := unreported index reported
    omega
  | some report =>
    rw [last] at reported
    obtain rfl : report.index = index := Option.some.inj reported
    have := passes.reached report (List.mem_of_mem_head? last)
    omega

theorem counted (parser : Parser) (nesting : Nesting) :
    Passes parser { parser with nesting } [] [] :=
  ⟨rfl, rfl, rfl, rfl, List.forall_mem_nil _⟩

theorem reportAs {parser : Parser} (fresh : parser.reportedAt ≠ some parser.consumed)
    (ahead : parser.ahead = token :: rest) (cause : SyntaxCause) (expected : TokenKind) :
    Passes parser (parser.reportAs cause expected) []
      [⟨token.kind, expected, token.position, parser.consumed, cause⟩] := by
  have current : parser.current = token := by rw [Parser.current, ahead]; rfl
  rw [Parser.reportAs, if_neg fresh, Parser.kind, current]
  exact ⟨rfl, rfl, rfl, rfl, by simp⟩

end Passes

/-! ### Refusals -/

/-- The report that a token gets no level. -/
def Token.tooDeep (token : Token) (index : Nat) : SyntaxError :=
  ⟨token.kind, .expression, token.position, index, .tooDeep⟩

/-- The report that a group is not closed at a token. -/
def Token.unclosed (token : Token) (index : Nat) : SyntaxError :=
  ⟨token.kind, .closeParen, token.position, index, .unexpected⟩

/-- Skipping what got no level does not stop at these tokens. -/
def Skipped (tokens : List Token) : Prop :=
  ∀ token ∈ tokens, token.kind ≠ .semicolon ∧ token.kind ≠ .closeBrace

theorem Consumes.skipTo {parser : Parser} {follow : List TokenKind}
    (goesOn : ∀ token ∈ skipped, token.isOneOf follow = false) (stops : stop.isOneOf follow)
    (ahead : parser.ahead = skipped ++ stop :: rest) :
    Consumes parser (parser.skipTo follow) skipped := by
  have all : parser.ahead.takeWhile (fun token => !token.isOneOf follow) = skipped := by
    rw [ahead, List.takeWhile_append_of_pos (by simpa using goesOn),
      List.takeWhile_cons_of_neg (by simp [stops]), List.append_nil]
  rw [Parser.skipTo, all]
  constructor <;> simp [Parser.pass, ahead]

theorem passes_refuse {parser : Parser} (unreported : parser.Unreported)
    (skipped : Skipped (first :: more)) (semicolon : stop.kind = .semicolon)
    (ahead : parser.ahead = first :: more ++ stop :: rest) :
    Passes parser (parser.refuse .expression) (first :: more) [first.tooDeep parser.consumed] := by
  have reported := Passes.reportAs unreported.fresh ahead .tooDeep .expression
  have goesOn : ∀ token ∈ first :: more, token.isOneOf [.semicolon, .closeBrace] = false := by
    intro token member
    simpa [Token.isOneOf] using skipped token member
  have ahead' := (Parser.reportAs_ahead parser .tooDeep .expression).trans ahead
  have refused := reported.trans (.counted _ (parser.reportAs .tooDeep .expression).nesting.refuse)
  refine refused.trans (Consumes.passes ?_)
  exact .skipTo goesOn (by simp [Token.isOneOf, semicolon]) ahead'

/-! ### Operands of one token -/

private theorem ne_of_closed_token (closed : ClosedTree [token] tree) :
    token.kind ≠ .semicolon ∧ token.kind ≠ .closeBrace := by
  generalize spelled : [token] = tokens at closed
  cases closed with
  | constant constant =>
    cases spelled
    constructor <;> intro same <;> simp [same, isConstant] at constant
  | name named =>
    cases spelled
    simp [named.1]
  | group => simp at spelled

/-! ### Rows of one level -/

section

variable {operation : Operation} {operations : List Operation} {level floor : Int} {parser : Parser}

/-- An operator of this level and an operand of one token. -/
structure Operation.Atomic (operation : Operation) (level : Int) : Prop where
  binary : operation.token.kind = operation.operator.kind
  level : operation.operator.level = level
  operand : ∃ token, operation.operand = [token] ∧ ClosedTree [token] operation.tree

/-- The tree that groups operations from the left. -/
def leftNested (first : Expr) (operations : List Operation) : Expr :=
  operations.foldl (fun left operation => .binary operation.operator left operation.tree) first

/-- The report on the operator that gets no level, if there is one: it has `levels`
operators before it. -/
def cutReports (levels index : Nat) (operations : List Operation) : List SyntaxError :=
  (operations[levels]?.map fun operation => operation.token.tooDeep (index + 2 * levels)).toList

private theorem skipped_of_atomic (atomic : ∀ operation ∈ operations, operation.Atomic level) :
    Skipped (operations.flatMap Operation.tokens) := by
  intro token member
  obtain ⟨operation, listed, inside⟩ := List.mem_flatMap.mp member
  obtain ⟨operand, spelled, closed⟩ := (atomic operation listed).operand
  rw [Operation.tokens, spelled, List.mem_cons, List.mem_singleton] at inside
  rcases inside with rfl | rfl
  · rw [(atomic operation listed).binary]
    cases operation.operator <;> simp [BinaryOp.kind]
  · exact ne_of_closed_token closed

private theorem tokens_length (atomic : operation.Atomic level) : operation.tokens.length = 2 := by
  obtain ⟨token, spelled, _⟩ := atomic.operand
  rw [Operation.tokens, spelled]
  rfl

/-- Behind an operator of a level no tighter one stands. -/
private theorem stopsAt_of_atomic (atomic : ∀ operation ∈ operations, operation.Atomic level)
    (ends : HeadAvoids continuesExpression rest)
    (ahead : parser.ahead = operations.flatMap Operation.tokens ++ rest) :
    StopsAt (level + 1) parser.kind := by
  cases operations with
  | nil => exact .of_stop (ends.kind ahead)
  | cons operation others =>
    have first := atomic operation List.mem_cons_self
    obtain ⟨precedence, found, same⟩ := standard_operator_of_binary first.binary
    intro precedence' rule found'
    rw [kind_of_ahead ahead, found] at found'
    cases found'
    rw [same, first.level]
    exact Int.lt_add_one_of_le le_rfl

/-- One turn of folding takes one operation. -/
private theorem read_atomic (atomic : operation.Atomic level)
    (ahead : parser.ahead = operation.tokens ++ rest)
    (stops : ∀ after : Parser, after.ahead = rest → StopsAt (level + 1) after.kind)
    {precedence : Precedence} (same : precedence.level = level) (levels : Nat) (left : Expr) :
    let folded := OperatorRule.binary.read .standard (Table.standard.exprWithin levels)
      (Table.standard.operatorsWithin levels) precedence left parser
    folded.1 = .binary operation.operator left operation.tree ∧
      Consumes parser folded.2 operation.tokens := by
  obtain ⟨token, spelled, closed⟩ := atomic.operand
  rw [Operation.tokens, spelled] at ahead ⊢
  have known : BinaryOp.ofKind? parser.kind = some operation.operator := by
    rw [kind_of_ahead ahead]
    exact BinaryOp.ofKind?_eq_some_iff.mpr atomic.binary
  have opening := Consumes.take ahead
  have behind := advance_ahead ahead
  obtain ⟨takes, tree⟩ := readOperand_token closed behind (Table.standard.exprWithin levels)
  have right := operatorsWithin_of_stop (stops _ (takes.leaves behind)) levels operation.tree
  simp only [OperatorRule.read, known, same, tree, right]
  exact ⟨trivial, opening.trans takes⟩

/-- A row of one level is folded from the left. The first operator that gets no
level is reported, and all from there on is skipped. -/
theorem operatorsWithin_cut (atomic : ∀ operation ∈ operations, operation.Atomic level)
    (low : ∀ operation ∈ operations, floor ≤ operation.operator.level)
    (semicolon : stop.kind = .semicolon) (unreported : parser.Unreported)
    (ahead : parser.ahead = operations.flatMap Operation.tokens ++ stop :: rest) (levels : Nat)
    (left : Expr) :
    let whole := Table.standard.operatorsWithin levels floor left parser
    whole.1 = leftNested left (operations.take levels) ∧
      Passes parser whole.2 (operations.flatMap Operation.tokens)
        (cutReports levels parser.consumed operations) := by
  have ends : HeadAvoids continuesExpression (stop :: rest) := .of_kind semicolon rfl
  -- Every operation uses up a level, so the row and the levels shrink together.
  induction operations generalizing levels left parser with
  | nil =>
    have stops : StopsAt floor parser.kind := .of_stop (ends.kind ahead)
    rw [operatorsWithin_of_stop stops]
    exact ⟨by rw [List.take_nil]; rfl, (Consumes.refl parser).passes⟩
  | cons operation others ih =>
    obtain ⟨first, behind⟩ := List.forall_mem_cons.mp atomic
    obtain ⟨high, low⟩ := List.forall_mem_cons.mp low
    obtain ⟨precedence, found, same⟩ := standard_operator_of_binary first.binary
    rw [← kind_of_ahead ahead] at found
    rw [← same] at high
    cases levels with
    | zero =>
      rw [operatorsWithin_zero left found high]
      exact ⟨rfl, passes_refuse unreported (skipped_of_atomic atomic) semicolon ahead⟩
    | succ levels =>
      rw [operatorsWithin_succ levels left found high]
      rw [List.flatMap_cons, List.append_assoc] at ahead
      obtain ⟨tree, takes⟩ := read_atomic first (show parser.enter.ahead = _ from ahead)
        (fun after left => stopsAt_of_atomic behind ends left) (same.trans first.level) levels left
      obtain ⟨whole, passes⟩ :=
        ih behind low (takes.unreported unreported) (takes.leaves ahead) levels _
      have consumed := takes.consumed
      rw [tokens_length first] at consumed
      refine ⟨?_, ?_⟩
      · rw [whole, tree]
        rfl
      · have inside := (takes.passes.trans passes).nested
        have reports : cutReports levels (parser.enter.consumed + 2) others =
            cutReports (levels + 1) parser.consumed (operation :: others) := by
          rw [cutReports, cutReports, List.getElem?_cons_succ, Nat.mul_succ, ← Nat.add_assoc,
            Nat.add_right_comm]
          rfl
        rwa [List.append_nil, consumed, reports] at inside

/-- An expression whose operators are of one level is read up to the operator
that gets no level of nesting. -/
theorem exprWithin_row (closed : ClosedTree [token] tree)
    (atomic : ∀ operation ∈ operations, operation.Atomic level)
    (semicolon : stop.kind = .semicolon) (unreported : parser.Unreported)
    (ahead : parser.ahead = token :: operations.flatMap Operation.tokens ++ stop :: rest)
    (levels : Nat) :
    let whole := Table.standard.exprWithin (levels + 1) parser
    whole.1 = leftNested tree (operations.take levels) ∧
      Passes parser whole.2 (token :: operations.flatMap Operation.tokens)
        (cutReports levels (parser.consumed + 1) operations) := by
  have enter : parser.enter.ahead =
      token :: (operations.flatMap Operation.tokens ++ stop :: rest) := ahead
  obtain ⟨takes, operand⟩ := readOperand_token closed enter (Table.standard.exprWithin levels)
  have low : ∀ operation ∈ operations, 0 ≤ operation.operator.level := by
    intro operation _
    cases operation.operator <;> decide
  have consumed : _ = parser.consumed + 1 := takes.consumed
  obtain ⟨folded, passes⟩ := operatorsWithin_cut atomic low semicolon (takes.unreported unreported)
    (takes.leaves enter) levels tree
  rw [consumed] at passes
  rw [Table.exprWithin, operand]
  refine ⟨folded, ?_⟩
  simpa using (takes.passes.trans passes).nested

end

/-! ### Groups in groups -/

section

variable {opens closes : List Token} {parser : Parser} {levels : Nat}

/-- An operand that nothing goes on is all of its expression. -/
private theorem exprWithin_of_stop
    (stops : continuesExpression
      (Table.standard.readOperand (Table.standard.exprWithin levels) parser.enter).2.kind = false) :
    Table.standard.exprWithin (levels + 1) parser =
      ((Table.standard.readOperand (Table.standard.exprWithin levels) parser.enter).1,
        (Table.standard.readOperand (Table.standard.exprWithin levels) parser.enter).2.leave 1) := by
  rw [Table.exprWithin, operatorsWithin_of_stop (.of_stop stops)]

private theorem opens_group (opens : opener.kind = .openParen)
    (ahead : parser.ahead = opener :: rest) :
    parser.kind = .openParen ∧ Consumes parser.enter parser.enter.advance [opener] ∧
      parser.enter.advance.consumed = parser.consumed + 1 :=
  ⟨(kind_of_ahead ahead).trans opens, .take ahead, rfl⟩

/-- A group that nothing goes on is all of its expression. -/
private theorem exprWithin_group (opener : parser.kind = .openParen)
    (stops : continuesExpression
      ((Table.standard.exprWithin levels parser.enter.advance).2.expect .closeParen).kind =
        false) :
    Table.standard.exprWithin (levels + 1) parser =
      ((Table.standard.exprWithin levels parser.enter.advance).1,
        ((Table.standard.exprWithin levels parser.enter.advance).2.expect .closeParen).leave
          1) := by
  have group : parser.enter.kind = .openParen := opener
  have operand := readOperand_group group (Table.standard.exprWithin levels)
  rw [exprWithin_of_stop (by rwa [operand]), operand]

/-- A group that is closed. -/
private theorem exprWithin_closed (opener : parser.kind = .openParen)
    (closing : closer.kind = .closeParen) (ends : HeadAvoids continuesExpression rest)
    (left : (Table.standard.exprWithin levels parser.enter.advance).2.ahead = closer :: rest) :
    Table.standard.exprWithin (levels + 1) parser =
      ((Table.standard.exprWithin levels parser.enter.advance).1,
        (Table.standard.exprWithin levels parser.enter.advance).2.advance.leave 1) := by
  have found := (kind_of_ahead left).trans closing
  have stops := ends.kind (advance_ahead left)
  rw [← Parser.expect_of_kind found] at stops ⊢
  exact exprWithin_group opener stops

/-- An operand in groups is read if a level is left for each group, and for it. -/
theorem exprWithin_groups (closed : ClosedTree [token] tree)
    (opening : ∀ token ∈ opens, token.kind = .openParen)
    (closing : ∀ token ∈ closes, token.kind = .closeParen) (paired : opens.length = closes.length)
    (room : opens.length < levels) (ends : HeadAvoids continuesExpression rest)
    (ahead : parser.ahead = opens ++ token :: (closes ++ rest)) :
    let whole := Table.standard.exprWithin levels parser
    whole.1 = tree ∧ Consumes parser whole.2 (opens ++ token :: closes) := by
  obtain ⟨levels, rfl⟩ := Nat.exists_eq_add_one.mpr (Nat.zero_lt_of_lt room)
  induction opens generalizing closes rest parser levels with
  | nil =>
    obtain rfl : closes = [] := List.length_eq_zero_iff.mp paired.symm
    have enter : parser.enter.ahead = token :: rest := ahead
    obtain ⟨takes, tree⟩ := readOperand_token closed enter (Table.standard.exprWithin levels)
    rw [exprWithin_of_stop (ends.kind (takes.leaves enter))]
    exact ⟨tree, takes.nested⟩
  | cons opener opens ih =>
    obtain ⟨opens', opening'⟩ := List.forall_mem_cons.mp opening
    obtain ⟨levels, rfl⟩ : ∃ inside, levels = inside + 1 :=
      Nat.exists_eq_add_one.mpr (by rw [List.length_cons] at room; omega)
    obtain ⟨closes, closer, rfl⟩ : ∃ inside closer, closes = inside ++ [closer] := by
      refine (List.eq_nil_or_concat' closes).resolve_left ?_
      rintro rfl
      cases paired
    have last : closer.kind = .closeParen := closing closer (by simp)
    obtain ⟨group, opened, _⟩ := opens_group opens' ahead
    have inside : parser.enter.advance.ahead = opens ++ token :: (closes ++ closer :: rest) := by
      simpa using opened.leaves ahead
    obtain ⟨tree, takes⟩ := ih opening' (fun token member => closing token (by simp [member]))
      (by simpa using paired) (.of_kind last rfl) inside levels
      (by rw [List.length_cons] at room; omega)
    have left := takes.leaves (by simpa using inside)
    rw [exprWithin_closed group last ends left]
    refine ⟨tree, ?_⟩
    simpa using ((opened.trans takes).trans (.take left)).nested

theorem skipped_of_groups (closed : ClosedTree [token] tree)
    (opening : ∀ token ∈ opens, token.kind = .openParen)
    (closing : ∀ token ∈ closes, token.kind = .closeParen) :
    Skipped (opens ++ token :: closes) := by
  intro other member
  rcases List.mem_append.mp member with opener | behind
  · simp [opening other opener]
  · rcases List.mem_cons.mp behind with rfl | closer
    · exact ne_of_closed_token closed
    · simp [closing other closer]

/-- A group that is not closed at the semicolon behind it. -/
private theorem exprWithin_unclosed (opener : parser.kind = .openParen)
    (semicolon : stop.kind = .semicolon)
    (left : (Table.standard.exprWithin levels parser.enter.advance).2.ahead = stop :: rest) :
    Table.standard.exprWithin (levels + 1) parser =
      ((Table.standard.exprWithin levels parser.enter.advance).1,
        ((Table.standard.exprWithin levels parser.enter.advance).2.report .closeParen).leave 1) := by
  have kind := (kind_of_ahead left).trans semicolon
  have other : (Table.standard.exprWithin levels parser.enter.advance).2.kind ≠ .closeParen := by
    simp [kind]
  have stops : continuesExpression
      ((Table.standard.exprWithin levels parser.enter.advance).2.report .closeParen).kind =
        false := by
    have ahead := (Parser.reportAs_ahead _ .unexpected .closeParen).trans left
    rw [Parser.report, (kind_of_ahead ahead).trans semicolon]
    rfl
  rw [← Parser.expect_of_ne other] at stops ⊢
  exact exprWithin_group opener stops

/-- A group that gets the last level. -/
private theorem exprWithin_inmost (opens : opener.kind = .openParen)
    (skipped : Skipped (first :: more)) (semicolon : stop.kind = .semicolon)
    (unreported : parser.Unreported)
    (ahead : parser.ahead = opener :: (first :: more ++ stop :: rest)) :
    let whole := Table.standard.exprWithin 1 parser
    whole.1 = .error ∧ Passes parser whole.2 (opener :: first :: more)
      [stop.unclosed (parser.consumed + (more.length + 2)),
        first.tooDeep (parser.consumed + 1)] := by
  obtain ⟨group, opened, consumed⟩ := opens_group opens ahead
  have inside := opened.leaves ahead
  have refused : Passes parser.enter.advance
      (Table.standard.exprWithin 0 parser.enter.advance).2 (first :: more)
      [first.tooDeep parser.enter.advance.consumed] :=
    passes_refuse (opened.unreported unreported) skipped semicolon inside
  have left := refused.leaves inside
  have behind := refused.consumed
  have fresh : (Table.standard.exprWithin 0 parser.enter.advance).2.reportedAt ≠
      some (Table.standard.exprWithin 0 parser.enter.advance).2.consumed := by
    rw [refused.reportedAt, behind]
    simp [Token.tooDeep]
  have unclosed : Passes _ ((Table.standard.exprWithin 0 parser.enter.advance).2.report
      .closeParen) [] [stop.unclosed _] := .reportAs fresh left .unexpected .closeParen
  have whole := ((opened.passes.trans refused).trans unclosed).nested
  have index : parser.enter.advance.consumed + (first :: more).length =
      parser.consumed + (more.length + 2) := by
    rw [consumed, List.length_cons]
    omega
  rw [exprWithin_unclosed group semicolon left]
  refine ⟨rfl, ?_⟩
  rw [behind, index, consumed] at whole
  simpa using whole

/-- What stands in more groups than levels are left is refused, up to the
semicolon, and there the inmost group that is open reports that it is not closed. -/
theorem exprWithin_cut (opening : ∀ token ∈ opener :: opens, token.kind = .openParen)
    (skipped : Skipped (first :: more)) (semicolon : stop.kind = .semicolon)
    (unreported : parser.Unreported)
    (ahead : parser.ahead = opener :: (opens ++ (first :: more ++ stop :: rest))) :
    let whole := Table.standard.exprWithin (opens.length + 1) parser
    whole.1 = .error ∧ Passes parser whole.2 (opener :: opens ++ first :: more)
      [stop.unclosed (parser.consumed + (opens.length + more.length + 2)),
        first.tooDeep (parser.consumed + (opens.length + 1))] := by
  induction opens generalizing opener parser with
  | nil =>
    have inmost :=
      exprWithin_inmost (opening opener List.mem_cons_self) skipped semicolon unreported ahead
    simpa using inmost
  | cons opener' opens ih =>
    obtain ⟨opens', opening'⟩ := List.forall_mem_cons.mp opening
    obtain ⟨group, opened, consumed⟩ := opens_group opens' ahead
    have inside := opened.leaves ahead
    obtain ⟨error, inner⟩ := ih opening' (opened.unreported unreported) inside
    have left := inner.leaves (by simpa using inside)
    have index : parser.enter.advance.consumed + (opens.length + more.length + 2) =
        parser.consumed + (opens.length + 1 + more.length + 2) := by
      omega
    have level : parser.enter.advance.consumed + (opens.length + 1) =
        parser.consumed + (opens.length + 1 + 1) := by
      omega
    -- The semicolon was reported inside, so it is not reported again.
    have silent : (Table.standard.exprWithin (opens.length + 1) parser.enter.advance).2.report
        .closeParen = (Table.standard.exprWithin (opens.length + 1) parser.enter.advance).2 := by
      rw [Parser.report, Parser.reportAs, if_pos]
      rw [inner.reportedAt, inner.consumed]
      simp [Token.unclosed]
      omega
    rw [List.length_cons, exprWithin_unclosed group semicolon left, silent, ← index, ← level]
    refine ⟨error, ?_⟩
    simpa using (opened.passes.trans inner).nested

end

end ToyC
