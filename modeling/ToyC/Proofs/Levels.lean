import ToyC.ProgramReader

/-! Levels of nesting are opened and closed in pairs. What a reader does to the
counter is a run of steps, each with its guard; what a run keeps follows from
what each step keeps. Readers recurse on a number of levels that stands for the
room left in the counter: they are given exactly this number everywhere. -/
namespace ToyC

/-! ### Runs of the counter -/

namespace Nesting

/-- Step by step a level is opened if one is left and refused if none is left,
and no more levels are closed than are open. -/
inductive Steps : Nesting → Nesting → Prop
  | done : Steps nesting nesting
  | enter (room : nesting.depth < maxNesting) (others : Steps nesting.enter after) :
      Steps nesting after
  | refuse (full : nesting.depth = maxNesting) (others : Steps nesting.refuse after) :
      Steps nesting after
  | leave (opened : levels ≤ nesting.depth) (others : Steps (nesting.leave levels) after) :
      Steps nesting after

/-- All levels that were opened are closed again. On the way no more than the
most were open, and none was closed that was not open. -/
structure Balanced (before after : Nesting) : Prop where
  steps : Steps before after
  depth : after.depth = before.depth
  deepest : after.deepest ≤ max before.deepest maxNesting
  unmatched : after.unmatched = before.unmatched

variable {before between after nesting : Nesting}

/-- To close levels one after the other is to close them at once. -/
theorem leave_leave (nesting : Nesting) (first second : Nat) :
    (nesting.leave first).leave second = nesting.leave (first + second) := by
  simp only [leave, mk.injEq, true_and]
  omega

namespace Steps

theorem trans (first : Steps before between) (second : Steps between after) :
    Steps before after := by
  induction first with
  | done => exact second
  | enter room _ ih => exact .enter room (ih second)
  | refuse full _ ih => exact .refuse full (ih second)
  | leave opened _ ih => exact .leave opened (ih second)

theorem deepest_le (steps : Steps before after) :
    after.deepest ≤ max before.deepest maxNesting := by
  induction steps with
  | done => exact Nat.le_max_left _ _
  | enter room _ ih =>
    refine Nat.le_trans ih ?_
    simp only [Nesting.enter]
    omega
  | refuse _ _ ih => exact ih
  | leave _ _ ih => exact ih

theorem unmatched_eq (steps : Steps before after) : after.unmatched = before.unmatched := by
  induction steps with
  | done => rfl
  | enter _ _ ih => exact ih
  | refuse _ _ ih => exact ih
  | leave opened _ ih =>
    refine ih.trans ?_
    simp only [Nesting.leave]
    omega

end Steps

namespace Balanced

theorem of_steps (steps : Steps before after) (depth : after.depth = before.depth) :
    Balanced before after :=
  ⟨steps, depth, steps.deepest_le, steps.unmatched_eq⟩

theorem refl (nesting : Nesting) : Balanced nesting nesting := of_steps .done rfl

theorem trans (first : Balanced before between) (second : Balanced between after) :
    Balanced before after :=
  of_steps (first.steps.trans second.steps) (second.depth.trans first.depth)

/-- A level that is opened before a balanced stretch and closed after it. -/
theorem nested (inside : Balanced nesting.enter after) (room : nesting.depth < maxNesting) :
    Balanced nesting (after.leave 1) := by
  have depth : after.depth = nesting.depth + 1 := inside.depth
  refine of_steps (.enter room (inside.steps.trans (.leave (by omega) .done))) ?_
  simp [leave, depth]

theorem refused (full : nesting.depth = maxNesting) : Balanced nesting nesting.refuse :=
  of_steps (.refuse full .done) rfl

end Balanced

end Nesting

open Nesting (Balanced)

/-! ### Steps that open no level -/

namespace Parser

variable (parser : Parser)

@[simp] theorem pass_nesting (count : Nat) : (parser.pass count).nesting = parser.nesting := rfl

@[simp] theorem advance_nesting : parser.advance.nesting = parser.nesting := rfl

@[simp] theorem enter_nesting : parser.enter.nesting = parser.nesting.enter := rfl

@[simp] theorem leave_nesting (levels : Nat) :
    (parser.leave levels).nesting = parser.nesting.leave levels := rfl

@[simp] theorem reportAs_nesting (cause : SyntaxCause) (expected : TokenKind) :
    (parser.reportAs cause expected).nesting = parser.nesting := by
  rw [reportAs]
  split <;> rfl

@[simp] theorem report_nesting (expected : TokenKind) :
    (parser.report expected).nesting = parser.nesting := reportAs_nesting ..

@[simp] theorem skipTo_nesting (follow : List TokenKind) :
    (parser.skipTo follow).nesting = parser.nesting := rfl

@[simp] theorem expect_nesting (expected : TokenKind) :
    (parser.expect expected).nesting = parser.nesting := by
  rw [expect]
  split <;> simp

@[simp] theorem expectOr_nesting (expected : TokenKind) (follow : List TokenKind) :
    (parser.expectOr expected follow).nesting = parser.nesting := by
  rw [expectOr]
  split <;> simp

@[simp] theorem recordIdentifier_nesting (name : String) :
    (parser.recordIdentifier name).nesting = parser.nesting := rfl

@[simp] theorem recordAssignment_nesting (assignment : Assignment) :
    (parser.recordAssignment assignment).nesting = parser.nesting := rfl

@[simp] theorem recordCondition_nesting (condition : Expr) :
    (parser.recordCondition condition).nesting = parser.nesting := rfl

@[simp] theorem refuse_nesting (expected : TokenKind) :
    (parser.refuse expected).nesting = parser.nesting.refuse := by
  simp [refuse]

end Parser

/-! ### Expressions -/

/-- The reader closes what it opens, if so many levels are left. -/
def Balances (levels : Nat) (read : Parser → α × Parser) : Prop :=
  ∀ parser : Parser, parser.nesting.depth + levels = maxNesting →
    Balanced parser.nesting (read parser).2.nesting

section

variable {levels : Nat} {expr : Parser → Expr × Parser}
  {operators : Int → Expr → Parser → Expr × Parser} {stmt : Parser → Stmt × Parser}

/-- Readers one after the other: the first leaves as much room as there was. -/
theorem Balances.andThen {first : Parser → α × Parser} {second : α → Parser → β × Parser}
    (head : Balances levels first) (tail : ∀ value, Balances levels (second value)) :
    Balances levels fun parser => second (first parser).1 (first parser).2 := by
  intro parser room
  have opened := head parser room
  exact opened.trans (tail _ _ (by rw [opened.depth, room]))

/-- What is read behind a level that is opened for it, and closed after it. -/
theorem Balances.inLevel {read : Parser → α × Parser} (inside : Balances levels read)
    {parser : Parser} (room : parser.nesting.depth + (levels + 1) = maxNesting) :
    Balanced parser.nesting ((read parser.enter).2.leave 1).nesting := by
  have entered : parser.enter.nesting.depth = parser.nesting.depth + 1 := rfl
  exact (inside parser.enter (by omega)).nested (by omega)

theorem OperandRule.read_balances (rule : OperandRule) (balances : Balances levels expr) :
    Balances levels (rule.read expr) := by
  intro parser room
  cases rule with
  | constant => exact .refl _
  | name => exact .refl _
  | sign => exact balances parser.advance room
  | group => simpa [read] using balances parser.advance room
  | expression => exact balances parser room

theorem Table.readOperand_balances (table : Table) (balances : Balances levels expr) :
    Balances levels (table.readOperand expr) := by
  intro parser room
  rw [readOperand]
  split
  · exact OperandRule.read_balances _ balances parser room
  · simpa using Balanced.refl parser.nesting

theorem OperatorRule.read_balances (table : Table) (rule : OperatorRule) (precedence : Precedence)
    (left : Expr) (balances : Balances levels expr)
    (folds : ∀ floor left, Balances levels (operators floor left)) :
    Balances levels (rule.read table expr operators precedence left) := by
  intro parser room
  cases rule with
  | binary =>
    simp only [read]
    split
    · simpa using Balanced.refl parser.nesting
    · exact (table.readOperand_balances balances).andThen (folds _) parser.advance room
  | index => simpa [read] using balances parser.advance room

private theorem within_balances (table : Table) (levels : Nat) :
    Balances levels (table.exprWithin levels) ∧
      ∀ floor left, Balances levels (table.operatorsWithin levels floor left) := by
  induction levels with
  | zero =>
    refine ⟨fun parser full => ?_, fun floor left parser full => ?_⟩
    · simpa [Table.exprWithin] using Balanced.refused full
    · rw [Table.operatorsWithin]
      split
      · exact .refl _
      · split
        · exact .refl _
        · simpa using Balanced.refused full
  | succ levels ih =>
    obtain ⟨balances, folds⟩ := ih
    refine ⟨fun parser room => ?_, fun floor left parser room => ?_⟩
    · exact ((table.readOperand_balances balances).andThen (folds 0)).inLevel room
    · rw [Table.operatorsWithin]
      split
      · exact .refl _
      · split
        · exact .refl _
        · rename_i precedence rule _ _
          have folded := rule.read_balances table precedence left balances folds
          exact (folded.andThen (folds floor)).inLevel room

/-! ### Statements -/

theorem balances_repeatWhile {step : Parser → α × Parser} (balances : Balances levels step)
    (goesOn : TokenKind → Bool) : Balances levels (Parser.repeatWhile goesOn step) := by
  intro parser room
  rw [Parser.repeatWhile]
  generalize parser.ahead.length = bound
  induction bound generalizing parser with
  | zero => exact .refl _
  | succ bound ih =>
    rw [Parser.repeatUpTo]
    split
    · have first := balances parser room
      exact first.trans (ih _ (by rw [first.depth, room]))
    · exact .refl _

theorem condition_balances (balances : Balances levels expr) :
    Balances levels (Parser.condition expr) := by
  intro parser room
  simpa [Parser.condition] using
    balances (parser.expectOr .openParen [.closeParen, .openBrace, .closeBrace]) (by simpa)

theorem unknownStatement_balances : Balances levels Parser.unknownStatement := by
  intro parser room
  simpa [Parser.unknownStatement] using Balanced.refl parser.nesting

private theorem assignmentTo_balances (balances : Balances levels expr) (target : String) :
    Balances levels (Parser.assignmentTo expr target) := by
  intro parser room
  rw [Parser.assignmentTo]
  split
  · simpa using balances parser.advance room
  · have index := balances parser.advance room
    generalize between : ((expr parser.advance).2.expectOr .closeBracket
      [.assign, .semicolon]).expectOr .assign [.semicolon] = equals
    have same : equals.nesting = (expr parser.advance).2.nesting := by simp [← between]
    have value := balances equals (by rw [same, index.depth]; exact room)
    rw [same] at value
    simpa [between] using index.trans value
  · exact unknownStatement_balances parser room

theorem StatementRule.read_balances (rule : StatementRule) (balances : Balances levels expr)
    (body : Balances levels stmt) : Balances levels (rule.read expr stmt) := by
  intro parser room
  have head : Balances levels fun parser => stmt (parser.condition expr).2 :=
    (condition_balances balances).andThen fun _ => body
  cases rule with
  | conditional =>
    have thenBody := head parser.advance room
    simp only [read]
    split
    · have elseBody := body (stmt (parser.advance.condition expr).2).2.advance
        (by rw [Parser.advance_nesting, thenBody.depth]; exact room)
      exact thenBody.trans elseBody
    · exact thenBody
  | loop => exact head parser.advance room
  | block => simpa [read] using balances_repeatWhile body continuesBlock parser.advance room
  | assignment => exact assignmentTo_balances balances _ (parser.advance.recordIdentifier _) room
  | statement => exact body parser room

theorem stmtWithin_balances (table : Table) (levels : Nat) :
    Balances levels (table.stmtWithin levels) := by
  induction levels with
  | zero =>
    intro parser full
    rw [Table.stmtWithin]
    dsimp only
    split <;> simpa using Balanced.refused full
  | succ levels ih =>
    intro parser room
    rw [Table.stmtWithin]
    dsimp only
    split
    · rename_i rule _
      exact (rule.read_balances (within_balances table levels).1 ih).inLevel room
    · exact Balances.inLevel unknownStatement_balances room

end

/-! ### Folding, with all levels closed at the end -/

/-- What was folded, while the levels opened for it are still open. -/
structure Folded where
  whole : Expr
  opened : Nat
  parser : Parser

/-- Closes the levels, all at once. -/
def Folded.close (folded : Folded) : Expr × Parser :=
  (folded.whole, folded.parser.leave folded.opened)

/-- Folds operators as a loop does that counts the levels it opens. -/
def Table.foldsWithin (table : Table) : Nat → Int → Expr → Parser → Folded
  | 0, floor, left, parser => ⟨left, 0, (table.operatorsWithin 0 floor left parser).2⟩
  | levels + 1, floor, left, parser =>
    match table.operator parser.kind with
    | none => ⟨left, 0, parser⟩
    | some (precedence, rule) =>
      if precedence.level < floor then ⟨left, 0, parser⟩
      else
        let folded := rule.read table (table.exprWithin levels) (table.operatorsWithin levels)
          precedence left parser.enter
        let others := table.foldsWithin levels floor folded.1 folded.2
        ⟨others.whole, others.opened + 1, others.parser⟩

@[simp] theorem Parser.leave_zero (parser : Parser) : parser.leave 0 = parser := by
  simp [leave, Nesting.leave]

theorem Parser.leave_leave (parser : Parser) (first second : Nat) :
    (parser.leave first).leave second = parser.leave (first + second) := by
  simp only [leave, Nesting.leave_leave]

namespace Table

/-- The levels that are closed one by one might as well be closed together. -/
theorem operatorsWithin_eq_close (table : Table) (levels : Nat) (floor : Int) (left : Expr)
    (parser : Parser) :
    table.operatorsWithin levels floor left parser =
      (table.foldsWithin levels floor left parser).close := by
  induction levels generalizing left parser with
  | zero =>
    rw [foldsWithin, Folded.close, Parser.leave_zero, operatorsWithin]
    cases table.operator parser.kind with
    | none => rfl
    | some entry =>
      dsimp only
      split <;> rfl
  | succ levels ih =>
    rw [foldsWithin, operatorsWithin]
    cases table.operator parser.kind with
    | none => simp [Folded.close]
    | some entry =>
      dsimp only
      split
      · simp [Folded.close]
      · simp only [ih, Folded.close, Parser.leave_leave]

/-- So many levels are open more than before. -/
theorem foldsWithin_depth (table : Table) (levels : Nat) (floor : Int) (left : Expr)
    (parser : Parser) (room : parser.nesting.depth + levels = maxNesting) :
    (table.foldsWithin levels floor left parser).parser.nesting.depth =
      parser.nesting.depth + (table.foldsWithin levels floor left parser).opened := by
  induction levels generalizing left parser with
  | zero => exact ((within_balances table 0).2 floor left parser room).depth
  | succ levels ih =>
    rw [foldsWithin]
    split
    · rfl
    · split
      · rfl
      · rename_i precedence rule _ _
        have entered : parser.enter.nesting.depth = parser.nesting.depth + 1 := rfl
        obtain ⟨balances, folds⟩ := within_balances table levels
        have folded := rule.read_balances table precedence left balances folds parser.enter
          (by omega)
        have others := ih (rule.read table (table.exprWithin levels) (table.operatorsWithin levels)
          precedence left parser.enter).1 _ (by rw [folded.depth]; omega)
        dsimp only
        rw [others, folded.depth]
        omega

end Table

/-! ### All readers -/

/-- From every state with no more levels open than there may be, whatever the
tokens, the reports and the table are, every reader closes the levels it opens:
the counter never passes the limit on the way, and no level is closed that is
not open. The levels for folded operators are closed together. -/
theorem readers_balance_nesting (table : Table) (parser : Parser)
    (bounded : parser.nesting.depth ≤ maxNesting) :
    Balanced parser.nesting (parser.expr table).2.nesting ∧
      Balanced parser.nesting (parser.operand table).2.nesting ∧
      (∀ floor left, Balanced parser.nesting (parser.operators table floor left).2.nesting ∧
        let folded := table.foldsWithin parser.nesting.levelsLeft floor left parser
        parser.operators table floor left = folded.close ∧
          folded.parser.nesting.depth = parser.nesting.depth + folded.opened) ∧
      Balanced parser.nesting (parser.stmt table).2.nesting ∧
      Balanced parser.nesting (parser.statements table).2.nesting ∧
      ∀ rule : StatementRule, Balanced parser.nesting (parser.stmtBy table rule).2.nesting := by
  have room : parser.nesting.depth + parser.nesting.levelsLeft = maxNesting :=
    Nat.add_sub_cancel' bounded
  obtain ⟨expr, operators⟩ := within_balances table parser.nesting.levelsLeft
  have stmt := stmtWithin_balances table parser.nesting.levelsLeft
  refine ⟨expr parser room, table.readOperand_balances expr parser room, fun floor left => ?_,
    stmt parser room, balances_repeatWhile stmt _ parser room,
    fun rule => rule.read_balances expr stmt parser room⟩
  exact ⟨operators floor left parser room, table.operatorsWithin_eq_close _ floor left parser,
    table.foldsWithin_depth _ floor left parser room⟩

/-- The sum is refused when two levels were left, for the statement and its value. -/
theorem refused_sum_balances :
    let parser := { Parser.ofSource "a = b + (1); c = 2;" with nesting := ⟨254, 254, 0, 0⟩ }
    parser.nesting.depth ≤ maxNesting ∧
      Balanced parser.nesting (parser.stmt .standard).2.nesting ∧
      (parser.stmt .standard).2.nesting = ⟨254, 256, 1, 0⟩ := by
  refine ⟨by decide, (readers_balance_nesting .standard _ (by decide)).2.2.2.1, ?_⟩
  decide +kernel

end ToyC
