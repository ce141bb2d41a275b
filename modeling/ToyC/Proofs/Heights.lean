import Mathlib.Data.Nat.Choose.Basic
import ToyC.Proofs.ListsOfTree
import ToyC.Proofs.Runs

/-! How high trees can be. Statements are as deep as levels of nesting allow.
Expressions can be higher: the levels of folded operators are given back at the
end of a group, and the group is folded again. With so many levels left, an
expression gains at most as many as this over what one level fewer allows; the
sum is a triangular number. Behind a signed operand nothing is folded any more,
since it is the rest of its expression, for every text. -/
namespace ToyC

/-! ### Measures -/

/-- The nodes of an expression above one another. -/
def Expr.height : Expr → Nat
  | not operand | negate operand => operand.height + 1
  | binary _ left right => max left.height right.height + 1
  | arrayLookup array index => max array.height index.height + 1
  | arrayLength array => array.height + 1
  | newArray size => size.height + 1
  | int _ | float _ | char _ | boolean _ | identifier _ | error => 1

namespace Stmt

mutual
/-- The statements inside one another. -/
def depth : Stmt → Nat
  | block body => depthOfAll body + 1
  | ifThen _ thenBody => thenBody.depth + 1
  | ifThenElse _ thenBody elseBody => max thenBody.depth elseBody.depth + 1
  | whileDo _ body => body.depth + 1
  | assign .. | arrayAssign .. | error => 1
def depthOfAll : List Stmt → Nat
  | [] => 0
  | stmt :: rest => max stmt.depth (depthOfAll rest)
end

/-- The expressions in a statement that stand in no statement inside it. -/
def ownExprs : Stmt → List Expr
  | ifThen condition _ | ifThenElse condition _ _ | whileDo condition _ => [condition]
  | assign _ value => [value]
  | arrayAssign _ index value => [index, value]
  | block _ | error => []

end Stmt

/-- The expressions in the statements of a program. -/
def Program.exprs (program : Program) : List Expr := program.nodes.flatMap Stmt.ownExprs

/-- The height of the highest expression when so many levels are left. -/
def tallest : Nat → Nat
  | 0 => 1
  | levels + 1 => tallest levels + max levels 1

theorem one_le_tallest (levels : Nat) : 1 ≤ tallest levels := by
  induction levels with
  | zero => exact Nat.le_refl 1
  | succ levels ih => exact Nat.le_trans ih (Nat.le_add_right _ _)

theorem tallest_mono (fewer : levels ≤ levels') : tallest levels ≤ tallest levels' := by
  induction fewer with
  | refl => exact Nat.le_refl _
  | step _ ih => exact Nat.le_trans ih (Nat.le_add_right _ _)

theorem tallest_le (levels : Nat) : tallest levels ≤ 2 + levels * (levels - 1) / 2 := by
  induction levels with
  | zero => decide
  | succ levels ih =>
    cases levels with
    | zero => decide
    | succ levels =>
      rw [tallest, Nat.triangle_succ]
      omega

/-! ### Where expressions end -/

section

variable {expr : Parser → Expr × Parser} {levels : Nat}

/-- Behind what was skipped no expression goes on. -/
private theorem refuse_stops (parser : Parser) (expected : TokenKind) :
    continuesExpression (parser.refuse expected).kind = false := by
  by_cases atEnd : (parser.refuse expected).ahead = []
  · rw [kind_of_atEnd atEnd]
    rfl
  · have stopped := Parser.skipTo_kind _ _ atEnd
    simp only [List.mem_cons, List.not_mem_nil, or_false] at stopped
    rcases stopped with semicolon | brace
    · exact semicolon ▸ rfl
    · exact brace ▸ rfl

/-- Folding ends at an operator that is too low, or behind what was skipped. -/
theorem operatorsWithin_stops (levels : Nat) (floor : Int) (left : Expr) (parser : Parser) :
    StopsAt floor (Table.standard.operatorsWithin levels floor left parser).2.kind := by
  induction levels generalizing left parser with
  | zero =>
    rcases stopsAt_or_operator floor parser.kind with stops | ⟨precedence, rule, found, high⟩
    · rwa [operatorsWithin_of_stop stops]
    · rw [operatorsWithin_zero left found high]
      exact .of_stop (refuse_stops parser _)
  | succ levels ih =>
    rcases stopsAt_or_operator floor parser.kind with stops | ⟨precedence, rule, found, high⟩
    · rwa [operatorsWithin_of_stop stops]
    · rw [operatorsWithin_succ levels left found high]
      exact ih _ _

/-- An expression ends where nothing goes on it, also where it could not be read. -/
theorem exprWithin_stops (levels : Nat) (parser : Parser) :
    continuesExpression (Table.standard.exprWithin levels parser).2.kind = false := by
  cases levels with
  | zero => exact refuse_stops parser _
  | succ levels => exact (operatorsWithin_stops levels 0 _ _).stop

/-! ### Expressions -/

/-- With so many levels left, expressions are no higher than this. -/
def Lows (levels : Nat) (expr : Parser → Expr × Parser) : Prop :=
  ∀ parser, (expr parser).1.height ≤ tallest levels ∧
    continuesExpression (expr parser).2.kind = false

/-- What is folded adds one node for each level at most, to what stands before
it or to a right side. -/
def FoldsLow (levels : Nat) (operators : Int → Expr → Parser → Expr × Parser) : Prop :=
  ∀ floor left parser,
    (operators floor left parser).1.height ≤ max left.height (tallest levels) + levels

private theorem constant_height (literal : Option Literal) :
    ((literal.bind Expr.ofConstant?).getD .error).height = 1 := by
  cases literal with
  | none => rfl
  | some literal => cases literal <;> rfl

/-- An operand is one node higher only if it has a sign, and then it is the
rest of its expression. -/
private theorem readOperand_height (lows : Lows levels expr) (parser : Parser) :
    (Table.standard.readOperand expr parser).1.height ≤ tallest levels ∨
      ((Table.standard.readOperand expr parser).1.height ≤ tallest levels + 1 ∧
        continuesExpression (Table.standard.readOperand expr parser).2.kind = false) := by
  have leaf := one_le_tallest levels
  rw [Table.readOperand, standard_operand parser.kind]
  split_ifs
  · exact .inl ((constant_height _).trans_le leaf)
  · exact .inl leaf
  · obtain ⟨low, stops⟩ := lows parser.advance
    refine .inr ⟨?_, stops⟩
    simp only [OperandRule.read]
    split <;> exact Nat.succ_le_succ low
  · exact .inl (lows parser.advance).1
  · exact .inl leaf

/-- An operand and what is folded into it. -/
private theorem operand_with_operators_height (lows : Lows levels (Table.standard.exprWithin levels))
    (folds : FoldsLow levels (Table.standard.operatorsWithin levels)) (floor : Int)
    (parser : Parser) :
    let operand := Table.standard.readOperand (Table.standard.exprWithin levels) parser
    (Table.standard.operatorsWithin levels floor operand.1 operand.2).1.height ≤
      tallest (levels + 1) := by
  intro operand
  rw [tallest]
  rcases readOperand_height lows parser with low | ⟨high, stops⟩
  · have low : operand.1.height ≤ tallest levels := low
    have whole := folds floor operand.1 operand.2
    omega
  · rw [operatorsWithin_of_stop (.of_stop stops)]
    exact high.trans (Nat.add_le_add_left (Nat.le_max_right _ _) _)

private theorem OperatorRule.read_height (rule : OperatorRule) (precedence : Precedence)
    (left : Expr) (lows : Lows levels (Table.standard.exprWithin levels))
    (folds : FoldsLow levels (Table.standard.operatorsWithin levels)) (parser : Parser) :
    (rule.read .standard (Table.standard.exprWithin levels) (Table.standard.operatorsWithin levels)
      precedence left parser).1.height ≤ max left.height (tallest (levels + 1)) + 1 := by
  cases rule with
  | binary =>
    simp only [read]
    split
    · exact (Nat.le_max_left _ _).trans (Nat.le_add_right _ _)
    · have right := operand_with_operators_height lows folds (precedence.level + 1) parser.advance
      exact Nat.succ_le_succ (max_le_max le_rfl right)
  | index =>
    have index := (lows parser.advance).1.trans (tallest_mono (Nat.le_add_right levels 1))
    exact Nat.succ_le_succ (max_le_max le_rfl index)

private theorem within_height (levels : Nat) :
    Lows levels (Table.standard.exprWithin levels) ∧
      FoldsLow levels (Table.standard.operatorsWithin levels) := by
  induction levels with
  | zero =>
    refine ⟨fun parser => ⟨Nat.le_refl 1, exprWithin_stops 0 parser⟩, fun floor left parser => ?_⟩
    rcases stopsAt_or_operator floor parser.kind with stops | ⟨precedence, rule, found, high⟩
    · rw [operatorsWithin_of_stop stops]
      exact Nat.le_max_left _ _
    · rw [operatorsWithin_zero left found high]
      exact Nat.le_max_left _ _
  | succ levels ih =>
    obtain ⟨lows, folds⟩ := ih
    refine ⟨fun parser => ⟨?_, exprWithin_stops _ parser⟩, fun floor left parser => ?_⟩
    · exact operand_with_operators_height lows folds 0 parser.enter
    · rcases stopsAt_or_operator floor parser.kind with stops | ⟨precedence, rule, found, high⟩
      · rw [operatorsWithin_of_stop stops]
        exact (Nat.le_max_left _ _).trans (Nat.le_add_right _ _)
      · rw [operatorsWithin_succ levels left found high]
        have folded := rule.read_height precedence left lows folds parser.enter
        have whole := folds floor (rule.read .standard (Table.standard.exprWithin levels)
          (Table.standard.operatorsWithin levels) precedence left parser.enter).1
          (rule.read .standard (Table.standard.exprWithin levels)
            (Table.standard.operatorsWithin levels) precedence left parser.enter).2
        have more := tallest_mono (Nat.le_add_right levels 1)
        dsimp only
        omega

/-- With so many levels left, an expression is no higher than this. -/
theorem exprWithin_height (levels : Nat) (parser : Parser) :
    (Table.standard.exprWithin levels parser).1.height ≤ tallest levels :=
  ((within_height levels).1 parser).1

end

/-! ### Statements -/

namespace Stmt

theorem depthOfAll_le_iff {stmts : List Stmt} :
    depthOfAll stmts ≤ bound ↔ ∀ stmt ∈ stmts, stmt.depth ≤ bound := by
  induction stmts with
  | nil => simp [depthOfAll]
  | cons stmt rest ih => simp [depthOfAll, ih]

theorem allNodes_eq_flatMap (stmts : List Stmt) : allNodes stmts = stmts.flatMap nodes := by
  induction stmts with
  | nil => rfl
  | cons stmt rest ih => rw [allNodes, ih, List.flatMap_cons]

/-- A statement so deep, with expressions so high. -/
structure Fits (depth height : Nat) (stmt : Stmt) : Prop where
  depth : stmt.depth ≤ depth
  exprs : ∀ node ∈ stmt.nodes, ∀ expr ∈ node.ownExprs, expr.height ≤ height

end Stmt

namespace Stmt.Fits

variable {depth height : Nat} {condition : Expr} {stmt thenBody elseBody : Stmt}
  {stmts : List Stmt}

theorem mono (fits : stmt.Fits depth height) (deeper : depth ≤ depth') (higher : height ≤ height') :
    stmt.Fits depth' height' where
  depth := fits.depth.trans deeper
  exprs node member expr own := (fits.exprs node member expr own).trans higher

/-- A statement that has no other inside it. -/
theorem simple (alone : stmt.nodes = [stmt]) (flat : stmt.depth = 1)
    (low : ∀ expr ∈ stmt.ownExprs, expr.height ≤ height) : stmt.Fits (depth + 1) height where
  depth := flat.trans_le (Nat.le_add_left 1 depth)
  exprs := by simpa [alone] using low

theorem ifThen (low : condition.height ≤ height) (body : thenBody.Fits depth height) :
    (Stmt.ifThen condition thenBody).Fits (depth + 1) height where
  depth := Nat.succ_le_succ body.depth
  exprs := List.forall_mem_cons.mpr ⟨by simpa [ownExprs] using low, body.exprs⟩

theorem ifThenElse (low : condition.height ≤ height) (first : thenBody.Fits depth height)
    (second : elseBody.Fits depth height) :
    (Stmt.ifThenElse condition thenBody elseBody).Fits (depth + 1) height where
  depth := Nat.succ_le_succ (Nat.max_le.mpr ⟨first.depth, second.depth⟩)
  exprs := List.forall_mem_cons.mpr ⟨by simpa [ownExprs] using low,
    List.forall_mem_append.mpr ⟨first.exprs, second.exprs⟩⟩

theorem whileDo (low : condition.height ≤ height) (body : stmt.Fits depth height) :
    (Stmt.whileDo condition stmt).Fits (depth + 1) height where
  depth := Nat.succ_le_succ body.depth
  exprs := List.forall_mem_cons.mpr ⟨by simpa [ownExprs] using low, body.exprs⟩

theorem block (body : ∀ stmt ∈ stmts, stmt.Fits depth height) :
    (Stmt.block stmts).Fits (depth + 1) height where
  depth := Nat.succ_le_succ (depthOfAll_le_iff.mpr fun stmt member => (body stmt member).depth)
  exprs := by
    refine List.forall_mem_cons.mpr ⟨by simp [ownExprs], fun node member => ?_⟩
    obtain ⟨stmt, within, member⟩ := List.mem_flatMap.mp (allNodes_eq_flatMap stmts ▸ member)
    exact (body stmt within).exprs node member

end Stmt.Fits

/-- Each item of a repetition was read by a step. -/
theorem mem_repeatWhile {step : Parser → α × Parser} {goesOn : TokenKind → Bool} {item : α}
    (member : item ∈ (Parser.repeatWhile goesOn step parser).1) :
    ∃ before, item = (step before).1 := by
  rw [Parser.repeatWhile] at member
  generalize parser.ahead.length = bound at member
  induction bound generalizing parser with
  | zero => cases member
  | succ bound ih =>
    rw [Parser.repeatUpTo] at member
    split at member
    · rcases List.mem_cons.mp member with rfl | member
      · exact ⟨parser, rfl⟩
      · exact ih member
    · cases member

section

variable {expr : Parser → Expr × Parser} {stmt : Parser → Stmt × Parser} {depth height : Nat}

private theorem assignmentTo_fits (low : ∀ parser, (expr parser).1.height ≤ height)
    (target : String) (parser : Parser) :
    (parser.assignmentTo expr target).1.Fits (depth + 1) height := by
  rw [Parser.assignmentTo]
  split
  · exact .simple rfl rfl (by simp [Stmt.ownExprs, low])
  · exact .simple rfl rfl (by simp [Stmt.ownExprs, low])
  · exact .simple rfl rfl (List.forall_mem_nil _)

private theorem repeatWhile_fits (fits : ∀ parser, (stmt parser).1.Fits depth height)
    (goesOn : TokenKind → Bool) (parser : Parser) :
    ∀ item ∈ (parser.repeatWhile goesOn stmt).1, item.Fits depth height := by
  intro item member
  obtain ⟨before, rfl⟩ := mem_repeatWhile member
  exact fits before

private theorem StatementRule.read_fits (rule : StatementRule)
    (low : ∀ parser, (expr parser).1.height ≤ height)
    (fits : ∀ parser, (stmt parser).1.Fits depth height) (parser : Parser) :
    (rule.read expr stmt parser).1.Fits (depth + 1) height := by
  cases rule with
  | conditional =>
    simp only [read]
    split
    · exact .ifThenElse (low _) (fits _) (fits _)
    · exact .ifThen (low _) (fits _)
  | loop => exact .whileDo (low _) (fits _)
  | block => exact .block (repeatWhile_fits fits continuesBlock parser.advance)
  | assignment => exact assignmentTo_fits low _ _
  | statement => exact (fits parser).mono (Nat.le_add_right _ _) le_rfl

/-- A statement takes one level, and its expressions are read in the others. -/
theorem stmtWithin_fits (levels : Nat) (parser : Parser) :
    (Table.standard.stmtWithin levels parser).1.Fits (levels + 1) (tallest (levels - 1)) := by
  induction levels generalizing parser with
  | zero => exact .simple rfl rfl (List.forall_mem_nil _)
  | succ levels ih =>
    have inner (parser : Parser) :
        (Table.standard.stmtWithin levels parser).1.Fits (levels + 1) (tallest levels) :=
      (ih parser).mono le_rfl (tallest_mono (Nat.sub_le levels 1))
    rw [Table.stmtWithin]
    dsimp only
    split
    · exact StatementRule.read_fits _ (exprWithin_height levels) inner parser.enter
    · exact .simple rfl rfl (List.forall_mem_nil _)

end

/-! ### Whole texts -/

/-- Every statement of a program is read with no more levels left than there are. -/
private theorem read_of_mem_statements {table : Table} {parser : Parser} {stmt : Stmt}
    (member : stmt ∈ (parser.program table).1.statements) :
    ∃ levels ≤ maxNesting, ∃ before, stmt = (table.stmtWithin levels before).1 := by
  simp only [Parser.program, Parser.statements] at member
  obtain ⟨before, read⟩ := mem_repeatWhile member
  exact ⟨_, Nat.sub_le _ _, before, read⟩

private theorem parse_fits (source : String) :
    ∀ stmt ∈ (parse source).program.statements, stmt.Fits 257 32387 := by
  intro stmt member
  rw [parse, Parser.finishProgram] at member
  obtain ⟨levels, few, before, read⟩ := read_of_mem_statements member
  have few : levels ≤ 256 := few
  have most : tallest 255 ≤ 32387 := (tallest_le 255).trans (by decide)
  have fewer : levels - 1 ≤ 255 := by omega
  rw [read]
  exact (stmtWithin_fits levels before).mono (by omega) ((tallest_mono fewer).trans most)

private theorem parse_exprs_height (source : String) :
    ∀ expr ∈ (parse source).program.exprs, expr.height ≤ 32387 := by
  intro expr member
  obtain ⟨node, within, own⟩ := List.mem_flatMap.mp member
  rw [Program.nodes, Stmt.allNodes_eq_flatMap] at within
  obtain ⟨stmt, top, within⟩ := List.mem_flatMap.mp within
  exact (parse_fits source stmt top).exprs node within expr own

namespace Program

theorem conditions_subset_exprs (program : Program) : program.conditions ⊆ program.exprs := by
  intro condition member
  obtain ⟨node, within, own⟩ := List.mem_filterMap.mp member
  refine List.mem_flatMap.mpr ⟨node, within, ?_⟩
  cases node <;> cases own <;> simp [Stmt.ownExprs]

theorem value_mem_exprs {program : Program} {assignment : Assignment}
    (member : assignment ∈ program.assignments) : assignment.value ∈ program.exprs := by
  obtain ⟨node, within, own⟩ := List.mem_filterMap.mp member
  refine List.mem_flatMap.mpr ⟨node, within, ?_⟩
  cases node <;> cases own <;> simp [Stmt.ownExprs]

end Program

/-- From every state of a parser, an expression is no higher than the levels
that are left allow, and a statement no deeper; so there is a bound for every
text, for its tree and for the lists that are recorded beside it. -/
theorem trees_are_low :
    (∀ parser : Parser,
      let levels := parser.nesting.levelsLeft
      (parser.expr .standard).1.height ≤ 2 + levels * (levels - 1) / 2 ∧
        (parser.stmt .standard).1.depth ≤ levels + 1) ∧
    ∀ source : String,
      (∀ stmt ∈ (parse source).program.statements, stmt.depth ≤ 257) ∧
        (∀ expr ∈ (parse source).program.exprs, expr.height ≤ 32387) ∧
        (∀ assignment ∈ (parse source).inventory.assignments, assignment.value.height ≤ 32387) ∧
        ∀ condition ∈ (parse source).inventory.conditions, condition.height ≤ 32387 := by
  refine ⟨fun parser => ⟨(exprWithin_height _ parser).trans (tallest_le _),
    (stmtWithin_fits _ parser).depth⟩, fun source => ?_⟩
  have describes := parse_describes source
  have low := parse_exprs_height source
  refine ⟨fun stmt member => (parse_fits source stmt member).depth, low, ?_, ?_⟩
  · rw [describes.assignments]
    exact fun assignment member => low _ (Program.value_mem_exprs member)
  · rw [describes.conditions]
    exact fun condition member => low _ (Program.conditions_subset_exprs _ member)

/-- The bound is met with one level left: a sign, and a placeholder below it. -/
example : (Parser.expr .standard { Parser.ofSource "!a" with nesting := ⟨255, 255, 0, 0⟩ }).1.height =
    2 + 1 * (1 - 1) / 2 := by
  decide +kernel

end ToyC
