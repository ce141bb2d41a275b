import Mathlib.Data.List.TakeWhile
import ToyC.Proofs.ExprReading
import ToyC.Proofs.Levels
import ToyC.Proofs.Unambiguity

/-! Folding a row of operators. From any state of a parser, whatever was
reported before and whatever stands behind the row, operators are taken up to
the first one that is too low, and the tree of what was taken is the one that
splitting at the last operator of the lowest level gives. The same is shown of
whole expressions on the way, since a row has expressions in its groups and
indices. Only a level that is refused can come between. -/
namespace ToyC

/-! ### Rows -/

/-- An operator and the operand to its right, in the text and in the tree. -/
structure Operation where
  token : Token
  operator : BinaryOp
  operand : List Token
  tree : Expr

namespace Operation

def tokens (operation : Operation) : List Token := operation.token :: operation.operand

def entry (operation : Operation) : BinaryOp × Expr := (operation.operator, operation.tree)

/-- The operand has no sign: it is a constant, a name or a group, with indices. -/
structure Stands (operation : Operation) : Prop where
  binary : operation.token.kind = operation.operator.kind
  operand : OperandTree operation.operand operation.tree

end Operation

/-- Operators with their operands. The last operand may have a sign: it is the
rest of an expression. -/
inductive Row : List Operation → Prop
  | nil : Row []
  | cons (stands : operation.Stands) (others : Row operations) : Row (operation :: operations)
  | signed {operator : BinaryOp} (binary : token.kind = operator.kind) (sign : isSign first.kind)
      (operand : ExprTree (first :: tokens) tree) : Row [⟨token, operator, first :: tokens, tree⟩]

/-- An operand and the operators behind it: none if the operand has a sign. -/
def LeadsRow (tokens : List Token) (tree : Expr) (others : List Operation) : Prop :=
  (OperandTree tokens tree ∧ Row others) ∨
    ∃ first rest, tokens = first :: rest ∧ isSign first.kind ∧ ExprTree tokens tree ∧ others = []

/-- The operators in front of the first one that is too low. -/
def highEnough (floor : Int) (operations : List Operation) : List Operation :=
  operations.takeWhile (floor ≤ ·.operator.level)

/-- What is left of a row when those in front are taken. -/
def fromTooLow (floor : Int) (operations : List Operation) : List Operation :=
  operations.dropWhile (floor ≤ ·.operator.level)

namespace Row

theorem of_stands (stands : ∀ operation ∈ operations, Operation.Stands operation) :
    Row operations := by
  induction operations with
  | nil => exact .nil
  | cons operation operations ih =>
    obtain ⟨first, others⟩ := List.forall_mem_cons.mp stands
    exact .cons first (ih others)

theorem tooLow (row : Row operations) (floor : Int) : Row (fromTooLow floor operations) := by
  rw [fromTooLow]
  induction row with
  | nil => exact .nil
  | cons stands others ih =>
    rw [List.dropWhile_cons]
    split
    · exact ih
    · exact .cons stands others
  | signed binary sign operand =>
    rw [List.dropWhile_cons]
    split
    · exact .nil
    · exact .signed binary sign operand

theorem binary (row : Row (operation :: others)) :
    operation.token.kind = operation.operator.kind := by
  cases row with
  | cons stands => exact stands.binary
  | signed binary => exact binary

theorem behind (row : Row (operation :: others)) : Row others := by
  cases row with
  | cons _ row => exact row
  | signed => exact .nil

theorem leads (row : Row (operation :: others)) :
    LeadsRow operation.operand operation.tree others := by
  cases row with
  | cons stands row => exact .inl ⟨stands.operand, row⟩
  | signed binary sign operand => exact .inr ⟨_, _, rfl, sign, operand, rfl⟩

end Row

mutual
/-- What stands behind an operand is a row. -/
theorem TailTree.exists_row : TailTree tokens entries → ∃ operations, Row operations ∧
    operations.flatMap Operation.tokens = tokens ∧ operations.map Operation.entry = entries
  | .nil => ⟨[], .nil, rfl, rfl⟩
  | .cons binary operand others => by
    obtain ⟨operations, row, rfl, rfl⟩ := others.exists_row
    exact ⟨⟨_, _, _, _⟩ :: operations, .cons ⟨binary, operand⟩ row, rfl, rfl⟩
  | .signed binary sign operand =>
    ⟨_, .signed binary sign operand, by simp [Operation.tokens], rfl⟩
termination_by structural tail => tail
/-- An expression is an operand with a row behind it. -/
theorem ExprTree.exists_row : ExprTree tokens whole → ∃ operand first others,
    LeadsRow operand first others ∧ tokens = operand ++ others.flatMap Operation.tokens ∧
      Grouped first (others.map Operation.entry) whole
  | .not sign operand =>
    ⟨_, _, [], .inr ⟨_, _, rfl, by rw [sign]; rfl, .not sign operand, rfl⟩, by simp, .single⟩
  | .negate sign operand =>
    ⟨_, _, [], .inr ⟨_, _, rfl, by rw [sign]; rfl, .negate sign operand, rfl⟩, by simp, .single⟩
  | .flat operand tail grouped => by
    obtain ⟨others, row, rfl, rfl⟩ := tail.exists_row
    exact ⟨_, _, others, .inl ⟨operand, row⟩, rfl, grouped⟩
end

theorem level_of_mem_highEnough (member : operation ∈ highEnough floor operations) :
    floor ≤ operation.operator.level := by
  simpa using List.mem_takeWhile_imp member

theorem level_of_head_fromTooLow
    (member : operation ∈ (highEnough lower (fromTooLow floor operations)).head?) :
    operation.operator.level < floor := by
  rw [highEnough, List.head?_takeWhile, fromTooLow, ← List.find?_not_eq_head?_dropWhile] at member
  simpa using List.find?_some (Option.mem_filter_iff.mp member).1

theorem highEnough_append_fromTooLow (floor : Int) (operations : List Operation) :
    highEnough floor operations ++ fromTooLow floor operations = operations :=
  List.takeWhile_append_dropWhile

theorem tokens_eq_append (floor : Int) (operations : List Operation) (rest : List Token) :
    operations.flatMap Operation.tokens ++ rest =
      (highEnough floor operations).flatMap Operation.tokens ++
        ((fromTooLow floor operations).flatMap Operation.tokens ++ rest) := by
  rw [← List.append_assoc, ← List.flatMap_append, highEnough_append_fromTooLow]

/-- A lower floor lets more pass: all that is above the higher one, and then
what is above the lower one. -/
theorem highEnough_eq_append (lower : floor ≤ higher) (operations : List Operation) :
    highEnough floor operations =
      highEnough higher operations ++ highEnough floor (fromTooLow higher operations) := by
  have above : ∀ operation ∈ highEnough higher operations,
      decide (floor ≤ operation.operator.level) = true := fun operation member =>
    decide_eq_true (lower.trans (level_of_mem_highEnough member))
  calc highEnough floor operations
      = highEnough floor (highEnough higher operations ++ fromTooLow higher operations) := by
        rw [highEnough_append_fromTooLow]
    _ = _ := List.takeWhile_append_of_pos above

/-! ### Taking what stands ahead -/

/-- The operators of a row that are high enough were taken, with the tokens
`front` before them, and grouped behind `first`. -/
structure TakesRow (floor : Int) (front : List Token) (first : Expr) (operations : List Operation)
    (before : Parser) (whole : Expr × Parser) : Prop where
  consumes : Consumes before whole.2
    (front ++ (highEnough floor operations).flatMap Operation.tokens)
  grouped : Grouped first ((highEnough floor operations).map Operation.entry) whole.1

/-- No level was refused between the two states. -/
def Unrefused (before after : Parser) : Prop := after.nesting.refused = before.nesting.refused

theorem Unrefused.split (unrefused : Unrefused before after) (first : Grows before between)
    (second : Grows between after) : Unrefused before between ∧ Unrefused between after := by
  have := first.refused
  have := second.refused
  unfold Unrefused at *
  omega

/-- To open or to close levels refuses none. -/
theorem Unrefused.inside {parser after : Parser} (unrefused : Unrefused parser (after.leave levels)) :
    Unrefused parser.enter after := unrefused

theorem not_unrefused_refuse (parser : Parser) (expected : TokenKind) :
    ¬ Unrefused parser (parser.refuse expected) := by
  simp [Unrefused, Nesting.refuse]

theorem kind_of_ahead {parser : Parser} (ahead : parser.ahead = token :: rest) :
    parser.kind = token.kind :=
  (Consumes.take ahead).kind_cons

theorem HeadAvoids.kind {parser : Parser} (avoids : HeadAvoids continuesExpression rest)
    (ahead : parser.ahead = rest) : continuesExpression parser.kind = false := by
  subst ahead
  cases ahead : parser.ahead with
  | nil => simp [Parser.kind, Parser.current, ahead, continuesExpression, isBinaryOperator]
  | cons token rest =>
    rw [ahead, HeadAvoids.cons_iff] at avoids
    rw [kind_of_ahead ahead, avoids]

theorem advance_ahead {parser : Parser} (ahead : parser.ahead = token :: rest) :
    parser.advance.ahead = rest := by
  simp [Parser.advance, Parser.pass, ahead]

theorem grows_expect (parser : Parser) (expected : TokenKind) :
    Grows parser (parser.expect expected) := by
  rw [Parser.expect]
  split
  · exact grows_pass parser 1
  · exact grows_reportAs parser .unexpected expected

/-- A level that is opened before a stretch and closed after it. -/
theorem Consumes.nested {parser : Parser} (inside : Consumes parser.enter after taken) :
    Consumes parser (after.leave 1) taken := by
  simpa using ((Consumes.enter parser).trans inside).trans (.leave after 1)

theorem TakesRow.nested {parser : Parser} {whole : Expr × Parser}
    (inside : TakesRow floor front first operations parser.enter whole) :
    TakesRow floor front first operations parser (whole.1, whole.2.leave 1) :=
  ⟨inside.consumes.nested, inside.grouped⟩

theorem Consumes.leaves (consumes : Consumes before after taken)
    (ahead : before.ahead = taken ++ rest) : after.ahead = rest :=
  List.append_cancel_left (consumes.ahead.symm.trans ahead)

theorem readOperand_of_rule {parser : Parser}
    (found : Table.standard.operand parser.kind = some rule) (expr : Parser → Expr × Parser) :
    Table.standard.readOperand expr parser = rule.read expr parser := by
  rw [Table.readOperand, found]

/-- The reader takes an expression that stands ahead, and gives its tree. -/
def TakesExpressions (expr : Parser → Expr × Parser) : Prop :=
  ∀ {parser tokens tree rest}, ExprTree tokens tree → parser.ahead = tokens ++ rest →
    HeadAvoids continuesExpression rest → Unrefused parser (expr parser).2 →
    Consumes parser (expr parser).2 tokens ∧ (expr parser).1 = tree

/-- The reader folds indices that stand ahead, and the row behind them up to the
first operator that is too low. -/
def FoldsRows (operators : Int → Expr → Parser → Expr × Parser) : Prop :=
  ∀ {floor left parser indexTokens trees operations rest}, floor ≤ Precedence.index.level →
    IndicesTree indexTokens trees → Row operations →
    parser.ahead = indexTokens ++ (operations.flatMap Operation.tokens ++ rest) →
    HeadAvoids continuesExpression rest → Unrefused parser (operators floor left parser).2 →
    TakesRow floor indexTokens (trees.foldl .arrayLookup left) operations parser
      (operators floor left parser)

variable {parser : Parser} {expr : Parser → Expr × Parser}

theorem takes_enclosed (takes : TakesExpressions expr) (inside : ExprTree tokens tree)
    (closing : closer.kind = right) (stops : continuesExpression right = false)
    (ahead : parser.ahead = opener :: (tokens ++ closer :: rest))
    (unrefused : Unrefused parser ((expr parser.advance).2.expect right)) :
    Consumes parser ((expr parser.advance).2.expect right) (opener :: (tokens ++ [closer])) ∧
      (expr parser.advance).1 = tree := by
  have opening := Consumes.take ahead
  rw [Unrefused, Parser.expect_nesting] at unrefused
  obtain ⟨inner, same⟩ := takes inside (advance_ahead ahead) (.of_kind closing stops) unrefused
  have closes := inner.leaves (advance_ahead ahead)
  have found : (expr parser.advance).2.kind = right := (kind_of_ahead closes).trans closing
  rw [Parser.expect_of_kind found]
  exact ⟨(opening.trans inner).trans (.take closes), same⟩

/-- An operand of one token is read without the reader for what is inside a group. -/
theorem readOperand_token (closed : ClosedTree [token] tree) (ahead : parser.ahead = token :: rest)
    (expr : Parser → Expr × Parser) :
    Consumes parser (Table.standard.readOperand expr parser).2 [token] ∧
      (Table.standard.readOperand expr parser).1 = tree := by
  generalize spelled : [token] = tokens at closed
  cases closed with
  | constant constant carries value =>
    cases spelled
    have found : Table.standard.operand parser.kind = some .constant := by
      rw [standard_operand, kind_of_ahead ahead, if_pos constant]
    rw [readOperand_of_rule found]
    refine ⟨.take ahead, ?_⟩
    simp [OperandRule.read, Parser.current, ahead, carries, constantTree_iff.mp value]
  | name named =>
    cases spelled
    have found : Table.standard.operand parser.kind = some .name := by
      rw [kind_of_ahead ahead, named.1]
      rfl
    rw [readOperand_of_rule found]
    refine ⟨(Consumes.take ahead).trans (.recordIdentifier _ _), ?_⟩
    simp [OperandRule.read, Parser.current, ahead, Token.identifier?, named.2]
  | group => simp at spelled

theorem readOperand_group (opens : parser.kind = .openParen) (expr : Parser → Expr × Parser) :
    Table.standard.readOperand expr parser =
      ((expr parser.advance).1, (expr parser.advance).2.expect .closeParen) := by
  have found : Table.standard.operand parser.kind = some .group := by
    rw [opens]
    rfl
  rw [readOperand_of_rule found, OperandRule.read]

theorem readOperand_closed (takes : TakesExpressions expr) (closed : ClosedTree tokens tree)
    (ahead : parser.ahead = tokens ++ rest)
    (unrefused : Unrefused parser (Table.standard.readOperand expr parser).2) :
    Consumes parser (Table.standard.readOperand expr parser).2 tokens ∧
      (Table.standard.readOperand expr parser).1 = tree := by
  cases closed with
  | constant constant carries value =>
    exact readOperand_token (.constant constant carries value) ahead expr
  | name named => exact readOperand_token (.name named) ahead expr
  | group opening inside closing =>
    have opens := (kind_of_ahead ahead).trans opening
    rw [readOperand_group opens] at unrefused ⊢
    exact takes_enclosed takes inside closing rfl (by simpa using ahead) unrefused

theorem readOperand_signed (takes : TakesExpressions expr) (sign : isSign first.kind)
    (operand : ExprTree (first :: tokens) tree) (ahead : parser.ahead = first :: (tokens ++ rest))
    (ends : HeadAvoids continuesExpression rest)
    (unrefused : Unrefused parser (Table.standard.readOperand expr parser).2) :
    Consumes parser (Table.standard.readOperand expr parser).2 (first :: tokens) ∧
      (Table.standard.readOperand expr parser).1 = tree := by
  have kind := kind_of_ahead ahead
  have found : Table.standard.operand parser.kind = some .sign := by
    rw [kind]
    rcases (isSign_iff _).mp sign with same | same <;> rw [same] <;> rfl
  have opening := Consumes.take ahead
  rw [readOperand_of_rule found] at unrefused ⊢
  have behind {operandTree} (tree : ExprTree tokens operandTree) :=
    takes tree (advance_ahead ahead) ends unrefused
  generalize spelled : first :: tokens = taken at operand
  cases operand with
  | not negation inside =>
    cases spelled
    obtain ⟨inner, same⟩ := behind inside
    exact ⟨opening.trans inner, by simp [OperandRule.read, kind, negation, same]⟩
  | negate minus inside =>
    cases spelled
    obtain ⟨inner, same⟩ := behind inside
    exact ⟨opening.trans inner, by simp [OperandRule.read, kind, minus, same]⟩
  | flat unsigned =>
    obtain ⟨_, _, rfl, noSign⟩ := unsigned.starts
    cases spelled
    simp [sign] at noSign

/-! ### Expressions and rows -/

/-- Nothing may stand behind an expression. -/
private theorem ends_one : EndsExpression 1 where
  starts _ _ _ member := List.cons_ne_nil _ _ member
  inhabited := ⟨[], rfl⟩

theorem operatorsWithin_grows (levels : Nat) (floor : Int) (left : Expr) (parser : Parser) :
    Grows parser (Table.standard.operatorsWithin levels floor left parser).2 :=
  (reads_operatorsWithin levels 1 floor left parser ends_one).grows

theorem readOperand_grows (levels : Nat) (parser : Parser) :
    Grows parser (Table.standard.readOperand (Table.standard.exprWithin levels) parser).2 :=
  (reads_readOperand (reads_exprWithin levels) ends_one parser).grows

theorem exprWithin_grows (levels : Nat) (parser : Parser) :
    Grows parser (Table.standard.exprWithin levels parser).2 :=
  (reads_exprWithin levels 1 parser ends_one).grows

variable {levels : Nat}

/-- An operand, and the operators behind it that are high enough. -/
theorem folds_behind (takes : TakesExpressions (Table.standard.exprWithin levels))
    (folds : FoldsRows (Table.standard.operatorsWithin levels)) (leads : LeadsRow tokens first others)
    (low : floor ≤ Precedence.index.level)
    (ahead : parser.ahead = tokens ++ (others.flatMap Operation.tokens ++ rest))
    (ends : HeadAvoids continuesExpression rest) :
    let operand := Table.standard.readOperand (Table.standard.exprWithin levels) parser
    let whole := Table.standard.operatorsWithin levels floor operand.1 operand.2
    Unrefused parser whole.2 → TakesRow floor tokens first others parser whole := by
  intro operand whole unrefused
  obtain ⟨unrefusedOperand, unrefusedBehind⟩ :=
    unrefused.split (readOperand_grows levels parser) (operatorsWithin_grows levels _ _ _)
  rcases leads with ⟨⟨base, indices⟩, row⟩ | ⟨sign, tokens, rfl, signed, tree, rfl⟩
  · rw [List.append_assoc] at ahead
    obtain ⟨taken, rfl⟩ := readOperand_closed takes base ahead unrefusedOperand
    obtain ⟨behind, grouped⟩ := folds low indices row (taken.leaves ahead) ends unrefusedBehind
    refine ⟨?_, grouped⟩
    rw [List.append_assoc]
    exact taken.trans behind
  · obtain ⟨taken, same⟩ := readOperand_signed takes signed tree ahead ends unrefusedOperand
    obtain ⟨behind, grouped⟩ := folds low .nil .nil (taken.leaves ahead) ends unrefusedBehind
    rw [← same]
    exact ⟨taken.trans behind, grouped⟩

/-- Where reading stops, no high operator is ahead. -/
theorem highEnough_eq_nil (stops : StopsAt floor parser.kind) (row : Row operations)
    (ahead : parser.ahead = operations.flatMap Operation.tokens ++ rest) :
    highEnough floor operations = [] := by
  cases operations with
  | nil => rfl
  | cons operation others =>
    obtain ⟨precedence, found, level⟩ := standard_operator_of_binary row.binary
    have tooLow := stops precedence .binary (by rw [kind_of_ahead ahead, found])
    exact List.takeWhile_cons_of_neg (by simpa [← level] using tooLow)

theorem not_stopsAt_index (low : floor ≤ Precedence.index.level) :
    ¬ StopsAt floor .openBracket := fun stops =>
  absurd (stops .index .index rfl) (not_lt_of_ge low)

theorem TakesRow.nothing (none : highEnough floor operations = []) (parser : Parser) (left : Expr) :
    TakesRow floor [] left operations parser (left, parser) := by
  constructor
  · rw [none]
    exact .refl parser
  · rw [none]
    exact .single

/-- Where reading stops, neither an index nor a high operator is ahead. -/
theorem operatorsWithin_stopped (stops : StopsAt floor parser.kind)
    (low : floor ≤ Precedence.index.level) (indices : IndicesTree indexTokens trees)
    (row : Row operations)
    (ahead : parser.ahead = indexTokens ++ (operations.flatMap Operation.tokens ++ rest))
    (levels : Nat) (left : Expr) :
    TakesRow floor indexTokens (trees.foldl .arrayLookup left) operations parser
      (Table.standard.operatorsWithin levels floor left parser) := by
  cases indices with
  | nil =>
    rw [operatorsWithin_of_stop stops]
    exact .nothing (highEnough_eq_nil stops row ahead) parser left
  | cons opening =>
    rw [kind_of_ahead ahead, opening] at stops
    exact absurd stops (not_stopsAt_index low)

/-- No operator binds tighter than an index. -/
theorem stopsAt_of_highest (high : Precedence.index.level < floor) (kind : TokenKind) :
    StopsAt floor kind := by
  intro precedence rule _
  refine lt_of_le_of_lt ?_ high
  cases precedence <;> decide

/-- An operator takes the higher ones behind it into its right operand, and the
rest of the row is folded into the result. -/
theorem folds_operator (takes : TakesExpressions (Table.standard.exprWithin levels))
    (folds : FoldsRows (Table.standard.operatorsWithin levels)) (row : Row (operation :: others))
    (high : floor ≤ operation.operator.level)
    (ahead : parser.ahead =
      operation.token :: (operation.operand ++ (others.flatMap Operation.tokens ++ rest)))
    (ends : HeadAvoids continuesExpression rest) :
    let operand := Table.standard.readOperand (Table.standard.exprWithin levels) parser.advance
    let right := Table.standard.operatorsWithin levels (operation.operator.level + 1) operand.1
      operand.2
    let whole := Table.standard.operatorsWithin levels floor
      (.binary operation.operator left right.1) right.2
    Unrefused parser whole.2 → TakesRow floor [] left (operation :: others) parser whole := by
  intro operand right whole unrefused
  have token := Consumes.take ahead
  have aheadRight := advance_ahead ahead
  have growsRight : Grows parser right.2 :=
    token.grows.trans ((readOperand_grows levels _).trans (operatorsWithin_grows levels _ _ _))
  obtain ⟨unrefusedRight, unrefusedWhole⟩ :=
    unrefused.split growsRight (operatorsWithin_grows levels _ _ _)
  have lower : floor ≤ operation.operator.level + 1 := high.trans (Int.le_add_one le_rfl)
  have low : operation.operator.level + 1 ≤ Precedence.index.level := by
    cases operation.operator <;> decide
  obtain ⟨takesRight, groupedRight⟩ :=
    folds_behind takes folds row.leads low aheadRight ends unrefusedRight
  have behind : right.2.ahead = (fromTooLow (operation.operator.level + 1) others).flatMap
      Operation.tokens ++ rest := by
    apply takesRight.leaves
    rw [aheadRight, tokens_eq_append (operation.operator.level + 1), List.append_assoc]
  obtain ⟨takesOthers, groupedOthers⟩ :=
    folds (lower.trans low) .nil (row.behind.tooLow _) behind ends unrefusedWhole
  -- What the right operand left is not tighter, so it is folded after this operator.
  have split : highEnough floor (operation :: others) = operation ::
      (highEnough (operation.operator.level + 1) others ++
        highEnough floor (fromTooLow (operation.operator.level + 1) others)) := by
    rw [← highEnough_eq_append lower]
    exact List.takeWhile_cons_of_pos (by simpa using high)
  constructor
  · rw [split]
    simpa [Operation.tokens] using (token.trans takesRight).trans takesOthers
  · have tighter : ∀ entry ∈ (highEnough (operation.operator.level + 1) others).map
        Operation.entry, operation.operator.level < entry.1.level := by
      intro entry member
      obtain ⟨inner, within, rfl⟩ := List.mem_map.mp member
      exact level_of_mem_highEnough within
    have looser : ∀ entry ∈ ((highEnough floor (fromTooLow (operation.operator.level + 1)
        others)).map Operation.entry).head?, entry.1.level ≤ operation.operator.level := by
      intro entry member
      rw [List.head?_map] at member
      obtain ⟨outer, first, rfl⟩ := Option.mem_map.mp member
      exact Int.lt_add_one_iff.mp (level_of_head_fromTooLow first)
    rw [split, List.map_cons, List.map_append]
    exact groupedRight.fold tighter groupedOthers looser

/-- An index is applied to what stands before it, and all behind it is folded
into the result. -/
theorem folds_index (takes : TakesExpressions (Table.standard.exprWithin levels))
    (folds : FoldsRows (Table.standard.operatorsWithin levels))
    (low : floor ≤ Precedence.index.level) (inside : ExprTree tokens tree)
    (closing : closer.kind = .closeBracket) (indices : IndicesTree further trees)
    (row : Row operations)
    (ahead : parser.ahead =
      opener :: (tokens ++ closer :: (further ++ (operations.flatMap Operation.tokens ++ rest))))
    (ends : HeadAvoids continuesExpression rest) :
    let index := Table.standard.exprWithin levels parser.advance
    let whole := Table.standard.operatorsWithin levels floor (.arrayLookup left index.1)
      (index.2.expect .closeBracket)
    Unrefused parser whole.2 →
      TakesRow floor (opener :: (tokens ++ closer :: further))
        (trees.foldl .arrayLookup (.arrayLookup left tree)) operations parser whole := by
  intro index whole unrefused
  have growsIndex : Grows parser (index.2.expect .closeBracket) :=
    ((grows_pass parser 1).trans (exprWithin_grows levels _)).trans (grows_expect _ _)
  obtain ⟨unrefusedIndex, unrefusedBehind⟩ :=
    unrefused.split growsIndex (operatorsWithin_grows levels _ _ _)
  obtain ⟨takenIndex, rfl⟩ := takes_enclosed takes inside closing rfl ahead unrefusedIndex
  obtain ⟨taken, grouped⟩ :=
    folds low indices row (takenIndex.leaves (by simpa using ahead)) ends unrefusedBehind
  refine ⟨?_, grouped⟩
  simpa using takenIndex.trans taken

private theorem takesExpressions_succ
    (takes : TakesExpressions (Table.standard.exprWithin levels))
    (folds : FoldsRows (Table.standard.operatorsWithin levels)) :
    TakesExpressions (Table.standard.exprWithin (levels + 1)) := by
  intro parser tokens tree rest whole ahead ends unrefused
  obtain ⟨operand, first, others, leads, rfl, grouped⟩ := whole.exists_row
  rw [List.append_assoc] at ahead
  obtain ⟨taken, grouped'⟩ :=
    folds_behind takes folds leads (by decide : (0 : Int) ≤ Precedence.index.level)
      (show parser.enter.ahead = _ from ahead) ends unrefused.inside
  have all : highEnough 0 others = others := by
    refine List.takeWhile_eq_self_iff.mpr fun operation _ => ?_
    cases operation.operator <;> rfl
  rw [all] at taken grouped'
  rw [Table.exprWithin]
  exact ⟨taken.nested, grouped'.unique grouped⟩

private theorem foldsRows_succ (takes : TakesExpressions (Table.standard.exprWithin levels))
    (folds : FoldsRows (Table.standard.operatorsWithin levels)) :
    FoldsRows (Table.standard.operatorsWithin (levels + 1)) := by
  intro floor left parser indexTokens trees operations rest low indices row ahead ends unrefused
  rcases stopsAt_or_operator floor parser.kind with stops | ⟨precedence, rule, found, high⟩
  · exact operatorsWithin_stopped stops low indices row ahead (levels + 1) left
  · rw [operatorsWithin_succ levels left found high] at unrefused ⊢
    cases indices with
    | nil =>
      cases operations with
      | nil =>
        rw [standard_operator_of_stop (ends.kind ahead)] at found
        cases found
      | cons operation others =>
        have binary := (kind_of_ahead ahead).trans row.binary
        obtain ⟨_, found', level⟩ := standard_operator_of_binary binary
        cases found'.symm.trans found
        rw [level] at high
        have known : BinaryOp.ofKind? parser.enter.kind = some operation.operator :=
          BinaryOp.ofKind?_eq_some_iff.mpr binary
        simp only [OperatorRule.read, known, level] at unrefused ⊢
        have enter : parser.enter.ahead = operation.token ::
            (operation.operand ++ (others.flatMap Operation.tokens ++ rest)) := by
          change parser.ahead = _
          simpa [Operation.tokens] using ahead
        exact (folds_operator takes folds row high enter ends unrefused.inside).nested
    | cons opening inside closing behind =>
      obtain ⟨rfl, rfl⟩ : .index = precedence ∧ .index = rule := by
        simpa [kind_of_ahead ahead, opening, Table.standard] using found
      simp only [OperatorRule.read] at unrefused ⊢
      rw [List.cons_append, List.append_assoc, List.cons_append] at ahead
      exact (folds_index takes folds low inside closing behind row
        (show parser.enter.ahead = _ from ahead) ends unrefused.inside).nested

private theorem within_takes (levels : Nat) :
    TakesExpressions (Table.standard.exprWithin levels) ∧
      FoldsRows (Table.standard.operatorsWithin levels) := by
  -- Both at once: an expression folds a row, and a row has expressions in groups and indices.
  induction levels with
  | zero =>
    refine ⟨fun _ _ _ unrefused => absurd unrefused (not_unrefused_refuse _ .expression), ?_⟩
    intro floor left parser indexTokens trees operations rest low indices row ahead ends unrefused
    rcases stopsAt_or_operator floor parser.kind with stops | ⟨precedence, rule, found, high⟩
    · exact operatorsWithin_stopped stops low indices row ahead 0 left
    · rw [operatorsWithin_zero left found high] at unrefused
      exact absurd unrefused (not_unrefused_refuse parser .expression)
  | succ levels ih => exact ⟨takesExpressions_succ ih.1 ih.2, foldsRows_succ ih.1 ih.2⟩

/-- An expression that stands ahead is taken and gets its tree, from every state
of a parser, unless a level is refused. -/
theorem exprWithin_takes (levels : Nat) : TakesExpressions (Table.standard.exprWithin levels) :=
  (within_takes levels).1

/-- A row is folded up to the first operator that is too low, from every state
of a parser, unless a level is refused. -/
theorem operatorsWithin_folds (levels : Nat) : FoldsRows (Table.standard.operatorsWithin levels) :=
  (within_takes levels).2

/-- Let operators with unsigned operands stand ahead, and behind them a token
that does not go on the expression. From every state of the parser, for every
floor and every expression on the left, just the operators up to the first one
below the floor are taken with their operands, nothing is reported, and the
tree is the one that splitting at the last operator of the lowest level gives,
unless a level is refused on the way. -/
theorem operators_fold_row {parser : Parser} {operations : List Operation} {rest : List Token}
    (stands : ∀ operation ∈ operations, operation.Stands)
    (ahead : parser.ahead = operations.flatMap Operation.tokens ++ rest)
    (ends : HeadAvoids continuesExpression rest) (floor : Int) (left : Expr)
    (unrefused : (parser.operators .standard floor left).2.nesting.refused =
      parser.nesting.refused) :
    let folded := operations.takeWhile (floor ≤ ·.operator.level)
    Consumes parser (parser.operators .standard floor left).2 (folded.flatMap Operation.tokens) ∧
      ∀ tree, Grouped left (folded.map Operation.entry) tree ↔
        tree = (parser.operators .standard floor left).1 := by
  have row := Row.of_stands stands
  change Consumes parser _ ((highEnough floor operations).flatMap Operation.tokens) ∧
    ∀ tree, Grouped left ((highEnough floor operations).map Operation.entry) tree ↔ _
  obtain ⟨taken, grouped⟩ :
      TakesRow floor [] left operations parser (parser.operators .standard floor left) := by
    by_cases low : floor ≤ Precedence.index.level
    · exact operatorsWithin_folds _ low .nil row ahead ends unrefused
    · have stops := stopsAt_of_highest (not_le.mp low) parser.kind
      rw [Parser.operators, operatorsWithin_of_stop stops]
      exact .nothing (highEnough_eq_nil stops row ahead) parser left
  exact ⟨taken, fun tree => ⟨fun other => other.unique grouped, fun same => same ▸ grouped⟩⟩

/-- Six levels are left, and the current token was reported before. -/
theorem product_folds_before_comparison :
    let operation (operator : BinaryOp) (name : String) : Operation :=
      ⟨⟨operator.kind, none, .start⟩, operator,
        [⟨.identifier, some (.identifier name), .start⟩], .identifier name⟩
    let operations := [operation .plus "b", operation .times "c", operation .equal "d"]
    let parser := { Parser.ofSource "" with
      ahead := operations.flatMap Operation.tokens ++ [⟨.closeParen, none, .start⟩]
      reportedAt := some 0
      nesting := ⟨250, 250, 0, 0⟩ }
    let whole := parser.operators .standard 25 (.identifier "a")
    (∀ operation ∈ operations, operation.Stands) ∧
      whole.2.nesting.refused = parser.nesting.refused ∧
      Consumes parser whole.2 ([operation .plus "b", operation .times "c"].flatMap Operation.tokens) ∧
      whole.1 = .binary .plus (.identifier "a")
        (.binary .times (.identifier "b") (.identifier "c")) := by
  intro operation operations parser whole
  have stands : ∀ entry ∈ operations, entry.Stands := by
    have each (operator : BinaryOp) (name : String) : (operation operator name).Stands :=
      ⟨rfl, .operand (.name ⟨rfl, rfl⟩) .nil⟩
    simp only [operations, List.forall_mem_cons]
    exact ⟨each .plus "b", each .times "c", each .equal "d", List.forall_mem_nil _⟩
  have unrefused : whole.2.nesting.refused = parser.nesting.refused := by decide +kernel
  have ends : HeadAvoids continuesExpression [⟨.closeParen, none, .start⟩] := .of_kind rfl rfl
  obtain ⟨taken, grouped⟩ :=
    operators_fold_row stands rfl ends 25 (.identifier "a") unrefused
  have product : Grouped (.identifier "b") ([] ++ [(.times, .identifier "c")])
      (.binary .times (.identifier "b") (.identifier "c")) :=
    .split .single .single (List.forall_mem_nil _) (List.forall_mem_nil _)
  have sum : Grouped (.identifier "a") ([] ++ (.plus, .identifier "b") :: [(.times, .identifier "c")])
      (.binary .plus (.identifier "a") (.binary .times (.identifier "b") (.identifier "c"))) :=
    .split .single product (List.forall_mem_nil _) (by decide)
  exact ⟨stands, unrefused, taken, ((grouped _).mp sum).symm⟩

end ToyC
