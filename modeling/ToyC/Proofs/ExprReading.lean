import ToyC.Proofs.Climbing
import ToyC.Proofs.Reading

/-! Reading expressions. From any parser on, an expression is read if one can
stand there, and gets the tree of its tokens; what is left behind it cannot go
on the expression. The statement about folding operators is proved together
with it, by induction on the levels of nesting that are left. -/
namespace ToyC

open Phrase

/-! ### The table -/

theorem standard_operand (kind : TokenKind) :
    Table.standard.operand kind =
      if isConstant kind then some .constant
      else if kind = .identifier then some .name
      else if isSign kind then some .sign
      else if kind = .openParen then some .group
      else none := by
  cases kind <;> rfl

theorem standard_operator_of_binary {operator : BinaryOp} (binary : kind = operator.kind) :
    ∃ precedence, Table.standard.operator kind = some (precedence, .binary) ∧
      precedence.level = operator.level := by
  subst binary
  cases operator <;> exact ⟨_, rfl, rfl⟩

theorem standard_operator_of_stop (stop : continuesExpression kind = false) :
    Table.standard.operator kind = none := by
  cases kind <;> first | rfl | cases stop

theorem continuesExpression_cases (kind : TokenKind) :
    continuesExpression kind = false ∨ kind = .openBracket ∨
      ∃ operator : BinaryOp, kind = operator.kind := by
  cases binary : BinaryOp.ofKind? kind with
  | some operator => exact .inr (.inr ⟨operator, BinaryOp.ofKind?_eq_some_iff.mp binary⟩)
  | none => cases kind <;> first | exact .inl rfl | exact .inr (.inl rfl) | cases binary

/-- No operator of level `floor` or higher stands there. -/
def StopsAt (floor : Int) (kind : TokenKind) : Prop :=
  ∀ precedence rule, Table.standard.operator kind = some (precedence, rule) →
    precedence.level < floor

theorem StopsAt.of_stop (stop : continuesExpression kind = false) : StopsAt floor kind := by
  intro precedence rule found
  rw [standard_operator_of_stop stop] at found
  cases found

/-- Either folding is over, or an operator is there that is high enough. -/
theorem stopsAt_or_operator (floor : Int) (kind : TokenKind) :
    StopsAt floor kind ∨ ∃ precedence rule,
      Table.standard.operator kind = some (precedence, rule) ∧ floor ≤ precedence.level := by
  by_cases stops : StopsAt floor kind
  · exact .inl stops
  · simp only [StopsAt, not_forall, not_lt] at stops
    obtain ⟨precedence, rule, found, high⟩ := stops
    exact .inr ⟨precedence, rule, found, high⟩

theorem StopsAt.looser {operator operator' : BinaryOp}
    (stops : StopsAt (operator.level + 1) kind) (binary : kind = operator'.kind) :
    operator'.level ≤ operator.level := by
  obtain ⟨precedence, found, level⟩ := standard_operator_of_binary binary
  have := stops _ _ found
  omega

theorem StopsAt.ne_openBracket {operator : BinaryOp} (stops : StopsAt (operator.level + 1) kind) :
    kind ≠ .openBracket := by
  rintro rfl
  have : (50 : Int) < operator.level + 1 := stops .index .index rfl
  cases operator <;> simp [BinaryOp.level] at this

/-- Every operator is of a level above the lowest. -/
theorem StopsAt.stop (stops : StopsAt 0 kind) : continuesExpression kind = false := by
  rcases continuesExpression_cases kind with stop | rfl | ⟨operator, binary⟩
  · exact stop
  · exact absurd (stops _ _ rfl) (by decide)
  · obtain ⟨precedence, found, level⟩ := standard_operator_of_binary binary
    have low := stops _ _ found
    rw [level] at low
    cases operator <;> simp [BinaryOp.level] at low

/-! ### Operands -/

/-- The reader reads expressions: behind one, nothing goes on it. -/
def ReadsExpressions (expr : Parser → Expr × Parser) : Prop :=
  ∀ follow parser, EndsExpression follow →
    Reads (expression.words * follow) follow parser (expr parser).2 fun taken =>
      ExprTree taken (expr parser).1 ∧ continuesExpression (expr parser).2.kind = false

/-- An operand without its indices; a sign is read with the whole rest of its
expression. -/
def PrimaryTree (taken : List Token) (tree : Expr) (next : TokenKind) : Prop :=
  ClosedTree taken tree ∨
    ∃ first rest, taken = first :: rest ∧ isSign first.kind ∧ ExprTree taken tree ∧
      continuesExpression next = false

variable {follow : Language TokenKind} {expr : Parser → Expr × Parser} {parser : Parser}

/-- An expression between two tokens. -/
theorem reads_enclosed {pending remaining : Language TokenKind} (exprReads : ReadsExpressions expr)
    (opening : Reads pending (expression.words * (only right * remaining)) before between
      (OneToken left))
    (stops : continuesExpression right = false) (inhabited : ∃ word, word ∈ remaining)
    (quiet : Consumes (expr between).2 middle [])
    (closing : Reads (only right * remaining) remaining middle after (OneToken right)) :
    Reads pending remaining before after (Enclosed left right (ExprTree · (expr between).1)) := by
  have inside := (exprReads _ between (.only_mul stops inhabited)).before_quiet quiet
  refine ((opening.andThen inside).andThen closing).mono ?_
  rintro _ _ ⟨_, _, rfl, _, ⟨_, tokens, rfl, _, ⟨opener, rfl, opens, _⟩, _, tree, _⟩, _, closer,
    rfl, closes, _⟩
  exact ⟨opener, tokens, closer, rfl, opens, closes, tree⟩

theorem closedTree_of_constant (wellFormed : token.WellFormed) (constant : isConstant token.kind) :
    ClosedTree [token] ((token.literal.bind Expr.ofConstant?).getD .error) := by
  obtain ⟨literal, value, carries, denotes⟩ := wellFormed.constant constant
  rw [carries, Option.bind_some, denotes]
  exact .constant constant carries (constantTree_iff.mpr denotes)

theorem names_of_identifier {token : Token} (wellFormed : token.WellFormed)
    (identifier : token.kind = .identifier) : token.Names (token.identifier?.getD "") := by
  obtain ⟨name, carries⟩ := wellFormed.name identifier
  refine ⟨identifier, ?_⟩
  simp [Token.identifier?, carries]

theorem isSign_iff (kind : TokenKind) : isSign kind ↔ kind = .not ∨ kind = .minus := by
  cases kind <;> simp [isSign]

private theorem primary_inhabited (ends : EndsExpression follow) :
    ∃ word, word ∈ primaryWords * (tailWords * follow) := by
  rw [← mul_assoc, ← expression_eq_primary_mul_tail]
  exact expression_inhabited ends.inhabited

private theorem reads_constant (parser : Parser) (constant : isConstant parser.kind) :
    Reads (primaryWords * (tailWords * follow)) (tailWords * follow) parser
      (OperandRule.constant.read expr parser).2 fun taken =>
        ClosedTree taken (OperandRule.constant.read expr parser).1 := by
  have present : parser.kind ≠ .eof := by rintro same; simp [same, isConstant] at constant
  have notSign : isSign parser.kind = false := by
    cases same : parser.kind <;> simp_all [isConstant, isSign]
  have notParen : parser.kind ≠ .openParen := by rintro same; simp [same, isConstant] at constant
  refine (Reads.advance present fun rest => ?_).mono fun taken _ held => ?_
  · rw [cons_mem_primary_mul, cons_mem_closed_mul]
    simp [constant, notSign, notParen]
  · obtain ⟨rfl, wellFormed⟩ := held
    exact closedTree_of_constant wellFormed constant

private theorem reads_name (parser : Parser) (name : parser.kind = .identifier) :
    Reads (primaryWords * (tailWords * follow)) (tailWords * follow) parser
      (OperandRule.name.read expr parser).2 fun taken =>
        ClosedTree taken (OperandRule.name.read expr parser).1 := by
  have present : parser.kind ≠ .eof := by simp [name]
  refine Reads.before_quiet ((Reads.advance present fun rest => ?_).mono
    fun taken _ held => ?_) (.recordIdentifier parser.advance _)
  · rw [cons_mem_primary_mul, cons_mem_closed_mul]
    simp [name, isSign]
  · obtain ⟨rfl, wellFormed⟩ := held
    exact .name (names_of_identifier wellFormed name)

private theorem signedTree (sign : isSign token.kind) (operand : ExprTree tokens tree) :
    ExprTree (token :: tokens) (if token.kind = .minus then .negate tree else .not tree) := by
  split
  · rename_i minus
    exact .negate minus operand
  · rename_i other
    exact .not (((isSign_iff _).mp sign).resolve_right other) operand

private theorem reads_sign (exprReads : ReadsExpressions expr) (ends : EndsExpression follow)
    (parser : Parser) (sign : isSign parser.kind) :
    Reads (primaryWords * (tailWords * follow)) (tailWords * follow) parser
      (OperandRule.sign.read expr parser).2 fun taken =>
        PrimaryTree taken (OperandRule.sign.read expr parser).1
          (OperandRule.sign.read expr parser).2.kind := by
  have present : parser.kind ≠ .eof := by rintro same; simp [same, isSign] at sign
  have advance : Reads (primaryWords * (tailWords * follow)) (expression.words * follow) parser
      parser.advance _ := .advance present fun rest => by
    rw [cons_mem_primary_mul, cons_mem_closed_mul]
    rcases (isSign_iff _).mp sign with same | same <;> simp [same, isSign, isConstant]
  refine ((advance.andThen (exprReads follow _ ends)).widen ?_ ?_).mono ?_
  · rintro _ ⟨_, operand, rfl, _, ⟨rfl, _⟩, _, tree, _⟩ rest member
    exact Language.append_mem_mul (.inr ⟨_, mem_oneOf sign, _, tree.derives, rfl⟩) member
  · exact fun rest member => mem_kstar_mul.mpr (.inl member)
  · rintro _ _ ⟨_, operand, rfl, _, ⟨rfl, _⟩, _, tree, ended⟩
    exact .inr ⟨_, _, rfl, sign, signedTree sign tree, ended⟩

private theorem reads_group (exprReads : ReadsExpressions expr) (ends : EndsExpression follow)
    (parser : Parser) (group : parser.kind = .openParen) :
    Reads (primaryWords * (tailWords * follow)) (tailWords * follow) parser
      (OperandRule.group.read expr parser).2 fun taken =>
        ClosedTree taken (OperandRule.group.read expr parser).1 := by
  have inhabited := tail_inhabited ends.inhabited
  have opening : Reads (primaryWords * (tailWords * follow))
      (expression.words * (only .closeParen * (tailWords * follow))) parser parser.advance _ :=
    .take group (by simp) fun rest => by
      rw [cons_mem_primary_mul, cons_mem_closed_mul]
      simp [isConstant, isSign]
  refine (reads_enclosed exprReads opening rfl inhabited (.refl _)
    (.expect _ _ (by simp) inhabited)).mono ?_
  rintro _ _ ⟨_, _, _, rfl, opens, closes, tree⟩
  exact .group opens tree closes

theorem reads_readOperand (exprReads : ReadsExpressions expr) (ends : EndsExpression follow)
    (parser : Parser) :
    Reads (primaryWords * (tailWords * follow)) (tailWords * follow) parser
      (Table.standard.readOperand expr parser).2 fun taken =>
        PrimaryTree taken (Table.standard.readOperand expr parser).1
          (Table.standard.readOperand expr parser).2.kind := by
  rw [Table.readOperand, standard_operand parser.kind]
  split_ifs with constant name sign group
  · exact (reads_constant parser constant).mono fun _ _ => .inl
  · exact (reads_name parser name).mono fun _ _ => .inl
  · exact reads_sign exprReads ends parser sign
  · exact (reads_group exprReads ends parser group).mono fun _ _ => .inl
  · refine .fail .expression (primary_inhabited ends) (fun rest => ?_) (grows_pass _ _)
    rw [cons_mem_primary_mul, cons_mem_closed_mul]
    simp [constant, name, sign, group]

/-! ### Operators -/

/-- The reader folds what follows into `left`, up to an operator below `floor`
or the end of the expression. -/
def ReadsOperators (operators : Int → Expr → Parser → Expr × Parser) : Prop :=
  ∀ follow floor left parser, EndsExpression follow →
    Reads (tailWords * follow) (tailWords * follow) parser (operators floor left parser).2
      fun taken =>
        FoldTree floor left taken (operators floor left parser).2.kind
            (operators floor left parser).1 ∧
          StopsAt floor (operators floor left parser).2.kind

/-- The right side of an operator: an operand with all that binds tighter. -/
inductive RightTree (operator : BinaryOp) : List Token → TokenKind → Expr → Prop
  | closed (base : ClosedTree tokens tree)
      (inner : FoldTree (operator.level + 1) tree rest next right)
      (stops : StopsAt (operator.level + 1) next) : RightTree operator (tokens ++ rest) next right
  | signed (sign : isSign first.kind) (operand : ExprTree (first :: rest) right)
      (ended : continuesExpression next = false) : RightTree operator (first :: rest) next right

variable {operators : Int → Expr → Parser → Expr × Parser}

private theorem FoldTree.eq_nil_of_stop (folded : FoldTree floor left taken next whole)
    (consumes : Consumes before after taken) (stop : continuesExpression before.kind = false) :
    taken = [] := by
  cases taken with
  | nil => rfl
  | cons token taken =>
    have := folded.starts
    rw [← consumes.kind_cons, stop] at this
    cases this

/-- Folding goes on behind the right side of an operator. -/
theorem FoldTree.operator {operator : BinaryOp} (binary : token.kind = operator.kind)
    (high : floor ≤ operator.level)
    (rightSide : RightTree operator taken before.kind right)
    (outer : FoldTree floor (.binary operator left right) taken' next' whole)
    (consumes : Consumes before after taken') (behind : after.kind = next') :
    FoldTree floor left (token :: (taken ++ taken')) next' whole := by
  subst behind
  generalize same : before.kind = next at rightSide
  cases rightSide with
  | closed base inner stops =>
    refine .binary binary high base inner outer stops.ne_openBracket (fun _ => stops.looser) ?_ ?_
    · rintro _ _ rfl
      exact consumes.kind_cons.symm.trans same
    · rintro rfl
      exact consumes.kind_nil.symm.trans same
  | signed sign operand ended =>
    cases outer.eq_nil_of_stop consumes (same ▸ ended)
    rw [outer.eq_of_nil, List.append_nil, ← consumes.kind_nil, same]
    exact .signed binary high sign operand ended

private theorem reads_binary (exprReads : ReadsExpressions expr)
    (operatorsRead : ReadsOperators operators) (ends : EndsExpression follow) (parser : Parser)
    {operator : BinaryOp} (binary : parser.kind = operator.kind)
    (level : precedence.level = operator.level) (left : Expr) :
    Reads (tailWords * follow) (tailWords * follow) parser
      (OperatorRule.binary.read .standard expr operators precedence left parser).2 fun taken =>
        ∃ token rest right, taken = token :: rest ∧ token.kind = operator.kind ∧
          RightTree operator rest
            (OperatorRule.binary.read .standard expr operators precedence left parser).2.kind right ∧
          (OperatorRule.binary.read .standard expr operators precedence left parser).1 =
            .binary operator left right := by
  have continues := continuesExpression_of_binary binary
  have present : operator.kind ≠ .eof := by cases operator <;> simp [BinaryOp.kind]
  have advance : Reads (tailWords * follow) (primaryWords * (tailWords * follow)) parser
      parser.advance _ := .take binary present fun rest => by
    rw [cons_mem_tail_mul, or_iff_right (ends.starts _ _ (binary ▸ continues))]
    simp [operator.kind_ne_openBracket, isBinaryOperator_of_kind rfl]
  have operand := reads_readOperand exprReads ends parser.advance
  have inner := operatorsRead follow (operator.level + 1)
    (Table.standard.readOperand expr parser.advance).1
    (Table.standard.readOperand expr parser.advance).2 ends
  simp only [OperatorRule.read, BinaryOp.ofKind?_eq_some_iff.mpr binary, level]
  refine ((advance.andThen operand).andThen inner).mono ?_
  rintro _ _ ⟨_, innerTokens, rfl, _, ⟨_, operandTokens, rfl, _, ⟨token, rfl, named, _⟩, _,
    primary⟩, consumes, folded, stops⟩
  refine ⟨token, operandTokens ++ innerTokens, _, by simp, named, ?_, rfl⟩
  rcases primary with closed | ⟨first, rest, rfl, sign, tree, ended⟩
  · exact .closed closed folded stops
  · cases folded.eq_nil_of_stop consumes ended
    rw [folded.eq_of_nil, List.append_nil, ← consumes.kind_nil]
    exact .signed sign tree ended

private theorem reads_index (exprReads : ReadsExpressions expr) (ends : EndsExpression follow)
    (parser : Parser) (bracket : parser.kind = .openBracket) (left : Expr) :
    Reads (tailWords * follow) (tailWords * follow) parser
      (OperatorRule.index.read .standard expr operators precedence left parser).2 fun taken =>
        ∃ tree, Enclosed .openBracket .closeBracket (ExprTree · tree) taken ∧
          (OperatorRule.index.read .standard expr operators precedence left parser).1 =
            .arrayLookup left tree := by
  have inhabited := tail_inhabited ends.inhabited
  have opening : Reads (tailWords * follow)
      (expression.words * (only .closeBracket * (tailWords * follow))) parser parser.advance _ :=
    .take bracket (by simp) fun rest => by
      rw [cons_mem_tail_mul, or_iff_right (ends.starts _ _ rfl)]
      simp [isBinaryOperator]
  exact (reads_enclosed exprReads opening rfl inhabited (.refl _)
    (.expect _ _ (by simp) inhabited)).mono fun _ _ enclosed => ⟨_, enclosed, rfl⟩

/-! ### Whole expressions -/

theorem operatorsWithin_of_stop (stops : StopsAt floor parser.kind) (levels : Nat)
    (left : Expr) :
    Table.standard.operatorsWithin levels floor left parser = (left, parser) := by
  cases levels <;> rw [Table.operatorsWithin] <;> split
  all_goals first
    | rfl
    | rename_i precedence rule found
      rw [if_pos (stops _ _ found)]

/-- One turn of folding: an operator that is high enough, and all behind it. -/
theorem operatorsWithin_succ (levels : Nat) (left : Expr)
    (found : Table.standard.operator parser.kind = some (precedence, rule))
    (high : floor ≤ precedence.level) :
    let folded := rule.read .standard (Table.standard.exprWithin levels)
      (Table.standard.operatorsWithin levels) precedence left parser.enter
    Table.standard.operatorsWithin (levels + 1) floor left parser =
      ((Table.standard.operatorsWithin levels floor folded.1 folded.2).1,
        (Table.standard.operatorsWithin levels floor folded.1 folded.2).2.leave 1) := by
  rw [Table.operatorsWithin, found]
  simp [high]

theorem operatorsWithin_zero (left : Expr)
    (found : Table.standard.operator parser.kind = some (precedence, rule))
    (high : floor ≤ precedence.level) :
    Table.standard.operatorsWithin 0 floor left parser = (left, parser.refuse .expression) := by
  rw [Table.operatorsWithin, found]
  simp [high]

private theorem ExprTree.of_fold (primary : PrimaryTree taken tree before.kind)
    (folded : FoldTree floor tree taken' next whole) (consumes : Consumes before after taken') :
    ExprTree (taken ++ taken') whole := by
  rcases primary with closed | ⟨_, _, _, _, operand, ended⟩
  · obtain ⟨indices, tail, _, grouped⟩ := folded
    rw [← List.append_assoc]
    exact .flat (.operand closed indices) tail grouped
  · cases folded.eq_nil_of_stop consumes ended
    rw [folded.eq_of_nil, List.append_nil]
    exact operand

private theorem reads_exprWithin_succ
    (exprReads : ReadsExpressions (Table.standard.exprWithin levels))
    (operatorsRead : ReadsOperators (Table.standard.operatorsWithin levels)) :
    ReadsExpressions (Table.standard.exprWithin (levels + 1)) := by
  intro follow parser ends
  have operand := reads_readOperand exprReads ends parser.enter
  have tail := operatorsRead follow 0
    (Table.standard.readOperand (Table.standard.exprWithin levels) parser.enter).1
    (Table.standard.readOperand (Table.standard.exprWithin levels) parser.enter).2 ends
  rw [Table.exprWithin, expression_eq_primary_mul_tail, mul_assoc]
  refine Reads.after_quiet (.enter parser) (Reads.before_quiet ?_ (.leave _ 1))
  refine ((operand.andThen tail).bind (.refl _) fun _ _ held => .look ?_ ?_).mono ?_
  · exact fun rest member => mem_kstar_mul.mpr (.inl member)
  · obtain ⟨_, _, _, _, _, _, _, stops⟩ := held
    intro rest member
    rcases cons_mem_tail_mul.mp member with outside | ⟨bracket, _⟩ | ⟨binary, _⟩
    · exact outside
    · have := stops.stop
      simp [bracket, continuesExpression] at this
    · have := stops.stop
      simp [binary, continuesExpression] at this
  · rintro _ _ ⟨_, _, rfl, _, ⟨_, _, rfl, _, primary, consumes, folded, stops⟩, _, rfl⟩
    rw [List.append_nil]
    exact ⟨.of_fold primary folded consumes, stops.stop⟩

private theorem reads_operatorsWithin_succ
    (exprReads : ReadsExpressions (Table.standard.exprWithin levels))
    (operatorsRead : ReadsOperators (Table.standard.operatorsWithin levels)) :
    ReadsOperators (Table.standard.operatorsWithin (levels + 1)) := by
  intro follow floor left parser ends
  rcases stopsAt_or_operator floor parser.kind with stops | ⟨precedence, rule, found, high⟩
  · rw [operatorsWithin_of_stop stops]
    exact (Reads.quiet (.refl _)).mono fun taken _ empty => ⟨empty ▸ .nothing, stops⟩
  · rw [operatorsWithin_succ levels left found high]
    refine Reads.after_quiet (.enter parser) (Reads.before_quiet ?_ (.leave _ 1))
    rcases continuesExpression_cases parser.kind with stop | bracket | ⟨operator, binary⟩
    · rw [standard_operator_of_stop stop] at found
      cases found
    · obtain ⟨rfl, rfl⟩ : .index = precedence ∧ .index = rule := by
        simpa [bracket, Table.standard] using found
      refine ((reads_index exprReads ends parser.enter bracket left).andThen
        (operatorsRead follow floor _ _ ends)).mono ?_
      rintro _ _ ⟨_, rest, rfl, _, ⟨tree, ⟨opener, tokens, closer, rfl, opens, closes, inside⟩,
        same⟩, _, folded, stops⟩
      rw [List.cons_append, List.append_assoc]
      refine ⟨.index opens inside closes ?_, stops⟩
      rw [← same]
      exact folded
    · obtain ⟨precedence', found', level⟩ := standard_operator_of_binary binary
      cases found'.symm.trans found
      refine ((reads_binary exprReads operatorsRead ends parser.enter binary level
        left).andThen (operatorsRead follow floor _ _ ends)).mono ?_
      rintro _ _ ⟨_, rest, rfl, _, ⟨token, tokens, right, rfl, binary, rightSide, same⟩, consumes,
        folded, stops⟩
      refine ⟨.operator binary (level ▸ high) rightSide ?_ consumes rfl, stops⟩
      rw [← same]
      exact folded

private theorem reads_within (levels : Nat) :
    ReadsExpressions (Table.standard.exprWithin levels) ∧
      ReadsOperators (Table.standard.operatorsWithin levels) := by
  induction levels with
  | zero =>
    refine ⟨fun _ _ _ => .refuse .expression (.refl _), fun follow floor left parser ends => ?_⟩
    rcases stopsAt_or_operator floor parser.kind with stops | ⟨precedence, rule, found, high⟩
    · rw [operatorsWithin_of_stop stops]
      exact (Reads.quiet (.refl _)).mono fun taken _ empty => ⟨empty ▸ .nothing, stops⟩
    · rw [operatorsWithin_zero left found high]
      exact .refuse .expression (.refl _)
  | succ levels ih =>
    exact ⟨reads_exprWithin_succ ih.1 ih.2, reads_operatorsWithin_succ ih.1 ih.2⟩

/-- Whatever the number of levels left, an expression is read up to a token
that cannot go on it, and gets the tree of its tokens. -/
theorem reads_exprWithin (levels : Nat) : ReadsExpressions (Table.standard.exprWithin levels) :=
  (reads_within levels).1

/-- So are the operators behind an operand, up to one that is too low. -/
theorem reads_operatorsWithin (levels : Nat) :
    ReadsOperators (Table.standard.operatorsWithin levels) :=
  (reads_within levels).2

end ToyC
