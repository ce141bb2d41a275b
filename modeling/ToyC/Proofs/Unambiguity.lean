import ToyC.Proofs.Climbing
import ToyC.Table

/-! A sequence of tokens has one tree at most. Two trees over starts of the same
tokens cover equally many of them, if what stands behind each of them cannot
still belong to it: no operator or index behind an expression, and no `else`
behind a statement that could take it. So they are trees of the same tokens,
and built by the same rules. -/
namespace ToyC

def isKind (expected kind : TokenKind) : Bool := kind == expected

/-- The first token, if there is one, is of another kind. -/
def HeadAvoids (accepts : TokenKind → Bool) (tokens : List Token) : Prop :=
  ∀ token ∈ tokens.head?, accepts token.kind = false

namespace HeadAvoids

@[simp] theorem nil : HeadAvoids accepts [] := by
  simp [HeadAvoids]

@[simp] theorem cons_iff : HeadAvoids accepts (token :: tokens) ↔ accepts token.kind = false := by
  simp [HeadAvoids]

theorem of_kind (same : token.kind = kind) (avoids : accepts kind = false) :
    HeadAvoids accepts (token :: tokens) := by
  rw [cons_iff, same, avoids]

theorem mono {accepts accepts' : TokenKind → Bool} (avoids : HeadAvoids accepts' tokens)
    (more : ∀ kind, accepts kind → accepts' kind) : HeadAvoids accepts tokens := by
  intro token member
  by_contra accepted
  have := avoids token member
  rw [more _ (by simpa using accepted)] at this
  cases this

end HeadAvoids

theorem Token.Names.unique {token : Token} (named : token.Names name) (named' : token.Names name') :
    name = name' := by
  have same := named.2.symm.trans named'.2
  simpa using same

/-! ### Expressions -/

private theorem noIndex_of_ends (ends : HeadAvoids continuesExpression tokens) :
    HeadAvoids (isKind .openBracket) tokens :=
  ends.mono fun kind opens => by simp_all [isKind, continuesExpression]

private theorem TailTree.avoids_index (tail : TailTree tokens entries)
    (ends : HeadAvoids (isKind .openBracket) rest) :
    HeadAvoids (isKind .openBracket) (tokens ++ rest) := by
  cases tail with
  | nil => exact ends
  | cons binary | signed binary =>
    rw [List.cons_append, HeadAvoids.cons_iff]
    by_contra opens
    simp only [isKind, Bool.not_eq_false, beq_iff_eq] at opens
    exact BinaryOp.kind_ne_openBracket _ (binary.symm.trans opens)

private theorem ClosedTree.starts (tree : ClosedTree tokens whole) :
    ∃ token rest, tokens = token :: rest ∧ isSign token.kind = false := by
  cases tree with
  | constant constant =>
    refine ⟨_, [], rfl, ?_⟩
    cases kind : Token.kind _ <;> simp_all [isConstant, isSign]
  | name named => exact ⟨_, _, rfl, by simp [named.1, isSign]⟩
  | group opening => exact ⟨_, _, rfl, by simp [opening, isSign]⟩

theorem OperandTree.starts (tree : OperandTree tokens whole) :
    ∃ token rest, tokens = token :: rest ∧ isSign token.kind = false := by
  obtain ⟨base, _⟩ := tree
  obtain ⟨token, rest, rfl, noSign⟩ := base.starts
  exact ⟨token, _, rfl, noSign⟩

mutual
theorem ClosedTree.unique : ClosedTree tokens tree → ClosedTree tokens' tree' →
    tokens ++ rest = tokens' ++ rest' → tree = tree' ∧ rest = rest'
  | .constant constant carries value, second, same => by
    cases second with
    | constant _ carries' value' =>
      obtain ⟨rfl, rfl⟩ := List.cons.inj same
      cases carries.symm.trans carries'
      exact ⟨value.unique value', rfl⟩
    | name named =>
      obtain ⟨rfl, _⟩ := List.cons.inj same
      simp [named.1, isConstant] at constant
    | group opening =>
      obtain ⟨rfl, _⟩ := List.cons.inj same
      simp [opening, isConstant] at constant
  | .name named, second, same => by
    cases second with
    | constant constant =>
      obtain ⟨rfl, _⟩ := List.cons.inj same
      simp [named.1, isConstant] at constant
    | name named' =>
      obtain ⟨rfl, rfl⟩ := List.cons.inj same
      exact ⟨congrArg _ (named.unique named'), rfl⟩
    | group opening =>
      obtain ⟨rfl, _⟩ := List.cons.inj same
      cases opening.symm.trans named.1
  | .group opening inside closing, second, same => by
    cases second with
    | constant constant =>
      obtain ⟨rfl, _⟩ := List.cons.inj same
      simp [opening, isConstant] at constant
    | name named =>
      obtain ⟨rfl, _⟩ := List.cons.inj same
      cases opening.symm.trans named.1
    | group _ inside' closing' =>
      simp only [List.cons_append, List.append_assoc, List.nil_append, List.cons.injEq] at same
      obtain ⟨rfl, behind⟩ := inside.unique inside' same.2 (.of_kind closing rfl)
        (.of_kind closing' rfl)
      exact ⟨rfl, (List.cons.inj behind).2⟩
termination_by structural first => first
theorem IndicesTree.unique : IndicesTree tokens trees → IndicesTree tokens' trees' →
    tokens ++ rest = tokens' ++ rest' → HeadAvoids (isKind .openBracket) rest →
    HeadAvoids (isKind .openBracket) rest' →
    trees = trees' ∧ rest = rest'
  | .nil, second, same, ends, _ => by
    cases second with
    | nil => exact ⟨rfl, same⟩
    | cons opening =>
      subst same
      simp [opening, isKind] at ends
  | .cons opening inside closing others, second, same, ends, ends' => by
    cases second with
    | nil =>
      subst same
      simp [opening, isKind] at ends'
    | cons _ inside' closing' others' =>
      simp only [List.cons_append, List.append_assoc, List.cons.injEq] at same
      obtain ⟨rfl, behind⟩ := inside.unique inside' same.2 (.of_kind closing rfl)
        (.of_kind closing' rfl)
      obtain ⟨rfl, last⟩ := others.unique others' (List.cons.inj behind).2 ends ends'
      exact ⟨rfl, last⟩
termination_by structural first => first
theorem OperandTree.unique : OperandTree tokens tree → OperandTree tokens' tree' →
    tokens ++ rest = tokens' ++ rest' → HeadAvoids (isKind .openBracket) rest →
    HeadAvoids (isKind .openBracket) rest' →
    tree = tree' ∧ rest = rest'
  | .operand base indices, .operand base' indices', same, ends, ends' => by
    rw [List.append_assoc, List.append_assoc] at same
    obtain ⟨rfl, behind⟩ := base.unique base' same
    obtain ⟨rfl, last⟩ := indices.unique indices' behind ends ends'
    exact ⟨rfl, last⟩
termination_by structural first => first
theorem TailTree.unique : TailTree tokens entries → TailTree tokens' entries' →
    tokens ++ rest = tokens' ++ rest' → HeadAvoids continuesExpression rest →
    HeadAvoids continuesExpression rest' → entries = entries' ∧ rest = rest'
  | .nil, second, same, ends, _ => by
    cases second with
    | nil => exact ⟨rfl, same⟩
    | cons binary | signed binary =>
      subst same
      simp [continuesExpression_of_binary binary] at ends
  | .cons binary operand others, second, same, ends, ends' => by
    cases second with
    | nil =>
      subst same
      simp [continuesExpression_of_binary binary] at ends'
    | cons binary' operand' others' =>
      simp only [List.cons_append, List.append_assoc, List.cons.injEq] at same
      obtain ⟨rfl, same⟩ := same
      cases BinaryOp.kind_injective (binary.symm.trans binary')
      obtain ⟨rfl, behind⟩ := operand.unique operand' same
        (others.avoids_index (noIndex_of_ends ends))
        (others'.avoids_index (noIndex_of_ends ends'))
      obtain ⟨rfl, last⟩ := others.unique others' behind ends ends'
      exact ⟨rfl, last⟩
    | signed _ sign =>
      obtain ⟨token, rest, rfl, noSign⟩ := operand.starts
      simp only [List.cons_append, List.cons.injEq] at same
      simp [same.2.1, sign] at noSign
  | .signed binary sign operand, second, same, ends, ends' => by
    cases second with
    | nil =>
      subst same
      simp [continuesExpression_of_binary binary] at ends'
    | cons _ operand' =>
      obtain ⟨token, rest, rfl, noSign⟩ := operand'.starts
      simp only [List.cons_append, List.cons.injEq] at same
      simp [← same.2.1, sign] at noSign
    | signed binary' _ operand' =>
      simp only [List.cons_append, List.cons.injEq] at same
      obtain ⟨rfl, same⟩ := same
      cases BinaryOp.kind_injective (binary.symm.trans binary')
      obtain ⟨rfl, last⟩ := operand.unique operand' (by simpa using same) ends ends'
      exact ⟨rfl, last⟩
termination_by structural first => first
theorem ExprTree.unique : ExprTree tokens tree → ExprTree tokens' tree' →
    tokens ++ rest = tokens' ++ rest' → HeadAvoids continuesExpression rest →
    HeadAvoids continuesExpression rest' → tree = tree' ∧ rest = rest'
  | .not sign operand, second, same, ends, ends' => by
    cases second with
    | not _ operand' =>
      obtain ⟨rfl, last⟩ := operand.unique operand' (List.cons.inj same).2 ends ends'
      exact ⟨rfl, last⟩
    | negate sign' =>
      obtain ⟨rfl, _⟩ := List.cons.inj same
      cases sign.symm.trans sign'
    | flat first' =>
      obtain ⟨token, rest, rfl, noSign⟩ := first'.starts
      obtain ⟨rfl, _⟩ := List.cons.inj same
      simp [sign, isSign] at noSign
  | .negate sign operand, second, same, ends, ends' => by
    cases second with
    | negate _ operand' =>
      obtain ⟨rfl, last⟩ := operand.unique operand' (List.cons.inj same).2 ends ends'
      exact ⟨rfl, last⟩
    | not sign' =>
      obtain ⟨rfl, _⟩ := List.cons.inj same
      cases sign.symm.trans sign'
    | flat first' =>
      obtain ⟨token, rest, rfl, noSign⟩ := first'.starts
      obtain ⟨rfl, _⟩ := List.cons.inj same
      simp [sign, isSign] at noSign
  | .flat first others grouped, second, same, ends, ends' => by
    cases second with
    | not sign' | negate sign' =>
      obtain ⟨token, rest, rfl, noSign⟩ := first.starts
      obtain ⟨rfl, _⟩ := List.cons.inj same
      simp [sign', isSign] at noSign
    | flat first' others' grouped' =>
      rw [List.append_assoc, List.append_assoc] at same
      obtain ⟨rfl, behind⟩ := first.unique first' same
        (others.avoids_index (noIndex_of_ends ends))
        (others'.avoids_index (noIndex_of_ends ends'))
      obtain ⟨rfl, last⟩ := others.unique others' behind ends ends'
      exact ⟨grouped.unique grouped', last⟩
termination_by structural first => first
end

/-! ### Sequences -/

/-- Items that start with tokens of some kinds, and what follows that does not. -/
theorem Sequence.unique {item : List Token → α → Prop} {starts : TokenKind → Bool}
    (each : ∀ {piece piece' value value' rest rest'}, item piece value → item piece' value' →
      piece ++ rest = piece' ++ rest' → value = value' ∧ rest = rest')
    (begins : ∀ {piece value}, item piece value →
      ∃ token rest, piece = token :: rest ∧ starts token.kind)
    (first : Sequence item tokens values) (second : Sequence item tokens' values')
    (same : tokens ++ rest = tokens' ++ rest') (ends : HeadAvoids starts rest)
    (ends' : HeadAvoids starts rest') : values = values' ∧ rest = rest' := by
  induction first generalizing tokens' values' with
  | nil =>
    cases second with
    | nil => exact ⟨rfl, same⟩
    | cons head =>
      obtain ⟨token, _, rfl, started⟩ := begins head
      subst same
      simp [started] at ends
  | cons head _ ih =>
    cases second with
    | nil =>
      obtain ⟨token, _, rfl, started⟩ := begins head
      subst same
      simp [started] at ends'
    | cons head' others' =>
      rw [List.append_assoc, List.append_assoc] at same
      obtain ⟨rfl, behind⟩ := each head head' same
      obtain ⟨rfl, last⟩ := ih others' behind
      exact ⟨rfl, last⟩

/-! ### Statements -/

private def opensStatement (kind : TokenKind) : Bool := (Table.standard.statement kind).isSome

private theorem StatementTree.starts (tree : StatementTree tokens stmt) :
    ∃ token rest, tokens = token :: rest ∧ opensStatement token.kind := by
  cases tree with
  | block opening => exact ⟨_, _, rfl, by rw [opening]; rfl⟩
  | ifThen keyword | ifThenElse keyword | whileDo keyword => exact ⟨_, _, rfl, by rw [keyword]; rfl⟩
  | assign target | arrayAssign target => exact ⟨_, _, rfl, by rw [target.1]; rfl⟩

private theorem ne_else_of_opens (opens : opensStatement kind) : isKind .elseWord kind = false := by
  cases kind <;> first | rfl | cases opens

private theorem statements_avoid_else (stmts : Sequence StatementTree tokens values)
    (closing : closer.kind = .closeBrace) :
    HeadAvoids (isKind .elseWord) (tokens ++ closer :: rest) := by
  cases stmts with
  | nil => exact .of_kind closing rfl
  | cons first =>
    obtain ⟨token, _, rfl, opens⟩ := first.starts
    simpa using ne_else_of_opens opens

/-- What stands behind a statement is no `else` that it could take. -/
private def Closes (stmt : Stmt) (rest : List Token) : Prop :=
  stmt.endsWithoutElse → HeadAvoids (isKind .elseWord) rest

private theorem closes_of_nearest {stmt : Stmt} (nearest : stmt.endsWithoutElse = false) :
    Closes stmt rest := by
  intro open'
  rw [nearest] at open'
  cases open'

/-- The closing parenthesis ends the condition behind a keyword. -/
private theorem condition_unique (condition : ExprTree tokens tree)
    (condition' : ExprTree tokens' tree') (closing : closer.kind = .closeParen)
    (closing' : closer'.kind = .closeParen)
    (same : word :: opener :: (tokens ++ closer :: body) ++ rest =
      word' :: opener' :: (tokens' ++ closer' :: body') ++ rest') :
    tree = tree' ∧ body ++ rest = body' ++ rest' := by
  simp only [List.cons_append, List.append_assoc, List.cons.injEq] at same
  obtain ⟨rfl, behind⟩ := condition.unique condition' same.2.2 (.of_kind closing rfl)
    (.of_kind closing' rfl)
  exact ⟨rfl, (List.cons.inj behind).2⟩

mutual
theorem StatementTree.unique {stmt : Stmt} :
    StatementTree tokens stmt → StatementTree tokens' stmt' → tokens ++ rest = tokens' ++ rest' → Closes stmt rest → Closes stmt' rest' →
    stmt = stmt' ∧ rest = rest'
  | .block opening body closing, second, same, closes, closes' => by
    cases second with
    | block _ body' closing' =>
      simp only [List.cons_append, List.append_assoc, List.nil_append, List.cons.injEq] at same
      obtain ⟨rfl, last⟩ := statements_unique body body' closing closing' same.2
      exact ⟨rfl, last⟩
    | ifThen keyword' | ifThenElse keyword' | whileDo keyword' =>
      obtain ⟨rfl, _⟩ := List.cons.inj same
      cases opening.symm.trans keyword'
    | assign target' | arrayAssign target' =>
      obtain ⟨rfl, _⟩ := List.cons.inj same
      cases opening.symm.trans target'.1
  | .ifThen keyword opening condition closing thenBody, second, same, closes, closes' => by
    cases second with
    | ifThen _ _ condition' closing' thenBody' =>
      obtain ⟨rfl, behind⟩ := condition_unique condition condition' closing closing' same
      obtain ⟨rfl, last⟩ := thenBody.unique thenBody' behind (fun _ => closes rfl)
        (fun _ => closes' rfl)
      exact ⟨rfl, last⟩
    | ifThenElse _ _ condition' closing' thenBody' nearest' otherwise' =>
      obtain ⟨rfl, behind⟩ := condition_unique condition condition' closing closing' same
      rw [List.append_assoc] at behind
      -- The body takes no `else`, so one would stand behind the whole statement.
      obtain ⟨rfl, rfl⟩ := thenBody.unique thenBody' behind (fun _ => closes rfl)
        (closes_of_nearest nearest')
      have avoids := closes rfl
      simp [otherwise', isKind] at avoids
    | block opening' | whileDo opening' =>
      obtain ⟨rfl, _⟩ := List.cons.inj same
      cases keyword.symm.trans opening'
    | assign target' | arrayAssign target' =>
      obtain ⟨rfl, _⟩ := List.cons.inj same
      cases keyword.symm.trans target'.1
  | .ifThenElse keyword opening condition closing thenBody nearest otherwise elseBody, second, same,
      closes, closes' => by
    cases second with
    | ifThen _ _ condition' closing' thenBody' =>
      obtain ⟨rfl, behind⟩ := condition_unique condition condition' closing closing' same
      rw [List.append_assoc] at behind
      obtain ⟨rfl, rfl⟩ := thenBody.unique thenBody' behind (closes_of_nearest nearest)
        (fun _ => closes' rfl)
      have avoids := closes' rfl
      simp [otherwise, isKind] at avoids
    | ifThenElse _ _ condition' closing' thenBody' nearest' otherwise' elseBody' =>
      obtain ⟨rfl, behind⟩ := condition_unique condition condition' closing closing' same
      rw [List.append_assoc, List.append_assoc] at behind
      obtain ⟨rfl, after⟩ := thenBody.unique thenBody' behind (closes_of_nearest nearest)
        (closes_of_nearest nearest')
      obtain ⟨rfl, last⟩ := elseBody.unique elseBody' (List.cons.inj after).2 closes closes'
      exact ⟨rfl, last⟩
    | block opening' | whileDo opening' =>
      obtain ⟨rfl, _⟩ := List.cons.inj same
      cases keyword.symm.trans opening'
    | assign target' | arrayAssign target' =>
      obtain ⟨rfl, _⟩ := List.cons.inj same
      cases keyword.symm.trans target'.1
  | .whileDo keyword opening condition closing body, second, same, closes, closes' => by
    cases second with
    | whileDo _ _ condition' closing' body' =>
      obtain ⟨rfl, behind⟩ := condition_unique condition condition' closing closing' same
      obtain ⟨rfl, last⟩ := body.unique body' behind closes closes'
      exact ⟨rfl, last⟩
    | block opening' | ifThen opening' | ifThenElse opening' =>
      obtain ⟨rfl, _⟩ := List.cons.inj same
      cases keyword.symm.trans opening'
    | assign target' | arrayAssign target' =>
      obtain ⟨rfl, _⟩ := List.cons.inj same
      cases keyword.symm.trans target'.1
  | .assign target assign value stop, second, same, _, _ => by
    cases second with
    | assign target' _ value' stop' =>
      simp only [List.cons_append, List.append_assoc, List.nil_append, List.cons.injEq] at same
      obtain ⟨rfl, rfl, same⟩ := same
      cases target.unique target'
      obtain ⟨rfl, behind⟩ := value.unique value' same (.of_kind stop rfl) (.of_kind stop' rfl)
      exact ⟨rfl, (List.cons.inj behind).2⟩
    | arrayAssign _ opening' =>
      obtain ⟨_, rfl, _⟩ := by simpa using same
      cases assign.symm.trans opening'
    | block opening' | ifThen opening' | ifThenElse opening' | whileDo opening' =>
      obtain ⟨rfl, _⟩ := List.cons.inj same
      cases target.1.symm.trans opening'
  | .arrayAssign target opening index closing assign value stop, second, same, _, _ => by
    cases second with
    | arrayAssign target' _ index' closing' _ value' stop' =>
      simp only [List.cons_append, List.append_assoc, List.nil_append, List.cons.injEq] at same
      obtain ⟨rfl, rfl, same⟩ := same
      cases target.unique target'
      obtain ⟨rfl, behind⟩ := index.unique index' same (.of_kind closing rfl)
        (.of_kind closing' rfl)
      simp only [List.cons.injEq] at behind
      obtain ⟨rfl, last⟩ := value.unique value' behind.2.2 (.of_kind stop rfl)
        (.of_kind stop' rfl)
      exact ⟨rfl, (List.cons.inj last).2⟩
    | assign _ assign' =>
      obtain ⟨_, rfl, _⟩ := by simpa using same
      cases opening.symm.trans assign'
    | block opening' | ifThen opening' | ifThenElse opening' | whileDo opening' =>
      obtain ⟨rfl, _⟩ := List.cons.inj same
      cases target.1.symm.trans opening'
termination_by structural stmt
theorem statements_unique {stmts : List Stmt} : Sequence StatementTree tokens stmts →
    Sequence StatementTree tokens' stmts' → closer.kind = .closeBrace → closer'.kind = .closeBrace →
    tokens ++ closer :: rest = tokens' ++ closer' :: rest' → stmts = stmts' ∧ rest = rest'
  | .nil, second, closing, closing', same => by
    cases second with
    | nil => exact ⟨rfl, (List.cons.inj same).2⟩
    | cons first' =>
      obtain ⟨token, _, rfl, opens⟩ := first'.starts
      obtain ⟨rfl, _⟩ := List.cons.inj same
      simp [closing, opensStatement, Table.standard] at opens
  | .cons first others, second, closing, closing', same => by
    cases second with
    | nil =>
      obtain ⟨token, _, rfl, opens⟩ := first.starts
      obtain ⟨rfl, _⟩ := List.cons.inj same
      simp [closing', opensStatement, Table.standard] at opens
    | cons first' others' =>
      rw [List.append_assoc, List.append_assoc] at same
      obtain ⟨rfl, behind⟩ := first.unique first' same
        (fun _ => statements_avoid_else others closing)
        (fun _ => statements_avoid_else others' closing')
      obtain ⟨rfl, last⟩ := statements_unique others others' closing closing' behind
      exact ⟨rfl, last⟩
termination_by structural stmts
end

/-! ### Declarations and programs -/

private theorem TypeTree.unique (first : TypeTree tokens type) (second : TypeTree tokens' type')
    (same : tokens ++ rest = tokens' ++ rest') (ends : HeadAvoids (isKind .openBracket) rest)
    (ends' : HeadAvoids (isKind .openBracket) rest') : type = type' ∧ rest = rest' := by
  cases first with
  | scalar base =>
    cases second with
    | scalar base' =>
      obtain ⟨rfl, rfl⟩ := List.cons.inj same
      cases BaseType.kind_injective (base.symm.trans base')
      exact ⟨rfl, rfl⟩
    | array _ opening' =>
      obtain ⟨_, rfl⟩ := List.cons.inj same
      simp [opening', isKind] at ends
  | array base opening =>
    cases second with
    | scalar =>
      obtain ⟨_, rfl⟩ := List.cons.inj same
      simp [opening, isKind] at ends'
    | array base' =>
      simp only [List.cons_append, List.nil_append, List.cons.injEq] at same
      obtain ⟨rfl, _, _, _, last⟩ := same
      cases BaseType.kind_injective (base.symm.trans base')
      exact ⟨rfl, last⟩

private theorem FurtherNameTree.unique (first : FurtherNameTree tokens word)
    (second : FurtherNameTree tokens' word') (same : tokens ++ rest = tokens' ++ rest') :
    word = word' ∧ rest = rest' := by
  obtain ⟨_, named⟩ := first
  obtain ⟨_, named'⟩ := second
  simp only [List.cons_append, List.nil_append, List.cons.injEq] at same
  obtain ⟨_, rfl, last⟩ := same
  exact ⟨named.unique named', last⟩

private theorem FurtherNameTree.starts (tree : FurtherNameTree tokens word) :
    ∃ token rest, tokens = token :: rest ∧ isKind .comma token.kind := by
  obtain ⟨comma, _⟩ := tree
  exact ⟨_, _, rfl, by rw [comma]; rfl⟩

private theorem DeclarationTree.unique (first : DeclarationTree tokens group)
    (second : DeclarationTree tokens' group') (same : tokens ++ rest = tokens' ++ rest') :
    group = group' ∧ rest = rest' := by
  obtain ⟨type, named, others, stop⟩ := first
  obtain ⟨type', named', others', stop'⟩ := second
  simp only [List.cons_append, List.append_assoc, List.nil_append] at same
  obtain ⟨rfl, behind⟩ := type.unique type' same (.of_kind named.1 rfl) (.of_kind named'.1 rfl)
  obtain ⟨rfl, further⟩ := List.cons.inj behind
  cases named.unique named'
  obtain ⟨rfl, last⟩ := Sequence.unique FurtherNameTree.unique FurtherNameTree.starts others others'
    further (.of_kind stop rfl) (.of_kind stop' rfl)
  exact ⟨rfl, (List.cons.inj last).2⟩

private theorem DeclarationTree.starts (tree : DeclarationTree tokens group) :
    ∃ token rest, tokens = token :: rest ∧ isTypeWord token.kind := by
  obtain ⟨type, _⟩ := tree
  cases type with
  | scalar base | array base => exact ⟨_, _, rfl, isTypeWord_of_kind base⟩

private theorem statements_avoid_type (stmts : Sequence StatementTree tokens values)
    (closing : closer.kind = .closeBrace) : HeadAvoids isTypeWord (tokens ++ closer :: rest) := by
  cases stmts with
  | nil => exact .of_kind closing rfl
  | cons first =>
    obtain ⟨token, _, rfl, opens⟩ := first.starts
    rw [List.cons_append, List.cons_append, HeadAvoids.cons_iff]
    cases kind : token.kind <;> first | rfl | (rw [kind] at opens; cases opens)

/-- No sequence of tokens has two trees. -/
theorem ProgramTree.unique (first : ProgramTree tokens whole) (second : ProgramTree tokens whole') :
    whole = whole' := by
  generalize same : tokens = tokens' at second
  obtain ⟨header, groups, stmts, footer⟩ := first
  obtain ⟨header', groups', stmts', footer'⟩ := second
  have sameLength := congrArg List.length (header.trans header'.symm)
  rw [kindsOf, kindsOf, List.length_map, List.length_map] at sameLength
  obtain ⟨_, behind⟩ := List.append_inj same sameLength
  obtain ⟨closer, last, rfl, closing, _⟩ := List.map_eq_cons_iff.mp footer
  obtain ⟨closer', last', rfl, closing', _⟩ := List.map_eq_cons_iff.mp footer'
  obtain ⟨rfl, after⟩ := Sequence.unique DeclarationTree.unique DeclarationTree.starts groups
    groups' behind (statements_avoid_type stmts closing) (statements_avoid_type stmts' closing')
  obtain ⟨rfl, _⟩ := statements_unique stmts stmts' closing closing' after
  rfl

end ToyC
