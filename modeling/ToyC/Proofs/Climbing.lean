import ToyC.Proofs.TreeGrammar

/-! How a flat sequence of operands and operators is grouped. Splitting at the
last operator of the lowest level determines the tree, and it agrees with
folding from the left: an operator takes the tighter operators behind it into
its right operand before the next one is applied to the result. -/
namespace ToyC

namespace Grouped

/-- Folding one operator, when what follows it binds no tighter, is what
splitting at the top would have done in the end. -/
theorem fold (right : Grouped operand behind rightTree)
    (tighter : ∀ entry ∈ behind, operator.level < entry.1.level)
    (whole : Grouped (.binary operator first rightTree) others tree)
    (looser : ∀ entry ∈ others.head?, entry.1.level ≤ operator.level) :
    Grouped first ((operator, operand) :: (behind ++ others)) tree := by
  generalize folded : Expr.binary operator first rightTree = start at whole
  induction whole with
  | single =>
    subst folded
    rw [List.append_nil]
    exact split .single right nofun tighter
  | @split _ before _ operand' after _ operator' left rightSide lowest last leftIH _ =>
    have lowestBefore : operator'.level ≤ operator.level := by
      cases before with
      | nil => exact looser (operator', operand') rfl
      | cons entry before => exact (lowest entry (by simp)).trans (looser entry rfl)
    have grouped := leftIH (fun entry member => looser entry (by
      rw [List.head?_append, member]
      rfl)) folded
    have lowestAll : ∀ entry ∈ (operator, operand) :: (behind ++ before),
        operator'.level ≤ entry.1.level := by
      intro entry member
      rcases List.mem_cons.mp member with rfl | member
      · exact lowestBefore
      rcases List.mem_append.mp member with member | member
      · exact lowestBefore.trans (tighter entry member).le
      · exact lowest entry member
    simpa using grouped.split rightSide lowestAll last

/-- The tree of a flat sequence is unique. -/
theorem unique (grouped : Grouped first others tree) (grouped' : Grouped first others tree') :
    tree = tree' := by
  induction grouped generalizing tree' with
  | single =>
    generalize empty : ([] : List (BinaryOp × Expr)) = others at grouped'
    cases grouped' with
    | single => rfl
    | split => simp at empty
  | @split _ before _ operand after _ operator left right lowest last leftIH rightIH =>
    generalize same : before ++ (operator, operand) :: after = others at grouped'
    cases grouped' with
    | single => simp at same
    | split left' right' lowest' last' =>
      -- Of two places to split at, the earlier one would have a lower level behind it.
      rcases List.append_eq_append_iff.mp same with ⟨between, rfl, rest⟩ | ⟨between, rfl, rest⟩
      · cases between with
        | nil =>
          cases rest
          rw [List.append_nil] at left'
          rw [leftIH left', rightIH right']
        | cons entry between =>
          cases rest
          have higher := last _ (List.mem_append_right between List.mem_cons_self)
          have lower := lowest' _ (List.mem_append_right before List.mem_cons_self)
          exact absurd higher (not_lt_of_ge lower)
      · cases between with
        | nil =>
          cases rest
          rw [List.append_nil] at leftIH
          rw [leftIH left', rightIH right']
        | cons entry between =>
          cases rest
          have higher := last' _ (List.mem_append_right between List.mem_cons_self)
          have lower := lowest _ (List.mem_append_right _ List.mem_cons_self)
          exact absurd higher (not_lt_of_ge lower)

end Grouped

/-! ### Folding operators into what stands before them -/

/-- What becomes of `left` when indices and operators of level `floor` or
higher are folded into it; `next` stands behind them. Unless the expression
ends there, more operators may still follow. -/
inductive FoldTree (floor : Int) (left : Expr) : List Token → TokenKind → Expr → Prop
  | fold (indices : IndicesTree indexTokens trees) (tail : TailTree tailTokens entries)
      (openEnded : continuesExpression next → ∀ more entries', TailTree more entries' →
        TailTree (tailTokens ++ more) (entries ++ entries'))
      (grouped : Grouped (trees.foldl .arrayLookup left) entries whole)
      (above : ∀ entry ∈ entries, floor ≤ entry.1.level) :
      FoldTree floor left (indexTokens ++ tailTokens) next whole

theorem continuesExpression_of_binary {operator : BinaryOp} (binary : kind = operator.kind) :
    continuesExpression kind := by
  simp [continuesExpression, isBinaryOperator_of_kind binary]

namespace FoldTree

theorem nothing : FoldTree floor left [] next left :=
  .fold .nil .nil (fun _ _ _ more => more) .single nofun

/-- An index is folded before all that follows. -/
theorem index (opening : opener.kind = .openBracket) (inside : ExprTree tokens tree)
    (closing : closer.kind = .closeBracket)
    (folded : FoldTree floor (.arrayLookup left tree) taken next whole) :
    FoldTree floor left (opener :: (tokens ++ closer :: taken)) next whole := by
  cases folded with
  | fold indices tail openEnded grouped above =>
    simpa using fold (.cons opening inside closing indices) tail openEnded grouped above

/-- What is folded starts with a token that goes on an expression. -/
theorem starts (folded : FoldTree floor left (token :: taken) next whole) :
    continuesExpression token.kind := by
  generalize spelled : token :: taken = tokens at folded
  cases folded with
  | fold indices tail =>
    cases indices with
    | cons opening =>
      cases spelled
      simp [continuesExpression, opening]
    | nil =>
      cases tail with
      | nil => cases spelled
      | cons binary | signed binary =>
        cases spelled
        exact continuesExpression_of_binary binary

theorem eq_of_nil (folded : FoldTree floor left [] next whole) : whole = left := by
  generalize spelled : ([] : List Token) = tokens at folded
  cases folded with
  | fold indices tail _ grouped =>
    obtain ⟨rfl, rfl⟩ := List.append_eq_nil_iff.mp spelled.symm
    cases indices
    cases tail
    exact grouped.unique .single

/-- A signed operand is the rest of the expression. -/
theorem signed {operator : BinaryOp} (binary : token.kind = operator.kind)
    (high : floor ≤ operator.level) (sign : isSign first.kind)
    (operand : ExprTree (first :: tokens) right)
    (ended : continuesExpression next = false) :
    FoldTree floor left (token :: first :: tokens) next (.binary operator left right) := by
  have grouped : Grouped left ([] ++ [(operator, right)]) (.binary operator left right) :=
    .split .single .single nofun nofun
  refine fold .nil (.signed binary sign operand) ?_ grouped ?_
  · rw [ended]
    nofun
  · intro entry member
    cases List.mem_singleton.mp member
    exact high

/-- An operator takes the tighter operators behind it, and is then folded with
its two sides before the others are. -/
theorem binary {operator : BinaryOp} (binary : token.kind = operator.kind)
    (high : floor ≤ operator.level) (base : ClosedTree tokens tree)
    (behind : FoldTree (operator.level + 1) tree taken next right)
    (outer : FoldTree floor (.binary operator left right) taken' next' whole)
    (noIndex : next ≠ .openBracket)
    (looser : ∀ operator' : BinaryOp, next = operator'.kind → operator'.level ≤ operator.level)
    (atNext : ∀ token rest, taken' = token :: rest → token.kind = next)
    (atEnd : taken' = [] → next' = next) :
    FoldTree floor left (token :: (tokens ++ taken) ++ taken') next' whole := by
  cases behind with
  | @fold indexTokens trees tailTokens entries _ _ indices tail openEnded grouped above =>
  cases outer with
  | @fold _ _ tailTokens' entries' _ _ indices' tail' openEnded' grouped' above' =>
  cases indices' with
  | cons opening => exact absurd ((atNext _ _ rfl).symm.trans opening) noIndex
  | nil =>
    have looserHead : ∀ entry ∈ entries'.head?, entry.1.level ≤ operator.level := by
      intro entry member
      cases tail' with
      | nil => cases member
      | cons binary' | signed binary' =>
        cases member
        exact looser _ ((atNext _ _ rfl).symm.trans binary')
    have tailAll : TailTree (tailTokens ++ tailTokens') (entries ++ entries') := by
      by_cases goesOn : continuesExpression next
      · exact openEnded goesOn _ _ tail'
      · cases tail' with
        | nil => simpa using tail
        | cons binary' | signed binary' =>
          exact absurd (continuesExpression_of_binary ((atNext _ _ rfl).symm.trans binary')) goesOn
    have openAll : continuesExpression next' → ∀ more more', TailTree more more' →
        TailTree (tailTokens ++ (tailTokens' ++ more)) (entries ++ (entries' ++ more')) := by
      intro goesOn' more more' further
      by_cases goesOn : continuesExpression next
      · exact openEnded goesOn _ _ (openEnded' goesOn' _ _ further)
      · cases tail' with
        | nil => exact absurd (atEnd rfl ▸ goesOn') goesOn
        | cons binary' | signed binary' =>
          exact absurd (continuesExpression_of_binary ((atNext _ _ rfl).symm.trans binary')) goesOn
    have operand := OperandTree.operand base indices
    have tighter : ∀ entry ∈ entries, operator.level < entry.1.level := above
    have aboveAll : ∀ entry ∈ (operator, trees.foldl .arrayLookup tree) :: (entries ++ entries'),
        floor ≤ entry.1.level := by
      intro entry member
      rcases List.mem_cons.mp member with rfl | member
      · exact high
      rcases List.mem_append.mp member with member | member
      · exact high.trans (tighter entry member).le
      · exact above' entry member
    have folded := fold .nil (.cons binary operand tailAll)
      (fun goesOn more more' further => by
        simpa using TailTree.cons binary operand (openAll goesOn more more' further))
      (grouped.fold tighter grouped' looserHead) aboveAll
    simpa using folded

end FoldTree

end ToyC
