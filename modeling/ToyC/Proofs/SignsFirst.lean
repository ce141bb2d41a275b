import ToyC.Printer
import ToyC.Proofs.Spelling

/-! Signs and indices. Neither is printed with parentheses, so the text of a
signed array with an index is that of the array's sign in front of the array
with the index. Here all signs are moved to the front, which changes no text. -/
namespace ToyC

namespace Expr

/-- An array with an index, the signs of the array in front of both. -/
def lookupBehindSigns : Expr → Expr → Expr
  | not operand, index => not (operand.lookupBehindSigns index)
  | negate operand, index => negate (operand.lookupBehindSigns index)
  | array, index => arrayLookup array index

/-- The same expression with no sign between an array and its index. -/
def signsFirst : Expr → Expr
  | not operand => not operand.signsFirst
  | negate operand => negate operand.signsFirst
  | binary operator left right => binary operator left.signsFirst right.signsFirst
  | arrayLookup array index => array.signsFirst.lookupBehindSigns index.signsFirst
  | arrayLength array => arrayLength array.signsFirst
  | newArray size => newArray size.signsFirst
  | other => other

/-- No array with an index has a sign. -/
def hasSignsFirst : Expr → Bool
  | not operand | negate operand => operand.hasSignsFirst
  | binary _ left right => left.hasSignsFirst && right.hasSignsFirst
  | arrayLookup array index => !array.isSigned && array.hasSignsFirst && index.hasSignsFirst
  | arrayLength array => array.hasSignsFirst
  | newArray size => size.hasSignsFirst
  | _ => true

end Expr

namespace Stmt

mutual
/-- The same statement with no sign between an array and its index. -/
def signsFirst : Stmt → Stmt
  | block body => block (allSignsFirst body)
  | ifThen condition thenBody => ifThen condition.signsFirst thenBody.signsFirst
  | ifThenElse condition thenBody elseBody =>
    ifThenElse condition.signsFirst thenBody.signsFirst elseBody.signsFirst
  | whileDo condition body => whileDo condition.signsFirst body.signsFirst
  | assign target value => assign target value.signsFirst
  | arrayAssign target index value => arrayAssign target index.signsFirst value.signsFirst
  | error => error
def allSignsFirst : List Stmt → List Stmt
  | [] => []
  | stmt :: rest => stmt.signsFirst :: allSignsFirst rest
end

mutual
/-- No array with an index has a sign. -/
def hasSignsFirst : Stmt → Bool
  | block body => allHaveSignsFirst body
  | ifThen condition thenBody => condition.hasSignsFirst && thenBody.hasSignsFirst
  | ifThenElse condition thenBody elseBody =>
    condition.hasSignsFirst && thenBody.hasSignsFirst && elseBody.hasSignsFirst
  | whileDo condition body => condition.hasSignsFirst && body.hasSignsFirst
  | assign _ value => value.hasSignsFirst
  | arrayAssign _ index value => index.hasSignsFirst && value.hasSignsFirst
  | error => true
def allHaveSignsFirst : List Stmt → Bool
  | [] => true
  | stmt :: rest => stmt.hasSignsFirst && allHaveSignsFirst rest
end

end Stmt

namespace Program

/-- The same program with no sign between an array and its index. -/
def signsFirst (program : Program) : Program :=
  ⟨program.declarations, Stmt.allSignsFirst program.statements⟩

/-- No array with an index has a sign. -/
def hasSignsFirst (program : Program) : Bool := Stmt.allHaveSignsFirst program.statements

end Program

/-! ### Expressions -/

namespace Expr

theorem lookupBehindSigns_text (array index : Expr) :
    (array.lookupBehindSigns index).text = (arrayLookup array index).text := by
  induction array with
  | not operand ih | negate operand ih =>
    simp only [lookupBehindSigns, text, ih, String.append_assoc]
  | _ => rfl

theorem lookupBehindSigns_spelling (array index : Expr) :
    (array.lookupBehindSigns index).spelling = array.spelling ++ inBrackets index.spelling := by
  induction array with
  | not operand ih | negate operand ih => rw [lookupBehindSigns, spelling, ih]; rfl
  | _ => rfl

theorem lookupBehindSigns_isLegible (array index : Expr) :
    (array.lookupBehindSigns index).isLegible = (array.isLegible && index.isLegible) := by
  induction array with
  | not operand ih | negate operand ih => exact ih
  | _ => rfl

theorem lookupBehindSigns_hasSignsFirst (array index : Expr) :
    (array.lookupBehindSigns index).hasSignsFirst =
      (array.hasSignsFirst && index.hasSignsFirst) := by
  induction array with
  | not operand ih | negate operand ih => exact ih
  | _ => rfl

/-- An array with an index is no operator's application, wherever its signs are. -/
theorem lookupBehindSigns_conditionText (array index : Expr) :
    (array.lookupBehindSigns index).conditionText = (array.lookupBehindSigns index).text := by
  cases array <;> rfl

theorem lookupBehindSigns_conditionSpelling (array index : Expr) :
    (array.lookupBehindSigns index).conditionSpelling =
      (array.lookupBehindSigns index).spelling := by
  cases array <;> rfl

theorem lookupBehindSigns_of_unsigned {array : Expr} (unsigned : array.isSigned = false)
    (index : Expr) : array.lookupBehindSigns index = arrayLookup array index := by
  cases array <;> first | rfl | cases unsigned

theorem signsFirst_text (tree : Expr) : tree.signsFirst.text = tree.text := by
  induction tree with
  | arrayLookup array index arrayIH indexIH =>
    rw [signsFirst, lookupBehindSigns_text, text, arrayIH, indexIH, text]
  | _ => simp_all [signsFirst, text]

theorem signsFirst_spelling (tree : Expr) : tree.signsFirst.spelling = tree.spelling := by
  induction tree with
  | arrayLookup array index arrayIH indexIH =>
    rw [signsFirst, lookupBehindSigns_spelling, arrayIH, indexIH, spelling]
  | _ => simp_all [signsFirst, spelling]

theorem signsFirst_isLegible (tree : Expr) : tree.signsFirst.isLegible = tree.isLegible := by
  induction tree with
  | arrayLookup array index arrayIH indexIH =>
    rw [signsFirst, lookupBehindSigns_isLegible, arrayIH, indexIH, isLegible]
  | _ => simp_all [signsFirst, isLegible]

theorem signsFirst_hasSignsFirst (tree : Expr) : tree.signsFirst.hasSignsFirst := by
  induction tree with
  | arrayLookup array index arrayIH indexIH =>
    rw [signsFirst, lookupBehindSigns_hasSignsFirst, arrayIH, indexIH]
    rfl
  | _ => simp_all [signsFirst, hasSignsFirst]

theorem signsFirst_conditionText (tree : Expr) :
    tree.signsFirst.conditionText = tree.conditionText := by
  cases tree with
  | binary operator left right => simp [signsFirst, conditionText, signsFirst_text]
  | arrayLookup array index =>
    rw [signsFirst, lookupBehindSigns_conditionText, ← signsFirst, signsFirst_text]
    rfl
  | _ => exact signsFirst_text _

theorem signsFirst_conditionSpelling (tree : Expr) :
    tree.signsFirst.conditionSpelling = tree.conditionSpelling := by
  cases tree with
  | binary operator left right => simp [signsFirst, conditionSpelling, signsFirst_spelling]
  | arrayLookup array index =>
    rw [signsFirst, lookupBehindSigns_conditionSpelling, ← signsFirst, signsFirst_spelling]
    rfl
  | _ => exact signsFirst_spelling _

/-- Where no sign is in between, nothing is moved. -/
theorem signsFirst_eq_self {tree : Expr} (first : tree.hasSignsFirst) :
    tree.signsFirst = tree := by
  induction tree with
  | arrayLookup array index arrayIH indexIH =>
    simp only [hasSignsFirst, Bool.and_eq_true, Bool.not_eq_true'] at first
    obtain ⟨⟨unsigned, arrayFirst⟩, indexFirst⟩ := first
    rw [signsFirst, arrayIH arrayFirst, indexIH indexFirst, lookupBehindSigns_of_unsigned unsigned]
  | _ => simp_all [signsFirst, hasSignsFirst]

end Expr

/-! ### Statements and programs -/

namespace Stmt

theorem signsFirst_isBlock (stmt : Stmt) : stmt.signsFirst.isBlock = stmt.isBlock := by
  cases stmt <;> simp [signsFirst, isBlock]

theorem signsFirst_bodyLead (depth : Nat) (body : Stmt) :
    body.signsFirst.bodyLead depth = body.bodyLead depth := by
  rw [bodyLead, signsFirst_isBlock, bodyLead]

theorem signsFirst_bodyDepth (depth : Nat) (body : Stmt) :
    body.signsFirst.bodyDepth depth = body.bodyDepth depth := by
  rw [bodyDepth, signsFirst_isBlock, bodyDepth]

mutual
theorem signsFirst_text (depth : Nat) : (stmt : Stmt) → stmt.signsFirst.text depth = stmt.text depth
  | block body => by rw [signsFirst, text, allSignsFirst_linesText, text]
  | ifThen condition thenBody => by
    rw [signsFirst, text, signsFirst_bodyDepth, signsFirst_bodyLead, signsFirst_text _ thenBody,
      Expr.signsFirst_conditionText, text]
  | ifThenElse condition thenBody elseBody => by
    rw [signsFirst, text, signsFirst_bodyDepth, signsFirst_bodyDepth, signsFirst_bodyLead,
      signsFirst_bodyLead, signsFirst_text _ thenBody, signsFirst_text _ elseBody,
      Expr.signsFirst_conditionText, text]
  | whileDo condition body => by
    rw [signsFirst, text, signsFirst_bodyDepth, signsFirst_bodyLead, signsFirst_text _ body,
      Expr.signsFirst_conditionText, text]
  | assign target value => by rw [signsFirst, text, Expr.signsFirst_text, text]
  | arrayAssign target index value => by
    rw [signsFirst, text, Expr.signsFirst_text, Expr.signsFirst_text, text]
  | error => rfl
theorem allSignsFirst_linesText (depth : Nat) :
    (stmts : List Stmt) → linesText depth (allSignsFirst stmts) = linesText depth stmts
  | [] => rfl
  | stmt :: rest => by
    rw [allSignsFirst, linesText, signsFirst_text depth stmt, allSignsFirst_linesText depth rest,
      linesText]
end

mutual
theorem signsFirst_eq_self : (stmt : Stmt) → stmt.hasSignsFirst → stmt.signsFirst = stmt
  | block body, first => by rw [signsFirst, allSignsFirst_eq_self body first]
  | ifThen condition thenBody, first => by
    rw [hasSignsFirst, Bool.and_eq_true] at first
    rw [signsFirst, Expr.signsFirst_eq_self first.1, thenBody.signsFirst_eq_self first.2]
  | ifThenElse condition thenBody elseBody, first => by
    simp only [hasSignsFirst, Bool.and_eq_true] at first
    obtain ⟨⟨conditionFirst, thenFirst⟩, elseFirst⟩ := first
    rw [signsFirst, Expr.signsFirst_eq_self conditionFirst, thenBody.signsFirst_eq_self thenFirst,
      elseBody.signsFirst_eq_self elseFirst]
  | whileDo condition body, first => by
    rw [hasSignsFirst, Bool.and_eq_true] at first
    rw [signsFirst, Expr.signsFirst_eq_self first.1, body.signsFirst_eq_self first.2]
  | assign target value, first => by rw [signsFirst, Expr.signsFirst_eq_self first]
  | arrayAssign target index value, first => by
    rw [hasSignsFirst, Bool.and_eq_true] at first
    rw [signsFirst, Expr.signsFirst_eq_self first.1, Expr.signsFirst_eq_self first.2]
  | error, _ => rfl
theorem allSignsFirst_eq_self :
    (stmts : List Stmt) → allHaveSignsFirst stmts → allSignsFirst stmts = stmts
  | [], _ => rfl
  | stmt :: rest, first => by
    rw [allHaveSignsFirst, Bool.and_eq_true] at first
    rw [allSignsFirst, stmt.signsFirst_eq_self first.1, allSignsFirst_eq_self rest first.2]
end

end Stmt

namespace Program

theorem signsFirst_text (program : Program) : program.signsFirst.text = program.text := by
  rw [text, signsFirst, Stmt.allSignsFirst_linesText, text]

theorem signsFirst_eq_self {program : Program} (first : program.hasSignsFirst) :
    program.signsFirst = program := by
  rw [signsFirst, Stmt.allSignsFirst_eq_self _ first]

end Program

end ToyC
