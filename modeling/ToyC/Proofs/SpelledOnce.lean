import ToyC.Proofs.SignsFirst

/-! Expressions that are spelled alike. A spelling tells where an expression
ends, if no index follows it, and it tells the whole expression, if its signs
stand first. An operand is a closed expression with indices, so of two operands
that start alike one has the indices of the other and some more. -/
namespace ToyC

/-- What follows does not go on with an index. -/
def NoIndex (rest : List Content) : Prop := ∀ content ∈ rest.head?, content.kind ≠ .openBracket

namespace NoIndex

theorem cons (other : kind ≠ .openBracket) : NoIndex (⟨kind, literal⟩ :: rest) := by
  rintro _ ⟨⟩
  exact other

theorem not_inBrackets : ¬NoIndex (inBrackets inside ++ rest) := fun none => none _ rfl rfl

end NoIndex

namespace Expr

/-- There is a text for the tree, and no array with an index has a sign. -/
def Clear (tree : Expr) : Prop := tree.isLegible ∧ tree.hasSignsFirst

theorem clear_binary : (binary operator left right).Clear ↔ left.Clear ∧ right.Clear := by
  simp only [Clear, isLegible, hasSignsFirst, Bool.and_eq_true]
  exact and_and_and_comm

theorem clear_arrayLookup : (arrayLookup array index).Clear ↔
    array.isSigned = false ∧ array.Clear ∧ index.Clear := by
  simp only [Clear, isLegible, hasSignsFirst, Bool.and_eq_true, Bool.not_eq_true']
  constructor
  · rintro ⟨⟨arrayLegible, indexLegible⟩, ⟨unsigned, arrayFirst⟩, indexFirst⟩
    exact ⟨unsigned, ⟨arrayLegible, arrayFirst⟩, indexLegible, indexFirst⟩
  · rintro ⟨unsigned, ⟨arrayLegible, arrayFirst⟩, indexLegible, indexFirst⟩
    exact ⟨⟨arrayLegible, indexLegible⟩, ⟨unsigned, arrayFirst⟩, indexFirst⟩

theorem clear_signsFirst {tree : Expr} (legible : tree.isLegible) : tree.signsFirst.Clear :=
  ⟨tree.signsFirst_isLegible.trans legible, tree.signsFirst_hasSignsFirst⟩

/-- Neither a sign nor an index is outermost. -/
def isClosed : Expr → Bool
  | not _ | negate _ | arrayLookup .. => false
  | _ => true

def indicesSpelling (indices : List Expr) : List Content :=
  indices.flatMap fun index => inBrackets index.spelling

/-- An operand is a closed expression and its indices. -/
theorem exists_lookups {tree : Expr} (unsigned : tree.isSigned = false) (clear : tree.Clear) :
    ∃ base indices, base.isClosed ∧ base.Clear ∧ (∀ index ∈ indices, index.Clear) ∧
      tree = indices.foldl arrayLookup base ∧
      tree.spelling = base.spelling ++ indicesSpelling indices := by
  induction tree with
  | arrayLookup array index arrayIH =>
    obtain ⟨arrayUnsigned, arrayClear, indexClear⟩ := clear_arrayLookup.mp clear
    obtain ⟨base, indices, closed, baseClear, each, rfl, spelled⟩ := arrayIH arrayUnsigned arrayClear
    refine ⟨base, indices ++ [index], closed, baseClear, ?_, by simp, ?_⟩
    · exact List.forall_mem_append.mpr ⟨each, List.forall_mem_singleton.mpr indexClear⟩
    · simp [spelling, spelled, indicesSpelling]
  | not | negate => cases unsigned
  | _ => exact ⟨_, [], rfl, clear, List.forall_mem_nil _, rfl, (List.append_nil _).symm⟩

/-- The spelling tells the tree, and where it ends. -/
def SpelledOnce (tree : Expr) : Prop :=
  ∀ ⦃other rest rest'⦄, other.Clear → NoIndex rest → NoIndex rest' →
    tree.spelling ++ rest = other.spelling ++ rest' → tree = other ∧ rest = rest'

/-- Where the tree starts like a closed expression with indices, it is this with
the first few of them. -/
def StartsOnce (tree : Expr) : Prop :=
  ∀ ⦃base indices rest rest'⦄, base.isClosed → base.Clear → (∀ index ∈ indices, index.Clear) →
    NoIndex rest' → tree.spelling ++ rest = base.spelling ++ (indicesSpelling indices ++ rest') →
    ∃ taken left, indices = taken ++ left ∧ tree = taken.foldl arrayLookup base ∧
      rest = indicesSpelling left ++ rest'

/-- Operands do not start with a sign. -/
theorem spelling_of_unsigned {tree : Expr} (unsigned : tree.isSigned = false) (clear : tree.Clear) :
    ∃ first more, tree.spelling = first :: more ∧ first.kind ≠ .not ∧ first.kind ≠ .minus := by
  induction tree with
  | arrayLookup array index arrayIH =>
    obtain ⟨arrayUnsigned, arrayClear, _⟩ := clear_arrayLookup.mp clear
    obtain ⟨first, more, spelled, noSign⟩ := arrayIH arrayUnsigned arrayClear
    exact ⟨first, more ++ inBrackets index.spelling, by simp [spelling, spelled], noSign⟩
  | not | negate => cases unsigned
  | float | arrayLength | newArray | error => cases clear.1
  | int | char | boolean | identifier | binary =>
    refine ⟨_, _, rfl, ?_, ?_⟩
    · rintro ⟨⟩
    · rintro ⟨⟩

theorem StartsOnce.spelledOnce {tree : Expr} (starts : tree.StartsOnce)
    (unsigned : tree.isSigned = false) (clear : tree.Clear) : tree.SpelledOnce := by
  intro other rest rest' otherClear stops stops' same
  obtain ⟨first, more, spelled, noNot, noMinus⟩ := spelling_of_unsigned unsigned clear
  have otherUnsigned : other.isSigned = false := by
    cases other with
    | not | negate =>
      rw [spelled] at same
      simp [(List.cons.inj same).1] at noNot noMinus
    | _ => rfl
  obtain ⟨base, indices, closed, baseClear, each, rfl, otherSpelled⟩ :=
    exists_lookups otherUnsigned otherClear
  rw [otherSpelled, List.append_assoc] at same
  obtain ⟨taken, left, rfl, rfl, rfl⟩ := starts closed baseClear each stops' same
  cases left with
  | nil => exact ⟨by rw [List.append_nil], rfl⟩
  | cons index left =>
    -- An index that is left over would stand right behind the tree.
    rw [indicesSpelling, List.flatMap_cons, List.append_assoc] at stops
    exact absurd stops NoIndex.not_inBrackets

/-- A closed expression has no index to be confused about. -/
private theorem startsOnce_of_closed {tree : Expr}
    (once : ∀ {base rest rest'}, base.isClosed → base.Clear →
      tree.spelling ++ rest = base.spelling ++ rest' → tree = base ∧ rest = rest') :
    tree.StartsOnce := by
  intro base indices rest rest' closed baseClear _ _ same
  obtain ⟨rfl, rfl⟩ := once closed baseClear same
  exact ⟨[], indices, rfl, rfl, rfl⟩

/-- One token that is no parenthesis is the spelling of no other closed expression. -/
private theorem startsOnce_of_single {tree : Expr} (single : tree.spelling = [content])
    (noParen : content.kind ≠ .openParen)
    (alone : ∀ {other}, other.isClosed → other.spelling = [content] → tree = other) :
    tree.StartsOnce := by
  refine startsOnce_of_closed fun {base} rest rest' closed baseClear same => ?_
  rw [single] at same
  cases base with
  | int | char | boolean | identifier =>
    obtain ⟨rfl, tail⟩ := List.cons.inj same
    exact ⟨alone rfl rfl, tail⟩
  | binary => exact absurd (congrArg Content.kind (List.cons.inj same).1) noParen
  | not | negate | arrayLookup => cases closed
  | float | arrayLength | newArray | error => cases baseClear.1

private theorem between_once {left right : Expr} {operator operator' : BinaryOp}
    (leftOnce : left.SpelledOnce) (rightOnce : right.SpelledOnce) (leftClear : left'.Clear)
    (rightClear : right'.Clear) (stops : NoIndex rest) (stops' : NoIndex rest')
    (same : operator.between left.spelling right.spelling ++ rest =
      operator'.between left'.spelling right'.spelling ++ rest') :
    binary operator left right = binary operator' left' right' ∧ rest = rest' := by
  simp only [BinaryOp.between, List.append_assoc, List.cons_append] at same
  obtain ⟨rfl, behind⟩ := leftOnce leftClear (.cons operator.kind_ne_openBracket)
    (.cons operator'.kind_ne_openBracket) same
  obtain ⟨sameKind, tail⟩ := List.cons.inj behind
  obtain rfl := BinaryOp.kind_injective (congrArg Content.kind sameKind)
  obtain ⟨rfl, rfl⟩ := rightOnce rightClear stops stops' tail
  exact ⟨rfl, rfl⟩

/-- A sign in front is that of the outermost expression. -/
private theorem eq_of_sign {tree : Expr} (clear : tree.Clear)
    (same : ⟨kind, none⟩ :: rest = tree.spelling ++ rest') (sign : isSign kind) :
    (kind = .not ∧ ∃ operand, tree = not operand) ∨
      (kind = .minus ∧ ∃ operand, tree = negate operand) := by
  cases tree with
  | not operand =>
    exact .inl ⟨congrArg Content.kind (List.cons.inj same).1, operand, rfl⟩
  | negate operand =>
    exact .inr ⟨congrArg Content.kind (List.cons.inj same).1, operand, rfl⟩
  | _ =>
    obtain ⟨first, more, spelled, noNot, noMinus⟩ := spelling_of_unsigned rfl clear
    rw [spelled] at same
    rw [← (List.cons.inj same).1] at noNot noMinus
    cases kind <;> contradiction

private theorem startsOnce_binary {left right : Expr} {operator : BinaryOp}
    (leftOnce : left.SpelledOnce) (rightOnce : right.SpelledOnce) :
    (binary operator left right).StartsOnce := by
  refine startsOnce_of_closed fun {base} rest rest' closed baseClear same => ?_
  cases base with
  | binary operator' left' right' =>
    obtain ⟨leftClear, rightClear⟩ := clear_binary.mp baseClear
    simp only [spelling, inParens, List.cons_append, List.append_assoc] at same
    obtain ⟨whole, behind⟩ := between_once leftOnce rightOnce leftClear rightClear
      (.cons (by decide)) (.cons (by decide)) (List.cons.inj same).2
    exact ⟨whole, (List.cons.inj behind).2⟩
  | int | char | boolean | identifier =>
    cases congrArg Content.kind (List.cons.inj same).1
  | not | negate | arrayLookup => cases closed
  | float | arrayLength | newArray | error => cases baseClear.1

/-- An index more is taken if the array starts like the operand. -/
private theorem startsOnce_arrayLookup {array index : Expr} (starts : array.StartsOnce)
    (once : index.SpelledOnce) : (arrayLookup array index).StartsOnce := by
  intro base indices rest rest' closed baseClear each stops' same
  rw [spelling, List.append_assoc] at same
  obtain ⟨taken, left, rfl, rfl, behind⟩ := starts closed baseClear each stops' same
  cases left with
  | nil =>
    rw [← show _ = rest' from behind] at stops'
    exact absurd stops' NoIndex.not_inBrackets
  | cons next left =>
    have nextClear := each next (by simp)
    simp only [indicesSpelling, List.flatMap_cons, inBrackets, List.cons_append,
      List.append_assoc] at behind
    obtain ⟨rfl, tail⟩ := once nextClear (.cons (by decide)) (.cons (by decide))
      (List.cons.inj behind).2
    exact ⟨taken ++ [index], left, by simp, by simp, (List.cons.inj tail).2⟩

private theorem StartsOnce.both {tree : Expr} (starts : tree.StartsOnce)
    (unsigned : tree.isSigned = false) (clear : tree.Clear) :
    tree.SpelledOnce ∧ (tree.isSigned = false → tree.StartsOnce) :=
  ⟨starts.spelledOnce unsigned clear, fun _ => starts⟩

/-- Both in one induction: an array must start once for its lookup to do so, and
an index must be spelled once. -/
theorem spelledOnce_and_startsOnce {tree : Expr} (clear : tree.Clear) :
    tree.SpelledOnce ∧ (tree.isSigned = false → tree.StartsOnce) := by
  induction tree with
  | not operand ih =>
    refine ⟨fun other _ _ otherClear stops stops' same => ?_, nofun⟩
    obtain ⟨_, other, rfl⟩ | ⟨minus, _⟩ := eq_of_sign otherClear same rfl
    · have otherClear : other.Clear := otherClear
      obtain ⟨rfl, rfl⟩ := (ih clear).1 otherClear stops stops' (List.cons.inj same).2
      exact ⟨rfl, rfl⟩
    · cases minus
  | negate operand ih =>
    refine ⟨fun other _ _ otherClear stops stops' same => ?_, nofun⟩
    obtain ⟨not, _⟩ | ⟨_, other, rfl⟩ := eq_of_sign otherClear same rfl
    · cases not
    · have otherClear : other.Clear := otherClear
      obtain ⟨rfl, rfl⟩ := (ih clear).1 otherClear stops stops' (List.cons.inj same).2
      exact ⟨rfl, rfl⟩
  | binary operator left right leftIH rightIH =>
    obtain ⟨leftClear, rightClear⟩ := clear_binary.mp clear
    exact (startsOnce_binary (leftIH leftClear).1 (rightIH rightClear).1).both rfl clear
  | arrayLookup array index arrayIH indexIH =>
    obtain ⟨unsigned, arrayClear, indexClear⟩ := clear_arrayLookup.mp clear
    exact (startsOnce_arrayLookup ((arrayIH arrayClear).2 unsigned) (indexIH indexClear).1).both
      rfl clear
  | int | char | boolean | identifier =>
    refine StartsOnce.both (startsOnce_of_single rfl ?_ fun {other} closed same => ?_) rfl clear
    · exact fun paren => by cases paren
    · cases other <;> simp_all [spelling, inParens, isClosed, Content.name]
  | float | arrayLength | newArray | error => cases clear.1

theorem spelledOnce {tree : Expr} (clear : tree.Clear) : tree.SpelledOnce :=
  (spelledOnce_and_startsOnce clear).1

/-- Two expressions that are spelled alike differ at most in where signs stand. -/
theorem signsFirst_eq_of_spelling {tree other : Expr} (legible : tree.isLegible)
    (legible' : other.isLegible) (stops : NoIndex rest) (stops' : NoIndex rest')
    (same : tree.spelling ++ rest = other.spelling ++ rest') :
    tree.signsFirst = other.signsFirst ∧ rest = rest' := by
  rw [← tree.signsFirst_spelling, ← other.signsFirst_spelling] at same
  exact spelledOnce (clear_signsFirst legible) (clear_signsFirst legible') stops stops' same

private theorem binary_or_conditionSpelling (tree : Expr) :
    (∃ operator left right, tree = binary operator left right) ∨
      tree.conditionSpelling = tree.spelling := by
  cases tree with
  | binary operator left right => exact .inl ⟨operator, left, right, rfl⟩
  | _ => exact .inr rfl

/-- An operator is no parenthesis. -/
private theorem between_ne {left other : Expr} {operator : BinaryOp} (leftClear : left.Clear)
    (clear : other.Clear) : operator.between left.spelling right ++ rest ≠
      other.spelling ++ ⟨.closeParen, none⟩ :: rest' := by
  intro same
  rw [BinaryOp.between, List.append_assoc, List.cons_append] at same
  obtain ⟨_, behind⟩ := spelledOnce leftClear clear (.cons operator.kind_ne_openBracket)
    (.cons (by decide)) same
  have paren : operator.kind = .closeParen := congrArg Content.kind (List.cons.inj behind).1
  cases operator <;> cases paren

private theorem condition_once {tree other : Expr} (clear : tree.Clear) (clear' : other.Clear)
    (same : tree.conditionSpelling ++ ⟨.closeParen, none⟩ :: rest =
      other.conditionSpelling ++ ⟨.closeParen, none⟩ :: rest') : tree = other ∧ rest = rest' := by
  have stops (rest) : NoIndex (⟨.closeParen, none⟩ :: rest) := .cons (by decide)
  suffices whole : tree = other ∧
      (⟨.closeParen, none⟩ :: rest : List Content) = ⟨.closeParen, none⟩ :: rest' from
    ⟨whole.1, (List.cons.inj whole.2).2⟩
  obtain ⟨operator, left, right, rfl⟩ | plain := binary_or_conditionSpelling tree
  · obtain ⟨leftClear, rightClear⟩ := clear_binary.mp clear
    obtain ⟨operator', left', right', rfl⟩ | plain' := binary_or_conditionSpelling other
    · obtain ⟨leftClear', rightClear'⟩ := clear_binary.mp clear'
      exact between_once (spelledOnce leftClear) (spelledOnce rightClear) leftClear' rightClear'
        (stops rest) (stops rest') same
    · rw [plain'] at same
      exact absurd same (between_ne leftClear clear')
  · rw [plain] at same
    obtain ⟨operator', left', right', rfl⟩ | plain' := binary_or_conditionSpelling other
    · exact absurd same.symm (between_ne (clear_binary.mp clear').1 clear)
    · rw [plain'] at same
      exact spelledOnce clear clear' (stops rest) (stops rest') same

/-- So do two conditions, up to the parenthesis that closes them. -/
theorem signsFirst_eq_of_conditionSpelling {tree other : Expr} (legible : tree.isLegible)
    (legible' : other.isLegible)
    (same : tree.conditionSpelling ++ ⟨.closeParen, none⟩ :: rest =
      other.conditionSpelling ++ ⟨.closeParen, none⟩ :: rest') :
    tree.signsFirst = other.signsFirst ∧ rest = rest' := by
  rw [← tree.signsFirst_conditionSpelling, ← other.signsFirst_conditionSpelling] at same
  exact condition_once (clear_signsFirst legible) (clear_signsFirst legible') same

end Expr

end ToyC
