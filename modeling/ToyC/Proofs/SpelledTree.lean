import ToyC.Proofs.PrintedProgram

/-! The tree of tokens that spell one. An expression that a text can stand for
is spelled as one operand, unless a sign stands in front: then all behind the
sign is taken by it, so such an expression may only stand last. Statements are
spelled without the braces that would keep an `else` away from an inner
conditional, so a body in front of an `else` must not end in a conditional
without one. -/
namespace ToyC

namespace Expr

/-- There is a text for this tree. -/
def isPrintable : Expr → Bool
  | int value => 0 ≤ value.toInt
  | char value => isAlphabetic value
  | boolean _ => true
  | identifier name => isName name
  | not operand | negate operand => operand.isPrintable
  | binary _ left right => !left.isSigned && left.isPrintable && right.isPrintable
  | arrayLookup array index => !array.isSigned && array.isPrintable && index.isPrintable
  | float _ | arrayLength _ | newArray _ | error => false

theorem isLegible_of_isPrintable {tree : Expr} (printable : tree.isPrintable) :
    tree.isLegible := by
  induction tree <;> simp_all [isPrintable, isLegible]

end Expr

namespace Stmt

mutual
/-- There is a text for this tree. -/
def isPrintable : Stmt → Bool
  | block body => allPrintable body
  | ifThen condition thenBody => condition.isPrintable && thenBody.isPrintable
  | ifThenElse condition thenBody elseBody =>
    condition.isPrintable && thenBody.isPrintable && !thenBody.endsWithoutElse &&
      elseBody.isPrintable
  | whileDo condition body => condition.isPrintable && body.isPrintable
  | assign target value => isName target && value.isPrintable
  | arrayAssign target index value => isName target && index.isPrintable && value.isPrintable
  | error => false
def allPrintable : List Stmt → Bool
  | [] => true
  | stmt :: rest => stmt.isPrintable && allPrintable rest
end

mutual
theorem isLegible_of_isPrintable : (stmt : Stmt) → stmt.isPrintable → stmt.isLegible
  | block body, printable => allLegible_of_allPrintable body printable
  | ifThen condition thenBody, printable => by
    simp only [isPrintable, isLegible, Bool.and_eq_true] at printable ⊢
    exact ⟨Expr.isLegible_of_isPrintable printable.1, thenBody.isLegible_of_isPrintable printable.2⟩
  | ifThenElse condition thenBody elseBody, printable => by
    simp only [isPrintable, isLegible, Bool.and_eq_true] at printable ⊢
    obtain ⟨⟨⟨conditionPrintable, thenPrintable⟩, nearest⟩, elsePrintable⟩ := printable
    exact ⟨⟨⟨Expr.isLegible_of_isPrintable conditionPrintable,
      thenBody.isLegible_of_isPrintable thenPrintable⟩, nearest⟩,
      elseBody.isLegible_of_isPrintable elsePrintable⟩
  | whileDo condition body, printable => by
    simp only [isPrintable, isLegible, Bool.and_eq_true] at printable ⊢
    exact ⟨Expr.isLegible_of_isPrintable printable.1, body.isLegible_of_isPrintable printable.2⟩
  | assign target value, printable => by
    simp only [isPrintable, isLegible, Bool.and_eq_true] at printable ⊢
    exact ⟨printable.1, Expr.isLegible_of_isPrintable printable.2⟩
  | arrayAssign target index value, printable => by
    simp only [isPrintable, isLegible, Bool.and_eq_true] at printable ⊢
    obtain ⟨⟨named, indexPrintable⟩, valuePrintable⟩ := printable
    exact ⟨⟨named, Expr.isLegible_of_isPrintable indexPrintable⟩,
      Expr.isLegible_of_isPrintable valuePrintable⟩
  | error, printable => by simp [isPrintable] at printable
theorem allLegible_of_allPrintable : (stmts : List Stmt) → allPrintable stmts → allLegible stmts
  | [], _ => rfl
  | stmt :: rest, printable => by
    simp only [allPrintable, allLegible, Bool.and_eq_true] at printable ⊢
    exact ⟨stmt.isLegible_of_isPrintable printable.1, allLegible_of_allPrintable rest printable.2⟩
end

end Stmt

/-- At least one variable, and all of one scalar type. -/
def isPrintableGroup : List VarDecl → Bool
  | [] => false
  | first :: others => first.type.isScalar && (first :: others).all fun declaration =>
    declaration.type = first.type && isName declaration.name

theorem isLegibleGroup_of_isPrintableGroup (printable : isPrintableGroup group) :
    isLegibleGroup group := by
  cases group with
  | nil => cases printable
  | cons first others =>
    rw [isPrintableGroup, Bool.and_eq_true] at printable
    rw [isLegibleGroup, Bool.and_eq_true]
    refine ⟨?_, printable.2⟩
    cases type : first.type <;> simp_all [Ty.isScalar, Ty.base?]

def Program.isPrintable (program : Program) : Bool :=
  program.declarations.all isPrintableGroup && Stmt.allPrintable program.statements

theorem Program.isLegible_of_isPrintable {program : Program} (printable : program.isPrintable) :
    program.isLegible := by
  rw [isPrintable, Bool.and_eq_true, List.all_eq_true] at printable
  rw [isLegible, Bool.and_eq_true, List.all_eq_true]
  exact ⟨fun group member => isLegibleGroup_of_isPrintableGroup (printable.1 group member),
    Stmt.allLegible_of_allPrintable _ printable.2⟩

/-! ### Operands and expressions -/

/-- The tokens make up one operand, or an expression behind a sign. -/
inductive PrintedTree : List Token → Expr → Prop
  | operand (unsigned : tree.isSigned = false) (operand : OperandTree tokens tree) :
      PrintedTree tokens tree
  | signed (signed : tree.isSigned) (sign : isSign first.kind)
      (operand : ExprTree (first :: tokens) tree) : PrintedTree (first :: tokens) tree

namespace PrintedTree

theorem exprTree (printed : PrintedTree tokens tree) : ExprTree tokens tree := by
  cases printed with
  | operand _ operand => simpa using ExprTree.flat operand .nil .single
  | signed _ _ operand => exact operand

theorem operandTree (printed : PrintedTree tokens tree) (unsigned : tree.isSigned = false) :
    OperandTree tokens tree := by
  cases printed with
  | operand _ operand => exact operand
  | signed signed => simp [unsigned] at signed

theorem tailTree {operator : BinaryOp} (printed : PrintedTree tokens tree)
    (binary : token.kind = operator.kind) :
    TailTree (token :: tokens) [(operator, tree)] := by
  cases printed with
  | operand _ operand => simpa using TailTree.cons binary operand .nil
  | signed _ sign operand => exact .signed binary sign operand

end PrintedTree

theorem ClosedTree.printed (closed : ClosedTree tokens tree) (unsigned : tree.isSigned = false) :
    PrintedTree tokens tree := by
  have operand := OperandTree.operand closed .nil
  rw [List.append_nil] at operand
  exact .operand unsigned operand

/-- One operator between its operands. -/
theorem ExprTree.binary {operator : BinaryOp} (left : OperandTree tokens leftTree)
    (binary : token.kind = operator.kind) (right : PrintedTree tokens' rightTree) :
    ExprTree (tokens ++ (token :: tokens')) (.binary operator leftTree rightTree) := by
  have grouped : Grouped leftTree ([] ++ [(operator, rightTree)])
      (.binary operator leftTree rightTree) := .split .single .single nofun nofun
  exact .flat left (right.tailTree binary) grouped

theorem IndicesTree.snoc : IndicesTree rest trees → opener.kind = .openBracket →
    ExprTree tokens tree → closer.kind = .closeBracket →
    IndicesTree (rest ++ (opener :: (tokens ++ [closer]))) (trees ++ [tree])
  | .nil, opening, inside, closing => .cons opening inside closing .nil
  | .cons opening' inside' closing' others, opening, inside, closing => by
    simpa using IndicesTree.cons opening' inside' closing' (others.snoc opening inside closing)

theorem OperandTree.index {index : Expr} (array : OperandTree tokens tree)
    (opening : opener.kind = .openBracket) (inside : ExprTree tokens' index)
    (closing : closer.kind = .closeBracket) :
    OperandTree (tokens ++ (opener :: (tokens' ++ [closer]))) (.arrayLookup tree index) := by
  obtain ⟨base, indices⟩ := array
  simpa using OperandTree.operand base (indices.snoc opening inside closing)

/-! ### Tokens with known contents -/

/-- The tokens say this, wherever they stand. -/
def Spells (tokens : List Token) (spelling : List Content) : Prop :=
  tokens.map Token.content = spelling

namespace Spells

theorem nil_iff : Spells tokens [] ↔ tokens = [] := List.map_eq_nil_iff

theorem append_iff : Spells tokens (first ++ second) ↔
    ∃ head tail, tokens = head ++ tail ∧ Spells head first ∧ Spells tail second :=
  List.map_eq_append_iff

theorem cons_iff : Spells tokens (⟨kind, literal⟩ :: spelling) ↔
    ∃ token rest, tokens = token :: rest ∧ (token.kind = kind ∧ token.literal = literal) ∧
      Spells rest spelling := by
  simp [Spells, List.map_eq_cons_iff, Token.content]

theorem name_cons_iff : Spells tokens (.name name :: spelling) ↔
    ∃ token rest, tokens = token :: rest ∧ token.Names name ∧ Spells rest spelling := cons_iff

theorem enclosed (spells : Spells tokens (⟨left, none⟩ :: (inside ++ [⟨right, none⟩]))) :
    Enclosed left right (Spells · inside) tokens := by
  obtain ⟨opener, _, rfl, ⟨opens, _⟩, spells⟩ := cons_iff.mp spells
  obtain ⟨body, _, rfl, spellsBody, spells⟩ := append_iff.mp spells
  obtain ⟨closer, _, rfl, ⟨closes, _⟩, nothing⟩ := cons_iff.mp spells
  rw [nil_iff.mp nothing]
  exact ⟨opener, body, closer, rfl, opens, closes, spellsBody⟩

end Spells

/-! ### Expressions -/

private theorem printed_constant {tree : Expr} (spells : Spells tokens [⟨kind, some literal⟩])
    (constant : isConstant kind) (value : ConstantTree literal tree)
    (unsigned : tree.isSigned = false) : PrintedTree tokens tree := by
  obtain ⟨token, _, rfl, ⟨rfl, carries⟩, nothing⟩ := Spells.cons_iff.mp spells
  rw [Spells.nil_iff.mp nothing]
  exact (ClosedTree.constant constant carries value).printed unsigned

private theorem exprTree_of_between {left right : Expr} {operator : BinaryOp}
    (leftTree : ∀ {tokens}, Spells tokens left.spelling → PrintedTree tokens left)
    (rightTree : ∀ {tokens}, Spells tokens right.spelling → PrintedTree tokens right)
    (unsigned : left.isSigned = false)
    (spells : Spells tokens (operator.between left.spelling right.spelling)) :
    ExprTree tokens (.binary operator left right) := by
  obtain ⟨head, _, rfl, spellsLeft, spells⟩ := Spells.append_iff.mp spells
  obtain ⟨token, tail, rfl, ⟨binary, _⟩, spellsRight⟩ := Spells.cons_iff.mp spells
  exact .binary ((leftTree spellsLeft).operandTree unsigned) binary (rightTree spellsRight)

/-- Tokens that spell an expression make it up. -/
theorem printedTree_of_spells {tree : Expr} (printable : tree.isPrintable)
    (spells : Spells tokens tree.spelling) : PrintedTree tokens tree := by
  induction tree generalizing tokens with
  | int value => exact printed_constant spells rfl .int rfl
  | char value => exact printed_constant spells rfl .char rfl
  | boolean value => exact printed_constant spells rfl .boolean rfl
  | identifier name =>
    obtain ⟨token, _, rfl, named, nothing⟩ := Spells.name_cons_iff.mp spells
    rw [Spells.nil_iff.mp nothing]
    exact (ClosedTree.name named).printed rfl
  | not operand ih =>
    obtain ⟨token, rest, rfl, ⟨not, _⟩, spells⟩ := Spells.cons_iff.mp spells
    exact .signed rfl (by rw [not]; rfl) (.not not (ih printable spells).exprTree)
  | negate operand ih =>
    obtain ⟨token, rest, rfl, ⟨minus, _⟩, spells⟩ := Spells.cons_iff.mp spells
    exact .signed rfl (by rw [minus]; rfl) (.negate minus (ih printable spells).exprTree)
  | binary operator left right leftIH rightIH =>
    simp only [Expr.isPrintable, Bool.and_eq_true, Bool.not_eq_true'] at printable
    obtain ⟨⟨unsigned, leftPrintable⟩, rightPrintable⟩ := printable
    obtain ⟨opener, body, closer, rfl, opens, closes, spells⟩ := spells.enclosed
    have tree := exprTree_of_between (leftIH leftPrintable) (rightIH rightPrintable) unsigned spells
    exact (ClosedTree.group opens tree closes).printed rfl
  | arrayLookup array index arrayIH indexIH =>
    simp only [Expr.isPrintable, Bool.and_eq_true, Bool.not_eq_true'] at printable
    obtain ⟨⟨unsigned, arrayPrintable⟩, indexPrintable⟩ := printable
    obtain ⟨head, _, rfl, spellsArray, spells⟩ := Spells.append_iff.mp spells
    obtain ⟨opener, body, closer, rfl, opens, closes, spellsIndex⟩ := spells.enclosed
    have operand := (arrayIH arrayPrintable spellsArray).operandTree unsigned
    exact .operand rfl (operand.index opens (indexIH indexPrintable spellsIndex).exprTree closes)
  | _ => simp [Expr.isPrintable] at printable

/-- So do tokens that spell a condition. -/
theorem exprTree_of_spells_condition {tree : Expr} (printable : tree.isPrintable)
    (spells : Spells tokens tree.conditionSpelling) : ExprTree tokens tree := by
  cases tree with
  | binary operator left right =>
    simp only [Expr.isPrintable, Bool.and_eq_true, Bool.not_eq_true'] at printable
    obtain ⟨⟨unsigned, leftPrintable⟩, rightPrintable⟩ := printable
    exact exprTree_of_between (printedTree_of_spells leftPrintable)
      (printedTree_of_spells rightPrintable) unsigned spells
  | _ => exact (printedTree_of_spells printable spells).exprTree

/-! ### Statements -/

private theorem head_of_spells {condition : Expr} (printable : condition.isPrintable)
    (spells : Spells tokens (Stmt.headSpelling kind condition ++ spelling)) :
    ∃ word opener inside closer rest, tokens = word :: opener :: (inside ++ closer :: rest) ∧
      word.kind = kind ∧ opener.kind = .openParen ∧ ExprTree inside condition ∧
      closer.kind = .closeParen ∧ Spells rest spelling := by
  obtain ⟨_, rest, rfl, spells, spellsRest⟩ := Spells.append_iff.mp spells
  obtain ⟨word, _, rfl, ⟨key, _⟩, spells⟩ := Spells.cons_iff.mp spells
  obtain ⟨opener, inside, closer, rfl, opens, closes, spells⟩ := spells.enclosed
  exact ⟨word, opener, inside, closer, rest, by simp, key, opens,
    exprTree_of_spells_condition printable spells, closes, spellsRest⟩

private theorem value_of_spells {value : Expr} (printable : value.isPrintable)
    (spells : Spells tokens (Stmt.valueSpelling value)) :
    ∃ equals inside stop, tokens = equals :: (inside ++ [stop]) ∧ equals.kind = .assign ∧
      ExprTree inside value ∧ stop.kind = .semicolon := by
  obtain ⟨equals, inside, stop, rfl, assigns, stops, spells⟩ := spells.enclosed
  exact ⟨equals, inside, stop, rfl, assigns, (printedTree_of_spells printable spells).exprTree,
    stops⟩

mutual
/-- Tokens that spell a statement make it up. -/
theorem statementTree_of_spells {tokens : List Token} : (stmt : Stmt) → stmt.isPrintable →
    Spells tokens stmt.spelling → StatementTree tokens stmt
  | .block body, printable, spells => by
    obtain ⟨opener, inside, closer, rfl, opens, closes, spells⟩ := spells.enclosed
    exact .block opens (statements_of_spells body printable spells) closes
  | .ifThen condition thenBody, printable, spells => by
    rw [Stmt.isPrintable, Bool.and_eq_true] at printable
    obtain ⟨word, opener, inside, closer, rest, rfl, key, opens, tree, closes, spells⟩ :=
      head_of_spells printable.1 spells
    exact .ifThen key opens tree closes (statementTree_of_spells thenBody printable.2 spells)
  | .ifThenElse condition thenBody elseBody, printable, spells => by
    simp only [Stmt.isPrintable, Bool.and_eq_true, Bool.not_eq_true'] at printable
    obtain ⟨⟨⟨conditionPrintable, thenPrintable⟩, nearest⟩, elsePrintable⟩ := printable
    obtain ⟨word, opener, inside, closer, _, rfl, key, opens, tree, closes, spells⟩ :=
      head_of_spells conditionPrintable spells
    obtain ⟨first, _, rfl, spellsThen, spells⟩ := Spells.append_iff.mp spells
    obtain ⟨middle, second, rfl, ⟨otherwise, _⟩, spellsElse⟩ := Spells.cons_iff.mp spells
    exact .ifThenElse key opens tree closes
      (statementTree_of_spells thenBody thenPrintable spellsThen) nearest otherwise
      (statementTree_of_spells elseBody elsePrintable spellsElse)
  | .whileDo condition body, printable, spells => by
    rw [Stmt.isPrintable, Bool.and_eq_true] at printable
    obtain ⟨word, opener, inside, closer, rest, rfl, key, opens, tree, closes, spells⟩ :=
      head_of_spells printable.1 spells
    exact .whileDo key opens tree closes (statementTree_of_spells body printable.2 spells)
  | .assign target value, printable, spells => by
    rw [Stmt.isPrintable, Bool.and_eq_true] at printable
    obtain ⟨word, _, rfl, named, spells⟩ := Spells.name_cons_iff.mp spells
    obtain ⟨equals, inside, stop, rfl, assigns, tree, stops⟩ := value_of_spells printable.2 spells
    exact .assign named assigns tree stops
  | .arrayAssign target index value, printable, spells => by
    simp only [Stmt.isPrintable, Bool.and_eq_true] at printable
    obtain ⟨⟨_, indexPrintable⟩, valuePrintable⟩ := printable
    obtain ⟨word, _, rfl, named, spells⟩ := Spells.name_cons_iff.mp spells
    obtain ⟨_, _, rfl, spellsIndex, spellsValue⟩ := Spells.append_iff.mp spells
    obtain ⟨opener, _, closer, rfl, opens, closes, spellsIndex⟩ := spellsIndex.enclosed
    obtain ⟨equals, inside, stop, rfl, assigns, tree, stops⟩ :=
      value_of_spells valuePrintable spellsValue
    have indexTree := (printedTree_of_spells indexPrintable spellsIndex).exprTree
    simpa using StatementTree.arrayAssign named opens indexTree closes assigns tree stops
  | .error, printable, _ => by simp [Stmt.isPrintable] at printable
theorem statements_of_spells {tokens : List Token} : (stmts : List Stmt) → Stmt.allPrintable stmts →
    Spells tokens (Stmt.allSpelling stmts) → Sequence StatementTree tokens stmts
  | [], _, spells => by
    rw [Spells.nil_iff.mp spells]
    exact .nil
  | stmt :: rest, printable, spells => by
    rw [Stmt.allPrintable, Bool.and_eq_true] at printable
    obtain ⟨first, others, rfl, spellsFirst, spellsOthers⟩ := Spells.append_iff.mp spells
    exact .cons (statementTree_of_spells stmt printable.1 spellsFirst)
      (statements_of_spells rest printable.2 spellsOthers)
end

/-! ### Declarations and programs -/

private theorem typeTree_of_spells {type : Ty} (scalar : type.isScalar)
    (spells : Spells tokens type.spelling) : TypeTree tokens type := by
  cases type with
  | scalar base =>
    obtain ⟨word, _, rfl, ⟨key, _⟩, nothing⟩ := Spells.cons_iff.mp spells
    rw [Spells.nil_iff.mp nothing]
    exact .scalar key
  | _ => cases scalar

private theorem names_of_spells {names : List String}
    (spells : Spells tokens (namesSpelling (name :: names))) :
    ∃ token rest, tokens = token :: rest ∧ token.Names name ∧
      Sequence FurtherNameTree rest names := by
  induction names generalizing name tokens with
  | nil =>
    obtain ⟨token, _, rfl, named, nothing⟩ := Spells.name_cons_iff.mp spells
    rw [Spells.nil_iff.mp nothing]
    exact ⟨token, [], rfl, named, .nil⟩
  | cons next names ih =>
    obtain ⟨token, _, rfl, named, spells⟩ := Spells.name_cons_iff.mp spells
    obtain ⟨separator, _, rfl, ⟨separates, _⟩, spells⟩ := Spells.cons_iff.mp spells
    obtain ⟨following, rest, rfl, nextNamed, further⟩ := ih spells
    exact ⟨token, _, rfl, named, .cons (.name separates nextNamed) further⟩

private theorem declarationTree_of_spells (printable : isPrintableGroup group)
    (spells : Spells tokens (groupSpelling group)) : DeclarationTree tokens group := by
  cases group with
  | nil => cases printable
  | cons first others =>
    have group := eq_map_of_isLegibleGroup (isLegibleGroup_of_isPrintableGroup printable)
    rw [isPrintableGroup, Bool.and_eq_true] at printable
    obtain ⟨base, _, rfl, spellsType, spells⟩ := Spells.append_iff.mp spells
    obtain ⟨_, _, rfl, spellsNames, spells⟩ := Spells.append_iff.mp spells
    obtain ⟨semicolon, _, rfl, ⟨stops, _⟩, nothing⟩ := Spells.cons_iff.mp spells
    obtain ⟨token, rest, rfl, named, further⟩ := names_of_spells spellsNames
    rw [Spells.nil_iff.mp nothing, group]
    exact .declaration (typeTree_of_spells printable.1 spellsType) named further stops

private theorem declarations_of_spells {groups : List (List VarDecl)}
    (printable : groups.all isPrintableGroup)
    (spells : Spells tokens (groups.flatMap groupSpelling)) :
    Sequence DeclarationTree tokens groups := by
  induction groups generalizing tokens with
  | nil =>
    rw [Spells.nil_iff.mp spells]
    exact .nil
  | cons group groups ih =>
    rw [List.all_cons, Bool.and_eq_true] at printable
    rw [List.flatMap_cons] at spells
    obtain ⟨first, others, rfl, spellsFirst, spellsOthers⟩ := Spells.append_iff.mp spells
    exact .cons (declarationTree_of_spells printable.1 spellsFirst) (ih printable.2 spellsOthers)

theorem Spells.kindsOf (spells : Spells tokens spelling) :
    ToyC.kindsOf tokens = spelling.map Content.kind := by
  rw [← spells, List.map_map]
  rfl

/-- A printed program is cut into the tokens of its tree. -/
theorem tokenize_text {program : Program} (printable : program.isPrintable) :
    ProgramTree (tokenize program.text) program := by
  have spells : Spells (tokenize program.text) program.spelling :=
    tokenize_text_content (Program.isLegible_of_isPrintable printable)
  rw [Program.isPrintable, Bool.and_eq_true] at printable
  obtain ⟨opening, _, whole, spellsOpening, spells⟩ := Spells.append_iff.mp spells
  obtain ⟨declared, _, rfl, spellsDeclared, spells⟩ := Spells.append_iff.mp spells
  obtain ⟨stated, closing, rfl, spellsStated, spellsClosing⟩ := Spells.append_iff.mp spells
  rw [whole]
  exact .program spellsOpening.kindsOf (declarations_of_spells printable.1 spellsDeclared)
    (statements_of_spells _ printable.2 spellsStated) spellsClosing.kindsOf

end ToyC
