import ToyC.Program
import ToyC.Proofs.Continuation

/-! The tree that belongs to a sequence of tokens. The rules read a sequence as
a whole and say how it is grouped: a flat sequence of operands and operators is
split at the last operator of the lowest level, a sign takes the whole rest of
its expression, and an `else` goes to the nearest `if` before it. No reader is
mentioned. The kinds of tokens that have a tree make up a phrase. -/
namespace ToyC

open scoped Computability

def kindsOf (tokens : List Token) : List TokenKind := tokens.map Token.kind

@[simp] theorem kindsOf_nil : kindsOf [] = [] := rfl

@[simp] theorem kindsOf_cons (token : Token) (tokens : List Token) :
    kindsOf (token :: tokens) = token.kind :: kindsOf tokens := rfl

@[simp] theorem kindsOf_append (first second : List Token) :
    kindsOf (first ++ second) = kindsOf first ++ kindsOf second := List.map_append

/-- The tokens of some items, one item after the other. -/
inductive Sequence (item : List Token → α → Prop) : List Token → List α → Prop
  | nil : Sequence item [] []
  | cons (first : item piece value) (others : Sequence item rest values) :
      Sequence item (piece ++ rest) (value :: values)

theorem Sequence.forall {item : List Token → α → Prop} {good : α → Prop}
    (sequence : Sequence item tokens values) (each : ∀ piece value, item piece value → good value) :
    ∀ value ∈ values, good value := by
  induction sequence with
  | nil => exact List.forall_mem_nil _
  | cons first _ ih => exact List.forall_mem_cons.mpr ⟨each _ _ first, ih⟩

/-- The token is a name. -/
def Token.Names (token : Token) (name : String) : Prop :=
  token.kind = .identifier ∧ token.literal = some (.identifier name)

/-! ### Expressions -/

/-- The tree of what a constant carries. -/
inductive ConstantTree : Literal → Expr → Prop
  | int : ConstantTree (.int value) (.int value)
  | float : ConstantTree (.float value) (.float value)
  | char : ConstantTree (.char value) (.char value)
  | boolean : ConstantTree (.boolean value) (.boolean value)

namespace BinaryOp

/-- The kind of token that stands for an operator. -/
def kind : BinaryOp → TokenKind
  | and => .and
  | or => .or
  | equal => .equal
  | notEqual => .notEqual
  | less => .less
  | lessEqual => .lessEqual
  | greater => .greater
  | greaterEqual => .greaterEqual
  | plus => .plus
  | minus => .minus
  | times => .times
  | divide => .divide
  | modulo => .modulo

/-- How tight an operator binds: the lower of two operators is applied last. -/
def level : BinaryOp → Int
  | and | or => 10
  | equal | notEqual | less | lessEqual | greater | greaterEqual => 20
  | plus | minus => 30
  | times | divide | modulo => 40

end BinaryOp

/-- The tree of operands with operators between them: `first`, and behind it
operators, each with the operand to its right. The last operator of the lowest
level is on top. -/
inductive Grouped : Expr → List (BinaryOp × Expr) → Expr → Prop
  | single : Grouped first [] first
  | split (left : Grouped first before leftTree) (right : Grouped operand after rightTree)
      (lowest : ∀ entry ∈ before, operator.level ≤ entry.1.level)
      (last : ∀ entry ∈ after, operator.level < entry.1.level) :
      Grouped first (before ++ (operator, operand) :: after) (.binary operator leftTree rightTree)

mutual
/-- A constant, a name, or an expression in parentheses, which leave no node. -/
inductive ClosedTree : List Token → Expr → Prop
  | constant (constant : isConstant token.kind) (carries : token.literal = some literal)
      (value : ConstantTree literal tree) : ClosedTree [token] tree
  | name (named : token.Names name) : ClosedTree [token] (.identifier name)
  | group (opening : opener.kind = .openParen) (inside : ExprTree tokens tree)
      (closing : closer.kind = .closeParen) : ClosedTree (opener :: (tokens ++ [closer])) tree
/-- Expressions in brackets. -/
inductive IndicesTree : List Token → List Expr → Prop
  | nil : IndicesTree [] []
  | cons (opening : opener.kind = .openBracket) (inside : ExprTree tokens tree)
      (closing : closer.kind = .closeBracket) (others : IndicesTree rest trees) :
      IndicesTree (opener :: (tokens ++ closer :: rest)) (tree :: trees)
/-- A closed operand and its indices, the first one applied first. -/
inductive OperandTree : List Token → Expr → Prop
  | operand (base : ClosedTree tokens tree) (indices : IndicesTree rest trees) :
      OperandTree (tokens ++ rest) (trees.foldl .arrayLookup tree)
/-- Operators, each with the operand to its right. Only the last operand may
have a sign: it is the rest of the expression. -/
inductive TailTree : List Token → List (BinaryOp × Expr) → Prop
  | nil : TailTree [] []
  | cons {operator : BinaryOp} (binary : token.kind = operator.kind)
      (operand : OperandTree tokens tree) (others : TailTree rest entries) :
      TailTree (token :: (tokens ++ rest)) ((operator, tree) :: entries)
  | signed {operator : BinaryOp} (binary : token.kind = operator.kind)
      (sign : isSign first.kind) (operand : ExprTree (first :: tokens) tree) :
      TailTree (token :: first :: tokens) [(operator, tree)]
/-- An expression: a sign in front applies to all of it. -/
inductive ExprTree : List Token → Expr → Prop
  | not (sign : token.kind = .not) (operand : ExprTree tokens tree) :
      ExprTree (token :: tokens) (.not tree)
  | negate (sign : token.kind = .minus) (operand : ExprTree tokens tree) :
      ExprTree (token :: tokens) (.negate tree)
  | flat (first : OperandTree tokens tree) (others : TailTree rest entries)
      (grouped : Grouped tree entries whole) : ExprTree (tokens ++ rest) whole
end

/-! ### Statements, declarations, programs -/

/-- Whether the last statement inside, or the statement itself, is a
conditional without `else`. -/
def Stmt.endsWithoutElse : Stmt → Bool
  | ifThen .. => true
  | ifThenElse _ _ elseBody => elseBody.endsWithoutElse
  | whileDo _ body => body.endsWithoutElse
  | _ => false

/-- A statement. The body in front of an `else` has no conditional that could
still take it. -/
inductive StatementTree : List Token → Stmt → Prop
  | block (opening : opener.kind = .openBrace) (body : Sequence StatementTree tokens stmts)
      (closing : closer.kind = .closeBrace) :
      StatementTree (opener :: (tokens ++ [closer])) (.block stmts)
  | ifThen (keyword : word.kind = .ifWord) (opening : opener.kind = .openParen)
      (condition : ExprTree tokens tree) (closing : closer.kind = .closeParen)
      (thenBody : StatementTree first thenStmt) :
      StatementTree (word :: opener :: (tokens ++ closer :: first)) (.ifThen tree thenStmt)
  | ifThenElse (keyword : word.kind = .ifWord) (opening : opener.kind = .openParen)
      (condition : ExprTree tokens tree) (closing : closer.kind = .closeParen)
      (thenBody : StatementTree first thenStmt) (nearest : thenStmt.endsWithoutElse = false)
      (otherwise : middle.kind = .elseWord) (elseBody : StatementTree second elseStmt) :
      StatementTree (word :: opener :: (tokens ++ closer :: (first ++ middle :: second)))
        (.ifThenElse tree thenStmt elseStmt)
  | whileDo (keyword : word.kind = .whileWord) (opening : opener.kind = .openParen)
      (condition : ExprTree tokens tree) (closing : closer.kind = .closeParen)
      (body : StatementTree first stmt) :
      StatementTree (word :: opener :: (tokens ++ closer :: first)) (.whileDo tree stmt)
  | assign (target : word.Names name) (assign : equals.kind = .assign)
      (value : ExprTree tokens tree) (stop : semicolon.kind = .semicolon) :
      StatementTree (word :: equals :: (tokens ++ [semicolon])) (.assign name tree)
  | arrayAssign (target : word.Names name) (opening : opener.kind = .openBracket)
      (index : ExprTree inside indexTree) (closing : closer.kind = .closeBracket)
      (assign : equals.kind = .assign) (value : ExprTree tokens tree)
      (stop : semicolon.kind = .semicolon) :
      StatementTree (word :: opener :: (inside ++ closer :: equals :: (tokens ++ [semicolon])))
        (.arrayAssign name indexTree tree)

/-- The kind of token that names a base type. -/
def BaseType.kind : BaseType → TokenKind
  | int => .intWord
  | float => .floatWord
  | char => .charWord
  | boolean => .booleanWord

/-- A type; the length of an array is not part of it. -/
inductive TypeTree : List Token → Ty → Prop
  | scalar {type : BaseType} (base : word.kind = type.kind) : TypeTree [word] (.scalar type)
  | array {type : BaseType} (base : word.kind = type.kind) (opening : opener.kind = .openBracket)
      (length : constant.kind = .intConst) (closing : closer.kind = .closeBracket) :
      TypeTree [word, opener, constant, closer] (.array type)

/-- A comma and a name. -/
inductive FurtherNameTree : List Token → String → Prop
  | name (comma : separator.kind = .comma) (named : token.Names name) :
      FurtherNameTree [separator, token] name

/-- A declaration statement declares its names, in order, with one type. -/
inductive DeclarationTree : List Token → List VarDecl → Prop
  | declaration (type : TypeTree base ty) (first : token.Names name)
      (others : Sequence FurtherNameTree rest names) (stop : semicolon.kind = .semicolon) :
      DeclarationTree (base ++ (token :: (rest ++ [semicolon])))
        ((name :: names).map fun name => ⟨ty, name⟩)

inductive ProgramTree : List Token → Program → Prop
  | program
      (header : kindsOf opening = [.intWord, .mainWord, .openParen, .closeParen, .openBrace])
      (declarations : Sequence DeclarationTree declared groups)
      (statements : Sequence StatementTree stated stmts)
      (footer : kindsOf closing = [.closeBrace, .eof]) :
      ProgramTree (opening ++ (declared ++ (stated ++ closing))) ⟨groups, stmts⟩

/-! ### Kinds that have a meaning -/

theorem ConstantTree.unique (first : ConstantTree literal tree)
    (second : ConstantTree literal tree') : tree = tree' := by
  cases first <;> cases second <;> rfl

theorem constantTree_iff : ConstantTree literal tree ↔ Expr.ofConstant? literal = some tree := by
  constructor
  · intro denotes
    cases denotes <;> rfl
  · intro denotes
    cases literal <;> cases denotes <;> constructor

theorem BinaryOp.ofKind?_eq_some_iff {operator : BinaryOp} :
    ofKind? tokenKind = some operator ↔ tokenKind = operator.kind := by
  constructor
  · intro found
    cases tokenKind <;> cases found <;> rfl
  · rintro rfl
    cases operator <;> rfl

theorem BinaryOp.kind_injective : Function.Injective BinaryOp.kind := by
  intro first second same
  have found := ofKind?_eq_some_iff.mpr same
  rw [ofKind?_eq_some_iff.mpr rfl] at found
  exact Option.some.inj found

theorem BinaryOp.kind_ne_openBracket (operator : BinaryOp) : operator.kind ≠ .openBracket := by
  cases operator <;> simp [kind]

theorem isBinaryOperator_of_kind {operator : BinaryOp} (binary : kind = operator.kind) :
    isBinaryOperator kind := by
  subst binary
  cases operator <;> rfl

theorem BaseType.kind_injective : Function.Injective BaseType.kind := by
  intro first second same
  cases first <;> cases second <;> first | rfl | cases same

theorem isTypeWord_of_kind {type : BaseType} (base : kind = type.kind) : isTypeWord kind := by
  subst base
  cases type <;> rfl

/-! ### Tokens that have a tree make up a phrase -/

private theorem cons_mem_words_kstar {phrase : Phrase} (first : Derives phrase kinds)
    (others : rest ∈ phrase.words∗) : kinds ++ rest ∈ phrase.words∗ :=
  have grown : phrase.words * phrase.words∗ ≤ phrase.words∗ := mul_kstar_le_kstar
  grown (Language.append_mem_mul first others)

theorem Sequence.derives {phrase : Phrase} {item : List Token → α → Prop}
    (each : ∀ piece value, item piece value → Derives phrase (kindsOf piece))
    (sequence : Sequence item tokens values) : kindsOf tokens ∈ phrase.words∗ := by
  induction sequence with
  | nil => exact Language.nil_mem_kstar _
  | cons first _ ih =>
    rw [kindsOf_append]
    exact cons_mem_words_kstar (each _ _ first) ih

/-- A sign at the start of an expression makes all of it one operand. -/
private theorem derives_operand_of_sign (sign : isSign kind)
    (derived : Derives .expression (kind :: rest)) : Derives .operand (kind :: rest) := by
  have whole : kind :: rest ∈ primaryWords * (tailWords * 1) := by
    rw [mul_one, ← expression_eq_primary_mul_tail]
    exact derived
  rcases cons_mem_primary_mul.mp whole with closed | ⟨_, inside⟩
  · rcases cons_mem_closed_mul.mp closed with ⟨constant | rfl, _⟩ | ⟨rfl, _⟩
    · cases kind <;> simp_all [isSign, isConstant]
    · cases sign
    · cases sign
  · rw [mul_one] at inside
    exact .sign sign inside

mutual
theorem ClosedTree.derives : ClosedTree tokens tree → Derives .closed (kindsOf tokens)
  | .constant constant _ _ => .constant constant
  | .name named => by simpa [named.1] using Derives.name
  | .group opening inside closing => by
    simpa [opening, closing] using Derives.group inside.derives
theorem IndicesTree.derives : IndicesTree tokens trees → kindsOf tokens ∈ Phrase.index.words∗
  | .nil => Language.nil_mem_kstar _
  | .cons opening inside closing others => by
    simpa [opening, closing] using cons_mem_words_kstar (.index inside.derives) others.derives
theorem OperandTree.derives : OperandTree tokens tree → Derives .operand (kindsOf tokens)
  | .operand base indices => by
    obtain ⟨pieces, spelled, each⟩ := indices.derives
    rw [kindsOf_append, spelled]
    exact .operand base.derives each
theorem TailTree.derives : TailTree tokens entries → kindsOf tokens ∈ Phrase.operation.words∗
  | .nil => Language.nil_mem_kstar _
  | .cons binary operand others => by
    have binary := isBinaryOperator_of_kind binary
    simpa using cons_mem_words_kstar (.operation binary operand.derives) others.derives
  | .signed binary sign operand => by
    have binary := isBinaryOperator_of_kind binary
    simpa [kindsOf] using cons_mem_words_kstar
      (.operation binary (derives_operand_of_sign sign operand.derives)) (Language.nil_mem_kstar _)
theorem ExprTree.derives : ExprTree tokens tree → Derives .expression (kindsOf tokens)
  | .not sign operand => by
    have sign : isSign _ := congrArg isSign sign
    exact operand_le_expression (.sign sign operand.derives)
  | .negate sign operand => by
    have sign : isSign _ := congrArg isSign sign
    exact operand_le_expression (.sign sign operand.derives)
  | .flat first others _ => by
    obtain ⟨pieces, spelled, each⟩ := others.derives
    rw [kindsOf_append, spelled]
    exact .expression first.derives each
end

mutual
theorem StatementTree.derives : StatementTree tokens stmt → Derives .statement (kindsOf tokens)
  | .block opening body closing => by
    obtain ⟨pieces, spelled, each⟩ := derives_statements body
    simpa [opening, closing, spelled] using Derives.block each
  | .ifThen keyword opening condition closing thenBody => by
    simpa [keyword, opening, closing] using Derives.ifThen condition.derives thenBody.derives
  | .ifThenElse keyword opening condition closing thenBody _ otherwise elseBody => by
    simpa [keyword, opening, closing, otherwise] using
      Derives.ifThenElse condition.derives thenBody.derives elseBody.derives
  | .whileDo keyword opening condition closing body => by
    simpa [keyword, opening, closing] using Derives.whileDo condition.derives body.derives
  | .assign target assign value stop => by
    simpa [target.1, assign, stop] using Derives.assign value.derives
  | .arrayAssign target opening index closing assign value stop => by
    simpa [target.1, opening, closing, assign, stop] using
      Derives.arrayAssign index.derives value.derives
theorem derives_statements :
    Sequence StatementTree tokens stmts → kindsOf tokens ∈ Phrase.statement.words∗
  | .nil => Language.nil_mem_kstar _
  | .cons first others => by
    rw [kindsOf_append]
    exact cons_mem_words_kstar first.derives (derives_statements others)
end

theorem DeclarationTree.derives (tree : DeclarationTree tokens group) :
    Derives .declaration (kindsOf tokens) := by
  obtain ⟨type, first, others, stop⟩ := tree
  have names : kindsOf _ ∈ Phrase.furtherName.words∗ := others.derives fun _ _ named => by
    obtain ⟨comma, named⟩ := named
    simpa [comma, named.1] using Derives.furtherName
  obtain ⟨pieces, spelled, each⟩ := names
  cases type with
  | scalar base =>
    simpa [first.1, stop, spelled] using
      Derives.declaration (isTypeWord_of_kind base) .scalar each
  | array base opening length closing =>
    simpa [first.1, stop, spelled, opening, length, closing] using
      Derives.declaration (isTypeWord_of_kind base) .array each

theorem ProgramTree.derives (tree : ProgramTree tokens whole) : Sentence (kindsOf tokens) := by
  obtain ⟨header, declarations, statements, footer⟩ := tree
  have groups : kindsOf _ ∈ Phrase.declaration.words∗ :=
    declarations.derives fun _ _ group => group.derives
  obtain ⟨declared, declaredSpelled, declaredEach⟩ := groups
  obtain ⟨stated, statedSpelled, statedEach⟩ := derives_statements statements
  rw [kindsOf_append, kindsOf_append, kindsOf_append, header, footer, declaredSpelled,
    statedSpelled]
  exact .program declaredEach statedEach

/-! ### Trees have no placeholders -/

def Expr.hasError : Expr → Bool
  | not operand | negate operand => operand.hasError
  | binary _ left right => left.hasError || right.hasError
  | arrayLookup array index => array.hasError || index.hasError
  | arrayLength array => array.hasError
  | newArray size => size.hasError
  | error => true
  | _ => false

namespace Stmt

mutual
def hasError : Stmt → Bool
  | block body => anyError body
  | ifThen condition thenBody => condition.hasError || thenBody.hasError
  | ifThenElse condition thenBody elseBody =>
    condition.hasError || thenBody.hasError || elseBody.hasError
  | whileDo condition body => condition.hasError || body.hasError
  | assign _ value => value.hasError
  | arrayAssign _ index value => index.hasError || value.hasError
  | error => true
def anyError : List Stmt → Bool
  | [] => false
  | stmt :: rest => stmt.hasError || anyError rest
end

end Stmt

/-- Whether something in a program stands for what could not be read. -/
def Program.hasError (program : Program) : Bool :=
  program.varDecls.any (·.type = .error) || Stmt.anyError program.statements

private theorem Grouped.noError (grouped : Grouped first others tree)
    (whole : first.hasError = false) (each : ∀ entry ∈ others, entry.2.hasError = false) :
    tree.hasError = false := by
  induction grouped with
  | single => exact whole
  | split _ _ _ _ leftIH rightIH =>
    obtain ⟨before, behind⟩ := List.forall_mem_append.mp each
    obtain ⟨operand, after⟩ := List.forall_mem_cons.mp behind
    rw [Expr.hasError, Bool.or_eq_false_iff]
    exact ⟨leftIH whole before, rightIH operand after⟩

private theorem noError_lookups {tree : Expr} {trees : List Expr} (whole : tree.hasError = false)
    (each : ∀ index ∈ trees, index.hasError = false) :
    (trees.foldl .arrayLookup tree).hasError = false := by
  induction trees generalizing tree with
  | nil => exact whole
  | cons index trees ih =>
    obtain ⟨first, others⟩ := List.forall_mem_cons.mp each
    refine ih ?_ others
    simp [Expr.hasError, whole, first]

private theorem ConstantTree.noError (value : ConstantTree literal tree) :
    tree.hasError = false := by
  cases value <;> rfl

mutual
theorem ClosedTree.noError : ClosedTree tokens tree → tree.hasError = false
  | .constant _ _ value => value.noError
  | .name _ => rfl
  | .group _ inside _ => inside.noError
theorem IndicesTree.noError : IndicesTree tokens trees → ∀ tree ∈ trees, tree.hasError = false
  | .nil => List.forall_mem_nil _
  | .cons _ inside _ others => List.forall_mem_cons.mpr ⟨inside.noError, others.noError⟩
theorem OperandTree.noError : OperandTree tokens tree → tree.hasError = false
  | .operand base indices => noError_lookups base.noError indices.noError
theorem TailTree.noError : TailTree tokens entries → ∀ entry ∈ entries, entry.2.hasError = false
  | .nil => List.forall_mem_nil _
  | .cons _ operand others => List.forall_mem_cons.mpr ⟨operand.noError, others.noError⟩
  | .signed _ _ operand => List.forall_mem_singleton.mpr operand.noError
theorem ExprTree.noError : ExprTree tokens tree → tree.hasError = false
  | .not _ operand | .negate _ operand => operand.noError
  | .flat first others grouped => grouped.noError first.noError others.noError
end

mutual
theorem StatementTree.noError : StatementTree tokens stmt → stmt.hasError = false
  | .block _ body _ => noError_statements body
  | .ifThen _ _ condition _ thenBody => by
    simp [Stmt.hasError, condition.noError, thenBody.noError]
  | .ifThenElse _ _ condition _ thenBody _ _ elseBody => by
    simp [Stmt.hasError, condition.noError, thenBody.noError, elseBody.noError]
  | .whileDo _ _ condition _ body => by
    simp [Stmt.hasError, condition.noError, body.noError]
  | .assign _ _ value _ => value.noError
  | .arrayAssign _ _ index _ _ value _ => by
    simp [Stmt.hasError, index.noError, value.noError]
theorem noError_statements : Sequence StatementTree tokens stmts → Stmt.anyError stmts = false
  | .nil => rfl
  | .cons first others => by
    simp [Stmt.anyError, first.noError, noError_statements others]
end

private theorem DeclarationTree.noError (tree : DeclarationTree tokens group) :
    ∀ declaration ∈ group, declaration.type ≠ .error := by
  obtain ⟨type, _⟩ := tree
  cases type <;> simp

theorem ProgramTree.noError (tree : ProgramTree tokens whole) : whole.hasError = false := by
  obtain ⟨_, declarations, statements, _⟩ := tree
  have declared := declarations.forall fun _ _ => DeclarationTree.noError
  rw [Program.hasError, noError_statements statements, Bool.or_false, List.any_eq_false]
  intro declaration member
  obtain ⟨group, within, member⟩ := List.mem_flatten.mp member
  simpa using declared group within declaration member

/-! ### Types of declared variables -/

/-- A declared variable is a scalar or an array. -/
theorem TypeTree.known (tree : TypeTree tokens type) : type.base?.isSome := by
  cases tree <;> rfl

private theorem DeclarationTree.known (tree : DeclarationTree tokens group) :
    ∀ declaration ∈ group, declaration.type.base?.isSome := by
  obtain ⟨type, _⟩ := tree
  simp [type.known]

theorem ProgramTree.known (tree : ProgramTree tokens whole) :
    ∀ declaration ∈ whole.varDecls, declaration.type.base?.isSome := by
  obtain ⟨_, declarations, _⟩ := tree
  have known := declarations.forall fun _ _ => DeclarationTree.known
  intro declaration member
  obtain ⟨group, within, member⟩ := List.mem_flatten.mp member
  exact known group within declaration member

end ToyC
