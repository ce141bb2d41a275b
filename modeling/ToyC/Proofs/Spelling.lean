import ToyC.Proofs.Tokens
import ToyC.Proofs.TreeGrammar

/-! How a tree is spelled: the tokens of its text, without their places. Every
operator's application is in parentheses, but at the top of a condition; signs
and indices have none around them. Trees with parts that no text stands for have
no spelling worth the name, so legibility is a question of its own. -/
namespace ToyC

def Content.name (name : String) : Content := ⟨.identifier, some (.identifier name)⟩

def inParens (inside : List Content) : List Content :=
  ⟨.openParen, none⟩ :: (inside ++ [⟨.closeParen, none⟩])

def inBrackets (inside : List Content) : List Content :=
  ⟨.openBracket, none⟩ :: (inside ++ [⟨.closeBracket, none⟩])

def BinaryOp.between (operator : BinaryOp) (left right : List Content) : List Content :=
  left ++ ⟨operator.kind, none⟩ :: right

namespace Expr

def spelling : Expr → List Content
  | int value => [⟨.intConst, some (.int value)⟩]
  | float value => [⟨.floatConst, some (.float value)⟩]
  | char value => [⟨.charConst, some (.char value)⟩]
  | boolean value => [⟨.booleanConst, some (.boolean value)⟩]
  | identifier name => [.name name]
  | not operand => ⟨.not, none⟩ :: operand.spelling
  | negate operand => ⟨.minus, none⟩ :: operand.spelling
  | binary operator left right => inParens (operator.between left.spelling right.spelling)
  | arrayLookup array index => array.spelling ++ inBrackets index.spelling
  | arrayLength _ | newArray _ | error => []

/-- The outermost operator of a condition stands without parentheses. -/
def conditionSpelling : Expr → List Content
  | binary operator left right => operator.between left.spelling right.spelling
  | other => other.spelling

/-- A sign stands in front of the printed expression. -/
def isSigned : Expr → Bool
  | not _ | negate _ => true
  | _ => false

/-- Each part of the tree has a text. A sign may stand anywhere. -/
def isLegible : Expr → Bool
  | int value => 0 ≤ value.toInt
  | char value => isAlphabetic value
  | boolean _ => true
  | identifier name => isName name
  | not operand | negate operand => operand.isLegible
  | binary _ left right => left.isLegible && right.isLegible
  | arrayLookup array index => array.isLegible && index.isLegible
  | float _ | arrayLength _ | newArray _ | error => false

end Expr

namespace Stmt

/-- A keyword with a condition in parentheses. -/
def headSpelling (keyword : TokenKind) (condition : Expr) : List Content :=
  ⟨keyword, none⟩ :: inParens condition.conditionSpelling

/-- The right side of an assignment. -/
def valueSpelling (value : Expr) : List Content :=
  ⟨.assign, none⟩ :: (value.spelling ++ [⟨.semicolon, none⟩])

mutual
def spelling : Stmt → List Content
  | block body => ⟨.openBrace, none⟩ :: (allSpelling body ++ [⟨.closeBrace, none⟩])
  | ifThen condition thenBody => headSpelling .ifWord condition ++ thenBody.spelling
  | ifThenElse condition thenBody elseBody =>
    headSpelling .ifWord condition ++ (thenBody.spelling ++ ⟨.elseWord, none⟩ :: elseBody.spelling)
  | whileDo condition body => headSpelling .whileWord condition ++ body.spelling
  | assign target value => .name target :: valueSpelling value
  | arrayAssign target index value =>
    .name target :: (inBrackets index.spelling ++ valueSpelling value)
  | error => []
def allSpelling : List Stmt → List Content
  | [] => []
  | stmt :: rest => stmt.spelling ++ allSpelling rest
end

mutual
/-- Each part of the tree has a text, and no `else` could go to another `if`. -/
def isLegible : Stmt → Bool
  | block body => allLegible body
  | ifThen condition thenBody => condition.isLegible && thenBody.isLegible
  | ifThenElse condition thenBody elseBody =>
    condition.isLegible && thenBody.isLegible && !thenBody.endsWithoutElse && elseBody.isLegible
  | whileDo condition body => condition.isLegible && body.isLegible
  | assign target value => isName target && value.isLegible
  | arrayAssign target index value => isName target && index.isLegible && value.isLegible
  | error => false
def allLegible : List Stmt → Bool
  | [] => true
  | stmt :: rest => stmt.isLegible && allLegible rest
end

end Stmt

/-- The length of an array is not part of its type, nor of its spelling. -/
def Ty.spelling : Ty → List Content
  | scalar base => [⟨base.kind, none⟩]
  | array base => ⟨base.kind, none⟩ :: inBrackets []
  | named _ | error => []

/-- Names, each with a comma in front. -/
def furtherSpelling (names : List String) : List Content :=
  names.flatMap fun name => [⟨.comma, none⟩, .name name]

/-- Names with commas between. -/
def namesSpelling : List String → List Content
  | [] => []
  | name :: others => .name name :: furtherSpelling others

def groupSpelling : List VarDecl → List Content
  | [] => []
  | first :: others => first.type.spelling ++
    (namesSpelling ((first :: others).map VarDecl.name) ++ [⟨.semicolon, none⟩])

/-- At least one variable, and all of one type, scalars or arrays. -/
def isLegibleGroup : List VarDecl → Bool
  | [] => false
  | first :: others => first.type.base?.isSome && (first :: others).all fun declaration =>
    declaration.type = first.type && isName declaration.name

/-- A group is told by its type and its names. -/
theorem eq_map_of_isLegibleGroup (legible : isLegibleGroup (first :: others)) :
    first :: others = (first.name :: others.map VarDecl.name).map (⟨first.type, ·⟩) := by
  simp only [isLegibleGroup, Bool.and_eq_true, List.all_eq_true, decide_eq_true_eq] at legible
  have same : ∀ declaration ∈ first :: others,
      (⟨first.type, declaration.name⟩ : VarDecl) = declaration := fun declaration within => by
    rw [← (legible.2 declaration within).1]
  rw [← List.map_cons, List.map_map]
  exact ((List.map_congr_left same).trans (List.map_id' _)).symm

namespace Program

def spelling (program : Program) : List Content :=
  ([.intWord, .mainWord, .openParen, .closeParen, .openBrace].map fun kind => ⟨kind, none⟩) ++
    (program.declarations.flatMap groupSpelling ++
      (Stmt.allSpelling program.statements ++ [⟨.closeBrace, none⟩, ⟨.eof, none⟩]))

def isLegible (program : Program) : Bool :=
  program.declarations.all isLegibleGroup && Stmt.allLegible program.statements

end Program

end ToyC
