import ToyC.Expr

/-! Statements, declarations and programs. -/
namespace ToyC

/-- A statement; `error` stands for one that could not be read. -/
inductive Stmt where
  | block (body : List Stmt)
  | ifThen (condition : Expr) (thenBody : Stmt)
  | ifThenElse (condition : Expr) (thenBody elseBody : Stmt)
  | whileDo (condition : Expr) (body : Stmt)
  | assign (target : String) (value : Expr)
  | arrayAssign (target : String) (index value : Expr)
  | error
deriving Repr

namespace Stmt

def isBlock : Stmt → Bool
  | block _ => true
  | _ => false

end Stmt

/-- `target = value`; an assignment to an array element gives its array here. -/
structure Assignment where
  target : String
  value : Expr
deriving DecidableEq, Repr

structure VarDecl where
  type : Ty
  name : String
deriving DecidableEq, Repr

/-- The body of `int main()`: its declaration statements, each with the
variables it declares, and the statements after them. -/
structure Program where
  declarations : List (List VarDecl)
  statements : List Stmt
deriving Repr

namespace Program

/-- The declared variables in source order. -/
def varDecls (program : Program) : List VarDecl := program.declarations.flatten

end Program

mutual
private def decideStmt (left right : Stmt) : Decidable (left = right) :=
  match left, right with
  | .block body, .block body' =>
    have := decideStmts body body'
    decidable_of_iff (body = body') (by simp)
  | .ifThen condition thenBody, .ifThen condition' thenBody' =>
    have := decideStmt thenBody thenBody'
    decidable_of_iff (condition = condition' ∧ thenBody = thenBody') (by simp)
  | .ifThenElse condition thenBody elseBody, .ifThenElse condition' thenBody' elseBody' =>
    have := decideStmt thenBody thenBody'
    have := decideStmt elseBody elseBody'
    decidable_of_iff (condition = condition' ∧ thenBody = thenBody' ∧ elseBody = elseBody') (by simp)
  | .whileDo condition body, .whileDo condition' body' =>
    have := decideStmt body body'
    decidable_of_iff (condition = condition' ∧ body = body') (by simp)
  | .assign target value, .assign target' value' =>
    decidable_of_iff (target = target' ∧ value = value') (by simp)
  | .arrayAssign target index value, .arrayAssign target' index' value' =>
    decidable_of_iff (target = target' ∧ index = index' ∧ value = value') (by simp)
  | .error, .error => isTrue rfl
  | .block _, .ifThen .. | .block _, .ifThenElse .. | .block _, .whileDo .. | .block _, .assign ..
  | .block _, .arrayAssign .. | .block _, .error
  | .ifThen .., .block _ | .ifThen .., .ifThenElse .. | .ifThen .., .whileDo ..
  | .ifThen .., .assign .. | .ifThen .., .arrayAssign .. | .ifThen .., .error
  | .ifThenElse .., .block _ | .ifThenElse .., .ifThen .. | .ifThenElse .., .whileDo ..
  | .ifThenElse .., .assign .. | .ifThenElse .., .arrayAssign .. | .ifThenElse .., .error
  | .whileDo .., .block _ | .whileDo .., .ifThen .. | .whileDo .., .ifThenElse ..
  | .whileDo .., .assign .. | .whileDo .., .arrayAssign .. | .whileDo .., .error
  | .assign .., .block _ | .assign .., .ifThen .. | .assign .., .ifThenElse ..
  | .assign .., .whileDo .. | .assign .., .arrayAssign .. | .assign .., .error
  | .arrayAssign .., .block _ | .arrayAssign .., .ifThen .. | .arrayAssign .., .ifThenElse ..
  | .arrayAssign .., .whileDo .. | .arrayAssign .., .assign .. | .arrayAssign .., .error
  | .error, .block _ | .error, .ifThen .. | .error, .ifThenElse .. | .error, .whileDo ..
  | .error, .assign .. | .error, .arrayAssign .. => isFalse (by intro same; cases same)
private def decideStmts (left right : List Stmt) : Decidable (left = right) :=
  match left, right with
  | [], [] => isTrue rfl
  | stmt :: rest, stmt' :: rest' =>
    have := decideStmt stmt stmt'
    have := decideStmts rest rest'
    decidable_of_iff (stmt = stmt' ∧ rest = rest') (by simp)
  | [], _ :: _ | _ :: _, [] => isFalse (by intro same; cases same)
end

instance : DecidableEq Stmt := decideStmt

deriving instance DecidableEq for Program

end ToyC
