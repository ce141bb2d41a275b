/-! Types of variables. Arrays of a base type and its scalars are unrelated;
the lengths of arrays are no part of their types. -/
namespace ToyC

inductive BaseType where
  | int | float | char | boolean
deriving DecidableEq, Repr

namespace BaseType

def text : BaseType → String
  | int => "int"
  | float => "float"
  | char => "char"
  | boolean => "boolean"

end BaseType

/-- A type. No source declares a named one; `error` stands for a type that
could not be read. -/
inductive Ty where
  | scalar (base : BaseType)
  | array (base : BaseType)
  | named (name : String)
  | error
deriving DecidableEq, Repr

namespace Ty

/-- The type of a scalar itself, and of the elements of an array. -/
def base? : Ty → Option BaseType
  | scalar base | array base => some base
  | named _ | error => none

def isScalar : Ty → Bool
  | scalar _ => true
  | _ => false

def isArray : Ty → Bool
  | array _ => true
  | _ => false

def text : Ty → String
  | scalar base => base.text
  | array base => base.text ++ "[]"
  | named name => name
  | error => "<error>"

end Ty

end ToyC
