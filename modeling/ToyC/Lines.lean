import ToyC.Position

/-! The lines of a text. A line ends at a line feed, at a carriage return, or
at both in this order; the end of the text ends no line that is empty. -/
namespace ToyC

/-- The columns that a tab takes. -/
def tabWidth : Nat := 4

/-- Whether a character that stands before `rest` ends its line. A carriage
return before a line feed leaves that to the line feed. -/
def endsLine (c : Char) (rest : List Char) : Bool :=
  c = '\n' || (c = '\r' && rest.head? != some '\n')

/-- The lines of a text, without their ends, when the characters `reversed`
were already read on the first one. -/
def linesFrom (reversed : List Char) : List Char → List String
  | [] => if reversed.isEmpty then [] else [String.ofList reversed.reverse]
  | c :: rest =>
    if endsLine c rest then String.ofList reversed.reverse :: linesFrom [] rest
    else if c = '\r' then linesFrom reversed rest
    else linesFrom (c :: reversed) rest

def sourceLines (source : String) : List String := linesFrom [] source.toList

/-- The one of the lines that a place is on. There is no line 0. -/
def lineOf? (lines : List String) (place : Position) : Option String :=
  if place.line = 0 then none else lines[place.line.toNat - 1]?

def lineAt? (source : String) (place : Position) : Option String := lineOf? (sourceLines source) place

end ToyC
