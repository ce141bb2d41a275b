import ToyC.Blank
import ToyC.Diagnostic
import ToyC.Lines

/-! A diagnostic with the source line it is about: two lines of heading, and
for a place on a line of the source three lines more, the last with a caret
under the place. Tabs are spread out as the columns count them. A caret that is
too far to the right cannot be printed, and then nothing is. -/
namespace ToyC

/-- The greatest width that a text can be padded to. -/
def greatestWidth : Nat := 65535

/-- A source line as an excerpt shows it. -/
structure ExcerptLine where
  /-- The line without the spaces it starts with and the blanks it ends with. -/
  text : List Char
  /-- How many spaces were left out in front. -/
  removed : Nat

namespace ExcerptLine

def spread (c : Char) : List Char := if c = '\t' then List.replicate tabWidth ' ' else [c]

def trimEnd (text : List Char) : List Char := (text.reverse.dropWhile isBlank).reverse

def ofLine (line : String) : ExcerptLine :=
  let wide := line.toList.flatMap spread
  ⟨trimEnd (wide.dropWhile (· = ' ')), (wide.takeWhile (· = ' ')).length⟩

/-- The length of the pointer, caret included, that reaches a column. -/
def pointerLength (line : ExcerptLine) (column : Nat) : Nat := max 1 (column - line.removed)

end ExcerptLine

namespace Diagnostic

def heading (diagnostic : Diagnostic) (file : String) : String :=
  let tip := match diagnostic.problem.tip? with
    | some tip => " (" ++ tip ++ ")"
    | none => ""
  "Error: " ++ diagnostic.problem.name ++ tip ++ "\n-> " ++ file ++ "\n"

/-- The source line at a place, between a bar and a pointer; nothing if the
pointer is wider than a text can be padded to. -/
def pointerLines? (line : String) (place : Position) : Option String :=
  let number := toString place.line.toNat
  let shown := ExcerptLine.ofLine line
  let margin := String.ofList (List.replicate (number.length + 1) ' ')
  let reach := shown.pointerLength place.column.toNat
  let dashes := String.ofList (List.replicate (reach - 1) '-')
  if reach ≤ greatestWidth then
    some (margin ++ "|\n" ++ number ++ " | " ++ String.ofList shown.text ++ "\n" ++
      margin ++ "| " ++ dashes ++ "^\n")
  else none

/-- The excerpt from a source whose lines are given. -/
def excerptFrom? (lines : List String) (file : String) (diagnostic : Diagnostic) : Option String :=
  let heading := diagnostic.heading file
  match diagnostic.position with
  | none => some heading
  | some place =>
    match lineOf? lines place with
    | none => some heading
    | some line => (pointerLines? line place).map (heading ++ ·)

def excerpt? (diagnostic : Diagnostic) (source file : String) : Option String :=
  diagnostic.excerptFrom? (sourceLines source) file

/-- The excerpts of several diagnostics; the source is cut into lines once. -/
def excerpts (diagnostics : List Diagnostic) (source file : String) : List (Option String) :=
  diagnostics.map (excerptFrom? (sourceLines source) file)

end Diagnostic

end ToyC
