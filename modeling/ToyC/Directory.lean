/-! The files a run works on, as far as their names and bytes go. A path leads
to a file by its steps: empty ones and `.` change nothing, and a path that ends
in one of these asks for a directory. -/
namespace ToyC

/-- Why a file could not be read as text. -/
inductive ReadError where
  | missing
  | notDirectory
  | isDirectory
  | notText
  | other (cause : String)
deriving DecidableEq, Repr

namespace ReadError

def cause : ReadError → String
  | missing => "No such file or directory (os error 2)"
  | notDirectory => "Not a directory (os error 20)"
  | isDirectory => "Is a directory (os error 21)"
  | notText => "stream did not contain valid UTF-8"
  | other cause => cause

end ReadError

/-- The text that bytes encode. -/
def decodeText (bytes : ByteArray) : Except ReadError String :=
  match String.fromUTF8? bytes with
  | some text => .ok text
  | none => .error .notText

/-- A directory with the files in it and below it, by their paths. Nothing is
known about what lies outside. -/
structure Directory where
  files : List (String × ByteArray)

namespace Directory

/-- A step that stays where it is. -/
def isIdle (step : String) : Bool := step = "" || step = "."

/-- The steps of a path that lead anywhere. -/
def stepsOf (path : String) : List String := (path.splitOn "/").filter fun step => !isIdle step

/-- Whether a path ends in an idle step. -/
def asksForDirectory (path : String) : Bool := ((path.splitOn "/").getLast?.map isIdle).getD false

/-- The text of the file that a path leads to from the directory. -/
def read (directory : Directory) (path : String) : Except ReadError String :=
  let steps := stepsOf path
  if path.isEmpty || path.startsWith "/" then .error .missing
  else
    match directory.files.find? fun file => stepsOf file.1 == steps with
    | some file => if asksForDirectory path then .error .notDirectory else decodeText file.2
    | none =>
      if steps.all (· = "..") || directory.files.any (fun file => steps.isPrefixOf (stepsOf file.1)) then
        .error .isDirectory
      else if directory.files.any fun file => (stepsOf file.1).isPrefixOf steps then
        .error .notDirectory
      else .error .missing

end Directory

end ToyC
