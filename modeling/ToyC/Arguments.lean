import ToyC.Command

/-! The arguments of a run, for those that are surely meant as a task and file
names. Help, versions, options that are not known or stand twice, names that
are empty and tasks without a file have no meaning here: what they do is up to
whoever reads the command line. -/
namespace ToyC.Request

/-- An argument that is a file name wherever it stands. -/
def isName (argument : String) : Bool :=
  argument = "-" || (argument ≠ "" && !argument.startsWith "-")

/-- The options and the file names among arguments: whatever follows `--` is a
file name. -/
def splitArguments (arguments : List String) : List String × List String :=
  let free := arguments.takeWhile (· ≠ "--")
  (free.filter fun argument => !isName argument,
    free.filter isName ++ (arguments.dropWhile (· ≠ "--")).drop 1)

/-- A request for the task that the options among the arguments choose. -/
def forTask? (taskOf? : List String → Option Task) (arguments : List String) : Option Request :=
  let (options, files) := splitArguments arguments
  if files.isEmpty || files.contains "" then none
  else (taskOf? options).map fun task => ⟨some task, files⟩

/-- The request that arguments make. The first one may name the task. -/
def ofArguments? : List String → Option Request
  | "help" :: _ => none
  | "tokens" :: rest =>
    forTask? (fun options => if options.isEmpty then some .tokens else none) rest
  | "parse" :: rest =>
    forTask? (fun options =>
      if options.isEmpty then some (.parse false)
      else if options = ["--print"] then some (.parse true) else none) rest
  | "check" :: rest =>
    forTask? (fun options => if options.isEmpty then some .check else none) rest
  | arguments =>
    let (options, files) := splitArguments arguments
    if options.isEmpty && !files.contains "" then some ⟨none, files⟩ else none

end ToyC.Request
