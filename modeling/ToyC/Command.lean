import ToyC.Directory
import ToyC.Printer
import ToyC.Report

/-! What is done for files. A task prints something about each file, in order,
and ends clean or not; a run takes one file after the other. Only an excerpt
that cannot be printed ends the run at once. All of it is written for any
console, so a run that prints and a run that is told of are the same one. -/
namespace ToyC

inductive Task where
  /-- List the tokens. -/
  | tokens
  /-- Report the syntax errors, and print the tree if asked to. -/
  | parse (print : Bool)
  /-- Report all errors. -/
  | check
deriving DecidableEq, Repr

/-- A part of what is printed: a result, a complaint, or how long the work named
took, which no two runs agree on. -/
inductive Print where
  | result (text : String)
  | complaint (text : String)
  | duration (work : String)
deriving DecidableEq, Repr

namespace Print

/-- What is on the standard output, times left out. -/
def out : Print → String
  | result text => text
  | complaint _ | duration _ => ""

/-- What is on the standard error. -/
def err : Print → String
  | complaint text => text
  | result _ | duration _ => ""

end Print

/-- How work ends: all was well, something was found, or the run is over. -/
inductive Ending where
  | clean
  | faulty
  | aborted
deriving DecidableEq, Repr

namespace Ending

def worse : Ending → Ending → Ending
  | aborted, _ | _, aborted => aborted
  | faulty, _ | _, faulty => faulty
  | clean, clean => clean

/-- The exit status. -/
def status : Ending → UInt32
  | clean => 0
  | faulty => 1
  | aborted => 101

end Ending

/-- What work prints, and how it ends. -/
structure Work where
  prints : List Print
  ending : Ending
deriving DecidableEq, Repr

namespace Work

def out (work : Work) : String := String.join (work.prints.map Print.out)

/-- What the run itself complains about. The system's own words about a run that
was aborted come behind it. -/
def err (work : Work) : String := String.join (work.prints.map Print.err)

def status (work : Work) : UInt32 := work.ending.status

end Work

/-! ### One file -/

/-- What a task says about a text: a line before it starts, what it finds, with
`none` for what cannot be printed, and a closing line. -/
structure FileReport where
  heading : String
  findings : List (Option Print)
  duration : Print
  summary : String
  clean : Bool
deriving DecidableEq, Repr

/-- The line behind each file. -/
def separator : Print := .result "---\n"

namespace FileReport

/-- All is printed in order, up to what cannot be printed. -/
def work (report : FileReport) : Work :=
  let findings := (report.findings.takeWhile Option.isSome).filterMap id
  if report.findings.all Option.isSome then
    { prints := .result report.heading :: findings ++
        [report.duration, .result report.summary, separator]
      ending := if report.clean then .clean else .faulty }
  else { prints := .result report.heading :: findings, ending := .aborted }

end FileReport

namespace Task

/-- The word for the work being done, and the word for its being done. -/
def verb : Task → String
  | tokens => "Tokenizing"
  | parse _ => "Parsing"
  | check => "Analyzing"

def pastVerb : Task → String
  | tokens => "Tokenized"
  | parse _ => "Parsed"
  | check => "Analyzed"

def tokenLine (token : Token) : Print :=
  if token.isUnknown then .complaint (token.text ++ "\n") else .result (token.text ++ "\n")

def excerpts (errors : List SyntaxError) (source file : String) : List (Option Print) :=
  (Diagnostic.excerpts (errors.map .ofSyntax) source file).map (Option.map .complaint)

def semanticLines (errors : List SemanticError) : String :=
  String.join (errors.map fun error => error.text ++ "\n")

/-- What the task says about a file with a given text. -/
def report (task : Task) (file source : String) : FileReport :=
  let heading := task.verb ++ " " ++ file ++ "...\n"
  let duration := .duration task.pastVerb
  match task with
  | tokens =>
    let all := tokenize source
    let unknowns := all.countP Token.isUnknown
    { heading, duration
      findings := all.map fun token => some (tokenLine token)
      summary := toString all.length ++ " tokens, " ++ toString unknowns ++ " unknown\n"
      clean := unknowns = 0 }
  | parse print =>
    let parsed := ToyC.parse source
    { heading, duration
      findings := excerpts parsed.errors source file ++
        if print then [some (.result parsed.program.text)] else []
      summary := toString parsed.errors.length ++ " syntax errors, " ++
        toString parsed.lexicalErrors ++ " unknown tokens\n"
      clean := parsed.errors.isEmpty && parsed.lexicalErrors = 0 }
  | check =>
    let checked := ToyC.check source
    { heading, duration
      findings := excerpts checked.parsed.errors source file ++
        [some (.complaint (semanticLines checked.semantic))]
      summary := toString checked.parsed.lexicalErrors ++ " unknown tokens, " ++
        toString checked.parsed.errors.length ++ " syntax errors, " ++
        toString checked.semantic.length ++ " semantic errors\n"
      clean := checked.isClean }

def unreadableLine (file : String) (error : ReadError) : String :=
  "Error: " ++ file ++ " could not be read: " ++ error.cause ++ "\n"

/-- What is done for a file that gives a text, or none. -/
def work (task : Task) (file : String) : Except ReadError String → Work
  | .error error => ⟨[.complaint (unreadableLine file error), separator], .faulty⟩
  | .ok source => (task.report file source).work

end Task

/-! ### Runs -/

/-- Where a run reads its files and prints. -/
structure Console (m : Type → Type) where
  read : String → m (Except ReadError String)
  print : List Print → m Unit

/-- A console that files are given to, and that records what is printed. -/
def Console.recording (read : String → Except ReadError String) :
    Console (StateM (List Print)) where
  read file := pure (read file)
  print prints := modify (· ++ prints)

section

variable {m : Type → Type} [Monad m] (console : Console m)

def Task.perform (task : Task) (file : String) : m Ending := do
  let work := task.work file (← console.read file)
  console.print work.prints
  return work.ending

/-- Performs a task for one file after the other, whatever is found, until the
run is over. -/
def Task.performAll (task : Task) : List String → m Ending
  | [] => pure .clean
  | file :: files => do
    match ← task.perform console file with
    | .aborted => return .aborted
    | ending => return ending.worse (← task.performAll files)

/-- What is asked for: a task for files, or just files. -/
structure Request where
  task : Option Task
  files : List String
deriving DecidableEq, Repr

/-- What is said when no file is given. -/
def usage : String :=
  "Error: No input file specified\nUsage: minic <FILE>... or minic check <FILE>...\n"

/-- Files are checked if no task is named. -/
def Request.perform (request : Request) : m Ending :=
  match request with
  | ⟨none, []⟩ => do
    console.print [.complaint usage]
    return .faulty
  | ⟨none, files⟩ => Task.check.performAll console files
  | ⟨some task, files⟩ => task.performAll console files

end

/-- The work that something done at a console amounts to. -/
def Work.recorded (perform : StateM (List Print) Ending) : Work :=
  let (ending, prints) := perform.run []
  ⟨prints, ending⟩

/-- The work of a request. -/
def Request.run (request : Request) (read : String → Except ReadError String) : Work :=
  .recorded (request.perform (.recording read))

/-- The work of a request for a task. -/
def Task.run (task : Task) (read : String → Except ReadError String) (files : List String) : Work :=
  Request.run ⟨some task, files⟩ read

end ToyC
