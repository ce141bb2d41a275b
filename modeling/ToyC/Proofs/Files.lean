import ToyC.Arguments
import ToyC.Proofs.Carets
import ToyC.Proofs.Checking
import ToyC.Proofs.Reports

/-! Runs on many files. What a run prints is what the runs on the single files
print, one after the other, also where files are missing, are no text or are not
clean. Only a file with an excerpt that is too wide to be printed ends the run,
and the files behind it are not reached. A file that passes a later stage passes
the earlier ones: the parser counts just the unknown tokens that a listing
shows. -/
namespace ToyC

/-! ### Arguments -/

namespace Request

/-- Arguments that make a request, with all file names behind `--`. -/
def arguments (request : Request) : List String :=
  let words := match request.task with
    | none => []
    | some .tokens => ["tokens"]
    | some (.parse true) => ["parse", "--print"]
    | some (.parse false) => ["parse"]
    | some .check => ["check"]
  words ++ "--" :: request.files

/-- Every request can be made, whatever the names of its files are. -/
theorem ofArguments?_arguments (request : Request) (named : "" ∉ request.files)
    (present : request.task = none ∨ request.files ≠ []) :
    ofArguments? request.arguments = some request := by
  obtain ⟨task, files⟩ := request
  have print : isName "--print" = false := by decide +kernel
  rcases task with _ | ⟨⟩ | ⟨_ | _⟩ | ⟨⟩ <;>
    simp_all [arguments, ofArguments?, forTask?, splitArguments]

end Request

/-! ### One file -/

namespace Ending

@[simp] theorem worse_clean (ending : Ending) : ending.worse .clean = ending := by
  cases ending <;> rfl

theorem worse_eq_clean_iff {first second : Ending} :
    first.worse second = .clean ↔ first = .clean ∧ second = .clean := by
  cases first <;> cases second <;> decide

theorem worse_eq_aborted_iff {first second : Ending} :
    first.worse second = .aborted ↔ first = .aborted ∨ second = .aborted := by
  cases first <;> cases second <;> decide

end Ending

theorem Work.status_eq_zero_iff {work : Work} : work.status = 0 ↔ work.ending = .clean := by
  rw [status]
  cases work.ending <;> decide

namespace FileReport

theorem work_aborted_iff (report : FileReport) :
    report.work.ending = .aborted ↔ none ∈ report.findings := by
  have all : report.findings.all Option.isSome ↔ none ∉ report.findings := by
    simp [Option.isSome_iff_ne_none, List.forall_mem_ne']
  rw [work]
  split_ifs with printed clean
  · simpa using all.mp printed
  · simpa using all.mp printed
  · simpa using mt all.mpr printed

theorem work_clean_iff (report : FileReport) :
    report.work.ending = .clean ↔ none ∉ report.findings ∧ report.clean := by
  rw [← report.work_aborted_iff, work]
  split_ifs with printed clean <;> simp [*]

end FileReport

namespace Task

/-- Only a syntax error has an excerpt that may be too wide. -/
theorem none_mem_findings_iff (task : Task) (file source : String) :
    none ∈ (task.report file source).findings ↔
      task ≠ .tokens ∧ ∃ error ∈ (ToyC.parse source).errors, error.position.IsTooFar source := by
  have excerpt (error : SyntaxError) :
      (Diagnostic.ofSyntax error).excerptFrom? (sourceLines source) file = none ↔
        error.position.IsTooFar source := Diagnostic.excerpt?_eq_none_iff rfl source file
  cases task with
  | tokens => simp [report]
  | parse print => cases print <;> simp [report, excerpts, Diagnostic.excerpts, excerpt]
  | check => simp [report, excerpts, Diagnostic.excerpts, excerpt, ToyC.check]

/-- Nothing stops what is printed about a clean file. -/
theorem report_work_clean_iff (task : Task) (file source : String) :
    (task.report file source).work.ending = .clean ↔ (task.report file source).clean := by
  rw [FileReport.work_clean_iff, none_mem_findings_iff, and_iff_right_iff_imp]
  rintro clean ⟨reports, error, reported, _⟩
  have silent : (ToyC.parse source).errors = [] := by
    cases task with
    | tokens => exact absurd rfl reports
    | parse print =>
      simp only [report, Bool.and_eq_true, List.isEmpty_iff] at clean
      exact clean.1
    | check =>
      simp only [report] at clean
      exact ((Report.isClean_iff (ToyC.check source)).mp clean).2.1
  rw [silent] at reported
  cases reported

/-- The later task finds whatever the earlier one finds. -/
def FindsAll (later earlier : Task) : Prop :=
  ∀ file source, (later.report file source).clean → (earlier.report file source).clean

theorem check_findsAll (print : Bool) : FindsAll .check (.parse print) := by
  intro file source clean
  simp only [report] at clean
  obtain ⟨known, silent, _⟩ := (Report.isClean_iff (ToyC.check source)).mp clean
  simp only [ToyC.check] at known silent
  simp [report, known, silent]

/-- To parse finds the unknown tokens that the list of all tokens has. -/
theorem parse_findsAll (print : Bool) : FindsAll (.parse print) .tokens := by
  intro file source clean
  simp only [report, Bool.and_eq_true, decide_eq_true_eq] at clean
  have known : (tokenize source).countP Token.isUnknown = 0 :=
    (parse_unknowns source).symm.trans clean.2
  simpa [report] using List.countP_eq_zero.mp known

end Task

/-! ### Files, one after the other -/

namespace Task

section

variable {read : String → Except ReadError String} {task : Task} {files : List String}

/-- The files that a run gets to: all up to the first that ends it. -/
def reached (task : Task) (read : String → Except ReadError String) : List String → List String
  | [] => []
  | file :: files =>
    if (task.work file (read file)).ending = .aborted then [file]
    else file :: task.reached read files

/-- What a recording holds after a run. A run that is over prints nothing more,
and no ending is worse. -/
theorem performAll_recording (before : List Print) :
    (task.performAll (.recording read) files).run before =
      ((files.map fun file => (task.work file (read file)).ending).foldr .worse .clean,
        before ++ (task.reached read files).flatMap fun file =>
          (task.work file (read file)).prints) := by
  induction files generalizing before with
  | nil =>
    rw [reached, List.flatMap_nil, List.append_nil]
    rfl
  | cons file files ih =>
    generalize done : task.work file (read file) = work
    have first : (task.perform (.recording read) file).run before =
        (work.ending, before ++ work.prints) := by
      rw [← done]
      rfl
    have later := ih (before ++ work.prints)
    rw [performAll, StateT.run_bind, first, reached, List.map_cons, List.foldr_cons, done]
    cases work.ending with
    | aborted =>
      rw [if_pos rfl, List.flatMap_singleton, done]
      rfl
    | clean | faulty =>
      change (Ending.worse _ <$> task.performAll (.recording read) files).run _ = _
      rw [StateT.run_map, later, if_neg (by decide), List.flatMap_cons, done, List.append_assoc]
      rfl

theorem run_eq (task : Task) (read : String → Except ReadError String) (files : List String) :
    task.run read files =
      ⟨(task.reached read files).flatMap fun file => (task.work file (read file)).prints,
        (files.map fun file => (task.work file (read file)).ending).foldr .worse .clean⟩ := by
  have recorded : (task.performAll (.recording read) files).run [] = _ := performAll_recording []
  rw [run, Request.run, Work.recorded, Request.perform, recorded, List.nil_append]

theorem run_single (file : String) : task.run read [file] = task.work file (read file) := by
  rw [run_eq, reached, reached, ite_self, List.flatMap_singleton, List.map_singleton,
    List.foldr_cons, List.foldr_nil, Ending.worse_clean]

/-- What is printed for files, on one of the two streams. -/
theorem run_printed (stream : Print → String) (files : List String) :
    String.join ((task.run read files).prints.map stream) =
      String.join ((task.reached read files).map fun file =>
        String.join ((task.run read [file]).prints.map stream)) := by
  simp only [run_single]
  rw [run_eq]
  induction task.reached read files with
  | nil => rfl
  | cons file files ih =>
    rw [List.flatMap_cons, List.map_append, String.join_append, ih, List.map_cons,
      String.join_cons]

/-- A run ends as the worst of the runs on the single files. -/
theorem run_ending (files : List String) :
    (task.run read files).ending =
      (files.map fun file => (task.run read [file]).ending).foldr .worse .clean := by
  simp only [run_single]
  rw [run_eq]

theorem run_clean_iff (files : List String) :
    (task.run read files).ending = .clean ↔
      ∀ file ∈ files, (task.run read [file]).ending = .clean := by
  rw [run_ending]
  induction files with
  | nil => simp
  | cons file files ih => simp [Ending.worse_eq_clean_iff, ih]

theorem run_aborted_iff_exists :
    (task.run read files).ending = .aborted ↔
      ∃ file ∈ files, (task.run read [file]).ending = .aborted := by
  rw [run_ending]
  induction files with
  | nil => simp
  | cons file files ih => simp [Ending.worse_eq_aborted_iff, ih]

theorem reached_eq_self_iff (files : List String) :
    task.reached read files = files ↔
      ∀ file ∈ files.dropLast, (task.run read [file]).ending ≠ .aborted := by
  simp only [run_single]
  induction files with
  | nil => simp [reached]
  | cons file files ih =>
    rw [reached]
    cases files with
    | nil => simp [reached]
    | cons next files =>
      rw [List.dropLast_cons_of_ne_nil (List.cons_ne_nil _ _), List.forall_mem_cons, ← ih]
      split_ifs with aborted <;> simp [aborted]

/-- Only a file that was read ends a run, and only by a caret. -/
theorem run_aborted_iff (file : String) :
    (task.run read [file]).ending = .aborted ↔ task ≠ .tokens ∧
      ∃ source, read file = .ok source ∧
        ∃ error ∈ (ToyC.parse source).errors, error.position.IsTooFar source := by
  rw [run_single]
  cases read file with
  | error error => simp [work]
  | ok source => simp [work, FileReport.work_aborted_iff, none_mem_findings_iff]

theorem FindsAll.status {later earlier : Task} (findsAll : FindsAll later earlier)
    (clean : (later.run read files).status = 0) : (earlier.run read files).status = 0 := by
  rw [Work.status_eq_zero_iff, run_clean_iff] at clean ⊢
  intro file member
  have passed := clean file member
  rw [run_single] at passed ⊢
  cases text : read file with
  | error error =>
    rw [text] at passed
    cases passed
  | ok source =>
    rw [text, work, report_work_clean_iff] at passed
    rw [work, report_work_clean_iff]
    exact findsAll file source passed

end

end Task

/-- Whatever the files are, those that are missing or no text included, a run on
them prints, on both streams, what the runs of the same task on the single files
print, one after the other, up to the first file with a caret that is too far to
the right; and its exit status is 0 just if theirs are. On the same files exit
status 0 of checking implies that of parsing, and exit status 0 of parsing that
of listing the tokens. -/
theorem files_run_apart (read : String → Except ReadError String) (files : List String) :
    (∀ task : Task,
      let one (file : String) := task.run read [file]
      let all := task.run read files
      all.out = String.join ((task.reached read files).map fun file => (one file).out) ∧
      all.err = String.join ((task.reached read files).map fun file => (one file).err) ∧
      (all.status = 0 ↔ ∀ file ∈ files, (one file).status = 0) ∧
      (task.reached read files = files ↔
        ∀ file ∈ files.dropLast, (one file).ending ≠ .aborted) ∧
      ∀ file, (one file).ending = .aborted ↔ task ≠ .tokens ∧
        ∃ source, read file = .ok source ∧
          ∃ error ∈ (parse source).errors, error.position.IsTooFar source) ∧
    ∀ print,
      let parsing := (Task.parse print).run read files
      ((Task.check.run read files).status = 0 → parsing.status = 0) ∧
      (parsing.status = 0 → (Task.tokens.run read files).status = 0) := by
  refine ⟨fun task => ⟨Task.run_printed Print.out files, Task.run_printed Print.err files, ?_,
    Task.reached_eq_self_iff files, Task.run_aborted_iff⟩, fun print =>
    ⟨(Task.check_findsAll print).status, (Task.parse_findsAll print).status⟩⟩
  simp only [Work.status_eq_zero_iff]
  exact Task.run_clean_iff files

/-- One file is missing, one has errors, one is no text, and one is clean. -/
theorem unlike_files_run_apart :
    let read (file : String) : Except ReadError String :=
      if file = "a.mc" then .error .missing
      else if file = "b.mc" then .ok "int main() \x7b\n  x = 1 @;\n\x7d"
      else if file = "c.mc" then .error .notText
      else .ok "int main() \x7b int x; if (true) x = (1); \x7d"
    let files := ["a.mc", "b.mc", "c.mc", "d.mc"]
    let trees := (Task.parse true).run read files
    let listing := Task.tokens.run read ["c.mc", "b.mc"]
    let clean (task : Task) := (task.run read ["d.mc"]).status = 0
    trees.out =
        "---\nParsing b.mc...\nint main() \x7b\n    x = 1;\n\x7d\n" ++
        "1 syntax errors, 1 unknown tokens\n---\n---\nParsing d.mc...\n" ++
        "int main() \x7b\n    int x;\n    if (true)\n        x = 1;\n\x7d\n" ++
        "0 syntax errors, 0 unknown tokens\n---\n" ∧
      trees.err =
        Task.unreadableLine "a.mc" .missing ++
        "Error: UnexpectedToken (expected SEMI, found UNKNOWN)\n-> b.mc\n" ++
        "  |\n2 | x = 1 @;\n  | ------^\n" ++
        Task.unreadableLine "c.mc" .notText ∧
      trees.status = 1 ∧
      listing.out =
        "---\nTokenizing b.mc...\nINT (1,1)\nMAIN (1,5)\nLPAREN (1,9)\nRPAREN (1,10)\n" ++
        "LBRACE (1,12)\nID (2,3): x\nASSIGN (2,5)\nINT_CONST (2,7): 1\nSEMI (2,10)\n" ++
        "RBRACE (3,1)\nEOF (3,2)\n12 tokens, 1 unknown\n---\n" ∧
      listing.err = Task.unreadableLine "c.mc" .notText ++ "UNKNOWN (2,9)\n" ∧
      clean .check ∧ clean (.parse true) ∧ clean .tokens := by
  intro read files trees listing clean
  obtain ⟨out, err, _, whole, _⟩ := (files_run_apart read files).1 (.parse true)
  have all : (Task.parse true).reached read files = files := whole.mpr (by decide +kernel)
  obtain ⟨out', err', _, whole', _⟩ := (files_run_apart read ["c.mc", "b.mc"]).1 .tokens
  have all' : Task.tokens.reached read ["c.mc", "b.mc"] = ["c.mc", "b.mc"] :=
    whole'.mpr (by decide +kernel)
  obtain ⟨parsed, listed⟩ := (files_run_apart read ["d.mc"]).2 true
  have checked : clean .check := by decide +kernel
  refine ⟨?_, ?_, by decide +kernel, ?_, ?_, checked, parsed checked, listed (parsed checked)⟩
  · rw [out, all]
    decide +kernel
  · rw [err, all]
    decide +kernel
  · rw [out', all']
    decide +kernel
  · rw [err', all']
    decide +kernel

/-! ### A caret too far to the right -/

/-- A program that is cut off by a sign that no token has, at column 70014. -/
def farText : String :=
  String.ofList ("int main() \x7b ".toList ++ (List.replicate 70000 ' ' ++ ['@']))

theorem parse_farText :
    (parse farText).errors = [⟨.unknown, .closeBrace, ⟨1, 70014⟩, 5, .unexpected⟩] := by
  have opening : Hands ⟨"int main() \x7b ".toList ++ (List.replicate 70000 ' ' ++ ['@']), .start⟩
      [⟨.intWord, none, ⟨1, 1⟩⟩, ⟨.mainWord, none, ⟨1, 5⟩⟩, ⟨.openParen, none, ⟨1, 9⟩⟩,
        ⟨.closeParen, none, ⟨1, 10⟩⟩, ⟨.openBrace, none, ⟨1, 12⟩⟩]
      ⟨List.replicate 70000 ' ' ++ ['@'], ⟨1, 14⟩⟩ :=
    .token rfl rfl (.blank rfl (.token rfl rfl (.token rfl rfl (.token rfl rfl
      (.blank rfl (.token rfl rfl (.blank rfl .done)))))))
  have spaces := Hands.spaces 70000 ['@'] ⟨1, 14⟩
  have sign : Hands ⟨['@'], Position.along ⟨1, 14⟩ 70000⟩
      [⟨.unknown, none, ⟨1, 70014⟩⟩] ⟨[], ⟨1, 70015⟩⟩ := .token rfl rfl .done
  have stream := (opening.trans (spaces.trans sign)).scan
  have cursor : Cursor.start farText =
      ⟨"int main() \x7b ".toList ++ (List.replicate 70000 ' ' ++ ['@']), .start⟩ :=
    congrArg (Cursor.mk · .start) String.toList_ofList
  rw [← cursor] at stream
  have parser : Parser.ofSource farText = .start _ 0 := congrArg (Parser.start · 0) stream
  rw [parse, parser]
  decide +kernel

theorem farText_isTooFar : Position.IsTooFar ⟨1, 70014⟩ farText := by
  have text : farText.toList = 'i' :: _ := String.toList_ofList
  exact Position.isTooFar_of_first text rfl rfl (by decide)

theorem run_farText {task : Task} {read : String → Except ReadError String}
    (text : read file = .ok farText) (reports : task ≠ .tokens) :
    (task.run read [file]).ending = .aborted := by
  have reported : ⟨.unknown, .closeBrace, ⟨1, 70014⟩, 5, .unexpected⟩ ∈ (parse farText).errors := by
    rw [parse_farText]
    exact List.mem_cons_self
  exact (Task.run_aborted_iff file).mpr ⟨reports, farText, text, _, reported, farText_isTooFar⟩

/-- A caret that is too far to the right ends the run: the runs on the single
files print more. -/
theorem far_caret_ends_run :
    let read (file : String) : Except ReadError String :=
      if file = "far.mc" then .ok farText else .ok "int main() \x7b \x7d"
    let files := ["near.mc", "far.mc", "near.mc"]
    (Task.check.run read files).status = 101 ∧
      (Task.check.run read files).out ≠
        String.join (files.map fun file => (Task.check.run read [file]).out) := by
  intro read files
  have far : (Task.check.run read ["far.mc"]).ending = .aborted :=
    run_farText (if_pos rfl) (by decide)
  have near : (Task.check.run read ["near.mc"]).ending ≠ .aborted := by decide +kernel
  have printed : (Task.check.run read ["near.mc"]).out ≠ "" := by decide +kernel
  constructor
  · rw [Work.status, Task.run_aborted_iff_exists.mpr ⟨_, by simp [files], far⟩]
    rfl
  · have reached : Task.check.reached read files = ["near.mc", "far.mc"] := by
      rw [Task.run_single] at far near
      rw [Task.reached, Task.reached, if_neg near, if_pos far]
    have out : (Task.check.run read files).out =
        String.join ((Task.check.reached read files).map fun file =>
          (Task.check.run read [file]).out) := Task.run_printed Print.out files
    rw [out, reached]
    intro same
    have lengths := congrArg String.length same
    simp only [files, List.map_cons, List.map_nil, String.join_cons, String.join_nil,
      String.length_append, String.length_empty] at lengths
    exact printed (String.length_eq_zero_iff.mp (by omega))

end ToyC
