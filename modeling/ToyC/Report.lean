import ToyC.Excerpt
import ToyC.ProgramReader
import ToyC.Semantics

/-! What is found in a text when it is read and checked: unknown tokens, syntax
errors, and semantic errors in the lists that the parser recorded. -/
namespace ToyC

/-- The semantic errors of what a parser recorded. -/
def Inventory.semanticErrors (inventory : Inventory) : List SemanticError :=
  ToyC.semanticErrors inventory.declarations inventory.identifiers inventory.assignments
    inventory.conditions

structure Report where
  parsed : ParsedProgram
  semantic : List SemanticError

namespace Report

def totalErrors (report : Report) : Nat :=
  report.parsed.lexicalErrors + report.parsed.errors.length + report.semantic.length

def isClean (report : Report) : Bool := report.totalErrors = 0

def syntaxDiagnostics (report : Report) : List Diagnostic := report.parsed.errors.map .ofSyntax

def semanticDiagnostics (report : Report) : List Diagnostic := report.semantic.map .ofSemantic

/-- The syntax errors, then the semantic ones, each as they were found. -/
def diagnostics (report : Report) : List Diagnostic :=
  report.syntaxDiagnostics ++ report.semanticDiagnostics

end Report

/-- Reads and checks a text. -/
def check (source : String) : Report :=
  let parsed := parse source
  ⟨parsed, parsed.inventory.semanticErrors⟩

end ToyC
