import ToyC.Proofs.Acceptance
import ToyC.Proofs.Recording

/-! The lists that a parser returns beside its tree, compared with the tree.
Declarations, conditions and assignments are those of the tree, for every text;
so are the references, but for names that start no statement, and these occur
in no text without reports. -/
namespace ToyC

/-! ### Trees without placeholders -/

mutual
theorem Stmt.error_not_mem_nodes : (stmt : Stmt) → stmt.hasError = false → .error ∉ stmt.nodes
  | block body, clean => by
    simpa [nodes] using error_not_mem_allNodes body clean
  | ifThen condition thenBody, clean => by
    simp only [hasError, Bool.or_eq_false_iff] at clean
    simpa [nodes] using thenBody.error_not_mem_nodes clean.2
  | ifThenElse condition thenBody elseBody, clean => by
    simp only [hasError, Bool.or_eq_false_iff] at clean
    have thenClean := thenBody.error_not_mem_nodes clean.1.2
    have elseClean := elseBody.error_not_mem_nodes clean.2
    simp [nodes, thenClean, elseClean]
  | whileDo condition body, clean => by
    simp only [hasError, Bool.or_eq_false_iff] at clean
    simpa [nodes] using body.error_not_mem_nodes clean.2
  | assign target value, _ => by simp [nodes]
  | arrayAssign target index value, _ => by simp [nodes]
  | error, clean => by simp [hasError] at clean
theorem Stmt.error_not_mem_allNodes :
    (stmts : List Stmt) → anyError stmts = false → .error ∉ allNodes stmts
  | [], _ => List.not_mem_nil
  | stmt :: rest, clean => by
    simp only [anyError, Bool.or_eq_false_iff] at clean
    have first := stmt.error_not_mem_nodes clean.1
    have others := error_not_mem_allNodes rest clean.2
    simp [allNodes, first, others]
end

/-! ### Lists and trees -/

/-- The lists are those of the program. Of the references, some more may have
been recorded, for placeholders that stand in the program. -/
structure Inventory.Describes (inventory : Inventory) (program : Program) : Prop where
  declarations : inventory.declarations = program.varDecls
  oneType : ∀ group ∈ program.declarations, ∀ first ∈ group, ∀ second ∈ group,
    first.type = second.type
  conditions : inventory.conditions = program.conditions
  assignments : inventory.assignments = program.assignments
  present : program.names.Sublist inventory.identifiers
  missing : inventory.identifiers.length ≤ program.names.length + program.nodes.count .error

namespace Inventory

variable {inventory : Inventory} {program : Program}

theorem describes_of_collects (declares : Declares .empty declared program.declarations)
    (collects : Collects declared inventory.reverse program.nodes) :
    inventory.Describes program := by
  have start := declares.recorded
  obtain ⟨declarations, conditions, assignments, noted, identifiers, present, missing⟩ := collects
  rw [start] at declarations conditions assignments identifiers
  simp only [Inventory.reverse, empty, List.append_nil, List.reverse_inj]
    at declarations conditions assignments identifiers
  subst identifiers
  refine ⟨declarations, fun group within first member second member' => ?_, conditions,
    assignments, present, missing⟩
  obtain ⟨type, same⟩ := declares.oneType group within
  rw [same first member, same second member']

/-- Without placeholders, the references are the names in the program. -/
theorem Describes.identifiers (describes : inventory.Describes program)
    (clean : program.hasError = false) : inventory.identifiers = program.names := by
  rw [Program.hasError, Bool.or_eq_false_iff] at clean
  have missing := describes.missing
  rw [Program.nodes, List.count_eq_zero.mpr (Stmt.error_not_mem_allNodes _ clean.2),
    Nat.add_zero] at missing
  exact (describes.present.eq_of_length_le missing).symm

end Inventory

/-! ### Whole texts -/

theorem parse_describes (source : String) :
    (parse source).inventory.Describes (parse source).program := by
  obtain ⟨declared, declares, collects⟩ := program_collects .standard (.ofSource source)
  have fresh : (Parser.ofSource source).inventory = .empty := rfl
  rw [fresh] at declares
  rw [parse, Parser.finishProgram]
  generalize (Parser.ofSource source).program .standard = whole at declares collects ⊢
  refine Inventory.describes_of_collects declares ?_
  simpa [Inventory.reverse] using collects

/-- In a text without reports every name that was recorded stands in the tree. -/
theorem parse_identifiers {source : String} (silent : (parse source).errors = []) :
    (parse source).inventory.identifiers = (parse source).program.names :=
  (parse_describes source).identifiers (parse_silent silent).1.noError

/-- The lists that are checked are the lists of the tree, whatever the text. -/
theorem parse_inventory_of_tree (source : String) :
    (parse source).inventory.Describes (parse source).program ∧
      ((parse source).errors = [] →
        (parse source).inventory.identifiers = (parse source).program.names) :=
  ⟨parse_describes source, parse_identifiers⟩

end ToyC
