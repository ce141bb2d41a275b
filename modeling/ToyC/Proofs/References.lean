import ToyC.Proofs.Checking

/-! One error for each place where a name is used. In a text without reports the
identifiers among the tokens are the declared names, then the references, each
once and in the order of the text; and of these, the ones that are not declared
are reported, as often as they occur. -/
namespace ToyC

/-- The identifiers among the tokens carry these names, in this order. -/
def Mentions (tokens : List Token) (names : List String) : Prop :=
  (tokens.filter fun token => token.kind = .identifier).map Token.identifier? = names.map some

namespace Mentions

theorem nil : Mentions [] [] := rfl

theorem append (first : Mentions tokens names) (second : Mentions tokens' names') :
    Mentions (tokens ++ tokens') (names ++ names') := by
  rw [Mentions, List.filter_append, List.map_append, first, second, List.map_append]

/-- A token of another kind has no name to give. -/
theorem other (found : token.kind = kind) (others : Mentions tokens names)
    (noName : kind ≠ .identifier := by decide) : Mentions (token :: tokens) names := by
  subst found
  rwa [Mentions, List.filter_cons_of_neg (by simpa using noName)]

theorem cons (named : token.Names name) (others : Mentions tokens names) :
    Mentions (token :: tokens) (name :: names) := by
  rw [Mentions, List.filter_cons_of_pos (by simpa using named.1), List.map_cons, others]
  simp [Token.identifier?, named.2]

theorem none (absent : .identifier ∉ kindsOf tokens) : Mentions tokens [] := by
  have without : (tokens.filter fun token => token.kind = .identifier) = [] := by
    rw [List.filter_eq_nil_iff]
    intro token member name
    exact absent (of_decide_eq_true name ▸ List.mem_map_of_mem member)
  rw [Mentions, without]
  rfl

/-- A token of another kind on either side. -/
theorem enclosed (opening : opener.kind = left) (inside : Mentions tokens names)
    (closing : closer.kind = right) (others : Mentions rest names')
    (noName : left ≠ .identifier := by decide) (noName' : right ≠ .identifier := by decide) :
    Mentions (opener :: (tokens ++ closer :: rest)) (names ++ names') :=
  other opening (inside.append (other closing others noName')) noName

end Mentions

theorem Sequence.mentions {item : List Token → α → Prop} {names : α → List String}
    (each : ∀ piece value, item piece value → Mentions piece (names value))
    (sequence : Sequence item tokens values) : Mentions tokens (values.flatMap names) := by
  induction sequence with
  | nil => exact .nil
  | cons first _ ih => exact (each _ _ first).append ih

/-! ### Expressions -/

/-- However operands are grouped, their names stay in order. -/
theorem Grouped.names (grouped : Grouped first entries tree) :
    tree.names = first.names ++ entries.flatMap fun entry => entry.2.names := by
  induction grouped with
  | single => exact (List.append_nil _).symm
  | split _ _ _ _ leftIH rightIH =>
    rw [Expr.names, leftIH, rightIH, List.flatMap_append, List.flatMap_cons, List.append_assoc]

private theorem names_lookups (tree : Expr) (trees : List Expr) :
    (trees.foldl .arrayLookup tree).names = tree.names ++ trees.flatMap Expr.names := by
  induction trees generalizing tree with
  | nil => exact (List.append_nil _).symm
  | cons index trees ih =>
    rw [List.foldl_cons, ih, Expr.names, List.flatMap_cons, List.append_assoc]

private theorem ConstantTree.names (value : ConstantTree literal tree) : tree.names = [] := by
  cases value <;> rfl

private theorem BinaryOp.kind_ne_identifier (operator : BinaryOp) :
    operator.kind ≠ .identifier := by
  cases operator <;> decide

private theorem ne_identifier_of_isConstant (constant : isConstant kind) :
    kind ≠ .identifier := by
  rintro rfl
  cases constant

mutual
theorem ClosedTree.mentions : ClosedTree tokens tree → Mentions tokens tree.names
  | .constant constant _ value => by
    rw [value.names]
    exact .other rfl .nil (ne_identifier_of_isConstant constant)
  | .name named => .cons named .nil
  | .group opening inside closing => by
    simpa using Mentions.enclosed opening inside.mentions closing .nil
theorem IndicesTree.mentions : IndicesTree tokens trees →
    Mentions tokens (trees.flatMap Expr.names)
  | .nil => .nil
  | .cons opening inside closing others =>
    .enclosed opening inside.mentions closing others.mentions
theorem OperandTree.mentions : OperandTree tokens tree → Mentions tokens tree.names
  | .operand base indices => by
    rw [names_lookups]
    exact base.mentions.append indices.mentions
theorem TailTree.mentions : TailTree tokens entries →
    Mentions tokens (entries.flatMap fun entry => entry.2.names)
  | .nil => .nil
  | .cons binary operand others =>
    .other binary (operand.mentions.append others.mentions) (BinaryOp.kind_ne_identifier _)
  | .signed binary _ operand => by
    rw [List.flatMap_singleton]
    exact .other binary operand.mentions (BinaryOp.kind_ne_identifier _)
theorem ExprTree.mentions : ExprTree tokens tree → Mentions tokens tree.names
  | .not sign operand | .negate sign operand => .other sign operand.mentions
  | .flat first others grouped => by
    rw [grouped.names]
    exact first.mentions.append others.mentions
end

/-! ### Statements -/

mutual
theorem StatementTree.mentions {stmt : Stmt} : StatementTree tokens stmt →
    Mentions tokens (stmt.nodes.flatMap Stmt.ownNames)
  | .block opening body closing => by
    have whole := Mentions.enclosed opening (mentions_statements body) closing .nil
    simpa [Stmt.nodes, Stmt.ownNames] using whole
  | .ifThen keyword opening condition closing thenBody => by
    have behind := Mentions.enclosed opening condition.mentions closing thenBody.mentions
    simpa [Stmt.nodes, Stmt.ownNames] using behind.other keyword
  | .ifThenElse keyword opening condition closing thenBody _ otherwise elseBody => by
    have bodies := thenBody.mentions.append (elseBody.mentions.other otherwise)
    have behind := Mentions.enclosed opening condition.mentions closing bodies
    simpa [Stmt.nodes, Stmt.ownNames] using behind.other keyword
  | .whileDo keyword opening condition closing body => by
    have behind := Mentions.enclosed opening condition.mentions closing body.mentions
    simpa [Stmt.nodes, Stmt.ownNames] using behind.other keyword
  | .assign target assign value stop => by
    have behind := Mentions.enclosed assign value.mentions stop .nil
    simpa [Stmt.nodes, Stmt.ownNames] using behind.cons target
  | .arrayAssign target opening index closing assign value stop => by
    have equals := Mentions.enclosed assign value.mentions stop .nil
    have behind := Mentions.enclosed opening index.mentions closing equals
    simpa [Stmt.nodes, Stmt.ownNames] using behind.cons target
theorem mentions_statements : Sequence StatementTree tokens stmts →
    Mentions tokens ((Stmt.allNodes stmts).flatMap Stmt.ownNames)
  | .nil => .nil
  | .cons first others => by
    rw [Stmt.allNodes, List.flatMap_append]
    exact first.mentions.append (mentions_statements others)
end

/-! ### Declarations -/

private theorem BaseType.kind_ne_identifier (type : BaseType) : type.kind ≠ .identifier := by
  cases type <;> decide

private theorem TypeTree.mentions (tree : TypeTree tokens type) : Mentions tokens [] := by
  cases tree with
  | scalar base => exact .other base .nil (BaseType.kind_ne_identifier _)
  | array base opening length closing =>
    exact .other base (.other opening (.other length (.other closing .nil)))
      (BaseType.kind_ne_identifier _)

private theorem furtherNames_mention (others : Sequence FurtherNameTree tokens names) :
    Mentions tokens names := by
  have each (piece name) (tree : FurtherNameTree piece name) : Mentions piece [name] := by
    obtain ⟨comma, named⟩ := tree
    exact .other comma (.cons named .nil)
  simpa using others.mentions each

theorem DeclarationTree.mentions (tree : DeclarationTree tokens group) :
    Mentions tokens (group.map VarDecl.name) := by
  obtain ⟨type, first, others, stop⟩ := tree
  have behind := ((furtherNames_mention others).append (.other stop .nil)).cons first
  simpa [Function.comp_def] using type.mentions.append behind

/-! ### Programs -/

/-- A program in its parts: the declarations mention what is declared, and the
statements what is referred to. -/
theorem ProgramTree.mentions (tree : ProgramTree tokens whole) :
    ∃ opening declared stated closing, tokens = opening ++ (declared ++ (stated ++ closing)) ∧
      kindsOf opening = [.intWord, .mainWord, .openParen, .closeParen, .openBrace] ∧
      kindsOf closing = [.closeBrace, .eof] ∧
      Sequence DeclarationTree declared whole.declarations ∧
      Sequence StatementTree stated whole.statements ∧
      Mentions declared (whole.varDecls.map VarDecl.name) ∧ Mentions stated whole.names := by
  obtain ⟨header, declarations, statements, footer⟩ := tree
  refine ⟨_, _, _, _, rfl, header, footer, declarations, statements, ?_,
    mentions_statements statements⟩
  have each (piece group) (tree : DeclarationTree piece group) :
      Mentions piece (group.map VarDecl.name) := tree.mentions
  rw [Program.varDecls, List.map_flatten, ← List.flatMap_def]
  exact declarations.mentions each

/-! ### What is reported -/

variable {declarations : List VarDecl}

theorem typeOf?_isNone (declarations : List VarDecl) (name : String) :
    (typeOf? declarations name).isNone = decide (name ∉ declarations.map VarDecl.name) := by
  rw [Bool.eq_iff_iff, Option.isNone_iff_eq_none, typeOf?_eq_none_iff, decide_eq_true_iff]
  constructor
  · intro absent member
    obtain ⟨⟨type, _⟩, within, rfl⟩ := List.mem_map.mp member
    exact absent type within
  · intro absent type within
    exact absent (List.mem_map_of_mem within)

theorem fault_of_mem_declarationErrors (member : error ∈ declarationErrors declarations) :
    error.fault = .multipleDeclaration := by
  induction declarations with
  | nil => cases member
  | cons declaration later ih =>
    rcases List.mem_append.mp member with first | others
    · obtain ⟨other, _, rfl⟩ := List.mem_map.mp first
      rfl
    · exact ih others

private theorem ne_noDeclaration_of_mem_assignmentFaults
    (member : fault ∈ assignmentFaults target value) : fault ≠ .noDeclaration := by
  have cast {value target : BaseType} : Fault.noDeclaration ∉ (castFault? value target).toList := by
    rw [castFault?]
    split <;> simp
  have mixing {target value : Ty} : Fault.noDeclaration ∉ (mixingFault? target value).toList := by
    cases target <;> cases value <;> simp [mixingFault?]
  rintro rfl
  rw [assignmentFaults.eq_def] at member
  split at member
  · cases member
  · exact cast member
  · rcases List.mem_append.mp member with first | second
    · exact cast first
    · exact mixing second
  · exact mixing member

private theorem fault_of_mem_assignmentErrors
    (member : error ∈ assignmentErrors declarations assignments) :
    error.fault ≠ .noDeclaration := by
  obtain ⟨assignment, _, member⟩ := List.mem_flatMap.mp member
  rw [assignmentErrorsOf] at member
  split at member
  · obtain ⟨fault, found, rfl⟩ := List.mem_map.mp member
    exact ne_noDeclaration_of_mem_assignmentFaults found
  · cases member

/-- Only references are reported for not being declared. -/
theorem semanticErrors_filter_noDeclaration (declarations : List VarDecl) (names : List String)
    (assignments : List Assignment) (conditions : List Expr) :
    (semanticErrors declarations names assignments conditions).filter
        (fun error => error.fault = .noDeclaration) =
      (names.filter fun name => name ∉ declarations.map VarDecl.name).map
        (.misuse .noDeclaration) := by
  have duplicates : (declarationErrors declarations).filter
      (fun error => error.fault = .noDeclaration) = [] :=
    List.filter_eq_nil_iff.mpr fun error member => by
      simp [fault_of_mem_declarationErrors member]
  have mismatches : (assignmentErrors declarations assignments).filter
      (fun error => error.fault = .noDeclaration) = [] :=
    List.filter_eq_nil_iff.mpr fun error member => by
      simpa using fault_of_mem_assignmentErrors member
  have comparisons : (conditionErrors conditions).filter
      (fun error => error.fault = .noDeclaration) = [] :=
    List.filter_eq_nil_iff.mpr fun error member => by
      obtain ⟨condition, _, rfl⟩ := List.mem_map.mp member
      simp [SemanticError.fault]
  have references : (referenceErrors declarations names).filter
      (fun error => error.fault = .noDeclaration) = referenceErrors declarations names :=
    List.filter_eq_self.mpr fun error member => by
      obtain ⟨name, _, rfl⟩ := List.mem_map.mp member
      rfl
  rw [semanticErrors, List.filter_append, List.filter_append, List.filter_append, duplicates,
    mismatches, comparisons, references, List.nil_append, List.append_nil, List.append_nil,
    referenceErrors]
  simp only [typeOf?_isNone]

/-- In a text without reports the identifiers are those of the declarations and
then those of the statements. The first are recorded as what is declared, the
others as references, and the references to what is not declared are reported
one by one. -/
theorem references_are_identifiers {source : String} (silent : (parse source).errors = []) :
    ∃ opening declared stated closing,
      tokenize source = opening ++ (declared ++ (stated ++ closing)) ∧
      kindsOf opening = [.intWord, .mainWord, .openParen, .closeParen, .openBrace] ∧
      kindsOf closing = [.closeBrace, .eof] ∧
      Sequence DeclarationTree declared (parse source).program.declarations ∧
      Sequence StatementTree stated (parse source).program.statements ∧
      Mentions declared ((parse source).inventory.declarations.map VarDecl.name) ∧
      Mentions stated (parse source).inventory.identifiers ∧
      Mentions (tokenize source) ((parse source).inventory.declarations.map VarDecl.name ++
        (parse source).inventory.identifiers) ∧
      (check source).diagnostics.filter
          (fun diagnostic => diagnostic.problem.fault? = some .noDeclaration) =
        ((parse source).inventory.identifiers.filter fun name =>
          name ∉ (parse source).inventory.declarations.map VarDecl.name).map fun name =>
            .ofSemantic (.misuse .noDeclaration name) := by
  obtain ⟨opening, declared, stated, closing, tokens, header, footer, declarations, statements,
    names, references⟩ := (parse_silent silent).1.mentions
  rw [← (parse_describes source).declarations] at names
  rw [← parse_identifiers silent] at references
  have noHeader : Mentions opening [] := .none (by simp [header])
  have noFooter : Mentions closing [] := .none (by simp [footer])
  refine ⟨opening, declared, stated, closing, tokens, header, footer, declarations, statements,
    names, references, ?_, ?_⟩
  · have whole := noHeader.append (names.append (references.append noFooter))
    rwa [List.append_nil, List.nil_append, ← tokens] at whole
  · have syntaxSilent : (check source).syntaxDiagnostics = [] := List.map_eq_nil_iff.mpr silent
    have faults : ((fun diagnostic : Diagnostic =>
        decide (diagnostic.problem.fault? = some .noDeclaration)) ∘ .ofSemantic) =
          fun error => decide (error.fault = .noDeclaration) := by
      funext error
      simp [Diagnostic.ofSemantic, Problem.fault?]
    have filtered := semanticErrors_filter_noDeclaration (parse source).inventory.declarations
      (parse source).inventory.identifiers (parse source).inventory.assignments
      (parse source).inventory.conditions
    rw [Report.diagnostics, syntaxSilent, List.nil_append, Report.semanticDiagnostics,
      List.filter_map, faults]
    exact (congrArg _ filtered).trans List.map_map

/-- Names as targets, as an index and in a group behind a sign, and in a condition,
most of them not declared and some of them more than once. -/
theorem undeclared_names_one_by_one :
    let source :=
      "int main() \x7b int a; c = -d[(e + a)]; f[c] = a; if (e < -c) \x7b a = 1; \x7d \x7d"
    (parse source).errors = [] ∧
      Mentions (tokenize source) ["a", "c", "d", "e", "a", "f", "c", "a", "e", "c", "a"] ∧
      (check source).diagnostics.filter
          (fun diagnostic => diagnostic.problem.fault? = some .noDeclaration) =
        ["c", "d", "e", "f", "c", "e", "c"].map fun name =>
          .ofSemantic (.misuse .noDeclaration name) := by
  intro source
  have silent : (parse source).errors = [] := by decide +kernel
  have declared : (parse source).inventory.declarations.map VarDecl.name = ["a"] := by
    decide +kernel
  have referred : (parse source).inventory.identifiers =
      ["c", "d", "e", "a", "f", "c", "a", "e", "c", "a"] := by decide +kernel
  obtain ⟨_, _, _, _, _, _, _, _, _, _, _, names, reported⟩ := references_are_identifiers silent
  rw [declared, referred] at names reported
  exact ⟨silent, names, reported⟩

end ToyC
