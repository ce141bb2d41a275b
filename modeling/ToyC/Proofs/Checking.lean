import ToyC.Report
import ToyC.Proofs.ListsOfTree

/-! Which programs are checked without an error. The checks run over flat lists;
here the rules are said of the tree, and the two agree for every text. -/
namespace ToyC

/-- A variable of type `target` may be assigned one of type `source`: both are
scalars of one type, or both are arrays, of whatever types. -/
def Ty.Takes (target source : Ty) : Prop :=
  (∃ base, target = .scalar base ∧ source = .scalar base) ∨ (target.isArray ∧ source.isArray)

/-- A constant, and its base type. -/
inductive Expr.IsConstant : Expr → BaseType → Prop
  | int (value : Int32) : IsConstant (.int value) .int
  | float (value : Binary32) : IsConstant (.float value) .float
  | char (value : Char) : IsConstant (.char value) .char
  | boolean (value : Bool) : IsConstant (.boolean value) .boolean

/-- The operators that compare values. -/
def comparisons : List BinaryOp := [.equal, .notEqual, .less, .lessEqual, .greater, .greaterEqual]

namespace Program

/-- The program declares a variable with this type and name. -/
def Declares (program : Program) (type : Ty) (name : String) : Prop :=
  ⟨type, name⟩ ∈ program.varDecls

/-- The rules that a program is checked for. Assignments to array elements are
among its assignments, with the array as their target. -/
structure WellTyped (program : Program) : Prop where
  distinct : (program.varDecls.map VarDecl.name).Nodup
  declared : ∀ name ∈ program.names, ∃ type, program.Declares type name
  constants : ∀ assignment ∈ program.assignments, ∀ base,
    assignment.value.IsConstant base →
      ∃ type, program.Declares type assignment.target ∧ type.base? = some base
  references : ∀ assignment ∈ program.assignments, ∀ source,
    assignment.value = .identifier source →
      ∃ targetType sourceType, program.Declares targetType assignment.target ∧
        program.Declares sourceType source ∧ targetType.Takes sourceType
  conditions : ∀ condition ∈ program.conditions, ∀ operator left right,
    condition = .binary operator left right → operator ∉ comparisons

end Program

/-! ### The checker's tables -/

theorem Expr.literalType?_eq_some_iff {expr : Expr} :
    expr.literalType? = some base ↔ expr.IsConstant base := by
  constructor
  · intro found
    cases expr <;> cases found <;> constructor
  · rintro (_ | _ | _ | _) <;> rfl

theorem isComparison_eq_false_iff {operator : BinaryOp} :
    operator.isComparison = false ↔ operator ∉ comparisons := by
  cases operator <;> decide

variable {declarations : List VarDecl}

/-! ### Declarations, references and conditions -/

theorem declarationErrors_eq_nil_iff (declarations : List VarDecl) :
    declarationErrors declarations = [] ↔ (declarations.map VarDecl.name).Nodup := by
  induction declarations with
  | nil => simp [declarationErrors]
  | cons declaration later ih =>
    rw [declarationErrors, List.append_eq_nil_iff, ih, List.map_cons, List.nodup_cons,
      List.map_eq_nil_iff, List.filter_eq_nil_iff]
    simp

theorem typeOf?_eq_none_iff : typeOf? declarations name = none ↔
    ∀ type, ⟨type, name⟩ ∉ declarations := by
  simp only [typeOf?, Option.map_eq_none_iff, List.find?_eq_none, beq_iff_eq]
  constructor
  · intro absent type member
    exact absent _ member rfl
  · rintro absent ⟨type, _⟩ member rfl
    exact absent type member

/-- Of a name that is declared once, that declaration gives the type. -/
theorem typeOf?_eq_some_iff (distinct : (declarations.map VarDecl.name).Nodup) :
    typeOf? declarations name = some type ↔ ⟨type, name⟩ ∈ declarations := by
  induction declarations with
  | nil => simp [typeOf?]
  | cons declaration later ih =>
    obtain ⟨declaredType, declaredName⟩ := declaration
    rw [List.map_cons, List.nodup_cons] at distinct
    obtain ⟨fresh, distinct⟩ := distinct
    by_cases same : declaredName = name
    · subst same
      have absent : ⟨type, declaredName⟩ ∉ later := fun member =>
        fresh (List.mem_map.mpr ⟨_, member, rfl⟩)
      simp [typeOf?, absent, eq_comm]
    · have step : typeOf? (⟨declaredType, declaredName⟩ :: later) name = typeOf? later name := by
        simp [typeOf?, same]
      rw [step, ih distinct]
      simp [Ne.symm same]

theorem referenceErrors_eq_nil_iff (names : List String) :
    referenceErrors declarations names = [] ↔
      ∀ name ∈ names, ∃ type, ⟨type, name⟩ ∈ declarations := by
  simp [referenceErrors, typeOf?_eq_none_iff]

theorem conditionErrors_eq_nil_iff (conditions : List Expr) :
    conditionErrors conditions = [] ↔ ∀ condition ∈ conditions, ∀ operator left right,
      condition = .binary operator left right → operator ∉ comparisons := by
  rw [conditionErrors, List.map_eq_nil_iff, List.filter_eq_nil_iff]
  refine forall₂_congr fun condition _ => ?_
  cases condition <;> simp [isInvalidCondition, isComparison_eq_false_iff]

/-! ### Assignments -/

theorem castFault?_eq_none_iff : castFault? value target = none ↔ value = target := by
  simp [castFault?]

/-- A constant is compared with the base type of its target. -/
theorem assignmentFaults_constant_eq_nil_iff {target : Ty} (known : target.base?.isSome) :
    assignmentFaults target (.constant base) = [] ↔ target.base? = some base := by
  obtain ⟨expected, found⟩ := Option.isSome_iff_exists.mp known
  simp only [assignmentFaults, found, Option.toList_eq_nil_iff, castFault?_eq_none_iff,
    Option.some.injEq]
  exact eq_comm

/-- The base types of two arrays are not compared. -/
theorem assignmentFaults_reference_eq_nil_iff {target source : Ty} (known : target.base?.isSome)
    (sourceKnown : source.base?.isSome) :
    assignmentFaults target (.reference source) = [] ↔ target.Takes source := by
  cases target <;> cases source <;>
    simp_all [assignmentFaults, Ty.base?, castFault?_eq_none_iff, mixingFault?, Ty.Takes,
      Ty.isArray]

/-- What an assignment must keep to if names have one declaration each. -/
theorem assignmentErrorsOf_eq_nil_iff {assignment : Assignment}
    (distinct : (declarations.map VarDecl.name).Nodup)
    (known : ∀ declaration ∈ declarations, declaration.type.base?.isSome)
    (declared : ∀ name ∈ assignment.target :: assignment.value.names,
      ∃ type, ⟨type, name⟩ ∈ declarations) :
    assignmentErrorsOf declarations assignment = [] ↔
      (∀ base, assignment.value.IsConstant base →
        ∃ type, ⟨type, assignment.target⟩ ∈ declarations ∧ type.base? = some base) ∧
      ∀ source, assignment.value = .identifier source →
        ∃ targetType sourceType, ⟨targetType, assignment.target⟩ ∈ declarations ∧
          ⟨sourceType, source⟩ ∈ declarations ∧ targetType.Takes sourceType := by
  obtain ⟨target, value⟩ := assignment
  have known {type : Ty} {name : String} (found : typeOf? declarations name = some type) :
      type.base?.isSome := known _ ((typeOf?_eq_some_iff distinct).mp found)
  simp only [← typeOf?_eq_some_iff distinct, ← Expr.literalType?_eq_some_iff] at declared ⊢
  obtain ⟨targetDeclared, valueDeclared⟩ := List.forall_mem_cons.mp declared
  obtain ⟨targetType, found⟩ := targetDeclared
  cases value with
  | identifier source =>
    obtain ⟨sourceType, sourceFound⟩ := valueDeclared source (List.mem_singleton_self source)
    have faults := assignmentFaults_reference_eq_nil_iff (known found) (known sourceFound)
    simp [assignmentErrorsOf, assignedValue?, Expr.literalType?, found, sourceFound, faults]
  | int | float | char | boolean =>
    have faults (base) : assignmentFaults targetType (.constant base) = [] ↔ _ :=
      assignmentFaults_constant_eq_nil_iff (known found)
    simp [assignmentErrorsOf, assignedValue?, Expr.literalType?, found, faults]
  | not | negate | binary | arrayLookup | arrayLength | newArray | error =>
    simp [assignmentErrorsOf, assignedValue?, Expr.literalType?]

/-! ### Programs -/

namespace Program

variable {program : Program}

/-- The names in an assignment are among those in the program. -/
theorem names_of_mem_assignments (member : assignment ∈ program.assignments) :
    ∀ name ∈ assignment.target :: assignment.value.names, name ∈ program.names := by
  obtain ⟨stmt, within, assigns⟩ := List.mem_filterMap.mp member
  intro name occurs
  refine List.mem_flatMap.mpr ⟨stmt, within, ?_⟩
  cases stmt <;> cases assigns
  · exact occurs
  · rw [Stmt.ownNames]
    grind

/-- The checks of the lists of a program find nothing if it keeps to the rules. -/
theorem semanticErrors_eq_nil_iff
    (known : ∀ declaration ∈ program.varDecls, declaration.type.base?.isSome) :
    semanticErrors program.varDecls program.names program.assignments program.conditions = [] ↔
      program.WellTyped := by
  simp only [semanticErrors, List.append_eq_nil_iff, declarationErrors_eq_nil_iff,
    referenceErrors_eq_nil_iff, conditionErrors_eq_nil_iff, assignmentErrors,
    List.flatMap_eq_nil_iff]
  constructor
  · rintro ⟨⟨⟨distinct, declared⟩, allowed⟩, conditions⟩
    have allowed (assignment) (member : assignment ∈ program.assignments) :=
      (assignmentErrorsOf_eq_nil_iff distinct known fun name occurs =>
        declared name (names_of_mem_assignments member name occurs)).mp (allowed assignment member)
    exact ⟨distinct, declared, fun assignment member => (allowed assignment member).1,
      fun assignment member => (allowed assignment member).2, conditions⟩
  · rintro ⟨distinct, declared, constants, references, conditions⟩
    refine ⟨⟨⟨distinct, declared⟩, fun assignment member => ?_⟩, conditions⟩
    exact (assignmentErrorsOf_eq_nil_iff distinct known fun name occurs =>
      declared name (names_of_mem_assignments member name occurs)).mpr
        ⟨constants assignment member, references assignment member⟩

end Program

/-! ### Whole texts -/

/-- Without syntax errors, the semantic errors are those of the tree. -/
theorem check_semantic_eq_nil_iff {source : String} (silent : (parse source).errors = []) :
    (check source).semantic = [] ↔ (parse source).program.WellTyped := by
  have describes := parse_describes source
  rw [← Program.semanticErrors_eq_nil_iff (parse_silent silent).1.known,
    ← describes.declarations, ← describes.assignments, ← describes.conditions,
    ← parse_identifiers silent]
  rfl

theorem Report.isClean_iff (report : Report) : report.isClean ↔
    report.parsed.lexicalErrors = 0 ∧ report.parsed.errors = [] ∧ report.semantic = [] := by
  simp [isClean, totalErrors, and_assoc]

/-- A text is checked without an error exactly if it is a program that keeps to
the rules. Unknown tokens need no mention: no program has any. -/
theorem check_isClean_iff (source : String) : (check source).isClean ↔
    (parse source).errors = [] ∧ (parse source).program.WellTyped := by
  rw [Report.isClean_iff]
  constructor
  · rintro ⟨_, silent, semantic⟩
    exact ⟨silent, (check_semantic_eq_nil_iff silent).mp semantic⟩
  · rintro ⟨silent, typed⟩
    exact ⟨(parse_silent silent).2, silent, (check_semantic_eq_nil_iff silent).mpr typed⟩

/-- Where one variable is assigned to another without an error, both are
declared, as scalars of one type or both as arrays. -/
theorem takes_of_check_isClean {source : String} (clean : (check source).isClean)
    (member : .assign target (.identifier value) ∈ (parse source).program.nodes) :
    ∃ targetType valueType, (parse source).program.Declares targetType target ∧
      (parse source).program.Declares valueType value ∧ targetType.Takes valueType := by
  obtain ⟨_, silent, semantic⟩ := (Report.isClean_iff _).mp clean
  have typed := (check_semantic_eq_nil_iff silent).mp semantic
  exact typed.references ⟨target, .identifier value⟩ (List.mem_filterMap.mpr ⟨_, member, rfl⟩)
    value rfl

theorem takes_in_loop :
    let source := "int main() \x7b float a, b; while (true) \x7b a = b; \x7d \x7d"
    (check source).isClean ∧
      .assign "a" (.identifier "b") ∈ (parse source).program.nodes ∧
      ∃ targetType valueType, (parse source).program.Declares targetType "a" ∧
        (parse source).program.Declares valueType "b" ∧ targetType.Takes valueType := by
  intro source
  have clean : (check source).isClean := by decide +kernel
  have member : .assign "a" (.identifier "b") ∈ (parse source).program.nodes := by decide +kernel
  exact ⟨clean, member, takes_of_check_isClean clean member⟩

/-- The types need not be equal: any array may be assigned to any other. -/
theorem arrays_of_two_types :
    let source := "int main() \x7b int[3] a; float[3] b; a = b; \x7d"
    (check source).isClean ∧
      .assign "a" (.identifier "b") ∈ (parse source).program.nodes ∧
      ¬∃ type, (parse source).program.Declares type "a" ∧
        (parse source).program.Declares type "b" := by
  intro source
  have declared : (parse source).program.varDecls =
      [⟨.array .int, "a"⟩, ⟨.array .float, "b"⟩] := by decide +kernel
  refine ⟨by decide +kernel, by decide +kernel, ?_⟩
  rintro ⟨type, first, second⟩
  rw [Program.Declares, declared] at first second
  simp_all

end ToyC
