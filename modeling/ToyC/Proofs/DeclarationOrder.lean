import Mathlib.Data.Nat.Choose.Basic
import ToyC.Proofs.Checking

/-! Declarations in any order. A name that is declared more than once is
reported once for each pair of its declarations, so the reports only depend on
how often each name is declared. If no name is declared twice, the type of a
name does not depend on the order either, and so neither do the reports on
references and assignments. -/
namespace ToyC

/-- How often a name is declared. -/
def declaredTimes (declarations : List VarDecl) (name : String) : Nat :=
  (declarations.map VarDecl.name).count name

variable {declarations others : List VarDecl}

theorem declaredTimes_cons (declaration : VarDecl) (later : List VarDecl) (name : String) :
    declaredTimes (declaration :: later) name =
      declaredTimes later name + if declaration.name = name then 1 else 0 := by
  simp [declaredTimes, List.count_cons]

theorem declaredTimes_eq_of_perm (perm : declarations.Perm others) (name : String) :
    declaredTimes declarations name = declaredTimes others name :=
  (perm.map VarDecl.name).count_eq name

/-! ### Pairs of declarations -/

/-- A declaration is reported with each later one of its name. -/
theorem declarationErrors_cons (declaration : VarDecl) (later : List VarDecl) :
    declarationErrors (declaration :: later) =
      List.replicate (declaredTimes later declaration.name)
        (.misuse .multipleDeclaration declaration.name) ++ declarationErrors later := by
  rw [declarationErrors]
  congr 1
  apply List.eq_replicate_iff.mpr
  constructor
  · rw [List.length_map, declaredTimes, List.count, List.countP_map, List.countP_eq_length_filter]
    rfl
  · intro error member
    obtain ⟨other, found, rfl⟩ := List.mem_map.mp member
    have same := (List.mem_filter.mp found).2
    rw [eq_of_beq same]

/-- Nothing else is reported on declarations. -/
theorem multipleDeclaration_of_mem (member : error ∈ declarationErrors declarations) :
    ∃ name, error = .misuse .multipleDeclaration name := by
  induction declarations with
  | nil => cases member
  | cons declaration later ih =>
    rw [declarationErrors_cons] at member
    rcases List.mem_append.mp member with first | second
    · exact ⟨declaration.name, List.eq_of_mem_replicate first⟩
    · exact ih second

/-- A further declaration of a name makes a pair with each of those before. -/
theorem count_declarationErrors (declarations : List VarDecl) (name : String) :
    (declarationErrors declarations).count (.misuse .multipleDeclaration name) =
      (declaredTimes declarations name).choose 2 := by
  induction declarations with
  | nil => rfl
  | cons declaration later ih =>
    rw [declarationErrors_cons, List.count_append, ih, List.count_replicate, declaredTimes_cons]
    by_cases same : declaration.name = name
    · simp [same, Nat.choose_succ_succ']
    · simp [same]

/-- The reports on declarations are the same in another order of these. -/
theorem declarationErrors_perm (perm : declarations.Perm others) :
    (declarationErrors declarations).Perm (declarationErrors others) := by
  apply List.perm_iff_count.mpr
  intro error
  by_cases redeclares : ∃ name, error = .misuse .multipleDeclaration name
  · obtain ⟨name, rfl⟩ := redeclares
    rw [count_declarationErrors, count_declarationErrors, declaredTimes_eq_of_perm perm]
  · rw [List.count_eq_zero_of_not_mem (mt multipleDeclaration_of_mem redeclares),
      List.count_eq_zero_of_not_mem (mt multipleDeclaration_of_mem redeclares)]

/-! ### Names that are declared once -/

/-- The first declaration of a name is the only one. -/
theorem typeOf?_eq_of_perm (distinct : (declarations.map VarDecl.name).Nodup)
    (perm : declarations.Perm others) : typeOf? declarations = typeOf? others := by
  have distinct' := (perm.map VarDecl.name).nodup_iff.mp distinct
  funext name
  apply Option.ext
  intro type
  rw [typeOf?_eq_some_iff distinct, typeOf?_eq_some_iff distinct', perm.mem_iff]

/-- References are looked up, and nothing else is asked of the declarations. -/
theorem referenceErrors_congr (same : typeOf? declarations = typeOf? others)
    (names : List String) : referenceErrors declarations names = referenceErrors others names := by
  rw [referenceErrors, referenceErrors, same]

/-- So are both sides of an assignment. -/
theorem assignmentErrors_congr (same : typeOf? declarations = typeOf? others)
    (assignments : List Assignment) :
    assignmentErrors declarations assignments = assignmentErrors others assignments := by
  have value (expr : Expr) : assignedValue? declarations expr = assignedValue? others expr := by
    cases expr <;> simp only [assignedValue?, same]
  unfold assignmentErrors
  congr 1
  funext assignment
  rw [assignmentErrorsOf, assignmentErrorsOf, same, value]

/-- A name that is declared `k` times is reported `k * (k - 1) / 2` times, and
nothing else is reported on declarations: nothing at all exactly if all names
are distinct. In another order the same is reported on declarations, and if all
names are distinct, the very same on references and on assignments. -/
theorem redeclarations_by_pairs (declarations : List VarDecl) :
    (∀ name, (declarationErrors declarations).count (.misuse .multipleDeclaration name) =
      declaredTimes declarations name * (declaredTimes declarations name - 1) / 2) ∧
    (∀ error ∈ declarationErrors declarations, ∃ name,
      error = .misuse .multipleDeclaration name) ∧
    (declarationErrors declarations = [] ↔ (declarations.map VarDecl.name).Nodup) ∧
    ∀ others : List VarDecl, declarations.Perm others →
      (declarationErrors declarations).Perm (declarationErrors others) ∧
      ((declarations.map VarDecl.name).Nodup → ∀ names assignments,
        referenceErrors declarations names = referenceErrors others names ∧
        assignmentErrors declarations assignments = assignmentErrors others assignments) := by
  refine ⟨fun name => ?_, fun error member => multipleDeclaration_of_mem member,
    declarationErrors_eq_nil_iff declarations, fun others perm => ?_⟩
  · rw [count_declarationErrors, Nat.choose_two_right]
  · refine ⟨declarationErrors_perm perm, fun distinct names assignments => ?_⟩
    have same := typeOf?_eq_of_perm distinct perm
    exact ⟨referenceErrors_congr same names, assignmentErrors_congr same assignments⟩

/-- One name is declared three times, another one twice; then each is declared
once. -/
theorem declared_in_two_orders :
    let declared (base : BaseType) (name : String) : VarDecl := ⟨.scalar base, name⟩
    let repeated := [declared .int "a", declared .int "b", declared .char "a",
      declared .float "b", declared .int "a"]
    let distinct := [declared .int "a", ⟨.array .float, "b"⟩]
    let assignments : List Assignment := [⟨"b", .identifier "a"⟩, ⟨"a", .boolean true⟩]
    repeated.Perm repeated.reverse ∧
      (declarationErrors repeated).count (.misuse .multipleDeclaration "a") = 3 ∧
      (declarationErrors repeated).Perm (declarationErrors repeated.reverse) ∧
      distinct.Perm distinct.reverse ∧ (distinct.map VarDecl.name).Nodup ∧
      referenceErrors distinct ["b", "c"] = referenceErrors distinct.reverse ["b", "c"] ∧
      assignmentErrors distinct assignments = assignmentErrors distinct.reverse assignments := by
  intro declared repeated distinct assignments
  have perm : repeated.Perm repeated.reverse := repeated.reverse_perm.symm
  have perm' : distinct.Perm distinct.reverse := distinct.reverse_perm.symm
  have thrice : declaredTimes repeated "a" = 3 := by decide
  have once : (distinct.map VarDecl.name).Nodup := by decide
  obtain ⟨counted, _, _, ordered⟩ := redeclarations_by_pairs repeated
  have same := ((redeclarations_by_pairs distinct).2.2.2 _ perm').2 once ["b", "c"] assignments
  exact ⟨perm, by rw [counted, thrice], (ordered _ perm).1, perm', once, same⟩

end ToyC
