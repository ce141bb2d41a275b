import ToyC.Proofs.Acceptance
import ToyC.Proofs.Spelling

/-! Trees that were read are legible: what stands in a tree was cut off a text.
Numbers with a point are left out, for they are printed with other digits than
they were written with. -/
namespace ToyC

/-- Tokens of a text, none of them a number with a point. -/
def Legible (tokens : List Token) : Prop :=
  ∀ token ∈ tokens, (token.kind ≠ .eof → token.content.isLegible) ∧ token.kind ≠ .floatConst

namespace Legible

@[simp] theorem cons_iff : Legible (token :: tokens) ↔
    ((token.kind ≠ .eof → token.content.isLegible) ∧ token.kind ≠ .floatConst) ∧ Legible tokens :=
  List.forall_mem_cons

@[simp] theorem append_iff : Legible (first ++ second) ↔ Legible first ∧ Legible second :=
  List.forall_mem_append

theorem named (legible : Legible (token :: tokens)) (names : token.Names name) : isName name := by
  have content : token.content = .name name := by rw [Token.content, names.1, names.2, Content.name]
  have present : token.kind ≠ .eof := by simp [names.1]
  have whole := (cons_iff.mp legible).1.1 present
  rwa [content] at whole

end Legible

/-! ### Expressions -/

private theorem ConstantTree.isLegible (value : ConstantTree literal tree)
    (legible : Content.isLegible ⟨kind, some literal⟩) (noPoint : kind ≠ .floatConst) :
    tree.isLegible := by
  cases value with
  | int => cases kind <;> first | exact legible | cases legible
  | char => cases kind <;> first | exact legible | cases legible
  | boolean => rfl
  | float => cases kind <;> first | exact absurd rfl noPoint | cases legible

private theorem Grouped.isLegible (grouped : Grouped first others tree)
    (whole : first.isLegible) (each : ∀ entry ∈ others, entry.2.isLegible) : tree.isLegible := by
  induction grouped with
  | single => exact whole
  | split _ _ _ _ leftIH rightIH =>
    obtain ⟨before, behind⟩ := List.forall_mem_append.mp each
    obtain ⟨operand, after⟩ := List.forall_mem_cons.mp behind
    rw [Expr.isLegible, Bool.and_eq_true]
    exact ⟨leftIH whole before, rightIH operand after⟩

private theorem isLegible_lookups {tree : Expr} {trees : List Expr} (whole : tree.isLegible)
    (each : ∀ index ∈ trees, index.isLegible) : (trees.foldl .arrayLookup tree).isLegible := by
  induction trees generalizing tree with
  | nil => exact whole
  | cons index trees ih =>
    obtain ⟨first, others⟩ := List.forall_mem_cons.mp each
    refine ih ?_ others
    simp [Expr.isLegible, whole, first]

mutual
theorem ClosedTree.isLegible : ClosedTree tokens tree → Legible tokens → tree.isLegible
  | .constant constant carries value, legible => by
    obtain ⟨⟨content, noPoint⟩, _⟩ := Legible.cons_iff.mp legible
    rw [Token.content, carries] at content
    refine value.isLegible (content fun eof => ?_) noPoint
    rw [eof] at constant
    cases constant
  | .name names, legible => legible.named names
  | .group _ inside _, legible => inside.isLegible (by simp_all)
theorem IndicesTree.isLegible :
    IndicesTree tokens trees → Legible tokens → ∀ tree ∈ trees, tree.isLegible
  | .nil, _ => List.forall_mem_nil _
  | .cons _ inside _ others, legible => List.forall_mem_cons.mpr
    ⟨inside.isLegible (by simp_all), others.isLegible (by simp_all)⟩
theorem OperandTree.isLegible : OperandTree tokens tree → Legible tokens → tree.isLegible
  | .operand base indices, legible => by
    rw [Legible.append_iff] at legible
    exact isLegible_lookups (base.isLegible legible.1) (indices.isLegible legible.2)
theorem TailTree.isLegible :
    TailTree tokens entries → Legible tokens → ∀ entry ∈ entries, entry.2.isLegible
  | .nil, _ => List.forall_mem_nil _
  | .cons _ operand others, legible => List.forall_mem_cons.mpr
    ⟨operand.isLegible (by simp_all), others.isLegible (by simp_all)⟩
  | .signed _ _ operand, legible => List.forall_mem_singleton.mpr
    (operand.isLegible (Legible.cons_iff.mp legible).2)
theorem ExprTree.isLegible : ExprTree tokens tree → Legible tokens → tree.isLegible
  | .not _ operand, legible | .negate _ operand, legible =>
    operand.isLegible (Legible.cons_iff.mp legible).2
  | .flat first others grouped, legible => by
    rw [Legible.append_iff] at legible
    exact grouped.isLegible (first.isLegible legible.1) (others.isLegible legible.2)
end

/-! ### Statements, declarations, programs -/

mutual
theorem StatementTree.isLegible : StatementTree tokens stmt → Legible tokens → stmt.isLegible
  | .block _ body _, legible => allLegible_of_statements body (by simp_all)
  | .ifThen _ _ condition _ thenBody, legible => by
    simp only [Legible.cons_iff, Legible.append_iff] at legible
    obtain ⟨_, _, conditionLegible, _, thenLegible⟩ := legible
    rw [Stmt.isLegible, Bool.and_eq_true]
    exact ⟨condition.isLegible conditionLegible, thenBody.isLegible thenLegible⟩
  | .ifThenElse _ _ condition _ thenBody nearest _ elseBody, legible => by
    simp only [Legible.cons_iff, Legible.append_iff] at legible
    obtain ⟨_, _, conditionLegible, _, thenLegible, _, elseLegible⟩ := legible
    simp only [Stmt.isLegible, Bool.and_eq_true, Bool.not_eq_true']
    exact ⟨⟨⟨condition.isLegible conditionLegible, thenBody.isLegible thenLegible⟩, nearest⟩,
      elseBody.isLegible elseLegible⟩
  | .whileDo _ _ condition _ body, legible => by
    simp only [Legible.cons_iff, Legible.append_iff] at legible
    obtain ⟨_, _, conditionLegible, _, bodyLegible⟩ := legible
    rw [Stmt.isLegible, Bool.and_eq_true]
    exact ⟨condition.isLegible conditionLegible, body.isLegible bodyLegible⟩
  | .assign target _ value _, legible => by
    rw [Stmt.isLegible, Bool.and_eq_true]
    exact ⟨legible.named target, value.isLegible (by simp_all)⟩
  | .arrayAssign target _ index _ _ value _, legible => by
    simp only [Stmt.isLegible, Bool.and_eq_true]
    exact ⟨⟨legible.named target, index.isLegible (by simp_all)⟩, value.isLegible (by simp_all)⟩
theorem allLegible_of_statements :
    Sequence StatementTree tokens stmts → Legible tokens → Stmt.allLegible stmts
  | .nil, _ => rfl
  | .cons first others, legible => by
    rw [Legible.append_iff] at legible
    rw [Stmt.allLegible, Bool.and_eq_true]
    exact ⟨first.isLegible legible.1, allLegible_of_statements others legible.2⟩
end

private theorem named_of_further (further : Sequence FurtherNameTree tokens names)
    (legible : Legible tokens) : ∀ name ∈ names, isName name := by
  induction further with
  | nil => exact List.forall_mem_nil _
  | cons first _ ih =>
    rw [Legible.append_iff] at legible
    obtain ⟨_, named⟩ := first
    exact List.forall_mem_cons.mpr
      ⟨(Legible.cons_iff.mp legible.1).2.named named, ih legible.2⟩

theorem DeclarationTree.isLegible (tree : DeclarationTree tokens group)
    (legible : Legible tokens) : isLegibleGroup group := by
  obtain ⟨type, first, further, _⟩ := tree
  rw [Legible.append_iff] at legible
  have named := List.forall_mem_cons (p := (isName ·)).mpr
    ⟨legible.2.named first, named_of_further further (by simp_all)⟩
  rw [List.map_cons, isLegibleGroup, ← List.map_cons, Bool.and_eq_true, List.all_map,
    List.all_eq_true]
  exact ⟨type.known, fun name member => by simp [named name member]⟩

private theorem declarations_isLegible (declarations : Sequence DeclarationTree tokens groups)
    (legible : Legible tokens) : groups.all isLegibleGroup := by
  induction declarations with
  | nil => rfl
  | cons first _ ih =>
    rw [Legible.append_iff] at legible
    rw [List.all_cons, Bool.and_eq_true]
    exact ⟨first.isLegible legible.1, ih legible.2⟩

theorem ProgramTree.isLegible (tree : ProgramTree tokens whole) (legible : Legible tokens) :
    whole.isLegible := by
  obtain ⟨_, declarations, statements, _⟩ := tree
  simp only [Legible.append_iff] at legible
  obtain ⟨_, declared, stated, _⟩ := legible
  rw [Program.isLegible, Bool.and_eq_true]
  exact ⟨declarations_isLegible declarations declared, allLegible_of_statements statements stated⟩

/-! ### Whole texts -/

theorem tokenize_legible {source : String} (noPoint : .floatConst ∉ kindsOf (tokenize source)) :
    Legible (tokenize source) := by
  intro token member
  refine ⟨fun present => ?_, fun point => noPoint (point ▸ List.mem_map_of_mem member)⟩
  rw [tokenize, TokenStream.toList, List.mem_append, List.mem_singleton] at member
  rcases member with cut | rfl
  · exact scan_isLegible source token cut
  · exact absurd rfl present

theorem parse_isLegible {source : String} (silent : (parse source).errors = [])
    (noPoint : .floatConst ∉ kindsOf (tokenize source)) : (parse source).program.isLegible :=
  (parse_silent silent).1.isLegible (tokenize_legible noPoint)

end ToyC
