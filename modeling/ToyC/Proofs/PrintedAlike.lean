import ToyC.Proofs.Legibility
import ToyC.Proofs.PrintedProgram
import ToyC.Proofs.SpelledOnce

/-! Programs that are printed alike. A statement is told by its spelling if no
`else` follows that it could take, so two programs that were read have the same
text only if they differ in nothing but where the signs of indexed arrays
stand. -/
namespace ToyC

/-- What follows does not start with `else`. -/
def NoElse (rest : List Content) : Prop := ∀ content ∈ rest.head?, content.kind ≠ .elseWord

namespace NoElse

theorem cons (other : kind ≠ .elseWord) : NoElse (⟨kind, literal⟩ :: rest) := by
  rintro _ ⟨⟩
  exact other

theorem not_else : ¬NoElse (⟨.elseWord, literal⟩ :: rest) := fun none => none _ rfl rfl

end NoElse

private theorem absurd_head {goal : Prop} {first first' : Content}
    (same : first :: more = first' :: more') (other : first.kind ≠ first'.kind) : goal :=
  absurd (congrArg Content.kind (List.cons.inj same).1) other

namespace Stmt

/-! ### Parts of statements -/

private theorem head_once {condition condition' : Expr} (legible : condition.isLegible)
    (legible' : condition'.isLegible)
    (same : headSpelling keyword condition ++ rest = headSpelling keyword condition' ++ rest') :
    condition.signsFirst = condition'.signsFirst ∧ rest = rest' := by
  simp only [headSpelling, inParens, List.cons_append, List.append_assoc] at same
  exact Expr.signsFirst_eq_of_conditionSpelling legible legible'
    (List.cons.inj (List.cons.inj same).2).2

private theorem value_once {value value' : Expr} (legible : value.isLegible)
    (legible' : value'.isLegible)
    (same : valueSpelling value ++ rest = valueSpelling value' ++ rest') :
    value.signsFirst = value'.signsFirst ∧ rest = rest' := by
  simp only [valueSpelling, List.cons_append, List.append_assoc] at same
  obtain ⟨whole, behind⟩ := Expr.signsFirst_eq_of_spelling legible legible' (.cons (by decide))
    (.cons (by decide)) (List.cons.inj same).2
  exact ⟨whole, (List.cons.inj behind).2⟩

/-- A statement starts with a word, a name or a brace. -/
private theorem spelling_head {stmt : Stmt} (legible : stmt.isLegible) :
    ∃ first more, stmt.spelling = first :: more ∧ first.kind ≠ .closeBrace ∧
      first.kind ≠ .elseWord ∧ isTypeWord first.kind = false := by
  cases stmt with
  | error => simp [isLegible] at legible
  | _ => exact ⟨_, _, rfl, nofun, nofun, rfl⟩

private theorem allSpelling_head {stmts : List Stmt} (legible : allLegible stmts)
    (rest : List Content) :
    ∃ first more, allSpelling stmts ++ ⟨.closeBrace, none⟩ :: rest = first :: more ∧
      first.kind ≠ .elseWord ∧ isTypeWord first.kind = false := by
  cases stmts with
  | nil => exact ⟨_, _, rfl, nofun, rfl⟩
  | cons stmt stmts =>
    rw [allLegible, Bool.and_eq_true] at legible
    obtain ⟨first, more, spelled, _, noElse, noType⟩ := spelling_head legible.1
    refine ⟨first, more ++ (allSpelling stmts ++ ⟨.closeBrace, none⟩ :: rest), ?_, noElse, noType⟩
    simp [allSpelling, spelled]

private theorem noElse_allSpelling {stmts : List Stmt} (legible : allLegible stmts) :
    NoElse (allSpelling stmts ++ ⟨.closeBrace, none⟩ :: rest) := by
  obtain ⟨first, more, spelled, noElse, _⟩ := allSpelling_head legible rest
  rw [spelled]
  exact .cons noElse

/-! ### Statements -/

mutual
/-- Two statements that are spelled alike differ at most in where signs stand. -/
theorem signsFirst_eq_of_spelling {rest rest' : List Content} : (stmt other : Stmt) →
    stmt.isLegible → other.isLegible → (stmt.endsWithoutElse → NoElse rest) →
    (other.endsWithoutElse → NoElse rest') → stmt.spelling ++ rest = other.spelling ++ rest' →
    stmt.signsFirst = other.signsFirst ∧ rest = rest'
  | block body, other, legible, legible', _, _, same => by
    cases other with
    | block body' =>
      simp only [spelling, List.cons_append, List.append_assoc] at same
      obtain ⟨whole, tail⟩ := allSignsFirst_eq_of_spelling body body' legible legible'
        (List.cons.inj same).2
      exact ⟨by rw [signsFirst, whole, signsFirst], tail⟩
    | error => cases legible'
    | _ => exact absurd_head same nofun
  | ifThen condition thenBody, other, legible, legible', closes, closes', same => by
    rw [isLegible, Bool.and_eq_true] at legible
    cases other with
    | ifThen condition' thenBody' =>
      rw [isLegible, Bool.and_eq_true] at legible'
      simp only [spelling, List.append_assoc] at same
      obtain ⟨whole, behind⟩ := head_once legible.1 legible'.1 same
      obtain ⟨body, tail⟩ := signsFirst_eq_of_spelling thenBody thenBody' legible.2 legible'.2
        (fun _ => closes rfl) (fun _ => closes' rfl) behind
      exact ⟨by rw [signsFirst, whole, body, signsFirst], tail⟩
    | ifThenElse condition' thenBody' elseBody' =>
      simp only [isLegible, Bool.and_eq_true, Bool.not_eq_true'] at legible'
      obtain ⟨⟨⟨conditionLegible', thenLegible'⟩, nearest'⟩, _⟩ := legible'
      simp only [spelling, List.append_assoc, List.cons_append] at same
      obtain ⟨_, behind⟩ := head_once legible.1 conditionLegible' same
      obtain ⟨_, tail⟩ := signsFirst_eq_of_spelling thenBody thenBody' legible.2 thenLegible'
        (fun _ => closes rfl) (fun opened => by simp [nearest'] at opened) behind
      -- The body ends before the `else`, which the whole conditional would have taken.
      exact absurd (tail ▸ closes rfl) NoElse.not_else
    | error => cases legible'
    | _ => exact absurd_head same nofun
  | ifThenElse condition thenBody elseBody, other, legible, legible', closes, closes', same => by
    simp only [isLegible, Bool.and_eq_true, Bool.not_eq_true'] at legible
    obtain ⟨⟨⟨conditionLegible, thenLegible⟩, nearest⟩, elseLegible⟩ := legible
    simp only [spelling, List.append_assoc, List.cons_append] at same
    cases other with
    | ifThen condition' thenBody' =>
      rw [isLegible, Bool.and_eq_true] at legible'
      simp only [spelling, List.append_assoc] at same
      obtain ⟨_, behind⟩ := head_once conditionLegible legible'.1 same
      obtain ⟨_, tail⟩ := signsFirst_eq_of_spelling thenBody thenBody' thenLegible legible'.2
        (fun opened => by simp [nearest] at opened) (fun _ => closes' rfl) behind
      exact absurd (tail ▸ closes' rfl) NoElse.not_else
    | ifThenElse condition' thenBody' elseBody' =>
      simp only [isLegible, Bool.and_eq_true, Bool.not_eq_true'] at legible'
      obtain ⟨⟨⟨conditionLegible', thenLegible'⟩, nearest'⟩, elseLegible'⟩ := legible'
      simp only [spelling, List.append_assoc, List.cons_append] at same
      obtain ⟨whole, behind⟩ := head_once conditionLegible conditionLegible' same
      obtain ⟨first, behind⟩ := signsFirst_eq_of_spelling thenBody thenBody' thenLegible
        thenLegible' (fun opened => by simp [nearest] at opened)
        (fun opened => by simp [nearest'] at opened) behind
      obtain ⟨second, tail⟩ := signsFirst_eq_of_spelling elseBody elseBody' elseLegible
        elseLegible' closes closes' (List.cons.inj behind).2
      exact ⟨by rw [signsFirst, whole, first, second, signsFirst], tail⟩
    | error => cases legible'
    | _ => exact absurd_head same nofun
  | whileDo condition body, other, legible, legible', closes, closes', same => by
    rw [isLegible, Bool.and_eq_true] at legible
    cases other with
    | whileDo condition' body' =>
      rw [isLegible, Bool.and_eq_true] at legible'
      simp only [spelling, List.append_assoc] at same
      obtain ⟨whole, behind⟩ := head_once legible.1 legible'.1 same
      obtain ⟨inside, tail⟩ := signsFirst_eq_of_spelling body body' legible.2 legible'.2 closes
        closes' behind
      exact ⟨by rw [signsFirst, whole, inside, signsFirst], tail⟩
    | error => cases legible'
    | _ => exact absurd_head same nofun
  | assign target value, other, legible, legible', _, _, same => by
    rw [isLegible, Bool.and_eq_true] at legible
    cases other with
    | assign target' value' =>
      rw [isLegible, Bool.and_eq_true] at legible'
      obtain ⟨name, behind⟩ := List.cons.inj same
      obtain ⟨whole, tail⟩ := value_once legible.2 legible'.2 behind
      cases name
      exact ⟨by rw [signsFirst, whole, signsFirst], tail⟩
    | arrayAssign => exact absurd_head (List.cons.inj same).2 nofun
    | error => cases legible'
    | _ => exact absurd_head same nofun
  | arrayAssign target index value, other, legible, legible', _, _, same => by
    simp only [isLegible, Bool.and_eq_true] at legible
    obtain ⟨⟨_, indexLegible⟩, valueLegible⟩ := legible
    cases other with
    | arrayAssign target' index' value' =>
      simp only [isLegible, Bool.and_eq_true] at legible'
      obtain ⟨⟨_, indexLegible'⟩, valueLegible'⟩ := legible'
      simp only [spelling, inBrackets, List.cons_append, List.append_assoc] at same
      obtain ⟨name, behind⟩ := List.cons.inj same
      obtain ⟨inside, behind⟩ := Expr.signsFirst_eq_of_spelling indexLegible indexLegible'
        (.cons (by decide)) (.cons (by decide)) (List.cons.inj behind).2
      obtain ⟨whole, tail⟩ := value_once valueLegible valueLegible' (List.cons.inj behind).2
      cases name
      exact ⟨by rw [signsFirst, inside, whole, signsFirst], tail⟩
    | assign => exact absurd_head (List.cons.inj same).2 nofun
    | error => cases legible'
    | _ => exact absurd_head same nofun
  | error, _, legible, _, _, _, _ => by cases legible
theorem allSignsFirst_eq_of_spelling {rest rest' : List Content} : (stmts others : List Stmt) →
    allLegible stmts → allLegible others →
    allSpelling stmts ++ ⟨.closeBrace, none⟩ :: rest =
      allSpelling others ++ ⟨.closeBrace, none⟩ :: rest' →
    allSignsFirst stmts = allSignsFirst others ∧ rest = rest'
  | [], [], _, _, same => ⟨rfl, (List.cons.inj same).2⟩
  | [], other :: others, _, legible', same => by
    rw [allLegible, Bool.and_eq_true] at legible'
    obtain ⟨first, more, spelled, noBrace, _⟩ := spelling_head legible'.1
    rw [allSpelling, allSpelling, spelled] at same
    exact absurd_head same noBrace.symm
  | stmt :: stmts, [], legible, _, same => by
    rw [allLegible, Bool.and_eq_true] at legible
    obtain ⟨first, more, spelled, noBrace, _⟩ := spelling_head legible.1
    rw [allSpelling, allSpelling, spelled] at same
    exact absurd_head same noBrace
  | stmt :: stmts, other :: others, legible, legible', same => by
    rw [allLegible, Bool.and_eq_true] at legible legible'
    simp only [allSpelling, List.append_assoc] at same
    obtain ⟨first, behind⟩ := signsFirst_eq_of_spelling stmt other legible.1 legible'.1
      (fun _ => noElse_allSpelling legible.2) (fun _ => noElse_allSpelling legible'.2) same
    obtain ⟨rest, tail⟩ := allSignsFirst_eq_of_spelling stmts others legible.2 legible'.2 behind
    exact ⟨by rw [allSignsFirst, first, rest, allSignsFirst], tail⟩
end

end Stmt

/-! ### Declarations -/

private theorem type_once {type type' : Ty} (known : type.base?.isSome) (known' : type'.base?.isSome)
    (same : type.spelling ++ .name name :: rest = type'.spelling ++ .name name' :: rest') :
    type = type' ∧ name = name' ∧ rest = rest' := by
  cases type <;> cases type' <;>
    simp_all [Ty.spelling, Ty.base?, inBrackets, Content.name, BaseType.kind_injective.eq_iff]

private theorem further_once : {names names' : List String} →
    furtherSpelling names ++ ⟨.semicolon, none⟩ :: rest =
      furtherSpelling names' ++ ⟨.semicolon, none⟩ :: rest' → names = names' ∧ rest = rest'
  | [], [], same => ⟨rfl, (List.cons.inj same).2⟩
  | [], _ :: _, same => absurd_head same nofun
  | _ :: _, [], same => absurd_head same nofun
  | name :: names, name' :: names', same => by
    obtain ⟨first, behind⟩ := List.cons.inj (List.cons.inj same).2
    obtain ⟨rfl, tail⟩ := further_once behind
    cases first
    exact ⟨rfl, tail⟩

/-- Declarations that are spelled alike are the same. -/
private theorem group_once {group group' : List VarDecl} (legible : isLegibleGroup group)
    (legible' : isLegibleGroup group')
    (same : groupSpelling group ++ rest = groupSpelling group' ++ rest') :
    group = group' ∧ rest = rest' := by
  cases group with
  | nil => cases legible
  | cons first others =>
    cases group' with
    | nil => cases legible'
    | cons first' others' =>
      simp only [groupSpelling, namesSpelling, List.map_cons, List.cons_append, List.append_assoc,
        List.nil_append] at same
      have whole := eq_map_of_isLegibleGroup legible
      have whole' := eq_map_of_isLegibleGroup legible'
      rw [isLegibleGroup, Bool.and_eq_true] at legible legible'
      obtain ⟨type, name, behind⟩ := type_once legible.1 legible'.1 same
      obtain ⟨names, tail⟩ := further_once behind
      rw [whole, whole', type, name, names]
      exact ⟨rfl, tail⟩

/-- What follows does not start with the name of a type. -/
private def NoType (rest : List Content) : Prop :=
  ∀ content ∈ rest.head?, isTypeWord content.kind = false

private theorem groupSpelling_head (legible : isLegibleGroup group) :
    ∃ first more, groupSpelling group = first :: more ∧ isTypeWord first.kind := by
  cases group with
  | nil => cases legible
  | cons first others =>
    rw [isLegibleGroup, Bool.and_eq_true] at legible
    rw [groupSpelling]
    cases type : first.type with
    | scalar | array => exact ⟨_, _, rfl, isTypeWord_of_kind rfl⟩
    | named | error => simp [type, Ty.base?] at legible

private theorem not_noType (legible : isLegibleGroup group) :
    ¬NoType (groupSpelling group ++ rest) := by
  obtain ⟨first, more, spelled, word⟩ := groupSpelling_head legible
  rw [spelled]
  intro none
  rw [none first rfl] at word
  cases word

private theorem groups_once {groups groups' : List (List VarDecl)}
    (legible : groups.all isLegibleGroup) (legible' : groups'.all isLegibleGroup)
    (stops : NoType rest) (stops' : NoType rest')
    (same : groups.flatMap groupSpelling ++ rest = groups'.flatMap groupSpelling ++ rest') :
    groups = groups' ∧ rest = rest' := by
  induction groups generalizing groups' with
  | nil =>
    cases groups' with
    | nil => exact ⟨rfl, same⟩
    | cons group' groups' =>
      rw [List.all_cons, Bool.and_eq_true] at legible'
      rw [List.flatMap_nil, List.nil_append, List.flatMap_cons, List.append_assoc] at same
      exact absurd (same ▸ stops) (not_noType legible'.1)
  | cons group groups ih =>
    rw [List.all_cons, Bool.and_eq_true] at legible
    rw [List.flatMap_cons, List.append_assoc] at same
    cases groups' with
    | nil =>
      rw [List.flatMap_nil, List.nil_append] at same
      exact absurd (same ▸ stops') (not_noType legible.1)
    | cons group' groups' =>
      rw [List.all_cons, Bool.and_eq_true] at legible'
      rw [List.flatMap_cons, List.append_assoc] at same
      obtain ⟨rfl, behind⟩ := group_once legible.1 legible'.1 same
      obtain ⟨rfl, tail⟩ := ih legible.2 legible'.2 behind
      exact ⟨rfl, tail⟩

/-! ### Programs -/

private theorem noType_allSpelling {stmts : List Stmt} (legible : Stmt.allLegible stmts)
    (rest : List Content) : NoType (Stmt.allSpelling stmts ++ ⟨.closeBrace, none⟩ :: rest) := by
  obtain ⟨first, more, spelled, _, noType⟩ := Stmt.allSpelling_head legible rest
  rw [spelled]
  rintro _ ⟨⟩
  exact noType

namespace Program

/-- Two programs that are spelled alike differ at most in where signs stand. -/
theorem signsFirst_eq_of_spelling {program other : Program} (legible : program.isLegible)
    (legible' : other.isLegible) (same : program.spelling = other.spelling) :
    program.signsFirst = other.signsFirst := by
  rw [isLegible, Bool.and_eq_true] at legible legible'
  obtain ⟨declared, behind⟩ := groups_once legible.1 legible'.1
    (noType_allSpelling legible.2 _) (noType_allSpelling legible'.2 _)
    (List.append_cancel_left same)
  obtain ⟨stated, _⟩ := Stmt.allSignsFirst_eq_of_spelling _ _ legible.2 legible'.2 behind
  rw [signsFirst, declared, stated, signsFirst]

/-- Two programs that are printed alike differ at most in where signs stand. -/
theorem text_eq_iff {program other : Program} (legible : program.isLegible)
    (legible' : other.isLegible) :
    program.text = other.text ↔ program.signsFirst = other.signsFirst := by
  constructor
  · intro same
    refine signsFirst_eq_of_spelling legible legible' ?_
    rw [← tokenize_text_content legible, same, tokenize_text_content legible']
  · intro same
    rw [← program.signsFirst_text, same, other.signsFirst_text]

end Program

/-- Two texts that were read are printed alike exactly if their trees differ in
nothing but where the signs of indexed arrays stand. -/
theorem parse_text_eq_iff {source source' : String} (silent : (parse source).errors = [])
    (silent' : (parse source').errors = [])
    (noPoint : .floatConst ∉ kindsOf (tokenize source))
    (noPoint' : .floatConst ∉ kindsOf (tokenize source')) :
    ((parse source).program.text = (parse source').program.text ↔
        (parse source).program.signsFirst = (parse source').program.signsFirst) ∧
      ((parse source).program.text = (parse source').program.text →
        (parse source).program.hasSignsFirst → (parse source').program.hasSignsFirst →
          (parse source).program = (parse source').program) := by
  have same_iff := Program.text_eq_iff (parse_isLegible silent noPoint)
    (parse_isLegible silent' noPoint')
  refine ⟨same_iff, fun same first first' => ?_⟩
  rw [← Program.signsFirst_eq_self first, ← Program.signsFirst_eq_self first']
  exact same_iff.mp same

/-- Parentheses around a product leave no trace. -/
theorem parse_text_eq_of_parens :
    let source := "int main() \x7b int a; if (a) a = -a * 2; else a = 1 + (a * 2); \x7d"
    let source' := "int main() \x7b int a; if (a) a = -(a * 2); else a = 1 + a * 2; \x7d"
    (parse source).program.text = (parse source').program.text ∧
      (parse source).program.signsFirst = (parse source').program.signsFirst ∧
      (parse source).program = (parse source').program := by
  intro source source'
  have silent : (parse source).errors = [] := by decide +kernel
  have silent' : (parse source').errors = [] := by decide +kernel
  have noPoint : .floatConst ∉ kindsOf (tokenize source) := by decide +kernel
  have noPoint' : .floatConst ∉ kindsOf (tokenize source') := by decide +kernel
  have alike := parse_text_eq_iff silent silent' noPoint noPoint'
  have same : (parse source).program.text = (parse source').program.text := by decide +kernel
  have first : (parse source).program.hasSignsFirst := by decide +kernel
  have first' : (parse source').program.hasSignsFirst := by decide +kernel
  exact ⟨same, alike.1.mp same, alike.2 same first first'⟩

/-- A sign within an indexed array is printed like one in front of it. -/
theorem signed_array_printed_alike :
    let source := "int main() \x7b int a, x; a = -x[1]; \x7d"
    let source' := "int main() \x7b int a, x; a = (-x)[1]; \x7d"
    (parse source).errors = [] ∧ (parse source').errors = [] ∧
      (parse source).lexicalErrors = 0 ∧ (parse source').lexicalErrors = 0 ∧
      .floatConst ∉ kindsOf (tokenize source) ∧ .floatConst ∉ kindsOf (tokenize source') ∧
      (parse source).program.text = (parse source').program.text ∧
      (parse source).program ≠ (parse source').program := by
  intro source source'
  have first : (parse source).program.hasSignsFirst = true := by decide +kernel
  have inside : (parse source').program.hasSignsFirst = false := by decide +kernel
  refine ⟨by decide +kernel, by decide +kernel, by decide +kernel, by decide +kernel,
    by decide +kernel, by decide +kernel, by decide +kernel, fun same => ?_⟩
  rw [← same, first] at inside
  cases inside

end ToyC
