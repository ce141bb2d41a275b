import ToyC.Printer
import ToyC.Proofs.Lexing
import ToyC.Proofs.Spelling

/-! The tokens of a printed expression: they spell it, whatever stands behind
it that neither a word nor a number goes on with. -/
namespace ToyC

/-! ### Names -/

private theorem name_parts (named : isName name) :
    ∃ first more, name.toList = first :: more ∧ first.isAlpha ∧ more.all Char.isAlphanum ∧
      Lexeme.word (first :: more) = ⟨.identifier, some (.identifier name), first :: more⟩ := by
  simp only [isName, Bool.and_eq_true, Option.isNone_iff_eq_none] at named
  obtain ⟨⟨⟨letter, all⟩, noReserved⟩, noBoolean⟩ := named
  have whole : String.ofList name.toList = name := String.ofList_toList
  cases spelled : name.toList with
  | nil => simp [spelled] at letter
  | cons first more =>
    rw [spelled] at letter all noReserved noBoolean whole
    rw [List.all_cons, Bool.and_eq_true] at all
    refine ⟨first, more, rfl, letter, all.2, ?_⟩
    rw [Lexeme.word, noReserved, noBoolean, whole]

theorem lexes_name (named : isName name) (breaks : Breaks behind) :
    Lexes name.toList behind [.name name] := by
  obtain ⟨first, more, spelled, letter, all, word⟩ := name_parts named
  have lexes := Lexes.word letter all breaks
  rw [word] at lexes
  rw [spelled]
  exact lexes

/-! ### Expressions -/

theorem Lexes.parens (inside : Lexes piece (')' :: behind) spelling) :
    Lexes (['('] ++ (piece ++ [')'])) behind (inParens spelling) :=
  append (lexeme rfl rfl) (inside.append (lexeme rfl rfl))

theorem Lexes.brackets (inside : Lexes piece (']' :: behind) spelling) :
    Lexes (['['] ++ (piece ++ [']'])) behind (inBrackets spelling) :=
  append (lexeme rfl rfl) (inside.append (lexeme rfl rfl))

private theorem int_text (value : Int32) (positive : 0 ≤ value.toInt) :
    (Expr.int value).text.toList = Nat.toDigits 10 value.toInt.toNat := by
  obtain ⟨n, same⟩ := Int.eq_ofNat_of_zero_le positive
  rw [Expr.text, same]
  exact Nat.toList_repr

private theorem lexes_int (value : Int32) (positive : 0 ≤ value.toInt) (breaks : Breaks behind) :
    Lexes (Expr.int value).text.toList behind (Expr.int value).spelling := by
  have small : value.toInt.toNat ≤ greatestInt := by
    have := value.toInt_lt
    show value.toInt.toNat ≤ 2147483647
    omega
  have same : Int32.ofNat value.toInt.toNat = value := by
    rw [← Int32.ofInt_eq_ofNat, Int.toNat_of_nonneg positive, Int32.ofInt_toInt]
  have lexes := Lexes.number small breaks
  rw [same] at lexes
  rw [int_text value positive]
  exact lexes

private theorem lexes_operator (operator : BinaryOp) :
    Lexes operator.symbol.toList (' ' :: behind) [⟨operator.kind, none⟩] := by
  cases operator <;> exact .lexeme rfl rfl

/-- An operator between its operands, without parentheses around. -/
private def operationText (operator : BinaryOp) (left right : Expr) : List Char :=
  left.text.toList ++ ([' '] ++ (operator.symbol.toList ++ ([' '] ++ right.text.toList)))

private theorem lexes_operation {left right : Expr} (operator : BinaryOp)
    (leftLexes : ∀ behind, Breaks behind → Lexes left.text.toList behind left.spelling)
    (rightLexes : Lexes right.text.toList behind right.spelling) :
    Lexes (operationText operator left right) behind
      (operator.between left.spelling right.spelling) :=
  (leftLexes _ (.cons rfl (by decide))).append (.after_space
    ((lexes_operator operator).append rightLexes.after_space))

private theorem binary_text (operator : BinaryOp) (left right : Expr) :
    (Expr.binary operator left right).text.toList =
      ['('] ++ (operationText operator left right ++ [')']) := by
  simp [Expr.text, operationText]

private theorem arrayLookup_text (array index : Expr) :
    (Expr.arrayLookup array index).text.toList =
      array.text.toList ++ (['['] ++ (index.text.toList ++ [']'])) := by
  simp [Expr.text]

/-- No sign in front of an expression becomes a longer one. -/
private theorem text_head {tree : Expr} (legible : tree.isLegible) :
    ∃ first more, tree.text.toList = first :: more ∧ first ≠ '=' := by
  induction tree with
  | int value =>
    have positive : 0 ≤ value.toInt := by simpa [Expr.isLegible] using legible
    obtain ⟨first, more, spelled⟩ :=
      List.exists_cons_of_ne_nil (Nat.toDigits_ne_nil (n := value.toInt.toNat) (b := 10))
    refine ⟨first, more, (int_text value positive).trans spelled, ?_⟩
    rintro rfl
    have digit : Char.isDigit '=' :=
      Nat.isDigit_of_mem_toDigits (b := 10) (n := value.toInt.toNat) (by decide) (by decide)
        (spelled ▸ List.mem_cons_self)
    cases digit
  | identifier name =>
    obtain ⟨first, more, spelled, letter, _⟩ := name_parts legible
    refine ⟨first, more, spelled, ?_⟩
    rintro rfl
    cases letter
  | char c => exact ⟨'\'', [c, '\''], by simp [Expr.text], by decide⟩
  | boolean value => cases value <;> exact ⟨_, _, rfl, by decide⟩
  | not operand => exact ⟨'!', operand.text.toList, by simp [Expr.text], by decide⟩
  | negate operand => exact ⟨'-', operand.text.toList, by simp [Expr.text], by decide⟩
  | binary operator left right => exact ⟨'(', _, binary_text operator left right, by decide⟩
  | arrayLookup array index arrayIH =>
    rw [Expr.isLegible, Bool.and_eq_true] at legible
    obtain ⟨first, more, spelled, other⟩ := arrayIH legible.1
    rw [arrayLookup_text, spelled]
    exact ⟨first, _, rfl, other⟩
  | _ => simp [Expr.isLegible] at legible

/-- A printed expression is cut into the tokens that spell it. -/
theorem lexes_expr {tree : Expr} (legible : tree.isLegible) (breaks : Breaks behind) :
    Lexes tree.text.toList behind tree.spelling := by
  induction tree generalizing behind with
  | int value => exact lexes_int value (by simpa [Expr.isLegible] using legible) breaks
  | identifier name => exact lexes_name legible breaks
  | char value =>
    have text : (Expr.char value).text.toList = ['\'', value, '\''] := by simp [Expr.text]
    rw [text]
    exact .character legible
  | boolean value =>
    cases value with
    | false => exact .word rfl rfl breaks
    | true => exact .word rfl rfl breaks
  | not operand ih =>
    have text : (Expr.not operand).text.toList = ['!'] ++ operand.text.toList := by
      simp [Expr.text]
    have legible : operand.isLegible := legible
    have single : ∀ c ∈ (operand.text.toList ++ behind).head?, c ≠ '=' := by
      obtain ⟨first, more, spelled, other⟩ := text_head legible
      rw [spelled]
      rintro _ ⟨⟩
      exact other
    rw [text]
    exact (Lexes.not single).append (ih legible breaks)
  | negate operand ih =>
    have text : (Expr.negate operand).text.toList = ['-'] ++ operand.text.toList := by
      simp [Expr.text]
    have sign : Lexes ['-'] (operand.text.toList ++ behind) [⟨.minus, none⟩] := .lexeme rfl rfl
    rw [text]
    exact sign.append (ih legible breaks)
  | binary operator left right leftIH rightIH =>
    rw [Expr.isLegible, Bool.and_eq_true] at legible
    have rightLexes : Lexes right.text.toList (')' :: behind) right.spelling :=
      rightIH legible.2 (.cons rfl (by decide))
    rw [binary_text]
    exact (lexes_operation operator (fun _ => leftIH legible.1) rightLexes).parens
  | arrayLookup array index arrayIH indexIH =>
    rw [Expr.isLegible, Bool.and_eq_true] at legible
    rw [arrayLookup_text]
    exact (arrayIH legible.1 (.cons rfl (by decide))).append
      (indexIH legible.2 (.cons rfl (by decide))).brackets
  | _ => simp [Expr.isLegible] at legible

/-- So is a condition, whose outermost operator stands without parentheses. -/
theorem lexes_condition {tree : Expr} (legible : tree.isLegible) (breaks : Breaks behind) :
    Lexes tree.conditionText.toList behind tree.conditionSpelling := by
  cases tree with
  | binary operator left right =>
    have text : (Expr.binary operator left right).conditionText.toList =
        operationText operator left right := by
      simp [Expr.conditionText, operationText]
    rw [Expr.isLegible, Bool.and_eq_true] at legible
    rw [text]
    exact lexes_operation operator (fun _ => lexes_expr legible.1) (lexes_expr legible.2 breaks)
  | _ => exact lexes_expr legible breaks

end ToyC
