import ToyC.Proofs.Grammar

/-! What may follow a token. Each phrase is taken together with the language
`follow` of all that may stand behind it; the statements tell what may come
after the next token, or that it may not come. Expressions are cut into
operands without their indices and a tail, in which an index is one more
operator: the order in which they are read. -/
namespace ToyC

open Phrase
open scoped Computability

variable {kind : TokenKind} {rest : List TokenKind} {follow : Language TokenKind}

/-- An operand without its indices. -/
def primaryWords : Language TokenKind := closed.words + oneOf isSign * expression.words

/-- What may stand between an operand without its indices and the end of its
expression. -/
def tailWords : Language TokenKind := (index.words + oneOf isBinaryOperator * primaryWords)∗

/-! ### Expressions -/

theorem operand_le_expression : operand.words ≤ expression.words := by
  rw [expression_words]
  exact le_mul_of_one_le_right' one_le_kstar

/-- Whether an index behind a phrase belongs to its last operand. -/
def Phrase.endsInOperand : Phrase → Bool
  | expression | operation | operand => true
  | _ => false

private theorem derives_append_index (derived : Derives phrase kinds)
    (inner : Derives .index inside) (operandLast : phrase.endsInOperand) :
    Derives phrase (kinds ++ inside) := by
  induction derived with
  | expression first others firstIH othersIH =>
    rename_i pieces
    rcases List.eq_nil_or_concat pieces with rfl | ⟨before, last, rfl⟩
    · rw [List.flatten_nil, List.append_nil]
      exact operand_le_expression (firstIH rfl)
    · have lastLonger := othersIH last (by simp) rfl
      have all : ∀ piece ∈ before ++ [last ++ inside], Derives .operation piece := by
        intro piece member
        rcases List.mem_append.mp member with earlier | latest
        · exact others piece (by simp [earlier])
        · exact List.mem_singleton.mp latest ▸ lastLonger
      simpa using Derives.expression first all
  | operation binary _ ih => exact .operation binary (ih rfl)
  | operand base indices =>
    rename_i pieces _ _
    have all : ∀ piece ∈ pieces ++ [inside], Derives .index piece := by
      intro piece member
      rcases List.mem_append.mp member with earlier | latest
      · exact indices piece earlier
      · exact List.mem_singleton.mp latest ▸ inner
    simpa using Derives.operand base all
  | sign sign _ ih => exact .sign sign (ih rfl)
  | _ => cases operandLast

private theorem expression_mul_index : expression.words * index.words ≤ expression.words := by
  rintro _ ⟨kinds, derived, inside, inner, rfl⟩
  exact derives_append_index derived inner rfl

private theorem primary_le_operand : primaryWords ≤ operand.words := by
  rw [operand_words, primaryWords]
  gcongr
  exact le_mul_of_one_le_right' one_le_kstar

/-- Whatever goes on an expression makes one expression with it. -/
theorem expression_mul_tail : expression.words * tailWords = expression.words := by
  apply le_antisymm
  · apply mul_kstar_le_self
    rw [mul_add]
    refine add_le expression_mul_index ?_
    calc expression.words * (oneOf isBinaryOperator * primaryWords)
        ≤ expression.words * operation.words := by
          rw [operation_words]; gcongr; exact primary_le_operand
      _ ≤ expression.words := by
          rw [expression_words, mul_assoc]; gcongr; exact kstar_mul_le_kstar
  · exact le_mul_of_one_le_right' one_le_kstar

/-- An expression is an operand without its indices, and a tail. -/
theorem expression_eq_primary_mul_tail : expression.words = primaryWords * tailWords := by
  apply le_antisymm
  · have tail_mul_tail : tailWords * tailWords = tailWords := kstar_mul_kstar _
    have operand_le : operand.words ≤ primaryWords * tailWords := by
      rw [operand_words, primaryWords, add_mul]
      refine add_le_add ?_ (le_mul_of_one_le_right' one_le_kstar)
      gcongr
      exact kstar_mono le_self_add
    have operation_le : operation.words ≤ tailWords := by
      calc operation.words ≤ oneOf isBinaryOperator * (primaryWords * tailWords) := by
            rw [operation_words]; gcongr
        _ = (oneOf isBinaryOperator * primaryWords) * tailWords := (mul_assoc ..).symm
        _ ≤ tailWords * tailWords := by
            gcongr
            exact le_add_self.trans le_kstar
        _ = tailWords := tail_mul_tail
    calc expression.words = operand.words * operation.words∗ := expression_words
      _ ≤ (primaryWords * tailWords) * tailWords := by
          gcongr
          exact kstar_le_of_mul_le_left one_le_kstar ((mul_le_mul_right operation_le _).trans
            tail_mul_tail.le)
      _ = primaryWords * tailWords := by rw [mul_assoc, tail_mul_tail]
  · calc primaryWords * tailWords ≤ expression.words * tailWords := by
          gcongr
          exact primary_le_operand.trans operand_le_expression
      _ = expression.words := expression_mul_tail

theorem cons_mem_closed_mul :
    kind :: rest ∈ closed.words * follow ↔
      ((isConstant kind ∨ kind = .identifier) ∧ rest ∈ follow) ∨
        (kind = .openParen ∧ rest ∈ expression.words * (only .closeParen * follow)) := by
  rw [closed_words]
  simp only [add_mul, mul_assoc, Language.mem_add, cons_mem_oneOf_mul, cons_mem_only_mul]
  tauto

/-- A sign takes the rest of its expression along. -/
theorem cons_mem_primary_mul :
    kind :: rest ∈ primaryWords * (tailWords * follow) ↔
      kind :: rest ∈ closed.words * (tailWords * follow) ∨
        (isSign kind ∧ rest ∈ expression.words * follow) := by
  rw [primaryWords, add_mul, mul_assoc (oneOf isSign), ← mul_assoc expression.words,
    expression_mul_tail]
  simp only [Language.mem_add, cons_mem_oneOf_mul]

theorem mem_kstar_mul {item : Language TokenKind} {word : List TokenKind} :
    word ∈ item∗ * follow ↔ word ∈ follow ∨ word ∈ item * (item∗ * follow) := by
  conv_lhs => rw [← one_add_mul_kstar, add_mul, one_mul, mul_assoc]
  exact Iff.rfl

theorem cons_mem_tail_mul :
    kind :: rest ∈ tailWords * follow ↔
      kind :: rest ∈ follow ∨
        (kind = .openBracket ∧
          rest ∈ expression.words * (only .closeBracket * (tailWords * follow))) ∨
        (isBinaryOperator kind ∧ rest ∈ primaryWords * (tailWords * follow)) := by
  rw [tailWords, mem_kstar_mul]
  simp only [add_mul, index_words, mul_assoc, Language.mem_add, cons_mem_oneOf_mul,
    cons_mem_only_mul]

/-- Behind an expression there may stand something, but nothing that would go
on the expression. -/
structure EndsExpression (follow : Language TokenKind) : Prop where
  starts : ∀ kind rest, continuesExpression kind → kind :: rest ∉ follow
  inhabited : ∃ word, word ∈ follow

theorem only_inhabited (kind : TokenKind) (inhabited : ∃ word, word ∈ follow) :
    ∃ word, word ∈ only kind * follow := by
  obtain ⟨word, member⟩ := inhabited
  exact ⟨_, Language.append_mem_mul (mem_only kind) member⟩

theorem EndsExpression.only_mul (stops : continuesExpression kind = false)
    (inhabited : ∃ word, word ∈ follow) : EndsExpression (only kind * follow) where
  starts first rest continues := by
    rw [cons_mem_only_mul]
    rintro ⟨rfl, _⟩
    simp [stops] at continues
  inhabited := only_inhabited kind inhabited

theorem tail_inhabited (inhabited : ∃ word, word ∈ follow) : ∃ word, word ∈ tailWords * follow := by
  obtain ⟨word, member⟩ := inhabited
  exact ⟨[] ++ word, Language.append_mem_mul (Language.nil_mem_kstar _) member⟩

theorem expression_inhabited (inhabited : ∃ word, word ∈ follow) :
    ∃ word, word ∈ expression.words * follow := by
  obtain ⟨word, member⟩ := inhabited
  have smallest : Derives .expression ([.identifier] ++ [].flatten ++ [].flatten) :=
    .expression (.operand .name (by simp)) (by simp)
  exact ⟨_, Language.append_mem_mul smallest member⟩

/-! ### Statements -/

theorem cons_mem_statement_mul :
    kind :: rest ∈ statement.words * follow ↔
      (kind = .openBrace ∧ rest ∈ statement.words∗ * (only .closeBrace * follow)) ∨
      (kind = .ifWord ∧ rest ∈ only .openParen * (expression.words * (only .closeParen *
        (statement.words * (elsePart * follow))))) ∨
      (kind = .whileWord ∧ rest ∈ only .openParen * (expression.words * (only .closeParen *
        (statement.words * follow)))) ∨
      (kind = .identifier ∧ rest ∈ assignmentRest * follow) := by
  conv_lhs => rw [statement_words]
  simp only [add_mul, mul_assoc, Language.mem_add, cons_mem_only_mul]

theorem cons_mem_elsePart_mul :
    kind :: rest ∈ elsePart * follow ↔
      kind :: rest ∈ follow ∨ (kind = .elseWord ∧ rest ∈ statement.words * follow) := by
  simp only [elsePart, add_mul, one_mul, mul_assoc, Language.mem_add, cons_mem_only_mul]

theorem cons_mem_assignmentRest_mul :
    kind :: rest ∈ assignmentRest * follow ↔
      (kind = .assign ∧ rest ∈ expression.words * (only .semicolon * follow)) ∨
      (kind = .openBracket ∧ rest ∈ expression.words * (only .closeBracket *
        (only .assign * (expression.words * (only .semicolon * follow))))) := by
  simp only [assignmentRest, add_mul, mul_assoc, Language.mem_add, cons_mem_only_mul]

/-- Behind a statement there may stand something, and an `else` there could as
well go on a conditional that ends the statement. -/
structure EndsStatement (follow : Language TokenKind) : Prop where
  otherwise : ∀ rest, .elseWord :: rest ∈ follow → rest ∈ statement.words * follow
  inhabited : ∃ word, word ∈ follow

theorem le_elsePart_mul : follow ≤ elsePart * follow := le_mul_of_one_le_left' le_self_add

theorem EndsStatement.elsePart_mul (ends : EndsStatement follow) :
    EndsStatement (elsePart * follow) where
  otherwise rest member := by
    have later : rest ∈ statement.words * follow := by
      rcases cons_mem_elsePart_mul.mp member with outer | ⟨_, inner⟩
      · exact ends.otherwise rest outer
      · exact inner
    exact mul_le_mul_right le_elsePart_mul statement.words later
  inhabited := ends.inhabited.imp fun _ member => le_elsePart_mul member

theorem EndsStatement.statements_mul (noElse : ∀ rest, .elseWord :: rest ∉ follow)
    (inhabited : ∃ word, word ∈ follow) : EndsStatement (statement.words∗ * follow) where
  otherwise rest member := by
    rcases mem_kstar_mul.mp member with outer | inner
    · exact absurd outer (noElse rest)
    · simp [cons_mem_statement_mul] at inner
  inhabited := by
    obtain ⟨word, member⟩ := inhabited
    exact ⟨[] ++ word, Language.append_mem_mul (Language.nil_mem_kstar _) member⟩

theorem statement_inhabited (inhabited : ∃ word, word ∈ follow) :
    ∃ word, word ∈ statement.words * follow := by
  obtain ⟨word, member⟩ := inhabited
  have smallest : Derives .statement (.openBrace :: ([].flatten ++ [.closeBrace])) :=
    .block (by simp)
  exact ⟨_, Language.append_mem_mul smallest member⟩

/-! ### Declarations -/

theorem cons_mem_declaration_mul :
    kind :: rest ∈ declaration.words * follow ↔
      isTypeWord kind ∧ rest ∈ dimension.words * (only .identifier *
        (furtherName.words∗ * (only .semicolon * follow))) := by
  rw [declaration_words]
  simp only [mul_assoc, cons_mem_oneOf_mul]

theorem cons_mem_dimension_mul :
    kind :: rest ∈ dimension.words * follow ↔
      kind :: rest ∈ follow ∨
        (kind = .openBracket ∧ rest ∈ only .intConst * (only .closeBracket * follow)) := by
  simp only [dimension_words, add_mul, one_mul, mul_assoc, Language.mem_add, cons_mem_only_mul]

theorem cons_mem_furtherName_mul :
    kind :: rest ∈ furtherName.words * follow ↔
      kind = .comma ∧ rest ∈ only .identifier * follow := by
  rw [furtherName_words, mul_assoc, cons_mem_only_mul]

end ToyC
