import ToyC.Proofs.Legibility
import ToyC.Proofs.PrintedProgram
import ToyC.Proofs.SpelledOnce

/-! A printed program has the tokens that it was read from. Reading groups them
and loses none; printing writes parentheses of its own around every operator,
and leaves out the lengths of arrays. Apart from these the two texts have the
same tokens in the same order. -/
namespace ToyC

def Content.isParen (content : Content) : Bool :=
  content.kind = .openParen || content.kind = .closeParen

def withoutParens (contents : List Content) : List Content :=
  contents.filter fun content => !content.isParen

/-- Leaves out the constant between the brackets behind the name of a type: in a
program, the length of an array that is declared. -/
def withoutLengths : List Content → List Content
  | word :: opener :: constant :: rest =>
    if isTypeWord word.kind ∧ opener.kind = .openBracket ∧ constant.kind = .intConst then
      word :: opener :: withoutLengths rest
    else word :: withoutLengths (opener :: constant :: rest)
  | rest => rest

/-! ### The same but for parentheses -/

/-- The same in the same order, but for parentheses. -/
def EqButParens (first second : List Content) : Prop := withoutParens first = withoutParens second

namespace EqButParens

variable {first second third : List Content}

theorem refl (contents : List Content) : EqButParens contents contents := rfl

theorem trans (head : EqButParens first second) (tail : EqButParens second third) :
    EqButParens first third := Eq.trans head tail

theorem append (head : EqButParens first second) (tail : EqButParens first' second') :
    EqButParens (first ++ first') (second ++ second') := by
  rw [EqButParens, withoutParens, withoutParens, List.filter_append, List.filter_append]
  exact congrArg₂ (· ++ ·) head tail

theorem cons (content : Content) (tail : EqButParens first second) :
    EqButParens (content :: first) (content :: second) :=
  (refl [content]).append tail

theorem inParens (contents : List Content) : EqButParens (inParens contents) contents := by
  simp [EqButParens, withoutParens, ToyC.inParens, Content.isParen]

end EqButParens

/-! ### What tokens say -/

/-- It was cut off a text, or closes it. -/
def Token.Told (token : Token) : Prop := token.content.isLegible ∨ token.content = ⟨.eof, none⟩

/-- Tokens of a text, the closing one among them or not. -/
def Told (tokens : List Token) : Prop := ∀ token ∈ tokens, token.Told

namespace Told

@[simp] theorem cons_iff : Told (token :: tokens) ↔ token.Told ∧ Told tokens :=
  List.forall_mem_cons

@[simp] theorem append_iff : Told (first ++ second) ↔ Told first ∧ Told second :=
  List.forall_mem_append

end Told

theorem tokenize_told (source : String) : Told (tokenize source) := by
  intro token member
  rw [tokenize, TokenStream.toList, List.mem_append, List.mem_singleton] at member
  rcases member with cut | rfl
  · exact .inl (scan_isLegible source token cut)
  · exact .inr rfl

/-- What is legible and plain is told by its kind. -/
private theorem literal_of_isPlain {content : Content} (legible : content.isLegible)
    (plain : content.kind.isPlain) : content.literal = none := by
  obtain ⟨kind, literal⟩ := content
  cases literal with
  | none => rfl
  | some literal =>
    exfalso
    cases literal <;>
      simp only [Content.isLegible, Bool.and_eq_true, decide_eq_true_eq] at legible
    case float | boolean => cases legible; cases plain
    all_goals cases legible.1; cases plain

/-- A sign or a word says nothing but its kind. -/
private theorem Token.Told.content_eq {token : Token} {tokenKind : TokenKind}
    (told : token.Told) (is : token.kind = tokenKind)
    (plain : tokenKind.isPlain ∨ tokenKind = .eof) : token.content = ⟨tokenKind, none⟩ := by
  have literal : token.literal = none := by
    rcases told with legible | closing
    · rcases plain with plain | eof
      · exact literal_of_isPlain legible (by rwa [← is] at plain)
      · exact absurd (is.trans eof) (Token.cut_of_isLegible legible).present
    · exact congrArg Content.literal closing
  rw [Token.content, is, literal]

private theorem Token.Names.content_eq (names : Token.Names token name) :
    token.content = .name name := by
  rw [Token.content, names.1, names.2, Content.name]

private theorem BinaryOp.kind_isPlain (operator : BinaryOp) : operator.kind.isPlain := by
  cases operator <;> rfl

private theorem BaseType.kind_isPlain (base : BaseType) : base.kind.isPlain := by
  cases base <;> rfl

/-! ### Expressions -/

/-- Operators and operands, one after the other. -/
def tailSpelling (entries : List (BinaryOp × Expr)) : List Content :=
  entries.flatMap fun entry => ⟨entry.1.kind, none⟩ :: entry.2.spelling

/-- However the operands are grouped, their spelling comes to the same. -/
private theorem Grouped.eqButParens (grouped : Grouped first entries tree) :
    EqButParens (first.spelling ++ tailSpelling entries) tree.spelling := by
  induction grouped with
  | single => simpa [tailSpelling] using EqButParens.refl _
  -- The parentheses around an operator are the printer's own.
  | @split _ before leftTree operand after rightTree operator _ _ _ _ leftIH rightIH =>
    have both := leftIH.append (rightIH.cons ⟨operator.kind, none⟩)
    have whole := both.trans (EqButParens.inParens _).symm
    rw [Expr.spelling, BinaryOp.between]
    simpa [tailSpelling] using whole

private theorem lookups_spelling (tree : Expr) (indices : List Expr) :
    (indices.foldl .arrayLookup tree).spelling =
      tree.spelling ++ Expr.indicesSpelling indices := by
  induction indices generalizing tree with
  | nil => exact (List.append_nil _).symm
  | cons index indices ih =>
    rw [List.foldl_cons, ih, Expr.spelling, List.append_assoc]
    rfl

private theorem ConstantTree.spelling_eq (value : ConstantTree literal tree)
    (legible : Content.isLegible ⟨kind, some literal⟩) :
    tree.spelling = [⟨kind, some literal⟩] := by
  cases value <;> simp only [Content.isLegible, Bool.and_eq_true, decide_eq_true_eq] at legible
  case float | boolean => cases legible; rfl
  all_goals cases legible.1; rfl

private theorem brackets_eqButParens (told : Told (opener :: (inside ++ closer :: rest)))
    (opening : opener.kind = .openBracket)
    (index : Told inside → EqButParens (inside.map Token.content) indexed)
    (closing : closer.kind = .closeBracket)
    (others : Told rest → EqButParens (rest.map Token.content) spelling) :
    EqButParens ((opener :: (inside ++ closer :: rest)).map Token.content)
      (inBrackets indexed ++ spelling) := by
  simp only [Told.cons_iff, Told.append_iff] at told
  obtain ⟨openerTold, insideTold, closerTold, restTold⟩ := told
  have contents : (opener :: (inside ++ closer :: rest)).map Token.content =
      ⟨.openBracket, none⟩ :: (inside.map Token.content ++ [⟨.closeBracket, none⟩]) ++
        rest.map Token.content := by
    simp [openerTold.content_eq opening (.inl rfl), closerTold.content_eq closing (.inl rfl)]
  rw [contents]
  exact (((index insideTold).append (.refl _)).cons _).append (others restTold)

mutual
theorem ClosedTree.eqButParens : ClosedTree tokens tree → Told tokens →
    EqButParens (tokens.map Token.content) tree.spelling
  | .constant constant carries value, told => by
    rcases (Told.cons_iff.mp told).1 with legible | closing
    · rw [Token.content, carries] at legible
      rw [value.spelling_eq legible, List.map_singleton, Token.content, carries]
      exact .refl _
    · have none := congrArg Content.literal closing
      cases carries.symm.trans none
  | .name names, told => by
    rw [List.map_singleton, names.content_eq]
    exact .refl _
  | .group opening inside closing, told => by
    obtain ⟨openerTold, told⟩ := Told.cons_iff.mp told
    rw [Told.append_iff] at told
    rw [List.map_cons, List.map_append, List.map_singleton,
      openerTold.content_eq opening (.inl rfl),
      (Told.cons_iff.mp told.2).1.content_eq closing (.inl rfl)]
    exact (EqButParens.inParens _).trans (inside.eqButParens told.1)
theorem IndicesTree.eqButParens : IndicesTree tokens trees → Told tokens →
    EqButParens (tokens.map Token.content) (Expr.indicesSpelling trees)
  | .nil, _ => .refl _
  | .cons opening inside closing others, told =>
    brackets_eqButParens told opening inside.eqButParens closing others.eqButParens
theorem OperandTree.eqButParens : OperandTree tokens tree → Told tokens →
    EqButParens (tokens.map Token.content) tree.spelling
  | .operand base indices, told => by
    rw [Told.append_iff] at told
    rw [List.map_append, lookups_spelling]
    exact (base.eqButParens told.1).append (indices.eqButParens told.2)
theorem TailTree.eqButParens : TailTree tokens entries → Told tokens →
    EqButParens (tokens.map Token.content) (tailSpelling entries)
  | .nil, _ => .refl _
  | .cons binary operand others, told => by
    simp only [Told.cons_iff, Told.append_iff] at told
    obtain ⟨operatorTold, operandTold, othersTold⟩ := told
    rw [List.map_cons, List.map_append,
      operatorTold.content_eq binary (.inl (BinaryOp.kind_isPlain _))]
    exact ((operand.eqButParens operandTold).append (others.eqButParens othersTold)).cons _
  | .signed binary _ operand, told => by
    obtain ⟨operatorTold, operandTold⟩ := Told.cons_iff.mp told
    rw [List.map_cons, operatorTold.content_eq binary (.inl (BinaryOp.kind_isPlain _))]
    simpa [tailSpelling] using (operand.eqButParens operandTold).cons _
theorem ExprTree.eqButParens : ExprTree tokens tree → Told tokens →
    EqButParens (tokens.map Token.content) tree.spelling
  | .not sign operand, told | .negate sign operand, told => by
    obtain ⟨signTold, operandTold⟩ := Told.cons_iff.mp told
    rw [List.map_cons, signTold.content_eq sign (.inl rfl), Expr.spelling]
    exact (operand.eqButParens operandTold).cons _
  | .flat first others grouped, told => by
    rw [Told.append_iff] at told
    rw [List.map_append]
    exact ((first.eqButParens told.1).append (others.eqButParens told.2)).trans grouped.eqButParens
end

/-! ### Statements -/

private theorem conditionSpelling_eqButParens (tree : Expr) :
    EqButParens tree.spelling tree.conditionSpelling := by
  cases tree with
  | binary => exact .inParens _
  | _ => exact .refl _

private theorem head_eqButParens (told : Told (word :: opener :: (inside ++ closer :: rest)))
    (key : word.kind = keyword) (plain : keyword.isPlain) (opening : opener.kind = .openParen)
    (condition : ExprTree inside tree) (closing : closer.kind = .closeParen)
    (body : EqButParens (rest.map Token.content) spelling) :
    EqButParens ((word :: opener :: (inside ++ closer :: rest)).map Token.content)
      (Stmt.headSpelling keyword tree ++ spelling) := by
  simp only [Told.cons_iff, Told.append_iff] at told
  obtain ⟨wordTold, openerTold, insideTold, closerTold, -⟩ := told
  have contents : (word :: opener :: (inside ++ closer :: rest)).map Token.content =
      (⟨keyword, none⟩ :: inParens (inside.map Token.content)) ++ rest.map Token.content := by
    simp [wordTold.content_eq key (.inl plain), openerTold.content_eq opening (.inl rfl),
      closerTold.content_eq closing (.inl rfl), inParens]
  have inner := (condition.eqButParens insideTold).trans (conditionSpelling_eqButParens tree)
  have parens := (EqButParens.inParens _).trans (inner.trans (EqButParens.inParens _).symm)
  rw [contents]
  exact (parens.cons _).append body

private theorem value_eqButParens (told : Told (equals :: (inside ++ [semicolon])))
    (assign : equals.kind = .assign) (value : ExprTree inside tree)
    (stop : semicolon.kind = .semicolon) :
    EqButParens ((equals :: (inside ++ [semicolon])).map Token.content)
      (Stmt.valueSpelling tree) := by
  simp only [Told.cons_iff, Told.append_iff] at told
  obtain ⟨equalsTold, insideTold, semicolonTold, -⟩ := told
  rw [List.map_cons, List.map_append, List.map_singleton, equalsTold.content_eq assign (.inl rfl),
    semicolonTold.content_eq stop (.inl rfl)]
  exact ((value.eqButParens insideTold).append (.refl _)).cons _

mutual
theorem StatementTree.eqButParens : StatementTree tokens stmt → Told tokens →
    EqButParens (tokens.map Token.content) stmt.spelling
  | .block opening body closing, told => by
    simp only [Told.cons_iff, Told.append_iff] at told
    obtain ⟨openerTold, bodyTold, closerTold, -⟩ := told
    rw [List.map_cons, List.map_append, List.map_singleton,
      openerTold.content_eq opening (.inl rfl), closerTold.content_eq closing (.inl rfl)]
    exact ((statements_eqButParens body bodyTold).append (.refl _)).cons _
  | .ifThen keyword opening condition closing thenBody, told => by
    refine head_eqButParens told keyword rfl opening condition closing (thenBody.eqButParens ?_)
    simp_all
  | .ifThenElse keyword opening condition closing thenBody _ otherwise elseBody, told => by
    refine head_eqButParens told keyword rfl opening condition closing ?_
    simp only [Told.cons_iff, Told.append_iff] at told
    obtain ⟨-, -, -, -, thenTold, middleTold, elseTold⟩ := told
    rw [List.map_append, List.map_cons, middleTold.content_eq otherwise (.inl rfl)]
    exact (thenBody.eqButParens thenTold).append ((elseBody.eqButParens elseTold).cons _)
  | .whileDo keyword opening condition closing body, told => by
    refine head_eqButParens told keyword rfl opening condition closing (body.eqButParens ?_)
    simp_all
  | .assign target assign value stop, told => by
    rw [List.map_cons, target.content_eq]
    exact (value_eqButParens (Told.cons_iff.mp told).2 assign value stop).cons _
  | .arrayAssign target opening index closing assign value stop, told => by
    rw [List.map_cons, target.content_eq]
    exact (brackets_eqButParens (Told.cons_iff.mp told).2 opening index.eqButParens closing
      fun valueTold => value_eqButParens valueTold assign value stop).cons _
theorem statements_eqButParens : Sequence StatementTree tokens stmts → Told tokens →
    EqButParens (tokens.map Token.content) (Stmt.allSpelling stmts)
  | .nil, _ => .refl _
  | .cons first others, told => by
    rw [Told.append_iff] at told
    rw [List.map_append]
    exact (first.eqButParens told.1).append (statements_eqButParens others told.2)
end

/-! ### Declarations -/

private theorem withoutLengths_cons (other : isTypeWord content.kind = false ∨
    ∀ next ∈ rest.head?, next.kind ≠ .openBracket) :
    withoutLengths (content :: rest) = content :: withoutLengths rest := by
  match rest with
  | [] => rfl
  | [_] => rfl
  | opener :: constant :: rest =>
    rw [withoutLengths, if_neg]
    rintro ⟨type, opens, -⟩
    rcases other with noType | noBracket
    · rw [type] at noType
      cases noType
    · exact noBracket opener rfl opens

/-- Where no type is named nothing is left out. -/
private theorem withoutLengths_append {first : List Content}
    (noType : (first.map Content.kind).any isTypeWord = false) (rest : List Content) :
    withoutLengths (first ++ rest) = first ++ withoutLengths rest := by
  induction first with
  | nil => rfl
  | cons content first ih =>
    rw [List.map_cons, List.any_cons, Bool.or_eq_false_iff] at noType
    rw [List.cons_append, withoutLengths_cons (.inl noType.1), ih noType.2, List.cons_append]

private theorem type_withoutLengths (type : TypeTree tokens ty) (told : Told tokens)
    (noBracket : next.kind ≠ .openBracket) :
    withoutLengths (tokens.map Token.content ++ next :: rest) =
      ty.spelling ++ withoutLengths (next :: rest) := by
  cases type with
  | scalar base =>
    obtain ⟨wordTold, -⟩ := Told.cons_iff.mp told
    rw [List.map_singleton, wordTold.content_eq base (.inl (BaseType.kind_isPlain _))]
    refine withoutLengths_cons (.inr ?_)
    rintro _ ⟨⟩
    exact noBracket
  | array base opening length closing =>
    simp only [Told.cons_iff] at told
    obtain ⟨wordTold, openerTold, -, closerTold, -⟩ := told
    simp only [List.map_cons, List.map_nil, List.cons_append, List.nil_append,
      wordTold.content_eq base (.inl (BaseType.kind_isPlain _)),
      openerTold.content_eq opening (.inl rfl), closerTold.content_eq closing (.inl rfl)]
    rw [withoutLengths, if_pos ⟨isTypeWord_of_kind rfl, rfl, length⟩,
      withoutLengths_cons (.inl rfl)]
    rfl

private theorem further_contents (further : Sequence FurtherNameTree tokens names)
    (told : Told tokens) : tokens.map Token.content = furtherSpelling names := by
  induction further with
  | nil => rfl
  | cons first _ ih =>
    rw [Told.append_iff] at told
    obtain ⟨comma, named⟩ := first
    obtain ⟨commaTold, -⟩ := Told.cons_iff.mp told.1
    simp [furtherSpelling, commaTold.content_eq comma (.inl rfl), named.content_eq, ih told.2]

private theorem further_noType (names : List String) :
    ((furtherSpelling names).map Content.kind).any isTypeWord = false := by
  induction names with
  | nil => rfl
  | cons name names ih => exact ih

/-- A declaration keeps its tokens, but for the length. -/
private theorem DeclarationTree.withoutLengths_eq (tree : DeclarationTree tokens group)
    (told : Told tokens) (rest : List Content) :
    withoutLengths (tokens.map Token.content ++ rest) =
      groupSpelling group ++ withoutLengths rest := by
  obtain ⟨type, first, further, stop⟩ := tree
  simp only [Told.append_iff, Told.cons_iff] at told
  obtain ⟨typeTold, -, furtherTold, semicolonTold, -⟩ := told
  rename_i ty others names token semicolon name
  have behind : ((token :: (others ++ [semicolon])).map Token.content) =
      .name name :: (furtherSpelling names ++ [⟨.semicolon, none⟩]) := by
    simp [first.content_eq, further_contents further furtherTold,
      semicolonTold.content_eq stop (.inl rfl)]
  have noType : ((.name name :: (furtherSpelling names ++ [⟨.semicolon, none⟩])).map
      Content.kind).any isTypeWord = false := by
    simp only [List.map_cons, List.map_append, List.any_cons, List.any_append, further_noType]
    rfl
  rw [List.map_append, behind, List.append_assoc, List.cons_append,
    type_withoutLengths type typeTold (by simp [Content.name]), ← List.cons_append,
    withoutLengths_append noType]
  simp [groupSpelling, namesSpelling, Function.comp_def]

private theorem declarations_withoutLengths (declarations : Sequence DeclarationTree tokens groups)
    (told : Told tokens) (rest : List Content) :
    withoutLengths (tokens.map Token.content ++ rest) =
      groups.flatMap groupSpelling ++ withoutLengths rest := by
  induction declarations with
  | nil => rfl
  | cons first _ ih =>
    rw [Told.append_iff] at told
    rw [List.map_append, List.append_assoc, first.withoutLengths_eq told.1, ih told.2,
      List.flatMap_cons, List.append_assoc]

/-! ### Programs -/

/-- Types are named in declarations, and in front of `main`. -/
private theorem Derives.noType (derived : Derives phrase kinds) (part : phrase ≠ .program)
    (noDeclaration : phrase ≠ .declaration) : kinds.any isTypeWord = false := by
  have pieces {rest : List (List TokenKind)} (each : ∀ piece ∈ rest, piece.any isTypeWord = false) :
      rest.flatten.any isTypeWord = false := by
    rw [List.any_flatten, List.any_eq_false]
    exact fun piece within => Bool.eq_false_iff.mp (each piece within)
  have single {kind : TokenKind} (other : isBinaryOperator kind ∨ isSign kind ∨ isConstant kind) :
      isTypeWord kind = false := by
    cases kind <;> first | rfl | simp [isBinaryOperator, isSign, isConstant] at other
  induction derived with
  | program => exact absurd rfl part
  | declaration => exact absurd rfl noDeclaration
  | operation binary _ ih => simp [single (.inl binary), ih]
  | sign sign _ ih => simp [single (.inr (.inl sign)), ih]
  | constant constant => simp [single (.inr (.inr constant))]
  | block _ ih =>
    have inner := pieces fun piece within => ih piece within (by simp) (by simp)
    simp [inner, isTypeWord]
  | expression _ _ first others | operand _ _ first others =>
    have inner := pieces fun piece within => others piece within (by simp) (by simp)
    simp [first, inner]
  | _ => simp_all [isTypeWord]

private theorem statements_noType (statements : Sequence StatementTree tokens stmts) :
    (kindsOf tokens).any isTypeWord = false := by
  obtain ⟨pieces, spelled, each⟩ := derives_statements statements
  rw [spelled, List.any_flatten, List.any_eq_false]
  exact fun piece within => Bool.eq_false_iff.mp ((each piece within).noType (by simp) (by simp))

/-- Tokens that only say their kinds. -/
private theorem contents_of_kinds (told : Told tokens)
    (plain : ∀ kind ∈ kindsOf tokens, kind.isPlain ∨ kind = .eof) :
    tokens.map Token.content = (kindsOf tokens).map (⟨·, none⟩) := by
  rw [kindsOf, List.map_map]
  refine List.map_congr_left fun token member => ?_
  exact (told token member).content_eq rfl (plain _ (List.mem_map_of_mem member))

/-- A tree is spelled with the tokens it was read from, but for the lengths of
arrays and parentheses. -/
theorem ProgramTree.eqButParens (tree : ProgramTree tokens whole) (told : Told tokens) :
    EqButParens (withoutLengths (tokens.map Token.content)) whole.spelling := by
  obtain ⟨header, declarations, statements, footer⟩ := tree
  simp only [Told.append_iff] at told
  obtain ⟨openingTold, declaredTold, statedTold, closingTold⟩ := told
  rename_i opening declared groups stated stmts closing
  have opens : opening.map Token.content = [⟨.intWord, none⟩, ⟨.mainWord, none⟩,
      ⟨.openParen, none⟩, ⟨.closeParen, none⟩, ⟨.openBrace, none⟩] := by
    rw [contents_of_kinds openingTold (by rw [header]; decide), header]
    rfl
  have closes : closing.map Token.content = [⟨.closeBrace, none⟩, ⟨.eof, none⟩] := by
    rw [contents_of_kinds closingTold (by rw [footer]; decide), footer]
    rfl
  have noType : ((stated.map Token.content).map Content.kind).any isTypeWord = false := by
    rw [List.map_map]
    exact statements_noType statements
  have behindHeader (rest : List Content) :
      withoutLengths (opening.map Token.content ++ rest) =
        opening.map Token.content ++ withoutLengths rest := by
    rw [opens, List.cons_append, withoutLengths_cons (.inr (by rintro _ ⟨⟩; nofun)),
      withoutLengths_append rfl]
    rfl
  have kept : withoutLengths ((opening ++ (declared ++ (stated ++ closing))).map Token.content) =
      opening.map Token.content ++ (groups.flatMap groupSpelling ++
        (stated.map Token.content ++ closing.map Token.content)) := by
    rw [List.map_append, List.map_append, List.map_append, behindHeader,
      declarations_withoutLengths declarations declaredTold, withoutLengths_append noType, closes]
    rfl
  rw [kept, opens, closes]
  exact (EqButParens.refl _).append ((EqButParens.refl _).append
    ((statements_eqButParens statements statedTold).append (.refl _)))

/-- A printed program has the tokens of the text it was read from, in their
order, but for parentheses and the lengths of arrays. -/
theorem parse_text_tokens {source : String} (silent : (parse source).errors = [])
    (noPoint : .floatConst ∉ kindsOf (tokenize source)) :
    withoutParens ((tokenize (parse source).program.text).map Token.content) =
      withoutParens (withoutLengths ((tokenize source).map Token.content)) := by
  rw [tokenize_text_content (parse_isLegible silent noPoint)]
  exact ((parse_silent silent).1.eqButParens (tokenize_told source)).symm

/-- A group of parentheses, a signed array with an index, and an array's length. -/
theorem parse_text_tokens_of_group :
    let source := "int main() \x7b int[3] a; if (a) a[0] = (-a)[1] * (2 + 'c'); \x7d"
    (parse source).errors = [] ∧ .floatConst ∉ kindsOf (tokenize source) ∧
      withoutParens ((tokenize (parse source).program.text).map Token.content) =
        withoutParens (withoutLengths ((tokenize source).map Token.content)) := by
  intro source
  have silent : (parse source).errors = [] := by decide +kernel
  have noPoint : .floatConst ∉ kindsOf (tokenize source) := by decide +kernel
  exact ⟨silent, noPoint, parse_text_tokens silent noPoint⟩

end ToyC
