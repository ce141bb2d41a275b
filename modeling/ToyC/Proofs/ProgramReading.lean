import ToyC.Proofs.StmtReading

/-! Reading declarations and whole programs. A text that is no program is
reported at the first token that no program has there; a program of which no
level of nesting is refused is read in silence, and gets its tree. -/
namespace ToyC

open Phrase
open scoped Computability

variable {follow : Language TokenKind} {parser : Parser}

/-! ### Declarations -/

/-- What stands behind the type of a declaration statement. -/
private def namesWords (follow : Language TokenKind) : Language TokenKind :=
  only .identifier * (furtherName.words∗ * (only .semicolon * follow))

private theorem kstar_inhabited (item : Language TokenKind) (inhabited : ∃ word, word ∈ follow) :
    ∃ word, word ∈ item∗ * follow :=
  inhabited.imp fun _ member => mem_kstar_mul.mpr (.inl member)

private theorem names_inhabited (inhabited : ∃ word, word ∈ follow) :
    ∃ word, word ∈ namesWords follow :=
  only_inhabited _ (kstar_inhabited _ (only_inhabited _ inhabited))

/-- What stands in brackets is reported if it is no number, or not closed. -/
private theorem reads_noLength {remaining : Language TokenKind} {good : List Token → Prop}
    (other : ¬(parser.kind = .intConst ∧ parser.advance.kind = .closeBracket))
    (inhabited : ∃ word, word ∈ follow) :
    Reads (only .intConst * (only .closeBracket * follow)) remaining parser
      ((parser.expect .intConst).report .type) good := by
  have closing := only_inhabited .closeBracket inhabited
  rw [Parser.expect]
  split
  · rename_i number
    have size : Reads (only .intConst * (only .closeBracket * follow)) (only .closeBracket * follow)
        parser parser.advance _ := .take number (by simp) fun rest => by simp
    have unclosed : Reads (only .closeBracket * follow) remaining parser.advance
        (parser.advance.report .type) fun _ => False := by
      refine .fail .type closing (fun rest => ?_) (.refl _)
      rw [cons_mem_only_mul]
      exact fun held => other ⟨number, held.1⟩
    exact (size.andThen unclosed).mono fun _ _ ⟨_, _, _, _, _, _, never⟩ => never.elim
  · rename_i noNumber
    refine .fail .intConst (only_inhabited _ closing) (fun rest => ?_) (grows_reportAs ..)
    rw [cons_mem_only_mul]
    exact fun held => noNumber held.1

private theorem baseTypeOfKind?_eq_some_iff {type : BaseType} :
    baseTypeOfKind? kind = some type ↔ kind = type.kind := by
  constructor
  · intro found
    cases kind <;> cases found <;> rfl
  · rintro rfl
    cases type <;> rfl

private theorem startsType_eq : startsType = isTypeWord := by
  funext kind
  cases kind <;> rfl

private theorem reads_type (starts : startsType parser.kind) (inhabited : ∃ word, word ∈ follow) :
    Reads (declaration.words * follow) (namesWords follow) parser parser.type.2 fun taken =>
      TypeTree taken parser.type.1 := by
  obtain ⟨base, named⟩ := Option.isSome_iff_exists.mp starts
  have present : parser.kind ≠ .eof := by
    intro same
    simp [same, startsType, baseTypeOfKind?] at starts
  have word : Reads (declaration.words * follow) (dimension.words * namesWords follow) parser
      parser.advance _ := .advance present fun rest => by
    rw [cons_mem_declaration_mul, ← startsType_eq, and_iff_right starts, namesWords]
  rw [Parser.type, named]
  rw [baseTypeOfKind?_eq_some_iff] at named
  dsimp only
  split
  · rename_i bracket
    have opening : Reads (dimension.words * namesWords follow)
        (only .intConst * (only .closeBracket * namesWords follow)) parser.advance
        parser.advance.advance _ := .take bracket (by simp) fun rest => by
      rw [cons_mem_dimension_mul]
      simp [namesWords]
    have header := word.andThen opening
    split
    · rename_i array
      have size : Reads (only .intConst * (only .closeBracket * namesWords follow))
          (only .closeBracket * namesWords follow) parser.advance.advance
          parser.advance.advance.advance _ := .take array.1 (by simp) fun rest => by simp
      have closer : Reads (only .closeBracket * namesWords follow) (namesWords follow)
          parser.advance.advance.advance parser.advance.advance.advance.advance _ :=
        .take array.2 (by simp) fun rest => by simp
      refine ((header.andThen size).andThen closer).mono ?_
      rintro _ _ ⟨_, _, rfl, _, ⟨_, _, rfl, _, ⟨_, _, rfl, _, ⟨rfl, _⟩, _, opener, rfl, opens, _⟩,
        _, constant, rfl, length, _⟩, _, closer, rfl, closes, _⟩
      exact .array named opens length closes
    · rename_i notArray
      have failed : Reads (only .intConst * (only .closeBracket * namesWords follow))
          (namesWords follow) parser.advance.advance _ fun _ => False :=
        reads_noLength notArray (names_inhabited inhabited)
      exact (header.andThen failed).mono fun _ _ ⟨_, _, _, _, _, _, never⟩ => never.elim
  · rename_i scalar
    have look : Reads (dimension.words * namesWords follow) (namesWords follow) parser.advance
        parser.advance _ := .look (fun rest member => ?_) fun rest member =>
      (cons_mem_dimension_mul.mp member).resolve_right fun held => scalar held.1
    · refine (word.andThen look).mono ?_
      rintro _ _ ⟨_, _, rfl, _, ⟨rfl, _⟩, _, rfl⟩
      exact .scalar named
    · rw [dimension_words, add_mul, one_mul]
      exact .inl member

private theorem reads_identifier (parser : Parser) (inhabited : ∃ word, word ∈ follow) :
    Reads (only .identifier * follow) follow parser parser.identifier.2 fun taken =>
      ∃ token name, taken = [token] ∧ token.Names name ∧ parser.identifier.1 = some name := by
  rw [Parser.identifier]
  split
  · rename_i present
    have here : parser.kind ≠ .eof := by simp [present]
    refine (Reads.advance here fun rest => ?_).mono ?_
    · rw [cons_mem_only_mul, and_iff_right present]
    · rintro _ _ ⟨rfl, wellFormed⟩
      exact ⟨_, _, rfl, names_of_identifier wellFormed present, rfl⟩
  · rename_i other
    refine .fail .identifier (only_inhabited _ inhabited) (fun rest => ?_) (.refl _)
    rw [cons_mem_only_mul]
    exact fun held => other held.1

/-- Every name that was to be read was there. -/
private theorem names_of_read
    (sequence : Sequence (fun taken value => ∃ name, value = some name ∧ FurtherNameTree taken name)
      taken values) :
    ∃ names, values = names.map some ∧ Sequence FurtherNameTree taken names := by
  induction sequence with
  | nil => exact ⟨[], rfl, .nil⟩
  | cons first _ ih =>
    obtain ⟨name, rfl, named⟩ := first
    obtain ⟨names, rfl, others⟩ := ih
    exact ⟨name :: names, rfl, .cons named others⟩

private theorem reads_furtherNames (parser : Parser) (inhabited : ∃ word, word ∈ follow) :
    Reads (furtherName.words∗ * (only .semicolon * follow)) (only .semicolon * follow) parser
      (parser.repeatWhile (· = .comma) fun comma => comma.advance.identifier).2 fun taken =>
        ∃ names, (parser.repeatWhile (· = .comma) fun comma => comma.advance.identifier).1 =
          names.map some ∧ Sequence FurtherNameTree taken names := by
  have more := kstar_inhabited furtherName.words (only_inhabited .semicolon inhabited)
  refine (reads_repeatWhile (fun parser comma => ?_) (fun kind rest goes => ?_)
    (fun kind rest stopped => ?_) rfl parser).mono fun _ _ => names_of_read
  · have comma : parser.kind = .comma := by simpa using comma
    have advance : Reads (furtherName.words * (furtherName.words∗ * (only .semicolon * follow)))
        (only .identifier * (furtherName.words∗ * (only .semicolon * follow))) parser
        parser.advance _ := .take comma (by simp) fun rest => by
      rw [cons_mem_furtherName_mul, and_iff_right rfl]
    refine (advance.andThen (reads_identifier _ more)).mono ?_
    rintro _ _ ⟨_, _, rfl, _, ⟨separator, rfl, separates, _⟩, _, token, name, rfl, named, same⟩
    exact ⟨by simp, name, same, .name separates named⟩
  · rw [cons_mem_only_mul]
    rintro ⟨rfl, _⟩
    simp at goes
  · rw [cons_mem_furtherName_mul]
    rintro ⟨rfl, _⟩
    simp at stopped

private theorem reads_declaration (starts : startsType parser.kind)
    (inhabited : ∃ word, word ∈ follow) :
    Reads (declaration.words * follow) follow parser parser.declaration.2 fun taken =>
      DeclarationTree taken parser.declaration.1 := by
  have more := kstar_inhabited furtherName.words (only_inhabited .semicolon inhabited)
  have header := (reads_type starts inhabited).andThen (reads_identifier _ more)
  have names := (header.andThen (reads_furtherNames _ inhabited)).before_quiet
    (.recordDeclarations _ parser.declaration.1)
  refine (names.andThen (.expect _ .semicolon (by simp) inhabited)).mono ?_
  rintro _ _ ⟨_, _, rfl, _, ⟨_, _, rfl, _, ⟨_, _, rfl, _, type, _, token, name, rfl, named, first⟩,
    _, names, others, further⟩, _, stop, rfl, stopping, _⟩
  have declared : parser.declaration.1 = (name :: names).map fun name => ⟨parser.type.1, name⟩ := by
    have found : ((name :: names).map some).reduceOption = name :: names := by
      change ((name :: names).map some).filterMap id = name :: names
      rw [List.filterMap_map]
      exact List.filterMap_some
    simp only [Parser.declaration, first, others, ← List.map_cons, found]
  rw [declared]
  simpa using DeclarationTree.declaration type named further stopping

private theorem DeclarationTree.ne_nil (tree : DeclarationTree tokens group) : tokens ≠ [] := by
  cases tree
  simp

private theorem ends_of_startsType (starts : startsType kind) :
    kind ≠ .closeBrace ∧ Table.standard.statement kind = none := by
  cases kind <;> simp_all [startsType, baseTypeOfKind?, Table.standard]

private theorem reads_declarations (parser : Parser) (inhabited : ∃ word, word ∈ follow) :
    Reads (declaration.words∗ * (statement.words∗ * (only .closeBrace * follow)))
      (statement.words∗ * (only .closeBrace * follow)) parser parser.declarations.2 fun taken =>
        Sequence DeclarationTree taken parser.declarations.1 := by
  refine reads_repeatWhile (fun parser starts => ?_) (fun kind rest goes => ?_)
    (fun kind rest stopped => ?_) rfl parser
  · exact (reads_declaration starts (kstar_inhabited _ (kstar_inhabited _
      (only_inhabited _ inhabited)))).mono fun _ _ tree => ⟨tree.ne_nil, tree⟩
  · obtain ⟨goesOn, none⟩ := ends_of_startsType goes
    rw [mem_kstar_mul, cons_mem_only_mul]
    rintro (⟨same, _⟩ | stated)
    · exact goesOn same
    · exact not_mem_statement_mul none stated
  · rw [cons_mem_declaration_mul, ← startsType_eq]
    simp [stopped]

/-! ### Programs -/

/-- Every step takes the token that must come next. -/
private theorem reads_header (parser : Parser) (inhabited : ∃ word, word ∈ follow) :
    Reads (only .intWord * (only .mainWord * (only .openParen * (only .closeParen *
        (only .openBrace * follow))))) follow parser
      (((((parser.expect .intWord).expect .mainWord).expect .openParen).expect .closeParen).expect
        .openBrace) fun taken =>
      kindsOf taken = [.intWord, .mainWord, .openParen, .closeParen, .openBrace] := by
  have braced := only_inhabited .openBrace inhabited
  have closed := only_inhabited .closeParen braced
  have opened := only_inhabited .openParen closed
  have name := (Reads.expect parser .intWord (by simp) (only_inhabited _ opened)).andThen
    (.expect _ .mainWord (by simp) opened)
  have parens := (name.andThen (.expect _ .openParen (by simp) closed)).andThen
    (.expect _ .closeParen (by simp) braced)
  refine (parens.andThen (.expect _ .openBrace (by simp) inhabited)).mono ?_
  rintro _ _ ⟨_, _, rfl, _, ⟨_, _, rfl, _, ⟨_, _, rfl, _, ⟨_, _, rfl, _, ⟨_, rfl, first, _⟩, _, _,
    rfl, second, _⟩, _, _, rfl, third, _⟩, _, _, rfl, fourth, _⟩, _, _, rfl, fifth, _⟩
  simp [first, second, third, fourth, fifth]

private theorem reads_programStatements (parser : Parser) (inhabited : ∃ word, word ∈ follow) :
    Reads (statement.words∗ * (only .closeBrace * follow)) (only .closeBrace * follow) parser
      (parser.statements .standard).2 fun taken =>
        Sequence StatementTree taken (parser.statements .standard).1 := by
  have stops : ∀ kind, startsStatement kind = false → Table.standard.statement kind = none := by
    intro kind stopped
    cases kind <;> first | rfl | cases stopped
  exact reads_statements (reads_stmtWithin _) inhabited rfl rfl stops parser

/-- Reads a program up to its last brace. -/
def Parser.programBody (parser : Parser) : Program × Parser :=
  let opened := ((((parser.expect .intWord).expect .mainWord).expect .openParen).expect
    .closeParen).expect .openBrace
  let declarations := opened.declarations
  let statements := declarations.2.statements .standard
  (⟨declarations.1, statements.1⟩, statements.2)

theorem Parser.program_eq (parser : Parser) : parser.program .standard =
    (parser.programBody.1,
      ((parser.programBody.2.expect .closeBrace).expect .eof).skipTo []) := by
  rw [program, programBody]

private theorem reads_programBody (parser : Parser) :
    Reads program.words (only .closeBrace * only .eof) parser parser.programBody.2 fun taken =>
      ∀ closer eof : Token, closer.kind = .closeBrace → eof.kind = .eof →
        ProgramTree (taken ++ [closer, eof]) parser.programBody.1 := by
  have inhabited : ∃ word, word ∈ only .eof := ⟨_, mem_only _⟩
  have bodyInhabited := kstar_inhabited declaration.words
    (kstar_inhabited statement.words (only_inhabited .closeBrace inhabited))
  have header := reads_header parser bodyInhabited
  have declarations := header.andThen (reads_declarations _ inhabited)
  have statements := declarations.andThen (reads_programStatements _ inhabited)
  rw [program_words]
  dsimp only [Parser.programBody]
  refine statements.mono ?_
  rintro _ _ ⟨_, stated, rfl, _, ⟨opening, declared, rfl, _, header, _, groups⟩, _, stmts⟩
    closer eof closing atEnd
  have footer : kindsOf [closer, eof] = [.closeBrace, .eof] := by simp [closing, atEnd]
  simpa using ProgramTree.program header groups stmts footer

/-- The parser is at the last brace, and no other token is left. -/
structure Parser.AtLastBrace (parser : Parser) (closer : Token) : Prop where
  closes : closer.kind = .closeBrace
  ahead : parser.ahead = [closer]

/-- All that was left was taken in silence, and is a program. -/
structure Accepts (before after : Parser) (program : Program) : Prop where
  errors : after.errors = before.errors
  refused : after.nesting.refused = before.nesting.refused
  unknowns : after.unknowns = before.unknowns + before.ahead.countP Token.isUnknown
  tree : ProgramTree before.upcoming program

private theorem accepts_of_atLastBrace {body : Parser} {whole : Program}
    (consumes : Consumes parser body taken) (last : body.AtLastBrace closer)
    (tree : ∀ eof : Token, eof.kind = .eof → ProgramTree (taken ++ [closer, eof]) whole) :
    Accepts parser (((body.expect .closeBrace).expect .eof).skipTo []) whole := by
  have closed := consumes.trans (.take last.ahead)
  have brace : body.kind = .closeBrace := by
    simp [Parser.kind, Parser.current, last.ahead, last.closes]
  have atEnd : body.advance.ahead = [] := by simp [Parser.advance, Parser.pass, last.ahead]
  have eof : body.advance.kind = .eof := by simp [Parser.kind, Parser.current, atEnd]
  have ahead : parser.ahead = taken ++ [closer] := by rw [consumes.ahead, last.ahead]
  rw [Parser.expect_of_kind brace, Parser.expect_of_kind eof]
  refine ⟨consumes.errors, consumes.refused, ?_, ?_⟩
  · rw [ahead, ← closed.unknowns]
    simp [Parser.skipTo, Parser.advance, Parser.pass, last.ahead]
  · rw [Parser.upcoming, ahead, List.append_assoc]
    exact tree _ rfl

private theorem fails_of_more {closed : Parser} (ready : closed.Ready) (more : closed.kind ≠ .eof) :
    Fails (only .eof) closed ((closed.expect .eof).skipTo []) := by
  rw [Parser.expect_of_ne more]
  have reported : Reads (only .eof) 1 closed ((closed.report .eof).skipTo []) fun _ => False := by
    refine .fail .eof ⟨_, mem_only _⟩ (fun rest member => ?_) (grows_pass _ _)
    exact more (List.cons.inj member).1
  rcases reported.outcome ready with ⟨_, _, _, never⟩ | fails
  · exact never.elim
  · exact fails

/-- A program is read in silence up to its last brace, or a token is reported. -/
private theorem atLastBrace_or_fails (ready : parser.Ready)
    (present : ∀ token ∈ parser.ahead, token.kind ≠ .eof) :
    (∃ taken closer, Consumes parser parser.programBody.2 taken ∧
        parser.programBody.2.AtLastBrace closer ∧
        ∀ eof : Token, eof.kind = .eof →
          ProgramTree (taken ++ [closer, eof]) parser.programBody.1) ∨
      Fails program.words parser (parser.program .standard).2 := by
  have closing := (reads_programBody parser).andThen
    (.expect _ .closeBrace (by simp) ⟨_, mem_only .eof⟩)
  have grows (closed : Parser) : Grows closed ((closed.expect .eof).skipTo []) := by
    rw [Parser.expect]
    split
    · exact (grows_pass _ _).trans (grows_pass _ _)
    · exact (grows_reportAs ..).trans (grows_pass _ _)
  rw [Parser.program_eq]
  rcases closing.outcome ready with ⟨_, consumes, narrows, taken, _, rfl, body, tree, brace,
    closer, rfl, closes, _⟩ | fails
  · cases atEnd : (parser.programBody.2.expect .closeBrace).ahead with
    | nil =>
      have ahead : parser.programBody.2.ahead = [closer] := by rw [brace.ahead, atEnd]; rfl
      exact .inl ⟨taken, closer, body, ⟨closes, ahead⟩, fun eof => tree closer eof closes⟩
    | cons token rest =>
      have more : (parser.programBody.2.expect .closeBrace).kind ≠ .eof := by
        simpa [Parser.kind, Parser.current, atEnd] using
          present token (by simp [consumes.ahead, atEnd])
      exact .inr ((fails_of_more (consumes.ready ready) more).consumed_before consumes narrows)
  · exact .inr (fails.grow (grows _))

/-- A program is read in silence, or a token is reported. -/
theorem accepts_or_fails (ready : parser.Ready)
    (present : ∀ token ∈ parser.ahead, token.kind ≠ .eof) :
    Accepts parser (parser.program .standard).2 (parser.program .standard).1 ∨
      Fails program.words parser (parser.program .standard).2 := by
  rcases atLastBrace_or_fails ready present with ⟨_, _, consumes, last, tree⟩ | fails
  · rw [Parser.program_eq]
    exact .inl (accepts_of_atLastBrace consumes last tree)
  · exact .inr fails

/-- Nothing stands behind a program that is read in silence. -/
theorem atLastBrace_of_silent (ready : parser.Ready)
    (present : ∀ token ∈ parser.ahead, token.kind ≠ .eof)
    (silent : (parser.program .standard).2.errors = parser.errors) :
    ∃ taken closer, Consumes parser parser.programBody.2 taken ∧
      parser.programBody.2.AtLastBrace closer := by
  rcases atLastBrace_or_fails ready present with ⟨taken, closer, consumes, last, _⟩ |
    ⟨error, later, errors, _⟩
  · exact ⟨taken, closer, consumes, last⟩
  · have longer := congrArg List.length (silent.symm.trans errors)
    rw [List.length_append, List.length_cons] at longer
    omega

end ToyC
