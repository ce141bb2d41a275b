import ToyC.Proofs.CutOff
import ToyC.Proofs.ListsOfTree
import ToyC.Proofs.Progress
import ToyC.Proofs.SpelledTree

/-! What the limit on nesting does to a program. A value with more operators, or
in more groups, than levels are left is read as far as they reach. The rest is
skipped up to the semicolon of its statement, and the next statement is read as
if nothing had been reported. -/
namespace ToyC

/-! ### Assignments -/

/-- Wherever these tokens stand before a semicolon, they are read as this value,
with the reports for the index of the first one and for the semicolon. -/
def ReadsValue (levels : Nat) (tokens : List Token) (tree : Expr)
    (reports : Nat → Token → List SyntaxError) : Prop :=
  ∀ ⦃parser : Parser⦄ ⦃stop rest⦄, stop.kind = .semicolon → parser.Unreported →
    parser.ahead = tokens ++ stop :: rest →
      (Table.standard.exprWithin levels parser).1 = tree ∧
        Passes parser (Table.standard.exprWithin levels parser).2 tokens
          (reports parser.consumed stop)

theorem readsValue_row {operations : List Operation} (closed : ClosedTree [token] tree)
    (atomic : ∀ operation ∈ operations, operation.Atomic level) (levels : Nat) :
    ReadsValue (levels + 1) (token :: operations.flatMap Operation.tokens)
      (leftNested tree (operations.take levels)) fun index _ =>
        cutReports levels (index + 1) operations :=
  fun _ _ _ semicolon unreported ahead =>
    exprWithin_row closed atomic semicolon unreported ahead levels

theorem readsValue_token (closed : ClosedTree [token] tree) (levels : Nat) :
    ReadsValue (levels + 1) [token] tree fun _ _ => [] := by
  have row := readsValue_row closed (List.forall_mem_nil fun operation : Operation =>
    operation.Atomic 0) levels
  simpa [leftNested, cutReports] using row

theorem readsValue_groups (closed : ClosedTree [token] tree)
    (opening : ∀ token ∈ opens, token.kind = .openParen)
    (closing : ∀ token ∈ closes, token.kind = .closeParen) (paired : opens.length = closes.length)
    (room : opens.length < levels) :
    ReadsValue levels (opens ++ token :: closes) tree fun _ _ => [] := by
  intro parser stop rest semicolon _ ahead
  have ends : HeadAvoids continuesExpression (stop :: rest) := .of_kind semicolon rfl
  obtain ⟨same, takes⟩ :=
    exprWithin_groups closed opening closing paired room ends (by simpa using ahead)
  exact ⟨same, takes.passes⟩

/-- In as many groups as levels are left. -/
theorem readsValue_cut (opening : ∀ token ∈ opens, token.kind = .openParen)
    (full : opens.length = levels + 1) (skipped : Skipped (first :: more)) :
    ReadsValue (levels + 1) (opens ++ first :: more) .error fun index stop =>
      [stop.unclosed (index + (opens ++ first :: more).length),
        first.tooDeep (index + opens.length)] := by
  intro parser stop rest semicolon unreported ahead
  obtain ⟨opener, opens, rfl⟩ := List.exists_cons_of_length_eq_add_one full
  obtain rfl : opens.length = levels := Nat.succ.inj full
  have whole := exprWithin_cut opening skipped semicolon unreported (by simpa using ahead)
  have length : (opener :: opens ++ first :: more).length = opens.length + more.length + 2 := by
    simp only [List.length_append, List.length_cons]
    omega
  rwa [← length] at whole

/-- In more groups than levels are left. -/
theorem readsValue_deep (closed : ClosedTree [token] tree)
    (opening : ∀ token ∈ opens, token.kind = .openParen)
    (closing : ∀ token ∈ closes, token.kind = .closeParen) (deep : levels < opens.length) :
    ∃ next, (opens ++ token :: closes)[levels + 1]? = some next ∧
      ReadsValue (levels + 1) (opens ++ token :: closes) .error fun index stop =>
        [stop.unclosed (index + (opens ++ token :: closes).length),
          next.tooDeep (index + (levels + 1))] := by
  have full : (opens.take (levels + 1)).length = levels + 1 := List.length_take_of_le deep
  -- What gets no level is one more group, or the operand itself.
  have some : opens.drop (levels + 1) ++ token :: closes ≠ [] :=
    List.append_ne_nil_of_right_ne_nil _ (List.cons_ne_nil _ _)
  obtain ⟨next, more, rest⟩ := List.exists_cons_of_ne_nil some
  have skipped : Skipped (next :: more) := rest ▸ skipped_of_groups closed
    (fun opener member => opening opener (List.mem_of_mem_drop member)) closing
  have split : opens ++ token :: closes = opens.take (levels + 1) ++ next :: more := by
    rw [← rest, ← List.append_assoc, List.take_append_drop]
  have reads := readsValue_cut
    (fun opener member => opening opener (List.mem_of_mem_take member)) full skipped
  rw [full, ← split] at reads
  refine ⟨next, ?_, reads⟩
  rw [split, List.getElem?_append_right full.le, full, Nat.sub_self]
  rfl

/-- The tokens of an assignment. -/
structure AssignmentTokens (target : String) (value : List Token) (stop : Token)
    (tokens : List Token) : Prop where
  spelled : ∃ name sign, name.Names target ∧ sign.kind = .assign ∧
    tokens = name :: sign :: (value ++ [stop])
  semicolon : stop.kind = .semicolon

theorem AssignmentTokens.starts {parser : Parser}
    (assignment : AssignmentTokens target value stop tokens)
    (ahead : parser.ahead = tokens ++ rest) : startsStatement parser.kind := by
  obtain ⟨⟨name, sign, named, _, rfl⟩, _⟩ := assignment
  rw [kind_of_ahead ahead, named.1]
  rfl

theorem stmtWithin_assignment {parser : Parser} (reads : ReadsValue levels value tree reports)
    (assignment : AssignmentTokens target value stop tokens) (unreported : parser.Unreported)
    (ahead : parser.ahead = tokens ++ rest) :
    let whole := Table.standard.stmtWithin (levels + 1) parser
    whole.1 = .assign target tree ∧ whole.2.Unreported ∧
      Passes parser whole.2 tokens (reports (parser.consumed + 2) stop) := by
  obtain ⟨⟨name, sign, named, assigns, rfl⟩, semicolon⟩ := assignment
  have enter : parser.enter.ahead = name :: sign :: (value ++ stop :: rest) := by
    change parser.ahead = _
    simpa using ahead
  have kind : parser.enter.kind = .identifier := (kind_of_ahead enter).trans named.1
  have target' : parser.enter.current.identifier?.getD "" = target := by
    simp [Parser.current, enter, Token.identifier?, named.2]
  have header : Consumes parser.enter (parser.enter.advance.recordIdentifier target) [name] :=
    (Consumes.take enter).trans (.recordIdentifier _ _)
  have behind := header.leaves enter
  have equals : (parser.enter.advance.recordIdentifier target).kind = .assign :=
    (kind_of_ahead behind).trans assigns
  have opened := header.trans (.take behind)
  obtain ⟨same, passes⟩ := reads semicolon (opened.unreported unreported) (opened.leaves enter)
  have left := passes.leaves (opened.leaves enter)
  have stops := (kind_of_ahead left).trans semicolon
  have last : Consumes _ _ [stop] := (Consumes.take left).trans (.recordAssignment _ ⟨target, tree⟩)
  have whole : Table.standard.stmtWithin (levels + 1) parser =
      (.assign target tree, ((Table.standard.exprWithin levels
        (parser.enter.advance.recordIdentifier target).advance).2.advance.recordAssignment
          ⟨target, tree⟩).leave 1) := by
    have rule : Table.standard.statement parser.enter.kind = some .assignment := by
      rw [kind]
      rfl
    rw [Table.stmtWithin]
    simp only [rule, StatementRule.read, target', Parser.assignmentTo, equals, same,
      Parser.expect_of_kind stops]
  rw [whole]
  refine ⟨rfl, passes.unreported (last.trans (.leave _ 1)) (opened.unreported unreported), ?_⟩
  have consumed : (parser.enter.advance.recordIdentifier target).advance.consumed =
      parser.consumed + 2 := opened.consumed
  rw [consumed] at passes
  simpa using ((opened.passes.trans passes).trans last.passes).nested

/-! ### A program with two assignments -/

/-- Tokens that are expected one after the other are taken. -/
private theorem consumes_expects {parser : Parser} (ahead : parser.ahead = taken ++ rest) :
    Consumes parser ((kindsOf taken).foldl Parser.expect parser) taken ∧
      ((kindsOf taken).foldl Parser.expect parser).nesting = parser.nesting := by
  induction taken generalizing parser with
  | nil => exact ⟨.refl parser, rfl⟩
  | cons token taken ih =>
    rw [kindsOf_cons, List.foldl_cons, Parser.expect_of_kind (kind_of_ahead ahead)]
    obtain ⟨others, nesting⟩ := ih (advance_ahead ahead)
    exact ⟨(Consumes.take ahead).trans others, nesting⟩

private theorem repeatWhile_of_stop {parser : Parser} {goesOn : TokenKind → Bool}
    (stopped : goesOn parser.kind = false) (step : Parser → α × Parser) :
    parser.repeatWhile goesOn step = ([], parser) := by
  rw [Parser.repeatWhile]
  cases parser.ahead.length with
  | zero => rfl
  | succ => simp [Parser.repeatUpTo, stopped]

private theorem not_startsType (starts : startsStatement kind) : startsType kind = false := by
  cases kind <;> first | rfl | cases starts

/-- The tokens `int a;`. -/
private theorem declaration_int {parser : Parser} (typed : type.kind = .intWord)
    (named : name.Names target) (semicolon : stop.kind = .semicolon)
    (ahead : parser.ahead = [type, name, stop] ++ rest) :
    parser.declaration.1 = [⟨.scalar .int, target⟩] ∧
      Consumes parser parser.declaration.2 [type, name, stop] ∧
      parser.declaration.2.nesting = parser.nesting := by
  have ahead' := advance_ahead ahead
  have ahead'' := advance_ahead ahead'
  have scalar : parser.type = (.scalar .int, parser.advance) := by
    simp [Parser.type, kind_of_ahead ahead, typed, baseTypeOfKind?, kind_of_ahead ahead', named.1]
  have first : parser.advance.identifier = (some target, parser.advance.advance) := by
    simp [Parser.identifier, kind_of_ahead ahead', named.1, Parser.current, ahead',
      Token.identifier?, named.2]
  have noComma : parser.advance.advance.kind ≠ .comma := by
    simp [kind_of_ahead ahead'', semicolon]
  have others : parser.advance.advance.repeatWhile (· = .comma)
      (fun comma => comma.advance.identifier) = ([], parser.advance.advance) :=
    repeatWhile_of_stop (decide_eq_false noComma) _
  have stops : (parser.advance.advance.recordDeclarations [⟨.scalar .int, target⟩]).kind =
      .semicolon := (kind_of_ahead ahead'').trans semicolon
  have declaration : parser.declaration = ([⟨.scalar .int, target⟩],
      (parser.advance.advance.recordDeclarations [⟨.scalar .int, target⟩]).advance) := by
    rw [← Parser.expect_of_kind stops, Parser.declaration]
    simp only [scalar, first, others]
    rfl
  rw [declaration]
  exact ⟨rfl, ((Consumes.take ahead).trans (.take ahead')).trans
    ((Consumes.recordDeclarations _ _).trans (.take ahead'')), rfl⟩

/-- What follows `int a;` declares nothing. -/
private theorem declarations_int {parser : Parser} (typed : type.kind = .intWord)
    (named : name.Names target) (semicolon : stop.kind = .semicolon)
    (ends : ∀ after : Parser, after.ahead = rest → startsType after.kind = false)
    (ahead : parser.ahead = [type, name, stop] ++ rest) :
    parser.declarations.1 = [[⟨.scalar .int, target⟩]] ∧
      Consumes parser parser.declarations.2 [type, name, stop] ∧
      parser.declarations.2.nesting = parser.nesting := by
  obtain ⟨declared, consumes, nesting⟩ := declaration_int typed named semicolon ahead
  have starts : startsType parser.kind := by
    rw [kind_of_ahead ahead, typed]
    rfl
  have whole : parser.declarations = ([parser.declaration.1], parser.declaration.2) := by
    have ended := ends _ (consumes.leaves ahead)
    rw [Parser.declarations, repeatWhile_eq
      (fun parser starts => (declaration_takes parser starts).shorter) rfl, if_pos starts,
      repeatWhile_of_stop ended]
  rw [whole, declared]
  exact ⟨rfl, consumes, nesting⟩

/-- Two assignments, and the brace behind them. -/
private theorem statements_two {parser : Parser} (outside : parser.nesting.depth = 0)
    (unreported : parser.Unreported) (reads : ReadsValue 255 value tree reports)
    (reads' : ReadsValue 255 value' tree' reports')
    (first : AssignmentTokens target value stop tokens)
    (second : AssignmentTokens target' value' stop' tokens') (closes : brace.kind = .closeBrace)
    (ahead : parser.ahead = tokens ++ (tokens' ++ brace :: rest)) :
    let whole := parser.statements .standard
    whole.1 = [.assign target tree, .assign target' tree'] ∧
      Passes parser whole.2 (tokens ++ tokens')
        (reports' (parser.consumed + tokens.length + 2) stop' ++
          reports (parser.consumed + 2) stop) := by
  have levels : parser.nesting.levelsLeft = 256 := by rw [Nesting.levelsLeft, outside]; rfl
  obtain ⟨tree, unreported', passes⟩ := stmtWithin_assignment reads first unreported ahead
  have ahead' := passes.leaves ahead
  obtain ⟨tree', _, passes'⟩ := stmtWithin_assignment reads' second unreported' ahead'
  have ended := (kind_of_ahead (passes'.leaves ahead')).trans closes
  have unfolded :=
    repeatWhile_eq (stmtWithin_shorter rfl rfl 256) (rfl : startsStatement .eof = false)
  rw [Parser.statements, levels, unfolded, if_pos (first.starts ahead), unfolded,
    if_pos (second.starts ahead'), repeatWhile_of_stop (by rw [ended]; rfl)]
  refine ⟨by rw [tree, tree'], ?_⟩
  rw [passes.consumed] at passes'
  exact passes.trans passes'

/-- A program with one variable and two assignments to it. -/
private theorem program_two {parser : Parser} (outside : parser.nesting.depth = 0)
    (unreported : parser.Unreported) (reads : ReadsValue 255 value tree reports)
    (reads' : ReadsValue 255 value' tree' fun _ _ => [])
    (header : kindsOf opening = [.intWord, .mainWord, .openParen, .closeParen, .openBrace])
    (typed : type.kind = .intWord) (named : name.Names target) (ends : semicolon.kind = .semicolon)
    (first : AssignmentTokens target value stop tokens)
    (second : AssignmentTokens target value' stop' tokens') (closes : brace.kind = .closeBrace)
    (ahead : parser.ahead =
      opening ++ ([type, name, semicolon] ++ (tokens ++ (tokens' ++ [brace])))) :
    (parser.program .standard).1 = ⟨[[⟨.scalar .int, target⟩]],
        [.assign target tree, .assign target tree']⟩ ∧
      (parser.program .standard).2.errors =
        reports (parser.consumed + 10) stop ++ parser.errors := by
  obtain ⟨opened, nesting⟩ := consumes_expects ahead
  rw [header] at opened nesting
  have behind := opened.leaves ahead
  have statement : ∀ after : Parser, after.ahead = tokens ++ (tokens' ++ [brace]) →
      startsType after.kind = false := fun _ left => not_startsType (first.starts left)
  obtain ⟨declared, consumes, nesting'⟩ := declarations_int typed named ends statement behind
  have read := opened.trans consumes
  have inside := consumes.leaves behind
  obtain ⟨stmts, passes⟩ := statements_two (by rw [nesting', nesting, outside])
    (read.unreported unreported) reads reads' first second closes inside
  have left := passes.leaves (by rw [inside, List.append_assoc])
  have closing := (kind_of_ahead left).trans closes
  have nothing := advance_ahead left
  have atEnd := kind_of_atEnd nothing
  rw [Parser.program_eq]
  dsimp only [Parser.programBody]
  simp only [List.foldl_cons, List.foldl_nil] at declared read stmts passes closing atEnd
  rw [Parser.expect_of_kind closing, Parser.expect_of_kind atEnd]
  refine ⟨by rw [declared, stmts], ?_⟩
  have five : opening.length = 5 := by simpa [kindsOf] using congrArg List.length header
  have index := read.consumed
  rw [List.length_append, five] at index
  have errors := passes.errors
  rw [index, read.errors, List.nil_append, Nat.add_assoc] at errors
  have silent (parser : Parser) : (parser.advance.advance.skipTo []).errors = parser.errors := rfl
  rw [silent]
  exact errors

/-! ### Texts -/

/-- The text is `int main() \x7b int a; a = ...; a = 2; \x7d` in some layout, with these
tokens as the first value. -/
def AssignsTwice (source : String) (value : List Token) : Prop :=
  ∃ opening closing, tokenize source = opening ++ (value ++ closing) ∧
    Spells opening
      ([⟨.intWord, none⟩, ⟨.mainWord, none⟩, ⟨.openParen, none⟩, ⟨.closeParen, none⟩,
        ⟨.openBrace, none⟩] ++
        [⟨.intWord, none⟩, .name "a", ⟨.semicolon, none⟩, .name "a", ⟨.assign, none⟩]) ∧
    Spells closing
      [⟨.semicolon, none⟩, .name "a", ⟨.assign, none⟩, ⟨.intConst, some (.int 2)⟩,
        ⟨.semicolon, none⟩, ⟨.closeBrace, none⟩, ⟨.eof, none⟩]

/-- A token in the first line. -/
def Token.inLine (kind : TokenKind) (literal : Option Literal) (column : Nat) : Token :=
  ⟨kind, literal, ⟨1, .ofNat column⟩⟩

/-- The text in one line, with its first value from column 25 on. -/
def twiceInLine (value : List Char) : List Char :=
  "int main() \x7b int a; a = ".toList ++ (value ++ "; a = 2; \x7d".toList)

/-- What is in front of the first value. -/
def openingInLine : List Token :=
  [.inLine .intWord none 1, .inLine .mainWord none 5, .inLine .openParen none 9,
    .inLine .closeParen none 10, .inLine .openBrace none 12, .inLine .intWord none 14,
    .inLine .identifier (some (.identifier "a")) 18, .inLine .semicolon none 19,
    .inLine .identifier (some (.identifier "a")) 21, .inLine .assign none 23]

/-- What is behind a first value that ends before this column. -/
def closingInLine (column : Nat) : List Token :=
  [.inLine .semicolon none column, .inLine .identifier (some (.identifier "a")) (column + 2),
    .inLine .assign none (column + 4), .inLine .intConst (some (.int 2)) (column + 6),
    .inLine .semicolon none (column + 7), .inLine .closeBrace none (column + 9),
    .inLine .eof none (column + 10)]

theorem assignsTwice_inLine {characters : List Char} {value : List Token}
    (scanned : (TokenStream.scan ⟨twiceInLine characters, .start⟩).toList =
      openingInLine ++ (value ++ closingInLine column)) :
    AssignsTwice (String.ofList (twiceInLine characters)) value ∧
      (tokenize (String.ofList (twiceInLine characters)))[10 + value.length]? =
        some (.inLine .semicolon none column) := by
  have tokens : tokenize (String.ofList (twiceInLine characters)) =
      openingInLine ++ (value ++ closingInLine column) := by
    -- A scan of the characters is evaluated much faster than one of the string.
    rw [← scanned, tokenize, Cursor.start, String.toList_ofList]
  have ten : openingInLine.length = 10 := rfl
  refine ⟨⟨_, _, tokens, rfl, rfl⟩, ?_⟩
  rw [tokens, ← ten, List.getElem?_append_right (Nat.le_add_right _ _), Nat.add_sub_cancel_left,
    List.getElem?_append_right le_rfl, Nat.sub_self]
  rfl

/-- With this as the first value, the second assignment is read as it stands,
and both are recorded. -/
structure ReadsTwice (source : String) (tree : Expr) : Prop where
  program : (parse source).program =
    ⟨[[⟨.scalar .int, "a"⟩]], [.assign "a" tree, .assign "a" (.int 2)]⟩
  assignments : (parse source).inventory.assignments = [⟨"a", tree⟩, ⟨"a", .int 2⟩]

/-- All tokens but the closing one. -/
private theorem tokens_of_tokenize {source : String} {tokens : List Token}
    (whole : tokenize source = tokens ++ [last]) :
    (Parser.ofSource source).ahead = tokens :=
  (List.append_inj' whole rfl).1

private theorem parse_assignsTwice {source : String} (assigns : AssignsTwice source value)
    (reads : ReadsValue 255 value tree reports) :
    ∃ stop : Token, stop.kind = .semicolon ∧ (tokenize source)[10 + value.length]? = some stop ∧
      ReadsTwice source tree ∧ (parse source).errors = (reports 10 stop).reverse := by
  obtain ⟨start, _, tokens, opening, closing⟩ := assigns
  obtain ⟨stop, _, rfl, ⟨semicolon, _⟩, closing⟩ := Spells.cons_iff.mp closing
  have ten : start.length = 10 := by simpa using congrArg List.length opening
  have place : (tokenize source)[10 + value.length]? = some stop := by
    rw [tokens, List.getElem?_append_right (by omega), ten, Nat.add_sub_cancel_left,
      List.getElem?_append_right le_rfl, Nat.sub_self]
    rfl
  obtain ⟨header, _, rfl, main, opening⟩ := Spells.append_iff.mp opening
  obtain ⟨type, _, rfl, ⟨typed, _⟩, opening⟩ := Spells.cons_iff.mp opening
  obtain ⟨name, _, rfl, named, opening⟩ := Spells.name_cons_iff.mp opening
  obtain ⟨declared, _, rfl, ⟨ends, _⟩, opening⟩ := Spells.cons_iff.mp opening
  obtain ⟨target, _, rfl, targeted, opening⟩ := Spells.name_cons_iff.mp opening
  obtain ⟨sign, _, rfl, ⟨assigns, _⟩, nothing⟩ := Spells.cons_iff.mp opening
  obtain rfl := Spells.nil_iff.mp nothing
  obtain ⟨target', _, rfl, targeted', closing⟩ := Spells.name_cons_iff.mp closing
  obtain ⟨sign', _, rfl, ⟨assigns', _⟩, closing⟩ := Spells.cons_iff.mp closing
  obtain ⟨two, _, rfl, ⟨constant, carries⟩, closing⟩ := Spells.cons_iff.mp closing
  obtain ⟨stop', _, rfl, ⟨semicolon', _⟩, closing⟩ := Spells.cons_iff.mp closing
  obtain ⟨brace, _, rfl, ⟨closes, _⟩, closing⟩ := Spells.cons_iff.mp closing
  obtain ⟨last, _, rfl, _, nothing⟩ := Spells.cons_iff.mp closing
  obtain rfl := Spells.nil_iff.mp nothing
  have second : AssignmentTokens "a" [two] stop' [target', sign', two, stop'] :=
    ⟨⟨target', sign', targeted', assigns', rfl⟩, semicolon'⟩
  have closed : ClosedTree [two] (.int 2) := .constant (by rw [constant]; rfl) carries .int
  have whole : tokenize source = header ++ ([type, name, declared] ++ (target :: sign ::
      (value ++ [stop]) ++ ([target', sign', two, stop'] ++ [brace]))) ++ [last] := by
    rw [tokens]
    simp
  obtain ⟨program, errors⟩ := program_two rfl (ready_ofSource source).unreported reads
    (readsValue_token closed 254) main.kindsOf typed named ends
    ⟨⟨target, sign, targeted, assigns, rfl⟩, semicolon⟩ second closes (tokens_of_tokenize whole)
  have result : (parse source).program =
      ⟨[[⟨.scalar .int, "a"⟩]], [.assign "a" tree, .assign "a" (.int 2)]⟩ := by
    rw [parse, Parser.finishProgram, program]
  refine ⟨stop, semicolon, place, ⟨result, ?_⟩, ?_⟩
  · rw [(parse_describes source).assignments, result]
    rfl
  · have index : (Parser.ofSource source).consumed + 10 = 10 := Nat.zero_add 10
    have nothing : (Parser.ofSource source).errors = [] := rfl
    rw [parse, Parser.finishProgram, errors, index, nothing, List.append_nil]

/-- In `int main() \x7b int a; a = ...; a = 2; \x7d` let the first value have operators of one
level between constants or names, or one constant or name in groups. Up to 254
operators or groups it is read in silence. Of more operators the first 254 are
folded, and the next one is reported; of more groups none is read: the token
behind the 255th is reported, and the semicolon where its group is not closed.
The second assignment is always read as it stands. -/
theorem nesting_cut_at_boundary (source : String) :
    (∀ first tree operations level, ClosedTree [first] tree →
      (∀ operation ∈ operations, Operation.Atomic operation level) →
      AssignsTwice source (first :: operations.flatMap Operation.tokens) →
      (operations.length ≤ 254 →
        ReadsTwice source (leftNested tree operations) ∧ (parse source).errors = []) ∧
      (254 < operations.length →
        ReadsTwice source (leftNested tree (operations.take 254)) ∧
        ∃ operation, operations[254]? = some operation ∧
          (parse source).errors = [operation.token.tooDeep (10 + 1 + 2 * 254)])) ∧
    (∀ opens token tree closes, (∀ opener ∈ opens, Token.kind opener = .openParen) →
      ClosedTree [token] tree → (∀ closer ∈ closes, Token.kind closer = .closeParen) →
      opens.length = closes.length → AssignsTwice source (opens ++ token :: closes) →
      (opens.length ≤ 254 → ReadsTwice source tree ∧ (parse source).errors = []) ∧
      (254 < opens.length → ReadsTwice source .error ∧
        ∃ next stop, (opens ++ token :: closes)[255]? = some next ∧
          (tokenize source)[10 + (2 * opens.length + 1)]? = some stop ∧ stop.kind = .semicolon ∧
          (parse source).errors =
            [next.tooDeep (10 + 255), stop.unclosed (10 + (2 * opens.length + 1))])) := by
  constructor
  · intro first tree operations level closed atomic assigns
    obtain ⟨_, _, _, reads, errors⟩ :=
      parse_assignsTwice assigns (readsValue_row closed atomic 254)
    constructor
    · intro few
      rw [List.take_of_length_le few] at reads
      rw [cutReports, List.getElem?_eq_none few] at errors
      exact ⟨reads, errors⟩
    · intro many
      rw [cutReports, List.getElem?_eq_getElem many] at errors
      exact ⟨reads, operations[254], List.getElem?_eq_getElem many, errors⟩
  · intro opens token tree closes opening closed closing paired assigns
    constructor
    · intro few
      obtain ⟨_, _, _, reads, errors⟩ := parse_assignsTwice assigns
        (readsValue_groups closed opening closing paired (Nat.lt_succ_of_le few))
      exact ⟨reads, errors⟩
    · intro many
      have length : (opens ++ token :: closes).length = 2 * opens.length + 1 := by
        rw [List.length_append, List.length_cons, ← paired]
        omega
      obtain ⟨next, place, reads⟩ := readsValue_deep closed opening closing many
      obtain ⟨stop, semicolon, place', reads, errors⟩ := parse_assignsTwice assigns reads
      rw [length] at place' errors
      exact ⟨reads, next, stop, place, place', semicolon, errors⟩

/-- With 254 additions or groups and with 255. -/
theorem additions_and_groups_at_boundary :
    let addition (index : Nat) : Operation :=
      ⟨.inLine .plus none (26 + 2 * index), .plus,
        [.inLine .identifier (some (.identifier "a")) (27 + 2 * index)], .identifier "a"⟩
    let additions (count : Nat) := (List.range count).map addition
    let sum (count : Nat) :=
      String.ofList (twiceInLine ('1' :: (List.replicate count ['+', 'a']).flatten))
    let groups (count : Nat) :=
      String.ofList (twiceInLine (List.replicate count '(' ++ '1' :: List.replicate count ')'))
    (ReadsTwice (sum 254) (leftNested (.int 1) (additions 254)) ∧ (parse (sum 254)).errors = []) ∧
      (ReadsTwice (sum 255) (leftNested (.int 1) (additions 254)) ∧
        (parse (sum 255)).errors = [⟨.plus, .expression, ⟨1, 534⟩, 519, .tooDeep⟩]) ∧
      (ReadsTwice (groups 254) (.int 1) ∧ (parse (groups 254)).errors = []) ∧
      (ReadsTwice (groups 255) .error ∧
        (parse (groups 255)).errors = [⟨.intConst, .expression, ⟨1, 280⟩, 265, .tooDeep⟩,
          ⟨.semicolon, .closeParen, ⟨1, 536⟩, 521, .unexpected⟩]) := by
  intro addition additions sum groups
  let one : Nat → Token := .inLine .intConst (some (.int 1))
  let opens (count : Nat) :=
    (List.range count).map fun index => Token.inLine .openParen none (25 + index)
  let closes (count : Nat) :=
    (List.range count).map fun index => Token.inLine .closeParen none (26 + count + index)
  have sums : ∀ count ∈ [254, 255],
      (TokenStream.scan ⟨twiceInLine ('1' :: (List.replicate count ['+', 'a']).flatten),
        .start⟩).toList =
        openingInLine ++ (one 25 :: (additions count).flatMap Operation.tokens ++
          closingInLine (26 + 2 * count)) := by decide +kernel
  have nested : ∀ count ∈ [254, 255],
      (TokenStream.scan ⟨twiceInLine (List.replicate count '(' ++ '1' :: List.replicate count ')'),
        .start⟩).toList =
        openingInLine ++ (opens count ++ one (25 + count) :: closes count ++
          closingInLine (26 + 2 * count)) := by decide +kernel
  have closed (column : Nat) : ClosedTree [one column] (.int 1) := .constant rfl rfl .int
  have atomic (count : Nat) : ∀ operation ∈ additions count,
      operation.Atomic (BinaryOp.level .plus) := by
    simp only [additions, List.forall_mem_map]
    exact fun _ _ => ⟨rfl, rfl, _, rfl, .name ⟨rfl, rfl⟩⟩
  have opening (count : Nat) : ∀ token ∈ opens count, token.kind = .openParen := by
    simp only [opens, List.forall_mem_map]
    exact fun _ _ => rfl
  have closing (count : Nat) : ∀ token ∈ closes count, token.kind = .closeParen := by
    simp only [closes, List.forall_mem_map]
    exact fun _ _ => rfl
  have paired (count : Nat) : (opens count).length = (closes count).length := by
    simp [opens, closes]
  have inSum (count : Nat) (member : count ∈ [254, 255]) :=
    (nesting_cut_at_boundary (sum count)).1 (one 25) (.int 1) (additions count)
      (BinaryOp.level .plus) (closed 25) (atomic count) (assignsTwice_inLine (sums count member)).1
  have inGroups (count : Nat) (member : count ∈ [254, 255]) :=
    (nesting_cut_at_boundary (groups count)).2 (opens count) (one (25 + count)) (.int 1)
      (closes count) (opening count) (closed _) (closing count) (paired count)
      (assignsTwice_inLine (nested count member)).1
  refine ⟨(inSum 254 (by simp)).1 (by simp [additions]), ?_,
    (inGroups 254 (by simp)).1 (by simp [opens]), ?_⟩
  · obtain ⟨reads, operation, last, errors⟩ := (inSum 255 (by simp)).2 (by simp [additions])
    have kept : (additions 255).take 254 = additions 254 := by
      simp [additions, ← List.map_take, List.take_range]
    obtain rfl : addition 254 = operation := Option.some.inj (by simpa [additions] using last)
    exact ⟨kept ▸ reads, errors⟩
  · obtain ⟨reads, next, stop, first, last, _, errors⟩ :=
      (inGroups 255 (by simp)).2 (by simp [opens])
    have length : (opens 255).length = 255 := by simp [opens]
    rw [List.getElem?_append_right length.le, length, Nat.sub_self,
      List.getElem?_cons_zero] at first
    obtain rfl : one 280 = next := Option.some.inj first
    have semicolon := (assignsTwice_inLine (nested 255 (by simp))).2
    rw [List.length_append, List.length_cons, ← paired, length] at semicolon
    rw [length] at last errors
    obtain rfl : Token.inLine .semicolon none 536 = stop :=
      Option.some.inj (semicolon.symm.trans last)
    exact ⟨reads, errors⟩
end ToyC
