import ToyC.Proofs.EarlyReports
import ToyC.Proofs.Pieces
import ToyC.Proofs.Recording

/-! Text behind a program. The last brace is one lexeme whatever follows it, and
a lexeme before it has ended before the brace, so the text of a program is cut
as before when more text follows. The program ends at its last brace, so all
that the parser sees of the other text is that there is some. -/
namespace ToyC

/-! ### Lexemes with more text behind -/

private theorem isPrefixOf_append_of_le {sign text : List Char} (short : sign.length ≤ text.length)
    (more : List Char) : sign.isPrefixOf (text ++ more) = sign.isPrefixOf text := by
  rw [Bool.eq_iff_iff, List.isPrefixOf_iff_prefix, List.isPrefixOf_iff_prefix]
  constructor
  · intro starts
    exact List.prefix_of_prefix_length_le starts (List.prefix_append text more) short
  · intro starts
    exact starts.trans (List.prefix_append text more)

/-- A run that ends inside a text ends there when more text follows. -/
private theorem takeWhile_append_of_lt {accepts : Char → Bool} {text : List Char}
    (inside : (text.takeWhile accepts).length < text.length) (more : List Char) :
    (text ++ more).takeWhile accepts = text.takeWhile accepts := by
  rw [List.takeWhile_append, if_neg inside.ne]

namespace Lexeme

variable {first : Char} {rest text : List Char}

private theorem number_append (inside : (number text).text.length < text.length)
    (more : List Char) : number (text ++ more) = number text := by
  obtain ⟨digits, behind, rfl, all, ⟨rest, rfl⟩ | stops⟩ := digits_first text
  · rw [List.append_assoc, List.cons_append, number_point all, number_point all]
    rw [number_point all] at inside
    split at inside
    · rename_i noFraction
      simp only [unknown, List.length_append, List.length_cons] at inside
      have solid : (rest.takeWhile fun c => !isBlank c).length < rest.length := by omega
      have digits : (rest.takeWhile Char.isDigit).length < rest.length := by
        rw [List.isEmpty_iff.mp noFraction]
        exact Nat.lt_of_le_of_lt (Nat.zero_le _) solid
      rw [takeWhile_append_of_lt digits, takeWhile_append_of_lt solid]
    · rename_i fraction
      simp only [List.length_append, List.length_cons] at inside
      rw [takeWhile_append_of_lt (by omega)]
      rw [if_neg fraction, if_neg fraction]
  · rw [number_whole all stops] at inside ⊢
    have some : behind ≠ [] := by
      rintro rfl
      split at inside <;> simp [unknown] at inside
    rw [List.append_assoc, number_whole all]
    rwa [List.head?_append_of_ne_nil _ some]

private theorem quoted_append (inside : (quoted rest).text.length ≤ rest.length)
    (more : List Char) : quoted (rest ++ more) = quoted rest := by
  cases rest with
  | nil => simp [quoted, unknown] at inside
  | cons c rest =>
    cases rest with
    | nil =>
      -- The quote and a letter would be all of the text.
      have noLetter : isAlphabetic c = false := by
        by_contra letter
        rw [Bool.not_eq_false] at letter
        simp [quoted, unknown, letter] at inside
      rw [quoted.eq_def, quoted.eq_def]
      split <;> simp_all
    | cons d rest =>
      by_cases closed : d = '\''
      · rw [closed]
        rfl
      · simp [quoted, closed]

/-- No symbol is longer than two characters. -/
private theorem symbol_append (some : rest ≠ []) (more : List Char) :
    symbol first (rest ++ more) = symbol first rest := by
  have short : ∀ entry ∈ symbols, entry.1.length ≤ 2 := by decide
  have long : 2 ≤ (first :: rest).length := Nat.succ_le_succ (List.length_pos_iff.mpr some)
  have found : (symbols.find? fun entry => entry.1.isPrefixOf (first :: (rest ++ more))) =
      symbols.find? fun entry => entry.1.isPrefixOf (first :: rest) := by
    refine List.find?_congr fun entry listed => ?_
    rw [← List.cons_append, isPrefixOf_append_of_le ((short entry listed).trans long)]
  rw [symbol, symbol, found]

/-- A lexeme that ends inside a text is the same when more text follows. -/
theorem cut_append_text (inside : (cut first rest).text.length < (first :: rest).length)
    (more : List Char) : cut first (rest ++ more) = cut first rest := by
  have some : rest ≠ [] := by
    rintro rfl
    have := List.length_pos_iff.mpr (cut_text_ne_nil first [])
    rw [List.length_singleton] at inside
    omega
  rw [cut] at inside
  rw [cut, cut]
  split_ifs at inside ⊢ with letter digit quote
  · rw [word_text] at inside
    rw [← List.cons_append, takeWhile_append_of_lt inside]
  · exact number_append inside more
  · exact quoted_append (Nat.le_of_lt_succ inside) more
  · exact symbol_append some more

private theorem word_kind_ne (run : List Char) : (word run).kind ≠ .closeBrace := by
  rw [word]
  split
  · rename_i kind found
    obtain ⟨_, _, spelled, _⟩ := List.lookup_eq_some_iff.mp found
    have words : ∀ entry ∈ reservedWords, entry.2 ≠ .closeBrace := by decide
    exact words _ (spelled ▸ List.mem_append_right _ List.mem_cons_self)
  · rintro ⟨⟩
  · rintro ⟨⟩

private theorem number_kind_ne (text : List Char) : (number text).kind ≠ .closeBrace := by
  simp only [number]
  split <;> split <;> rintro ⟨⟩

private theorem quoted_kind_ne (rest : List Char) : (quoted rest).kind ≠ .closeBrace := by
  rw [quoted.eq_def]
  split
  · split <;> rintro ⟨⟩
  · rintro ⟨⟩
  · rintro ⟨⟩

private theorem symbol_closeBrace (closes : (symbol first rest).kind = .closeBrace) :
    first = '\x7d' := by
  rw [symbol] at closes
  split at closes
  · rename_i sign kind found
    have only : ∀ entry ∈ symbols, entry.2 = .closeBrace → entry.1 = ['\x7d'] := by decide
    have spelled : sign = ['\x7d'] := only _ (List.mem_of_find?_eq_some found) closes
    have starts := List.find?_some found
    simp only [spelled, List.isPrefixOf_iff_prefix] at starts
    obtain ⟨_, same⟩ := starts
    exact (List.cons.inj same).1.symm
  · cases closes

/-- Only a brace is read as a closing brace. -/
private theorem cut_kind_closeBrace (closes : (cut first rest).kind = .closeBrace) :
    first = '\x7d' := by
  rw [cut] at closes
  split_ifs at closes
  · exact absurd closes (word_kind_ne _)
  · exact absurd closes (number_kind_ne _)
  · exact absurd closes (quoted_kind_ne _)
  · exact symbol_closeBrace closes

/-- It is a lexeme whatever follows it. -/
private theorem cut_closeBrace (behind : List Char) :
    cut '\x7d' behind = ⟨.closeBrace, none, ['\x7d']⟩ := rfl

end Lexeme

/-! ### Texts with more text behind -/

/-- The cursor when more text follows. -/
def Cursor.onto (cursor : Cursor) (text : List Char) : Cursor :=
  ⟨cursor.rest ++ text, cursor.position⟩

private theorem pastBlank_append (some : rest ≠ []) (c : Char) (text : List Char)
    (place : Position) :
    Cursor.pastBlank c (rest ++ text) place = Cursor.pastBlank c rest place := by
  rw [Cursor.pastBlank, Cursor.pastBlank, endsLine, endsLine, List.head?_append_of_ne_nil _ some]

private theorem past_onto {lexeme : Lexeme} {cursor : Cursor}
    (inside : lexeme.text.length ≤ cursor.rest.length) (text : List Char) :
    (cursor.onto text).past lexeme = (cursor.past lexeme).onto text := by
  simp only [Cursor.past, Cursor.onto, List.drop_append_of_le_length inside]

theorem Hands.rest_ne_nil (hands : Hands before tokens after) (some : after.rest ≠ []) :
    before.rest ≠ [] := by
  induction hands with
  | done => exact some
  | blank => exact List.cons_ne_nil _ _
  | token => exact List.cons_ne_nil _ _

/-- What is handed out before the end of a text is so when more text follows. -/
theorem Hands.onto (hands : Hands before tokens after) (some : after.rest ≠ [])
    (text : List Char) : Hands (before.onto text) tokens (after.onto text) := by
  induction hands with
  | done => exact .done
  | @blank c rest place _ _ blank others ih =>
    have left : rest ≠ [] := others.rest_ne_nil some
    have others' := ih some
    rw [Cursor.onto, ← pastBlank_append left] at others'
    exact .blank blank others'
  | @token first rest place _ _ lexeme solid cut others ih =>
    subst cut
    have left := others.rest_ne_nil some
    rw [Cursor.past, ne_eq, List.drop_eq_nil_iff, not_le] at left
    have others' := ih some
    rw [← past_onto left.le] at others'
    exact .token solid (Lexeme.cut_append_text left text) others'

private theorem start_append (source text : String) :
    Cursor.start (source ++ text) = (Cursor.start source).onto text.toList := by
  rw [Cursor.start, Cursor.start, Cursor.onto, String.toList_append]

/-- Blanks at the start of a text are handed out as nothing. -/
private theorem exists_hands_behind_blanks (blank : ∀ c ∈ gap, isBlank c) (text : String)
    (place : Position) :
    ∃ tokens finish, Hands ⟨gap ++ text.toList, place⟩ tokens ⟨[], finish⟩ ∧
      tokens.map Token.content = (TokenStream.scan (.start text)).tokens.map Token.content := by
  obtain ⟨spelling, lexes⟩ := exists_lexes text.toList
  have alone : Lexes text.toList [] spelling := lexes [] nofun
  obtain ⟨tokens, finish, hands, spelled⟩ := alone.after_blanks blank place
  obtain ⟨tokens', finish', hands', spelled'⟩ := alone .start
  rw [List.append_nil] at hands hands'
  refine ⟨tokens, finish, hands, ?_⟩
  rw [spelled, ← spelled', Cursor.start, hands'.scan]

/-- A text that ends with a brace, and with blanks behind it, has the same tokens
when another text follows, and then those of the other text. -/
private theorem tokens_behind_brace {source : String} {front : List Token}
    (ends : (TokenStream.scan (.start source)).tokens = front ++ [closer])
    (closes : closer.kind = .closeBrace) (text : String) :
    ∃ rest, (TokenStream.scan (.start (source ++ text))).tokens =
        (TokenStream.scan (.start source)).tokens ++ rest ∧
      rest.map Token.content = (TokenStream.scan (.start text)).tokens.map Token.content := by
  have hands := hands_scan source
  rw [ends] at hands ⊢
  obtain ⟨first, gap, place, before, solid, rfl, behind⟩ := hands.at_token
  obtain rfl := Lexeme.cut_kind_closeBrace closes
  rw [Lexeme.cut_closeBrace] at behind ⊢
  obtain ⟨pieces, blanks, left, _, blank, contents⟩ := behind.pieces
  obtain rfl : pieces = [] := List.map_eq_nil_iff.mp contents.symm
  obtain rfl : gap = blanks := by simpa [Cursor.past, Piece.join] using left
  obtain ⟨rest, finish, hands', same⟩ := exists_hands_behind_blanks blank text (place.along 1)
  have brace : Hands ⟨'\x7d' :: (gap ++ text.toList), place⟩
      (Lexeme.place ⟨.closeBrace, none, ['\x7d']⟩ place :: rest) ⟨[], finish⟩ :=
    .token solid (Lexeme.cut_closeBrace _) hands'
  have whole := (before.onto (List.cons_ne_nil _ _) text.toList).trans brace
  rw [← start_append] at whole
  exact ⟨rest, by rw [whole.scan, List.append_assoc]; rfl, same⟩

/-! ### Programs with more text behind -/

/-- A program that ends with the last token is the same when others follow. -/
private theorem programBody_onto {parser : Parser}
    (consumes : Consumes parser parser.programBody.2 taken)
    (last : parser.programBody.2.AtLastBrace closer) (rest : List Token) (finish : Position) :
    (parser.onto rest finish).programBody =
      (parser.programBody.1, parser.programBody.2.onto rest finish) := by
  have some : parser.ahead ≠ [] := by
    rw [consumes.ahead, last.ahead]
    exact List.concat_ne_nil _ _
  have settled := programBody_online.settled parser some
  cases settled with
  | within value after reach same =>
    have here := same [] parser.finish
    rw [Parser.onto_nil] at here
    rw [same, here]
    simp [Parser.onto]
  | beyond reports passed known =>
    -- The last brace is left, so reading does not go beyond it.
    have beyond := passed [] parser.finish
    have consumed := consumes.consumed
    rw [Parser.onto_nil, Parser.horizon, consumes.ahead, last.ahead, List.length_append,
      List.length_singleton] at beyond
    omega

/-- Behind the last brace only one token is looked at, and it is reported. -/
private theorem behind_brace {body : Parser} (last : body.AtLastBrace closer)
    (fresh : body.advance.reportedAt ≠ some body.advance.consumed) (present : token.kind ≠ .eof)
    (others : List Token) (finish : Position) :
    ((((body.onto (token :: others) finish).expect .closeBrace).expect .eof).skipTo []).errors =
      ⟨token.kind, .eof, token.position, body.advance.consumed, .unexpected⟩ :: body.errors := by
  have left : body.ahead ≠ [] := by
    rw [last.ahead]
    exact List.cons_ne_nil _ _
  have closes : (body.onto (token :: others) finish).kind = .closeBrace := by
    rw [Parser.onto_kind _ _ left, Parser.kind, Parser.current, last.ahead]
    exact last.closes
  have advance : (body.onto (token :: others) finish).advance =
      body.advance.onto (token :: others) finish :=
    Parser.onto_pass _ _ (List.length_pos_iff.mpr left)
  have current : (body.advance.onto (token :: others) finish).current = token := by
    simp [Parser.current, Parser.onto, Parser.advance, Parser.pass, last.ahead]
  have more : (body.advance.onto (token :: others) finish).kind ≠ .eof := by
    rwa [Parser.kind, current]
  have fresh' : (body.advance.onto (token :: others) finish).reportedAt ≠
      some (body.advance.onto (token :: others) finish).consumed := fresh
  rw [Parser.expect_of_kind closes, advance, Parser.expect_of_ne more, Parser.report,
    Parser.reportAs, if_neg fresh', Parser.kind, current]
  rfl

/-- One report is all that tokens behind a program change. -/
private theorem program_onto {parser : Parser} (ready : parser.Ready)
    (consumes : Consumes parser parser.programBody.2 taken)
    (last : parser.programBody.2.AtLastBrace closer) (present : token.kind ≠ .eof)
    (others : List Token) (finish : Position) :
    ((parser.onto (token :: others) finish).program .standard).1 = (parser.program .standard).1 ∧
      ((parser.onto (token :: others) finish).program .standard).2.inventory =
        (parser.program .standard).2.inventory ∧
      ((parser.onto (token :: others) finish).program .standard).2.errors =
        ⟨token.kind, .eof, token.position, parser.consumed + parser.ahead.length, .unexpected⟩ ::
          parser.errors := by
  have closed := consumes.trans (.take last.ahead)
  have consumed := closed.consumed
  rw [← last.ahead, ← consumes.ahead] at consumed
  have errors := behind_brace last (closed.ready ready).fresh present others finish
  rw [consumed, consumes.errors] at errors
  rw [Parser.program_eq, Parser.program_eq, programBody_onto consumes last]
  refine ⟨rfl, ?_, errors⟩
  simp only [Parser.skipTo_inventory, Parser.expect_inventory, Parser.onto]

private theorem ofSource_append {source text : String} {rest : List Token}
    (tokens : (TokenStream.scan (.start (source ++ text))).tokens =
      (TokenStream.scan (.start source)).tokens ++ rest) :
    Parser.ofSource (source ++ text) = (Parser.ofSource source).onto rest
      (TokenStream.scan (.start (source ++ text))).finish := by
  rw [Parser.ofSource, Parser.ofLexer, Lexer.start, Lexer.stream, Parser.start, tokens]
  rfl

private theorem countP_isUnknown_congr {tokens others : List Token}
    (same : tokens.map Token.content = others.map Token.content) :
    tokens.countP Token.isUnknown = others.countP Token.isUnknown := by
  have byContent (tokens : List Token) : tokens.countP Token.isUnknown =
      (tokens.map Token.content).countP fun content => content.kind = .unknown := by
    rw [List.countP_map]
    rfl
  rw [byContent, byContent, same]

/-- A program that is read in silence ends at its last brace, and the text behind
it is cut into the same tokens as alone. -/
private theorem exists_last_brace {source : String} (silent : (parse source).errors = [])
    (text : String) :
    ∃ taken closer rest, Consumes (.ofSource source) (Parser.ofSource source).programBody.2 taken ∧
      (Parser.ofSource source).programBody.2.AtLastBrace closer ∧
      (TokenStream.scan (.start (source ++ text))).tokens =
        (TokenStream.scan (.start source)).tokens ++ rest ∧
      rest.map Token.content = (TokenStream.scan (.start text)).tokens.map Token.content := by
  have present : ∀ token ∈ (Parser.ofSource source).ahead, token.kind ≠ .eof :=
    fun token member => (scan_cut source token member).present
  have errors : (parse source).errors =
      ((Parser.ofSource source).program .standard).2.errors.reverse := by
    rw [parse, Parser.finishProgram]
  rw [errors, List.reverse_eq_nil_iff] at silent
  obtain ⟨taken, closer, consumes, last⟩ :=
    atLastBrace_of_silent (ready_ofSource source) present silent
  have ends := consumes.ahead
  rw [last.ahead] at ends
  obtain ⟨rest, tokens, contents⟩ := tokens_behind_brace ends last.closes text
  exact ⟨taken, closer, rest, consumes, last, tokens, contents⟩

private theorem unknowns_behind {source text : String} {rest : List Token}
    (silent : (parse source).errors = [])
    (tokens : (TokenStream.scan (.start (source ++ text))).tokens =
      (TokenStream.scan (.start source)).tokens ++ rest)
    (contents : rest.map Token.content = (TokenStream.scan (.start text)).tokens.map Token.content) :
    (parse (source ++ text)).lexicalErrors = (tokenize text).countP Token.isUnknown := by
  have known := (parse_unknowns source).symm.trans (parse_silent silent).2
  rw [tokenize, TokenStream.toList, List.countP_append, Nat.add_eq_zero_iff] at known
  rw [parse_unknowns, tokenize, tokenize, TokenStream.toList, TokenStream.toList, tokens,
    List.append_assoc, List.countP_append, known.1, Nat.zero_add, List.countP_append,
    List.countP_append, countP_isUnknown_congr contents]
  rfl

/-- Text behind a program that is read in silence leaves the program and its
lists as they are. It is reported once, at its first token, and its unknown
tokens are counted. -/
theorem text_behind_reported_once {source text : String} (silent : (parse source).errors = [])
    (more : ∃ token ∈ tokenize text, token.kind ≠ .eof) :
    (parse (source ++ text)).program = (parse source).program ∧
      (parse (source ++ text)).inventory = (parse source).inventory ∧
      (∃ error first, (parse (source ++ text)).errors = [error] ∧
        (tokenize text).head? = some first ∧ error.found = first.kind ∧ error.expected = .eof ∧
        error.index + 1 = (tokenize source).length) ∧
      (parse (source ++ text)).lexicalErrors = (tokenize text).countP Token.isUnknown := by
  obtain ⟨taken, closer, rest, consumes, last, tokens, contents⟩ := exists_last_brace silent text
  have unknowns := unknowns_behind silent tokens contents
  cases scanned : (TokenStream.scan (.start text)).tokens with
  | nil =>
    obtain ⟨token, member, other⟩ := more
    rw [tokenize, TokenStream.toList, scanned, List.nil_append, List.mem_singleton] at member
    exact absurd (congrArg Token.kind member) other
  | cons first later =>
    rw [scanned, List.map_cons] at contents
    obtain ⟨token, others, rfl, same, -⟩ := List.map_eq_cons_iff.mp contents
    have kind : token.kind = first.kind := congrArg Content.kind same
    have present : first.kind ≠ .eof := (scan_cut text first (by simp [scanned])).present
    obtain ⟨program, inventory, errors⟩ := program_onto (ready_ofSource source) consumes last
      (kind ▸ present) others (TokenStream.scan (.start (source ++ text))).finish
    rw [← ofSource_append tokens] at program inventory errors
    have head : (tokenize text).head? = some first := by
      rw [tokenize, TokenStream.toList, scanned, List.cons_append, List.head?_cons]
    have index : (Parser.ofSource source).consumed + (Parser.ofSource source).ahead.length =
        (TokenStream.scan (.start source)).tokens.length := Nat.zero_add _
    rw [index] at errors
    have reported : (parse (source ++ text)).errors = [⟨token.kind, .eof, token.position,
        (TokenStream.scan (.start source)).tokens.length, .unexpected⟩] := by
      rw [parse, Parser.finishProgram, errors]
      rfl
    refine ⟨?_, ?_, ⟨_, first, reported, head, kind, rfl, ?_⟩, unknowns⟩
    · rw [parse, Parser.finishProgram, program, parse, Parser.finishProgram]
    · rw [parse, Parser.finishProgram, inventory, parse, Parser.finishProgram]
    · rw [tokenize, TokenStream.toList, List.length_append, List.length_singleton]

/-- Had the brace not ended the program, this `else` would belong to its last
conditional. -/
theorem else_behind_last_brace :
    let source := "int main() \x7b int a; if (a) a = 1; \x7d"
    let text := "else a = 2 @ 'b; \x7d"
    (parse source).errors = [] ∧ (∃ token ∈ tokenize text, token.kind ≠ .eof) ∧
      (parse (source ++ text)).program = (parse source).program ∧
      (parse (source ++ text)).inventory = (parse source).inventory ∧
      (∃ error, (parse (source ++ text)).errors = [error] ∧ error.found = .elseWord ∧
        error.expected = .eof ∧ error.index = 17) ∧
      (parse (source ++ text)).lexicalErrors = 2 := by
  intro source text
  have silent : (parse source).errors = [] := by decide +kernel
  have more : ∃ token ∈ tokenize text, token.kind ≠ .eof := by decide +kernel
  have start : (tokenize text).head?.map Token.kind = some .elseWord := by decide +kernel
  have length : (tokenize source).length = 18 := by decide +kernel
  have unknowns : (tokenize text).countP Token.isUnknown = 2 := by decide +kernel
  obtain ⟨program, inventory, ⟨error, first, errors, head, found, expected, index⟩, counted⟩ :=
    text_behind_reported_once silent more
  rw [head, Option.map_some, Option.some.injEq] at start
  rw [length] at index
  exact ⟨silent, more, program, inventory,
    ⟨error, errors, found.trans start, expected, Nat.succ.inj index⟩, counted.trans unknowns⟩

end ToyC
