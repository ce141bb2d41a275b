import Mathlib.Data.List.Nodup
import ToyC.Proofs.Acceptance
import ToyC.Proofs.Places
import ToyC.Proofs.Progress

/-! What the reports of a text say. Each one is about a token of the text, none
is about the same step twice, and they come in the order of the text. Only the
closing `eof` is reported again, when it was passed in between, which happens
at most twice. Unknown tokens are counted apart, and there are none in silence. -/
namespace ToyC

/-! ### The tokens of a stream by their index -/

namespace TokenStream

variable {stream : TokenStream} {index later : Nat}

/-- Behind the last token stands `eof` for ever. -/
def tokenAt (stream : TokenStream) (index : Nat) : Token :=
  stream.tokens[index]?.getD ⟨.eof, none, stream.finish⟩

theorem tokenAt_of_lt (present : index < stream.tokens.length) :
    stream.tokenAt index = stream.tokens[index] := by
  rw [tokenAt, List.getElem?_eq_getElem present, Option.getD_some]

theorem tokenAt_of_le (beyond : stream.tokens.length ≤ index) :
    stream.tokenAt index = ⟨.eof, none, stream.finish⟩ := by
  rw [tokenAt, List.getElem?_eq_none beyond, Option.getD_none]

theorem tokenAt_mem (stream : TokenStream) (index : Nat) :
    stream.tokenAt index ∈ stream.toList := by
  rw [toList]
  rcases Nat.lt_or_ge index stream.tokens.length with present | beyond
  · rw [tokenAt_of_lt present]
    exact List.mem_append_left _ (List.getElem_mem present)
  · rw [tokenAt_of_le beyond]
    exact List.mem_append_right _ List.mem_cons_self

theorem le_of_tokenAt_eof (present : ∀ token ∈ stream.tokens, token.kind ≠ .eof)
    (eof : (stream.tokenAt index).kind = .eof) : stream.tokens.length ≤ index := by
  by_contra inside
  rw [tokenAt_of_lt (Nat.lt_of_not_le inside)] at eof
  exact present _ (List.getElem_mem _) eof

/-- The places of two tokens differ as their indices do, up to the end. -/
theorem tokenAt_position_lt (ordered : (stream.toList.map Token.position).Pairwise (· < ·))
    (earlier : index < later) (present : index < stream.tokens.length) :
    (stream.tokenAt index).position < (stream.tokenAt later).position := by
  rw [toList, List.map_append, List.pairwise_append] at ordered
  obtain ⟨inside, -, closing⟩ := ordered
  rw [tokenAt_of_lt present]
  rcases Nat.lt_or_ge later stream.tokens.length with present' | beyond
  · rw [tokenAt_of_lt present']
    have apart := List.pairwise_iff_getElem.mp inside index later (by simpa) (by simpa) earlier
    simpa using apart
  · rw [tokenAt_of_le beyond]
    have member := List.getElem_mem present
    exact closing _ (List.mem_map_of_mem member) _ List.mem_cons_self

end TokenStream

theorem Lexeme.cut_isLexical (first : Char) (rest : List Char) :
    (cut first rest).kind.isLexical := by
  rw [cut]
  split_ifs
  · rw [word]
    split
    · rename_i found
      obtain ⟨_, _, listed, _⟩ := List.lookup_eq_some_iff.mp found
      have lexical : ∀ entry ∈ reservedWords, entry.2.isLexical := by decide
      exact lexical _ (listed ▸ List.mem_append_right _ List.mem_cons_self)
    · rfl
    · rfl
  · simp only [number]
    split <;> split <;> rfl
  · rw [quoted.eq_def]
    split
    · split <;> rfl
    · rfl
    · rfl
  · rw [symbol]
    split
    · rename_i found
      have lexical : ∀ entry ∈ symbols, entry.2.isLexical := by decide
      exact lexical _ (List.mem_of_find?_eq_some found)
    · rfl

theorem Hands.isLexical (hands : Hands cursor tokens after) :
    ∀ token ∈ tokens, token.kind.isLexical := by
  induction hands with
  | done => exact List.forall_mem_nil _
  | blank _ _ ih => exact ih
  | token _ cut _ ih => exact List.forall_mem_cons.mpr ⟨cut ▸ Lexeme.cut_isLexical _ _, ih⟩

/-- No text has a token of a kind that only names what was expected. -/
theorem scan_isLexical (source : String) :
    ∀ token ∈ (TokenStream.scan (.start source)).tokens, token.kind.isLexical :=
  (hands_scan source).isLexical

/-! ### What a parser has reported -/

/-- The parser is at the token of the stream that its count tells, and its
reports are about such tokens, each one about a later one than the report
before. -/
structure Parser.Tracks (stream : TokenStream) (parser : Parser) : Prop where
  ahead : parser.ahead = stream.tokens.drop parser.consumed
  finish : parser.finish = stream.finish
  reached : ∀ error ∈ parser.errors, error.index ≤ parser.consumed
  fresh : parser.reportedAt ≠ some parser.consumed →
    ∀ error ∈ parser.errors, error.index < parser.consumed
  ordered : parser.errors.Pairwise fun later earlier => earlier.index < later.index
  faithful : ∀ error ∈ parser.errors, error.found = (stream.tokenAt error.index).kind ∧
    error.position = (stream.tokenAt error.index).position ∧ error.found ≠ error.expected

namespace Parser.Tracks

variable {stream : TokenStream} {parser before after : Parser}

theorem current (tracks : Tracks stream parser) :
    parser.current = stream.tokenAt parser.consumed := by
  rw [Parser.current, tracks.ahead, tracks.finish, List.head?_drop, TokenStream.tokenAt]

theorem advance (tracks : Tracks stream parser) : Tracks stream parser.advance where
  ahead := by
    rw [Parser.advance, pass, tracks.ahead, List.drop_drop]
  finish := tracks.finish
  reached error member := Nat.le_succ_of_le (tracks.reached error member)
  fresh _ error member := Nat.lt_succ_of_le (tracks.reached error member)
  ordered := tracks.ordered
  faithful := tracks.faithful

theorem note (tracks : Tracks stream parser) {nesting : Nesting} {inventory : Inventory} :
    Tracks stream { parser with nesting, inventory } :=
  ⟨tracks.ahead, tracks.finish, tracks.reached, tracks.fresh, tracks.ordered, tracks.faithful⟩

theorem reportAs (tracks : Tracks stream parser) (cause : SyntaxCause)
    (other : expected.isLexical → parser.kind ≠ expected)
    (lexical : ∀ token ∈ stream.tokens, token.kind.isLexical) :
    Tracks stream (parser.reportAs cause expected) := by
  rw [Parser.reportAs]
  split
  · exact tracks
  · rename_i unreported
    have differ : parser.kind ≠ expected := by
      intro same
      -- If the kinds were the same, it would be a token's kind that was expected.
      refine other ?_ same
      rw [← same, kind, tracks.current]
      rcases Nat.lt_or_ge parser.consumed stream.tokens.length with present | beyond
      · rw [TokenStream.tokenAt_of_lt present]
        exact lexical _ (List.getElem_mem present)
      · rw [TokenStream.tokenAt_of_le beyond]
        rfl
    refine ⟨tracks.ahead, tracks.finish, ?_, fun again => absurd rfl again, ?_, ?_⟩
    · exact List.forall_mem_cons.mpr ⟨Nat.le_refl _, tracks.reached⟩
    · exact tracks.ordered.cons (tracks.fresh unreported)
    · refine List.forall_mem_cons.mpr ⟨⟨?_, ?_, differ⟩, tracks.faithful⟩
      · rw [kind, tracks.current]
      · rw [tracks.current]

end Parser.Tracks

theorem Parser.tracks_start (source : String) :
    (ofSource source).Tracks (.scan (.start source)) where
  ahead := rfl
  finish := rfl
  reached := List.forall_mem_nil _
  fresh _ := List.forall_mem_nil _
  ordered := .nil
  faithful := List.forall_mem_nil _

theorem Runs.tracks {stream : TokenStream} (runs : Runs before taken beyond after)
    (lexical : ∀ token ∈ stream.tokens, token.kind.isLexical) (tracks : before.Tracks stream) :
    after.Tracks stream := by
  induction runs with
  | done => exact tracks
  | take _ _ ih => exact ih tracks.advance
  | pass _ _ ih => exact ih tracks.advance
  | report other _ ih => exact ih (tracks.reportAs _ other lexical)
  | note _ ih => exact ih tracks.note

/-- The reports of a text are those of a parser that has not yet passed the end
more than twice. -/
theorem parse_tracks (source : String) :
    ∃ parser : Parser, parser.Tracks (.scan (.start source)) ∧
      (parse source).errors = parser.errors.reverse ∧
      parser.consumed ≤ (TokenStream.scan (.start source)).tokens.length + 2 := by
  have lexical := scan_isLexical source
  have start := Parser.tracks_start source
  obtain ⟨closed, last, taken, beyond, runs, bound⟩ := program_spends (.ofSource source)
  have tracks := runs.tracks lexical start
  have within : closed.consumed ≤ (TokenStream.scan (.start source)).tokens.length + 2 := by
    have all : (TokenStream.scan (.start source)).tokens = taken ++ closed.ahead := runs.ahead
    have consumed : closed.consumed = 0 + taken.length + beyond := runs.consumed
    rw [all, List.length_append]
    omega
  by_cases atEnd : closed.kind = .eof
  · refine ⟨closed, tracks, ?_, within⟩
    rw [parse, Parser.finishProgram, last, Parser.expect_of_kind atEnd]
    rfl
  · refine ⟨closed.report .eof, tracks.reportAs .unexpected (fun _ => atEnd) lexical, ?_, ?_⟩
    · rw [parse, Parser.finishProgram, last, Parser.expect_of_ne atEnd]
      rfl
    · rwa [Parser.report, Parser.reportAs_consumed]

/-! ### How many reports there are -/

private theorem length_le_of_ordered {errors : List SyntaxError}
    (ordered : errors.Pairwise fun later earlier => earlier.index < later.index)
    (within : ∀ error ∈ errors, low ≤ error.index ∧ error.index ≤ high) :
    errors.length ≤ high + 1 - low := by
  have subset : errors.map SyntaxError.index ⊆ List.range' low (high + 1 - low) := by
    intro index member
    obtain ⟨error, reported, rfl⟩ := List.mem_map.mp member
    obtain ⟨above, below⟩ := within error reported
    rw [List.mem_range'_1]
    omega
  have nodup : (errors.map SyntaxError.index).Nodup :=
    List.pairwise_map.mpr (ordered.imp fun before => Nat.ne_of_gt before)
  simpa using (nodup.subperm subset).length_le

namespace Parser.Tracks

variable {stream : TokenStream} {parser : Parser}

theorem errors_length_le (tracks : Tracks stream parser) :
    parser.errors.length ≤ parser.consumed + 1 :=
  length_le_of_ordered tracks.ordered fun error member =>
    ⟨Nat.zero_le _, tracks.reached error member⟩

/-- Only steps at the end are about `eof`. -/
theorem countP_eof_le (tracks : Tracks stream parser)
    (present : ∀ token ∈ stream.tokens, token.kind ≠ .eof) :
    parser.errors.countP (·.found = .eof) ≤ parser.consumed + 1 - stream.tokens.length := by
  rw [List.countP_eq_length_filter]
  refine length_le_of_ordered (tracks.ordered.filter _) fun error member => ?_
  obtain ⟨reported, eof⟩ := List.mem_filter.mp member
  have found := (tracks.faithful error reported).1
  rw [decide_eq_true_eq, found] at eof
  exact ⟨TokenStream.le_of_tokenAt_eof present eof, tracks.reached error reported⟩

/-- Reports that differ are at different places, unless both are about `eof`. -/
theorem positions_ordered (tracks : Tracks stream parser)
    (places : (stream.toList.map Token.position).Pairwise (· < ·)) :
    parser.errors.Pairwise fun later earlier => earlier.position ≤ later.position ∧
      (earlier.position = later.position → earlier.found = .eof ∧ later.found = .eof) := by
  refine tracks.ordered.imp_of_mem fun {later earlier} member member' before => ?_
  obtain ⟨found, position, -⟩ := tracks.faithful later member
  obtain ⟨found', position', -⟩ := tracks.faithful earlier member'
  rcases Nat.lt_or_ge earlier.index stream.tokens.length with inside | beyond
  · have apart := TokenStream.tokenAt_position_lt places before inside
    rw [← position, ← position'] at apart
    exact ⟨apart.le, fun same => absurd same apart.ne⟩
  · rw [TokenStream.tokenAt_of_le beyond] at found' position'
    rw [TokenStream.tokenAt_of_le (beyond.trans before.le)] at found position
    exact ⟨(position'.trans position.symm).le, fun _ => ⟨found', found⟩⟩

end Parser.Tracks

/-- On a text that is short enough for the counters each report names a token
of the text, with its kind and its place, and an expectation the token does not
meet. The reports come in the order of the text; two are at the same place only
if both are about the closing `eof`, and at most three are. So there are at
most two reports more than tokens. -/
theorem parse_reports_in_order {source : String} (short : source.length < 2 ^ 30) :
    (∀ error ∈ (parse source).errors, ∃ token ∈ tokenize source,
      error.found = token.kind ∧ error.position = token.position ∧
        error.found ≠ error.expected) ∧
    ((parse source).errors.Pairwise fun earlier later =>
      earlier.position ≤ later.position ∧
        (earlier.position = later.position → earlier.found = .eof ∧ later.found = .eof)) ∧
    (parse source).errors.countP (·.found = .eof) ≤ 3 ∧
    (parse source).errors.length ≤ (tokenize source).length + 2 := by
  obtain ⟨parser, tracks, errors, bound⟩ := parse_tracks source
  have tokens : (tokenize source).length = (TokenStream.scan (.start source)).tokens.length + 1 :=
    List.length_append
  rw [errors]
  refine ⟨fun error member => ?_, ?_, ?_, ?_⟩
  · obtain ⟨found, position, differ⟩ := tracks.faithful error (List.mem_reverse.mp member)
    exact ⟨_, TokenStream.tokenAt_mem _ error.index, found, position, differ⟩
  · rw [List.pairwise_reverse]
    exact tracks.positions_ordered (tokenize_places short)
  · rw [List.countP_reverse]
    have closing := tracks.countP_eof_le fun token member => (scan_cut source token member).present
    omega
  · rw [List.length_reverse]
    have all := tracks.errors_length_le
    omega

/-- An index is missing at the end, then a value, then the closing brace. -/
theorem three_reports_at_end :
    "int main() \x7b a[".length < 2 ^ 30 ∧
    ((parse "int main() \x7b a[").errors.Pairwise fun earlier later =>
      earlier.position ≤ later.position ∧
        (earlier.position = later.position → earlier.found = .eof ∧ later.found = .eof)) ∧
    (parse "int main() \x7b a[").errors.countP (·.found = .eof) = 3 := by
  have short : "int main() \x7b a[".length < 2 ^ 30 := by decide +kernel
  have reported : (parse "int main() \x7b a[").errors.countP (·.found = .eof) = 3 := by
    decide +kernel
  exact ⟨short, (parse_reports_in_order short).2.1, reported⟩

/-! ### Unknown tokens -/

/-- Whatever was read before, each unknown token that is ahead is counted once. -/
theorem finishProgram_unknowns (parser : Parser) :
    (parser.finishProgram .standard).lexicalErrors =
      parser.unknowns + parser.ahead.countP Token.isUnknown := by
  obtain ⟨_, _, runs, _⟩ := program_runs parser
  exact runs.unknowns

/-- The parser counts the unknown tokens that the list of all tokens has. -/
theorem parse_unknowns (source : String) :
    (parse source).lexicalErrors = (tokenize source).countP Token.isUnknown := by
  have closing : [(⟨.eof, none, (TokenStream.scan (.start source)).finish⟩ : Token)].countP
      Token.isUnknown = 0 := rfl
  rw [parse, finishProgram_unknowns, tokenize, TokenStream.toList, List.countP_append, closing]
  exact Nat.zero_add _

/-- The unknown tokens of a text are counted, also those that are skipped, and
a text that has one is not read in silence. -/
theorem parse_counts_unknowns (source : String) :
    (parse source).lexicalErrors = (tokenize source).countP Token.isUnknown ∧
      (0 < (tokenize source).countP Token.isUnknown → (parse source).errors ≠ []) := by
  refine ⟨parse_unknowns source, fun some silent => ?_⟩
  rw [← parse_unknowns source, (parse_silent silent).2] at some
  exact Nat.lt_irrefl 0 some

/-- Two unknown tokens are skipped, one stands for a value, and one is behind
the program. -/
theorem unknowns_on_all_ways :
    0 < (tokenize "int main() \x7b if @ $ (a) b = 12.; \n \x7d 'ab").countP Token.isUnknown ∧
      (parse "int main() \x7b if @ $ (a) b = 12.; \n \x7d 'ab").errors ≠ [] ∧
      (parse "int main() \x7b if @ $ (a) b = 12.; \n \x7d 'ab").lexicalErrors = 4 := by
  have count : (tokenize "int main() \x7b if @ $ (a) b = 12.; \n \x7d 'ab").countP
      Token.isUnknown = 4 := by decide +kernel
  have some : 0 < (tokenize "int main() \x7b if @ $ (a) b = 12.; \n \x7d 'ab").countP
      Token.isUnknown := count ▸ Nat.zero_lt_succ 3
  exact ⟨some, (parse_counts_unknowns _).2 some, (parse_counts_unknowns _).1.trans count⟩

end ToyC
