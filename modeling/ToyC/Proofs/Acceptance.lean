import ToyC.Proofs.ProgramReading
import ToyC.Proofs.Unambiguity

/-! What the reports on a text say. There is none exactly if the text is a
program and no level of nesting was refused; otherwise the first report is at
the first token that no program has there, or at a token where no level was
left. -/
namespace ToyC

/-- How many levels of nesting are refused while a text is read. -/
def refusals (source : String) : Nat :=
  ((Parser.ofSource source).program .standard).2.nesting.refused

theorem ready_ofSource (source : String) : (Parser.ofSource source).Ready where
  unreported := nofun
  wellFormed token member := (scan_cut source token member).wellFormed

/-- A text is read in silence and has a tree, or something is reported. -/
theorem parse_accepts_or_fails (source : String) :
    (ProgramTree (tokenize source) (parse source).program ∧ (parse source).errors = [] ∧
      refusals source = 0 ∧
      (parse source).lexicalErrors = (tokenize source).countP Token.isUnknown) ∨
    ∃ error later, (parse source).errors = error :: later ∧
      (error.cause = .tooDeep → 0 < refusals source) ∧
      (error.cause = .unexpected → ∃ taken next rest,
        Blames Phrase.program.words (Parser.ofSource source) error taken next rest) := by
  have present : ∀ token ∈ (Parser.ofSource source).ahead, token.kind ≠ .eof :=
    fun token member => (scan_cut source token member).present
  rcases accepts_or_fails (ready_ofSource source) present with accepts | fails
  · refine .inl ⟨accepts.tree, ?_, accepts.refused, ?_⟩
    · rw [parse, Parser.finishProgram, accepts.errors]
      rfl
    · rw [parse, Parser.finishProgram, accepts.unknowns, tokenize, TokenStream.toList,
        List.countP_append]
      exact Nat.zero_add _
  · obtain ⟨error, later, errors, tooDeep, unexpected⟩ := fails
    refine .inr ⟨error, later.reverse, ?_, tooDeep, unexpected⟩
    rw [parse, Parser.finishProgram, errors]
    simp [Parser.ofSource, Parser.ofLexer, Parser.start]

/-- A text on which nothing is reported has a tree and no unknown tokens. -/
theorem parse_silent {source : String} (silent : (parse source).errors = []) :
    ProgramTree (tokenize source) (parse source).program ∧ (parse source).lexicalErrors = 0 := by
  rcases parse_accepts_or_fails source with ⟨tree, _, _, unknowns⟩ | ⟨error, later, errors, _⟩
  · refine ⟨tree, unknowns.trans (List.countP_eq_zero.mpr fun token member unknown => ?_)⟩
    have kind : token.kind = .unknown := by simpa [Token.isUnknown] using unknown
    exact tree.derives.known (kind ▸ List.mem_map_of_mem member)
  · rw [silent] at errors
    cases errors

/-- A program is read, as far as levels of nesting are left. -/
theorem parse_accepts {source : String} (derived : Sentence (kindsOf (tokenize source)))
    (shallow : refusals source = 0) :
    ProgramTree (tokenize source) (parse source).program ∧ (parse source).errors = [] ∧
      (parse source).lexicalErrors = (tokenize source).countP Token.isUnknown := by
  rcases parse_accepts_or_fails source with ⟨tree, silent, _, unknowns⟩ |
    ⟨error, later, errors, tooDeep, unexpected⟩
  · exact ⟨tree, silent, unknowns⟩
  · cases cause : error.cause with
    | tooDeep => exact absurd shallow (tooDeep cause).ne'
    | unexpected =>
      obtain ⟨taken, next, rest, blames⟩ := unexpected cause
      have upcoming : tokenize source = taken ++ next :: rest := blames.upcoming
      rw [upcoming, kindsOf_append, kindsOf_cons] at derived
      exact absurd derived (blames.stuck _)

/-- The parser accepts the programs of the grammar and nothing else, as far as
levels of nesting are left. -/
theorem parse_errors_eq_nil_iff (source : String) :
    (parse source).errors = [] ↔ Sentence (kindsOf (tokenize source)) ∧ refusals source = 0 := by
  constructor
  · intro silent
    rcases parse_accepts_or_fails source with ⟨tree, _, refused, _⟩ | ⟨error, later, errors, _⟩
    · exact ⟨tree.derives, refused⟩
    · rw [errors] at silent
      cases silent
  · rintro ⟨derived, shallow⟩
    exact (parse_accepts derived shallow).2.1

/-- A text without reports has one tree, which has no placeholders, and it is
the one that is returned. -/
theorem parse_program_unique_tree {source : String} (silent : (parse source).errors = []) :
    ProgramTree (tokenize source) (parse source).program ∧
      (∀ whole, ProgramTree (tokenize source) whole → whole = (parse source).program) ∧
      (parse source).program.hasError = false := by
  rcases parse_accepts_or_fails source with ⟨tree, _⟩ | ⟨error, later, errors, _⟩
  · exact ⟨tree, fun whole other => other.unique tree, tree.noError⟩
  · rw [errors] at silent
    cases silent

/-- The `else` goes to the inner conditional, and operators of one level to the
left. -/
theorem nested_conditional_unique_tree :
    (parse "int main() \x7b if (a) if (b) c = 1 - 2 * 3 - 4; else c = -5; \x7d").errors = [] ∧
      ∀ whole, ProgramTree
        (tokenize "int main() \x7b if (a) if (b) c = 1 - 2 * 3 - 4; else c = -5; \x7d") whole →
        whole = ⟨[], [.ifThen (.identifier "a") (.ifThenElse (.identifier "b")
          (.assign "c" (.binary .minus
            (.binary .minus (.int 1) (.binary .times (.int 2) (.int 3))) (.int 4)))
          (.assign "c" (.negate (.int 5))))]⟩ := by
  have silent :
      (parse "int main() \x7b if (a) if (b) c = 1 - 2 * 3 - 4; else c = -5; \x7d").errors = [] := by
    decide +kernel
  refine ⟨silent, fun whole tree => ((parse_program_unique_tree silent).2.1 whole tree).trans ?_⟩
  decide +kernel

/-- The first report comes neither too late nor too early: the tokens before it
start a program, and with the token that is reported they start none. -/
theorem first_error_correct_prefix {source : String}
    (first : (parse source).errors = error :: later)
    (cause : error.cause ≠ .tooDeep) :
    ∃ token, (tokenize source)[error.index]? = some token ∧
      error.found = token.kind ∧ error.position = token.position ∧
      (∃ rest, Sentence (kindsOf ((tokenize source).take error.index) ++ rest)) ∧
      ∀ rest, ¬Sentence (kindsOf ((tokenize source).take (error.index + 1)) ++ rest) := by
  rcases parse_accepts_or_fails source with ⟨_, silent, _⟩ |
    ⟨error', later', errors, _, unexpected⟩
  · rw [silent] at first
    cases first
  · cases errors.symm.trans first
    have unexpectedCause : error.cause = .unexpected := by
      cases same : error.cause with
      | tooDeep => exact absurd same cause
      | unexpected => rfl
    obtain ⟨taken, next, rest, blames⟩ := unexpected unexpectedCause
    have upcoming : tokenize source = taken ++ next :: rest := blames.upcoming
    have index : error.index = taken.length := blames.index.trans (Nat.zero_add _)
    have before : (tokenize source).take error.index = taken := by
      rw [upcoming, index, List.take_left]
    have upTo : (tokenize source).take (error.index + 1) = taken ++ [next] := by
      rw [upcoming, index, List.take_length_add_append]
      rfl
    rw [before, upTo]
    refine ⟨next, ?_, blames.found, blames.position, blames.viable, fun rest' derived => ?_⟩
    · simp [upcoming, index]
    · apply blames.stuck rest'
      rw [kindsOf_append, List.append_assoc] at derived
      exact derived

/-- An operand is missing in front of the semicolon. -/
theorem missing_operand_correct_prefix :
    ∃ token, (tokenize "int main() \x7b a = 1 + ; \x7d")[9]? = some token ∧
      TokenKind.semicolon = token.kind ∧ ⟨1, 22⟩ = token.position ∧
      (∃ rest, Sentence (kindsOf ((tokenize "int main() \x7b a = 1 + ; \x7d").take 9) ++ rest)) ∧
      ∀ rest, ¬Sentence (kindsOf ((tokenize "int main() \x7b a = 1 + ; \x7d").take 10) ++ rest) := by
  have first : (parse "int main() \x7b a = 1 + ; \x7d").errors =
      [⟨.semicolon, .expression, ⟨1, 22⟩, 9, .unexpected⟩,
        ⟨.closeBrace, .semicolon, ⟨1, 24⟩, 10, .unexpected⟩] := by decide +kernel
  exact first_error_correct_prefix first nofun

end ToyC
