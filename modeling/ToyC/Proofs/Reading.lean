import ToyC.ProgramReader
import ToyC.Proofs.Tokens
import ToyC.Proofs.TreeGrammar

/-! One stretch of reading, told up to its first report. Before it the rest of
the text may be any word of one language, behind it any word of another: either
the tokens between were taken in silence and the second language is exactly
what the first one leaves behind them, or a token was reported that no word of
the first language has there. Stretches are put together by `Reads.bind`. -/
namespace ToyC

open scoped Computability

/-- All tokens from the current one on, the closing `eof` included. -/
def Parser.upcoming (parser : Parser) : List Token := parser.ahead ++ [⟨.eof, none, parser.finish⟩]

/-- Neither the current token nor a later one has been reported. -/
def Parser.Unreported (parser : Parser) : Prop :=
  ∀ index, parser.reportedAt = some index → index < parser.consumed

theorem Parser.Unreported.fresh {parser : Parser} (unreported : parser.Unreported) :
    parser.reportedAt ≠ some parser.consumed := fun reported =>
  (unreported _ reported).false

/-- Nothing ahead has been reported, and each token carries what its kind says. -/
structure Parser.Ready (parser : Parser) : Prop where
  unreported : ∀ index, parser.reportedAt = some index → index < parser.consumed
  wellFormed : ∀ token ∈ parser.ahead, token.WellFormed

theorem Parser.Ready.fresh {parser : Parser} (ready : parser.Ready) :
    parser.reportedAt ≠ some parser.consumed :=
  Unreported.fresh ready.unreported

/-- These tokens were consumed, and nothing was reported or refused. -/
structure Consumes (before after : Parser) (taken : List Token) : Prop where
  ahead : before.ahead = taken ++ after.ahead
  finish : after.finish = before.finish
  consumed : after.consumed = before.consumed + taken.length
  reportedAt : after.reportedAt = before.reportedAt
  errors : after.errors = before.errors
  refused : after.nesting.refused = before.nesting.refused
  unknowns : after.unknowns = before.unknowns + taken.countP Token.isUnknown

/-- Reports stay, and so does the number of refused levels. -/
structure Grows (before after : Parser) : Prop where
  errors : before.errors <:+ after.errors
  refused : before.nesting.refused ≤ after.nesting.refused

theorem Grows.refl (parser : Parser) : Grows parser parser := ⟨List.suffix_rfl, le_rfl⟩

theorem Grows.trans (first : Grows before middle) (second : Grows middle after) :
    Grows before after :=
  ⟨first.errors.trans second.errors, first.refused.trans second.refused⟩

namespace Consumes

theorem refl (parser : Parser) : Consumes parser parser [] := by
  constructor <;> simp

/-- What is recorded and how deep reading is do not matter here. -/
theorem keeps (parser : Parser) {nesting : Nesting} {inventory : Inventory}
    (refused : nesting.refused = parser.nesting.refused) :
    Consumes parser { parser with nesting, inventory } [] := by
  constructor <;> simp [refused]

theorem enter (parser : Parser) : Consumes parser parser.enter [] := keeps parser rfl

theorem leave (parser : Parser) (levels : Nat) : Consumes parser (parser.leave levels) [] :=
  keeps parser rfl

theorem recordIdentifier (parser : Parser) (name : String) :
    Consumes parser (parser.recordIdentifier name) [] := keeps parser rfl

theorem recordAssignment (parser : Parser) (assignment : Assignment) :
    Consumes parser (parser.recordAssignment assignment) [] := keeps parser rfl

theorem recordCondition (parser : Parser) (condition : Expr) :
    Consumes parser (parser.recordCondition condition) [] := keeps parser rfl

theorem recordDeclarations (parser : Parser) (declarations : List VarDecl) :
    Consumes parser (parser.recordDeclarations declarations) [] := keeps parser rfl

theorem trans (first : Consumes before middle taken) (second : Consumes middle after taken') :
    Consumes before after (taken ++ taken') where
  ahead := by rw [first.ahead, second.ahead, List.append_assoc]
  finish := second.finish.trans first.finish
  consumed := by rw [second.consumed, first.consumed, List.length_append, Nat.add_assoc]
  reportedAt := second.reportedAt.trans first.reportedAt
  errors := second.errors.trans first.errors
  refused := second.refused.trans first.refused
  unknowns := by rw [second.unknowns, first.unknowns, List.countP_append, Nat.add_assoc]

theorem grows (consumes : Consumes before after taken) : Grows before after :=
  ⟨consumes.errors ▸ List.suffix_rfl, consumes.refused.ge⟩

theorem unreported (consumes : Consumes before after taken) (unreported : before.Unreported) :
    after.Unreported := by
  intro index reported
  have := unreported index (consumes.reportedAt ▸ reported)
  have := consumes.consumed
  omega

theorem ready (consumes : Consumes before after taken) (ready : before.Ready) : after.Ready where
  unreported := consumes.unreported ready.unreported
  wellFormed token member :=
    ready.wellFormed token (consumes.ahead ▸ List.mem_append_right taken member)

theorem upcoming (consumes : Consumes before after taken) :
    before.upcoming = taken ++ after.upcoming := by
  rw [Parser.upcoming, Parser.upcoming, consumes.ahead, consumes.finish, List.append_assoc]

theorem kind_cons (consumes : Consumes before after (token :: taken)) :
    before.kind = token.kind := by
  simp [Parser.kind, Parser.current, consumes.ahead]

theorem kind_nil (consumes : Consumes before after []) : before.kind = after.kind := by
  simp [Parser.kind, Parser.current, consumes.ahead, consumes.finish]

/-- What is taken and the token behind it start with the token before. -/
theorem cons_kind (consumes : Consumes before after taken) (rest : List TokenKind) :
    ∃ rest', kindsOf taken ++ after.kind :: rest = before.kind :: rest' := by
  cases taken with
  | nil => exact ⟨rest, by rw [consumes.kind_nil]; rfl⟩
  | cons token taken => exact ⟨_, by rw [consumes.kind_cons]; rfl⟩

end Consumes

theorem kind_of_upcoming {parser : Parser} (upcoming : parser.upcoming = token :: later) :
    parser.kind = token.kind := by
  cases ahead : parser.ahead with
  | nil =>
    simp only [Parser.upcoming, ahead, List.nil_append, List.cons.injEq] at upcoming
    simp [Parser.kind, Parser.current, ahead, ← upcoming.1]
  | cons head rest =>
    simp only [Parser.upcoming, ahead, List.cons_append, List.cons.injEq] at upcoming
    simp [Parser.kind, Parser.current, ahead, upcoming.1]

/-- The language behind some tokens: all of it may follow them, and whatever
follows them with this next token is in it. -/
structure Narrows (pending remaining : Language TokenKind) (taken : List TokenKind)
    (next : TokenKind) : Prop where
  viable : ∀ rest ∈ remaining, taken ++ rest ∈ pending
  exact : ∀ rest, taken ++ next :: rest ∈ pending → next :: rest ∈ remaining

theorem Narrows.trans (first : Narrows pending middle (kindsOf taken) between.kind)
    (consumes : Consumes between after taken')
    (second : Narrows middle remaining (kindsOf taken') after.kind) :
    Narrows pending remaining (kindsOf (taken ++ taken')) after.kind where
  viable rest member := by
    rw [kindsOf_append, List.append_assoc]
    exact first.viable _ (second.viable rest member)
  exact rest member := by
    rw [kindsOf_append, List.append_assoc] at member
    obtain ⟨rest', spelled⟩ := consumes.cons_kind rest
    apply second.exact
    rw [spelled] at member ⊢
    exact first.exact rest' member

/-- The report is about the token `next`: with the tokens before it a word of
the language may start, with it none. -/
structure Blames (pending : Language TokenKind) (before : Parser) (error : SyntaxError)
    (taken : List Token) (next : Token) (later : List Token) : Prop where
  upcoming : before.upcoming = taken ++ next :: later
  index : error.index = before.consumed + taken.length
  found : error.found = next.kind
  position : error.position = next.position
  viable : ∃ rest, kindsOf taken ++ rest ∈ pending
  stuck : ∀ rest, kindsOf taken ++ next.kind :: rest ∉ pending

/-- Something was reported: first a token that no word has there, or one at
which no level of nesting was left. -/
def Fails (pending : Language TokenKind) (before after : Parser) : Prop :=
  ∃ error later, after.errors = later ++ error :: before.errors ∧
    (error.cause = .tooDeep → before.nesting.refused < after.nesting.refused) ∧
    (error.cause = .unexpected → ∃ taken next rest, Blames pending before error taken next rest)

theorem Fails.grow (fails : Fails pending before middle) (grows : Grows middle after) :
    Fails pending before after := by
  obtain ⟨error, later, errors, tooDeep, unexpected⟩ := fails
  obtain ⟨more, grown⟩ := grows.errors
  refine ⟨error, more ++ later, ?_, fun cause => ?_, unexpected⟩
  · rw [← grown, errors, List.append_assoc]
  · exact (tooDeep cause).trans_le grows.refused

theorem Fails.consumed_before (consumes : Consumes before middle taken)
    (narrows : Narrows pending remaining (kindsOf taken) middle.kind)
    (fails : Fails remaining middle after) : Fails pending before after := by
  obtain ⟨error, later, errors, tooDeep, unexpected⟩ := fails
  refine ⟨error, later, consumes.errors ▸ errors, consumes.refused ▸ tooDeep, fun cause => ?_⟩
  obtain ⟨taken', next, rest, blames⟩ := unexpected cause
  refine ⟨taken ++ taken', next, rest, ?_⟩
  obtain ⟨completion, viable⟩ := blames.viable
  constructor
  · rw [consumes.upcoming, blames.upcoming, List.append_assoc]
  · rw [blames.index, consumes.consumed, List.length_append, Nat.add_assoc]
  · exact blames.found
  · exact blames.position
  · exact ⟨completion, by
      rw [kindsOf_append, List.append_assoc]
      exact narrows.viable _ viable⟩
  · intro rest member
    rw [kindsOf_append, List.append_assoc] at member
    -- The language behind `taken` is only told for words that start with the token there.
    have starts : ∃ rest', kindsOf taken' ++ next.kind :: rest = middle.kind :: rest' := by
      cases taken' with
      | nil => exact ⟨rest, by rw [kind_of_upcoming blames.upcoming]; rfl⟩
      | cons token taken' => exact ⟨_, by rw [kind_of_upcoming blames.upcoming]; rfl⟩
    obtain ⟨rest', spelled⟩ := starts
    apply blames.stuck rest
    rw [spelled] at member ⊢
    exact narrows.exact rest' member

/-- A stretch of reading, from `before` to `after`. If it was silent, `good`
holds of the tokens it took. -/
structure Reads (pending remaining : Language TokenKind) (before after : Parser)
    (good : List Token → Prop) : Prop where
  grows : Grows before after
  outcome : before.Ready →
    (∃ taken, Consumes before after taken ∧
      Narrows pending remaining (kindsOf taken) after.kind ∧ good taken) ∨
    Fails pending before after

/-- One token of a kind, with what it carries. -/
def OneToken (kind : TokenKind) (taken : List Token) : Prop :=
  ∃ token, taken = [token] ∧ token.kind = kind ∧ token.WellFormed

/-! ### The steps -/

section

variable {pending middle remaining : Language TokenKind} {before between after : Parser}

theorem ahead_of_kind {parser : Parser} (present : parser.kind ≠ .eof) :
    parser.ahead = parser.current :: parser.ahead.drop 1 := by
  cases ahead : parser.ahead with
  | nil => exact absurd (by simp [Parser.kind, Parser.current, ahead]) present
  | cons token rest => simp [Parser.current, ahead]

theorem Consumes.take {parser : Parser} (ahead : parser.ahead = token :: rest) :
    Consumes parser parser.advance [token] := by
  constructor <;> simp [Parser.advance, Parser.pass, ahead]

theorem Parser.expect_of_kind {parser : Parser} (found : parser.kind = expected) :
    parser.expect expected = parser.advance := if_pos found

theorem Parser.expect_of_ne {parser : Parser} (other : parser.kind ≠ expected) :
    parser.expect expected = parser.report expected := if_neg other

theorem grows_pass (parser : Parser) (count : Nat) : Grows parser (parser.pass count) :=
  ⟨List.suffix_rfl, le_rfl⟩

theorem grows_reportAs (parser : Parser) (cause : SyntaxCause) (expected : TokenKind) :
    Grows parser (parser.reportAs cause expected) := by
  rw [Parser.reportAs]
  split
  · exact .refl parser
  · exact ⟨List.suffix_cons .., le_rfl⟩

theorem grows_refuse (parser : Parser) (expected : TokenKind) :
    Grows parser (parser.refuse expected) := by
  have reported := grows_reportAs parser .tooDeep expected
  exact ⟨reported.errors, reported.refused.trans (Nat.le_succ _)⟩

namespace Reads

/-- A step that takes no token and changes nothing that is told here. -/
theorem quiet (silent : Consumes before after []) :
    Reads pending pending before after (· = []) where
  grows := silent.grows
  outcome _ := .inl ⟨[], silent, ⟨fun _ member => member, fun _ member => member⟩, rfl⟩

/-- Looking at the current token may leave out words that do not start with it. -/
theorem look {parser : Parser} (viable : ∀ rest ∈ remaining, rest ∈ pending)
    (exact : ∀ rest, parser.kind :: rest ∈ pending → parser.kind :: rest ∈ remaining) :
    Reads pending remaining parser parser (· = []) where
  grows := .refl parser
  outcome _ := .inl ⟨[], .refl parser, ⟨viable, exact⟩, rfl⟩

theorem mono {good good' : List Token → Prop} (reads : Reads pending remaining before after good)
    (better : ∀ taken, Consumes before after taken → good taken → good' taken) :
    Reads pending remaining before after good' where
  grows := reads.grows
  outcome ready := by
    rcases reads.outcome ready with ⟨taken, consumes, narrows, held⟩ | fails
    · exact .inl ⟨taken, consumes, narrows, better taken consumes held⟩
    · exact .inr fails

/-- What is left behind a stretch may be told as more, if the tokens allow it. -/
theorem widen {good : List Token → Prop} (reads : Reads pending middle before after good)
    (viable : ∀ taken, good taken → ∀ rest ∈ remaining, kindsOf taken ++ rest ∈ pending)
    (exact : ∀ rest, after.kind :: rest ∈ middle → after.kind :: rest ∈ remaining) :
    Reads pending remaining before after good where
  grows := reads.grows
  outcome ready := by
    rcases reads.outcome ready with ⟨taken, consumes, narrows, held⟩ | fails
    · exact .inl ⟨taken, consumes,
        ⟨viable taken held, fun rest member => exact rest (narrows.exact rest member)⟩, held⟩
    · exact .inr fails

theorem bind {good good' : List Token → Prop} (first : Reads pending middle before between good)
    (grows : Grows between after)
    (second : ∀ taken, Consumes before between taken → good taken →
      Reads middle remaining between after good') :
    Reads pending remaining before after fun taken => ∃ head tail, taken = head ++ tail ∧
      Consumes before between head ∧ good head ∧ Consumes between after tail ∧ good' tail where
  grows := first.grows.trans grows
  outcome ready := by
    rcases first.outcome ready with ⟨head, consumes, narrows, held⟩ | fails
    · rcases (second head consumes held).outcome (consumes.ready ready) with
        ⟨tail, consumes', narrows', held'⟩ | fails
      · exact .inl ⟨head ++ tail, consumes.trans consumes', narrows.trans consumes' narrows',
          head, tail, rfl, consumes, held, consumes', held'⟩
      · exact .inr (fails.consumed_before consumes narrows)
    · exact .inr (fails.grow grows)

theorem andThen {good good' : List Token → Prop}
    (first : Reads pending middle before between good)
    (second : Reads middle remaining between after good') :
    Reads pending remaining before after fun taken => ∃ head tail, taken = head ++ tail ∧
      Consumes before between head ∧ good head ∧ Consumes between after tail ∧ good' tail :=
  first.bind second.grows fun _ _ _ => second

theorem after_quiet {good : List Token → Prop} (silent : Consumes before between [])
    (reads : Reads pending remaining between after good) :
    Reads pending remaining before after good :=
  ((quiet silent).andThen reads).mono fun _ _ ⟨_, _, split, _, empty, _, held⟩ => by
    rwa [split, empty, List.nil_append]

theorem before_quiet {good : List Token → Prop}
    (reads : Reads pending remaining before between good) (silent : Consumes between after []) :
    Reads pending remaining before after good :=
  (reads.andThen (quiet silent)).mono fun _ _ ⟨_, _, split, _, held, _, empty⟩ => by
    rwa [split, empty, List.append_nil]

/-- The current token is taken, and words that start with it go on behind it. -/
theorem advance {parser : Parser} (present : parser.kind ≠ .eof)
    (next : ∀ rest, parser.kind :: rest ∈ pending ↔ rest ∈ remaining) :
    Reads pending remaining parser parser.advance
      fun taken => taken = [parser.current] ∧ parser.current.WellFormed where
  grows := grows_pass parser 1
  outcome ready := by
    have ahead := ahead_of_kind present
    have wellFormed : parser.current.WellFormed :=
      ready.wellFormed _ (ahead ▸ List.mem_cons_self)
    refine .inl ⟨[parser.current], .take ahead, ⟨?_, ?_⟩, rfl, wellFormed⟩
    · exact fun rest member => (next rest).mpr member
    · exact fun rest member => (next _).mp member

/-- The same for a kind that is known. -/
theorem take {parser : Parser} (found : parser.kind = kind) (present : kind ≠ .eof)
    (next : ∀ rest, kind :: rest ∈ pending ↔ rest ∈ remaining) :
    Reads pending remaining parser parser.advance (OneToken kind) := by
  subst found
  exact (advance present next).mono fun _ _ ⟨spelled, wellFormed⟩ =>
    ⟨_, spelled, rfl, wellFormed⟩

/-- A token that no word has there is reported, whatever comes after. -/
theorem fail {good : List Token → Prop} {parser : Parser} (expected : TokenKind)
    (viable : ∃ word, word ∈ pending) (stuck : ∀ rest, parser.kind :: rest ∉ pending)
    (grows : Grows (parser.report expected) after) :
    Reads pending remaining parser after good where
  grows := (grows_reportAs parser .unexpected expected).trans grows
  outcome ready := by
    refine .inr (Fails.grow ?_ grows)
    have fresh := ready.fresh
    obtain ⟨later, upcoming⟩ : ∃ later, parser.upcoming = parser.current :: later := by
      cases ahead : parser.ahead <;> simp [Parser.upcoming, Parser.current, ahead]
    refine ⟨⟨parser.kind, expected, parser.current.position, parser.consumed, .unexpected⟩, [],
      ?_, nofun, fun _ => ⟨[], parser.current, later, ?_⟩⟩
    · simp [Parser.report, Parser.reportAs, fresh]
    · exact ⟨upcoming, rfl, rfl, rfl, viable, stuck⟩

theorem refuse {good : List Token → Prop} {parser : Parser} (expected : TokenKind)
    (grows : Grows (parser.refuse expected) after) : Reads pending remaining parser after good where
  grows := (grows_refuse parser expected).trans grows
  outcome ready := by
    refine .inr (Fails.grow ?_ grows)
    have fresh := ready.fresh
    refine ⟨⟨parser.kind, expected, parser.current.position, parser.consumed, .tooDeep⟩, [],
      ?_, fun _ => ?_, nofun⟩
    · simp [Parser.refuse, Parser.reportAs, fresh, Parser.skipTo, Parser.pass]
    · simp [Parser.refuse, Parser.reportAs, fresh, Parser.skipTo, Parser.pass, Nesting.refuse]

/-- One kind of token is all that may stand there: any other is reported, and
then it does not matter how reading goes on. -/
theorem token {parser recovered : Parser} {expected : TokenKind} (present : expected ≠ .eof)
    (inhabited : ∃ word, word ∈ remaining) (grows : Grows (parser.report expected) recovered) :
    Reads (only expected * remaining) remaining parser
      (if parser.kind = expected then parser.advance else recovered) (OneToken expected) := by
  split
  · rename_i found
    exact take found present fun rest => by simp
  · rename_i other
    obtain ⟨word, member⟩ := inhabited
    refine fail expected ⟨_, Language.append_mem_mul (mem_only expected) member⟩ (fun rest => ?_)
      grows
    rw [cons_mem_only_mul]
    exact fun held => other held.1

theorem expect (parser : Parser) (expected : TokenKind) (present : expected ≠ .eof)
    (inhabited : ∃ word, word ∈ remaining) :
    Reads (only expected * remaining) remaining parser (parser.expect expected)
      (OneToken expected) :=
  token present inhabited (.refl _)

theorem expectOr (parser : Parser) (expected : TokenKind) (follow : List TokenKind)
    (present : expected ≠ .eof) (inhabited : ∃ word, word ∈ remaining) :
    Reads (only expected * remaining) remaining parser (parser.expectOr expected follow)
      (OneToken expected) :=
  token present inhabited (grows_pass _ _)

end Reads

/-! ### Repetition -/

section

variable {item follow : Language TokenKind} {goesOn : TokenKind → Bool}
  {step : Parser → α × Parser} {good : List Token → α → Prop}

private theorem grows_repeatUpTo
    (steps : ∀ parser, goesOn parser.kind → Grows parser (step parser).2) (bound : Nat)
    (parser : Parser) : Grows parser (Parser.repeatUpTo goesOn step bound parser).2 := by
  induction bound generalizing parser with
  | zero => exact .refl parser
  | succ bound ih =>
    rw [Parser.repeatUpTo]
    split
    · rename_i continues
      exact (steps parser continues).trans (ih _)
    · exact .refl parser

private theorem reads_nothing
    (stops : ∀ kind rest, goesOn kind = false → kind :: rest ∉ item * (item∗ * follow))
    {parser : Parser} (stopped : goesOn parser.kind = false) :
    Reads (item∗ * follow) follow parser parser fun taken => Sequence good taken [] := by
  have look : Reads (item∗ * follow) follow parser parser (· = []) :=
    .look (fun rest member => mem_kstar_mul.mpr (.inl member)) fun rest member =>
      (mem_kstar_mul.mp member).resolve_right (stops _ _ stopped)
  exact look.mono fun taken _ empty => empty ▸ .nil

private theorem reads_repeatUpTo
    (steps : ∀ parser, goesOn parser.kind → Reads (item * (item∗ * follow)) (item∗ * follow)
      parser (step parser).2 fun taken => taken ≠ [] ∧ good taken (step parser).1)
    (starts : ∀ kind rest, goesOn kind → kind :: rest ∉ follow)
    (stops : ∀ kind rest, goesOn kind = false → kind :: rest ∉ item * (item∗ * follow))
    (finite : goesOn .eof = false) (bound : Nat) (parser : Parser)
    (enough : parser.ahead.length ≤ bound) :
    Reads (item∗ * follow) follow parser (Parser.repeatUpTo goesOn step bound parser).2
      fun taken => Sequence good taken (Parser.repeatUpTo goesOn step bound parser).1 := by
  induction bound generalizing parser with
  | zero =>
    have atEnd : parser.ahead = [] := List.length_eq_zero_iff.mp (Nat.le_zero.mp enough)
    exact reads_nothing stops (by simpa [Parser.kind, Parser.current, atEnd] using finite)
  | succ bound ih =>
    rw [Parser.repeatUpTo]
    split
    · rename_i continues
      have look : Reads (item∗ * follow) (item * (item∗ * follow)) parser parser (· = []) :=
        .look (fun rest member => mem_kstar_mul.mpr (.inr member)) fun rest member =>
          (mem_kstar_mul.mp member).resolve_left (starts _ _ continues)
      refine ((look.andThen (steps parser continues)).bind
        (grows_repeatUpTo (fun parser continues => (steps parser continues).grows) bound _)
        fun taken consumes held => ih _ ?_).mono ?_
      · -- A step takes a token, so the tokens that are left fit the smaller bound.
        obtain ⟨_, tail, split, _, rfl, _, nonempty, _⟩ := held
        have shorter := congrArg List.length consumes.ahead
        have := List.length_pos_iff.mpr nonempty
        simp only [split, List.nil_append, List.length_append] at shorter
        omega
      · rintro _ _ ⟨_, others, rfl, _, ⟨_, first, rfl, _, rfl, _, _, held⟩, _, rest⟩
        exact .cons held rest
    · rename_i stopped
      exact reads_nothing stops (by simpa using stopped)

/-- A repetition reads items as long as one may start: each item takes a token,
and what follows starts none. -/
theorem reads_repeatWhile
    (steps : ∀ parser, goesOn parser.kind → Reads (item * (item∗ * follow)) (item∗ * follow)
      parser (step parser).2 fun taken => taken ≠ [] ∧ good taken (step parser).1)
    (starts : ∀ kind rest, goesOn kind → kind :: rest ∉ follow)
    (stops : ∀ kind rest, goesOn kind = false → kind :: rest ∉ item * (item∗ * follow))
    (finite : goesOn .eof = false) (parser : Parser) :
    Reads (item∗ * follow) follow parser (parser.repeatWhile goesOn step).2
      fun taken => Sequence good taken (parser.repeatWhile goesOn step).1 :=
  reads_repeatUpTo steps starts stops finite _ parser le_rfl

end

end

end ToyC
