import ToyC.Proofs.Progress

/-! Reading with the rest of the text unknown. A reader looks at no token but
the current one. So as long as it is at one of the tokens that are known, what
it does is the same whatever follows them; and once it has passed them all, it
reports nothing about them any more. -/
namespace ToyC

namespace Parser

/-- The parser when this is what follows the tokens that are ahead. -/
def onto (parser : Parser) (rest : List Token) (finish : Position) : Parser :=
  { parser with ahead := parser.ahead ++ rest, finish }

/-- The index of the first token behind those that are ahead. -/
def horizon (parser : Parser) : Nat := parser.consumed + parser.ahead.length

/-- The reports about tokens with a lower index, the last one first. -/
def reportsBefore (parser : Parser) (index : Nat) : List SyntaxError :=
  parser.errors.filter fun error => error.index < index

variable {parser : Parser} (rest : List Token) (finish : Position)

@[simp] theorem onto_current (present : parser.ahead ≠ []) :
    (parser.onto rest finish).current = parser.current := by
  obtain ⟨token, others, next⟩ := List.exists_cons_of_ne_nil present
  simp [current, onto, next]

@[simp] theorem onto_kind (present : parser.ahead ≠ []) :
    (parser.onto rest finish).kind = parser.kind := by
  rw [kind, onto_current rest finish present, kind]

theorem onto_nil (parser : Parser) : parser.onto [] parser.finish = parser := by
  rw [onto, List.append_nil]

/-- What is passed is ahead. -/
theorem onto_pass (enough : count ≤ parser.ahead.length) :
    (parser.onto rest finish).pass count = (parser.pass count).onto rest finish := by
  simp [pass, onto, List.drop_append_of_le_length enough, List.take_append_of_le_length enough]

@[simp] theorem onto_reportAs (cause : SyntaxCause) (expected : TokenKind)
    (present : parser.ahead ≠ []) :
    (parser.onto rest finish).reportAs cause expected =
      (parser.reportAs cause expected).onto rest finish := by
  rw [reportAs, reportAs, onto_kind rest finish present, onto_current rest finish present]
  change (if parser.reportedAt = some parser.consumed then _ else _) = _
  split <;> rfl

theorem pass_horizon (enough : count ≤ parser.ahead.length) :
    (parser.pass count).horizon = parser.horizon := by
  rw [horizon, horizon, pass, List.length_drop]
  dsimp only
  omega

end Parser

/-- Reading goes on: reports that are made now are about tokens from here on. -/
structure Forward (before after : Parser) : Prop where
  consumed : before.consumed ≤ after.consumed
  reports : ∀ index ≤ before.consumed, after.reportsBefore index = before.reportsBefore index

namespace Forward

theorem refl (parser : Parser) : Forward parser parser := ⟨Nat.le_refl _, fun _ _ => rfl⟩

theorem trans (first : Forward before between) (second : Forward between after) :
    Forward before after :=
  ⟨Nat.le_trans first.consumed second.consumed, fun index reached =>
    (second.reports index (Nat.le_trans reached first.consumed)).trans
      (first.reports index reached)⟩

theorem pass (parser : Parser) (count : Nat) : Forward parser (parser.pass count) :=
  ⟨Nat.le_add_right _ _, fun _ _ => rfl⟩

theorem reportAs (parser : Parser) (cause : SyntaxCause) (expected : TokenKind) :
    Forward parser (parser.reportAs cause expected) := by
  rw [Parser.reportAs]
  split
  · exact refl parser
  · refine ⟨Nat.le_refl _, fun index reached => ?_⟩
    rw [Parser.reportsBefore, List.filter_cons_of_neg (by simpa using reached)]
    rfl

end Forward

/-- What is read when the text is not known from the token `horizon` on. Either
reading stops before, or at that token without a look at it, and then depends on
nothing behind; or it goes beyond, and then all is said about the tokens before. -/
inductive Settled (horizon : Nat) (reading : List Token → Position → α × Parser) : Prop
  | within (value : α) (after : Parser) (reach : after.horizon = horizon)
      (same : ∀ rest finish, reading rest finish = (value, after.onto rest finish))
  | beyond (reports : List SyntaxError)
      (passed : ∀ rest finish, horizon ≤ (reading rest finish).2.consumed)
      (known : ∀ rest finish, (reading rest finish).2.reportsBefore horizon = reports)

/-- What follows makes no difference for the reports about the tokens before. -/
theorem Settled.reportsBefore_eq {reading : List Token → Position → α × Parser}
    (settled : Settled horizon reading) (rest rest' : List Token) (finish finish' : Position) :
    (reading rest finish).2.reportsBefore horizon =
      (reading rest' finish').2.reportsBefore horizon := by
  cases settled with
  | within value after reach same =>
    rw [same, same]
    rfl
  | beyond reports passed known => rw [known, known]

/-- If reading stops at the tokens that are known, what comes next has to be
settled too. If it has passed them, what comes next only has to go on. -/
theorem Settled.bind {reading : List Token → Position → α × Parser}
    (head : Settled horizon reading) (next : α → Parser → β × Parser)
    (forward : ∀ value parser, Forward parser (next value parser).2)
    (tail : ∀ value (after : Parser),
      (∀ rest finish, reading rest finish = (value, after.onto rest finish)) → after.ahead ≠ [] →
        Settled after.horizon fun rest finish => next value (after.onto rest finish)) :
    Settled horizon fun rest finish =>
      next (reading rest finish).1 (reading rest finish).2 := by
  cases head with
  | within value after reach same =>
    subst reach
    by_cases more : after.ahead = []
    · have reached : after.horizon ≤ after.consumed := by simp [Parser.horizon, more]
      simp only [same]
      exact .beyond (after.reportsBefore after.horizon)
        (fun rest finish =>
          Nat.le_trans reached (forward value (after.onto rest finish)).consumed)
        (fun rest finish => (forward value (after.onto rest finish)).reports _ reached)
    · have settled := tail value after same more
      simp only [same]
      exact settled
  | beyond reports passed known =>
    exact .beyond reports
      (fun rest finish => Nat.le_trans (passed rest finish) (forward _ _).consumed)
      (fun rest finish => ((forward _ _).reports _ (passed rest finish)).trans (known rest finish))

theorem Settled.map {reading : List Token → Position → α × Parser}
    (settled : Settled horizon reading) (f : α → β) :
    Settled horizon fun rest finish => (f (reading rest finish).1, (reading rest finish).2) :=
  settled.bind (fun value parser => (f value, parser)) (fun _ => .refl)
    fun value after _ _ => .within (f value) after rfl fun _ _ => rfl

/-- The reader goes on, and as long as it is at tokens that are known, what it
reads is settled. -/
structure Online (read : Parser → α × Parser) : Prop where
  forward : ∀ parser, Forward parser (read parser).2
  settled : ∀ parser : Parser, parser.ahead ≠ [] →
    Settled parser.horizon fun rest finish => read (parser.onto rest finish)

/-- The same for what only changes the parser. -/
def OnlineStep (step : Parser → Parser) : Prop := Online fun parser => ((), step parser)

namespace Online

variable {read : Parser → α × Parser} {step : Parser → Parser}

/-- Readers one after the other. -/
theorem bind {next : α → Parser → β × Parser} (head : Online read)
    (tail : ∀ value, Online (next value)) :
    Online fun parser => next (read parser).1 (read parser).2 where
  forward parser := (head.forward parser).trans ((tail _).forward _)
  settled parser present := (head.settled parser present).bind next (fun value => (tail value).forward)
    fun value after _ more => (tail value).settled after more

theorem pure (value : α) : Online fun parser => (value, parser) where
  forward := .refl
  settled parser _ := .within value parser rfl fun _ _ => rfl

theorem map (online : Online read) (f : α → β) :
    Online fun parser => (f (read parser).1, (read parser).2) :=
  online.bind fun value => pure (f value)

/-- A step that gives a value. -/
theorem returning (online : OnlineStep step) (value : α) :
    Online fun parser => (value, step parser) :=
  map online fun _ => value

/-- A step and then a reader. -/
theorem behind (online : Online read) (first : OnlineStep step) :
    Online fun parser => read (step parser) :=
  Online.bind first fun _ => online

/-- A reader and then a step. -/
theorem before (online : Online read) (last : OnlineStep step) :
    Online fun parser => ((read parser).1, step (read parser).2) :=
  online.bind fun value => returning last value

/-- A choice by what does not depend on the tokens that are not known. -/
theorem of_look {look : Parser → β}
    (known : ∀ (parser : Parser) rest finish, parser.ahead ≠ [] →
      look (parser.onto rest finish) = look parser)
    (choice : ∀ seen, ∃ branch, Online branch ∧
      ∀ parser, look parser = seen → read parser = branch parser) : Online read where
  forward parser := by
    obtain ⟨branch, online, same⟩ := choice (look parser)
    rw [same parser rfl]
    exact online.forward parser
  settled parser present := by
    obtain ⟨branch, online, same⟩ := choice (look parser)
    have chosen (rest finish) : read (parser.onto rest finish) = branch (parser.onto rest finish) :=
      same _ (known parser rest finish present)
    simp only [chosen]
    exact online.settled parser present

/-- A choice by the current token. -/
theorem of_current (choice : ∀ token, ∃ branch, Online branch ∧
    ∀ parser : Parser, parser.current = token → read parser = branch parser) : Online read :=
  of_look (fun _ rest finish present => Parser.onto_current rest finish present) choice

/-- A choice by its kind. -/
theorem of_kind (choice : ∀ kind, ∃ branch, Online branch ∧
    ∀ parser : Parser, parser.kind = kind → read parser = branch parser) : Online read :=
  of_look (fun _ rest finish present => Parser.onto_kind rest finish present) choice

/-- A choice between two readers by the kind of the current token. -/
theorem ite {read' : Parser → α × Parser} (chosen : TokenKind → Prop) [DecidablePred chosen]
    (online : Online read) (online' : Online read') :
    Online fun parser => if chosen parser.kind then read parser else read' parser := by
  refine of_kind fun kind => ?_
  by_cases holds : chosen kind
  · exact ⟨read, online, fun parser same => if_pos (same ▸ holds)⟩
  · exact ⟨read', online', fun parser same => if_neg (same ▸ holds)⟩

end Online

/-! ### Steps -/

namespace OnlineStep

variable {step second : Parser → Parser}

theorem comp (later : OnlineStep second) (first : OnlineStep step) :
    OnlineStep fun parser => second (step parser) :=
  Online.bind first fun _ => later

/-- What is recorded, and the nesting, are changed apart from the tokens. -/
theorem note (nesting : Nesting → Nesting) (inventory : Inventory → Inventory) :
    OnlineStep fun parser => { parser with
      nesting := nesting parser.nesting, inventory := inventory parser.inventory } where
  forward _ := ⟨Nat.le_refl _, fun _ _ => rfl⟩
  settled parser _ := .within () { parser with
    nesting := nesting parser.nesting, inventory := inventory parser.inventory } rfl fun _ _ => rfl

theorem enter : OnlineStep Parser.enter := note Nesting.enter id

theorem leave (levels : Nat) : OnlineStep fun parser => parser.leave levels :=
  note (Nesting.leave · levels) id

theorem recordIdentifier (name : String) : OnlineStep fun parser => parser.recordIdentifier name :=
  note id fun inventory => { inventory with identifiers := name :: inventory.identifiers }

theorem recordAssignment (assignment : Assignment) :
    OnlineStep fun parser => parser.recordAssignment assignment :=
  note id fun inventory => { inventory with assignments := assignment :: inventory.assignments }

theorem recordCondition (condition : Expr) :
    OnlineStep fun parser => parser.recordCondition condition :=
  note id fun inventory => { inventory with conditions := condition :: inventory.conditions }

theorem recordDeclarations (declarations : List VarDecl) :
    OnlineStep fun parser => parser.recordDeclarations declarations :=
  note id fun inventory =>
    { inventory with declarations := declarations.reverse ++ inventory.declarations }

theorem advance : OnlineStep Parser.advance where
  forward parser := .pass parser 1
  settled parser present := by
    have enough : 1 ≤ parser.ahead.length := List.length_pos_iff.mpr present
    exact .within () _ (Parser.pass_horizon enough) fun rest finish =>
      congrArg (Prod.mk ()) (Parser.onto_pass rest finish enough)

theorem reportAs (cause : SyntaxCause) (expected : TokenKind) :
    OnlineStep fun parser => parser.reportAs cause expected where
  forward parser := .reportAs parser cause expected
  settled parser present := by
    have reach : (parser.reportAs cause expected).horizon = parser.horizon := by
      simp [Parser.horizon]
    exact .within () _ reach fun rest finish =>
      congrArg (Prod.mk ()) (Parser.onto_reportAs rest finish cause expected present)

theorem report (expected : TokenKind) : OnlineStep fun parser => parser.report expected :=
  reportAs .unexpected expected

/-- Skipping stops at a token that is known, or passes all of them. -/
theorem skipTo (follow : List TokenKind) : OnlineStep fun parser => parser.skipTo follow where
  forward parser := .pass parser _
  settled parser _ := by
    have inside : (parser.ahead.takeWhile fun token => !token.isOneOf follow).length ≤
        parser.ahead.length := (List.takeWhile_prefix _).length_le
    by_cases all : (parser.ahead.takeWhile fun token => !token.isOneOf follow).length =
        parser.ahead.length
    · refine .beyond (parser.reportsBefore parser.horizon) (fun rest finish => ?_) fun _ _ => rfl
      have longer : parser.ahead.length ≤ ((parser.onto rest finish).ahead.takeWhile fun token =>
          !token.isOneOf follow).length := by
        rw [Parser.onto, List.takeWhile_append, if_pos all, List.length_append]
        exact Nat.le_add_right _ _
      exact Nat.add_le_add_left longer parser.consumed
    · refine .within () (parser.skipTo follow) (Parser.pass_horizon inside)
        fun rest finish => congrArg (Prod.mk ()) ?_
      have stops : (parser.onto rest finish).ahead.takeWhile (fun token => !token.isOneOf follow) =
          parser.ahead.takeWhile fun token => !token.isOneOf follow := by
        rw [Parser.onto, List.takeWhile_append, if_neg all]
      dsimp only
      rw [Parser.skipTo, stops, Parser.onto_pass rest finish inside, Parser.skipTo]

theorem ite (chosen : TokenKind → Prop) [DecidablePred chosen] (online : OnlineStep step)
    (online' : OnlineStep second) :
    OnlineStep fun parser => if chosen parser.kind then step parser else second parser := by
  have both := Online.ite chosen online online'
  simpa only [OnlineStep, apply_ite (Prod.mk ())] using both

theorem expect (expected : TokenKind) : OnlineStep fun parser => parser.expect expected :=
  ite (· = expected) advance (report expected)

theorem expectOr (expected : TokenKind) (follow : List TokenKind) :
    OnlineStep fun parser => parser.expectOr expected follow :=
  ite (· = expected) advance ((skipTo follow).comp (report expected))

theorem refuse (expected : TokenKind) : OnlineStep fun parser => parser.refuse expected :=
  ((skipTo _).comp (note Nesting.refuse id)).comp (reportAs .tooDeep expected)

end OnlineStep

/-! ### Repetition -/

section

variable {goesOn : TokenKind → Bool} {step : Parser → α × Parser}

private theorem Loops.forward (loops : Loops goesOn step parser result)
    (forward : ∀ parser, Forward parser (step parser).2) : Forward parser result.2 := by
  induction loops with
  | stop => exact .refl _
  | again _ _ ih => exact (forward _).trans ih

/-- The induction is on the tokens that are known: each step takes one of them,
as it does when nothing follows. -/
theorem online_repeatWhile (online : Online step)
    (shorter : ∀ parser, goesOn parser.kind →
      (step parser).2.ahead.length < parser.ahead.length)
    (finite : goesOn .eof = false) : Online fun parser => parser.repeatWhile goesOn step := by
  have forward (parser : Parser) : Forward parser (parser.repeatWhile goesOn step).2 :=
    (loops_repeatWhile shorter finite parser).forward online.forward
  refine ⟨forward, fun parser present => ?_⟩
  induction length : parser.ahead.length using Nat.strongRecOn generalizing parser with
  | _ length ih =>
    subst length
    by_cases continues : goesOn parser.kind
    · have unfolded (rest finish) := repeatWhile_eq shorter finite (parser.onto rest finish)
      simp only [Parser.onto_kind _ _ present, if_pos continues] at unfolded
      simp only [unfolded]
      refine (online.settled parser present).bind
        (fun first between =>
          (first :: (between.repeatWhile goesOn step).1, (between.repeatWhile goesOn step).2))
        (fun _ between => forward between) fun first after same more => ?_
      have taken := shorter parser continues
      rw [← parser.onto_nil, same, Parser.onto_nil] at taken
      simp only [Parser.onto, List.append_nil] at taken
      exact (ih _ taken after more rfl).map (first :: ·)
    · have unfolded (rest finish) := repeatWhile_eq shorter finite (parser.onto rest finish)
      simp only [Parser.onto_kind _ _ present, if_neg continues] at unfolded
      exact .within [] parser rfl unfolded

end

end ToyC
