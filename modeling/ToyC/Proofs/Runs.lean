import ToyC.ProgramReader

/-! What readers are made of. Between two states of a parser tokens are taken
one by one, the closing `eof` may be passed some more times, tokens are
reported, and nesting and records change. Every reader is such a run, and
passes the end of the text at most a fixed number of times: whoever passes it
finds nothing more to read. -/
namespace ToyC

/-- Whether a token of a text may be of this kind: the other kinds only name
what was expected. -/
def TokenKind.isLexical : TokenKind → Bool
  | .statement | .expression | .operator | .type => false
  | _ => true

/-- Step by step the parser takes these tokens, and then passes the closing
`eof` so many times. A token is not reported for being what was expected. -/
inductive Runs : Parser → List Token → Nat → Parser → Prop
  | done : Runs parser [] 0 parser
  | take (next : parser.ahead = token :: rest) (others : Runs parser.advance taken beyond after) :
      Runs parser (token :: taken) beyond after
  | pass (atEnd : parser.ahead = []) (others : Runs parser.advance taken beyond after) :
      Runs parser taken (beyond + 1) after
  | report (other : expected.isLexical → parser.kind ≠ expected)
      (others : Runs (parser.reportAs cause expected) taken beyond after) :
      Runs parser taken beyond after
  | note (others : Runs { parser with nesting, inventory } taken beyond after) :
      Runs parser taken beyond after

theorem kind_of_atEnd {parser : Parser} (atEnd : parser.ahead = []) : parser.kind = .eof := by
  simp [Parser.kind, Parser.current, atEnd]

theorem ahead_ne_nil_of_kind {parser : Parser} (present : parser.kind ≠ .eof) :
    parser.ahead ≠ [] := fun atEnd => present (kind_of_atEnd atEnd)

/-- A token that some rule takes is not the closing one. -/
theorem ahead_ne_nil_of_rule {parser : Parser} {rules : TokenKind → Option α}
    (found : rules parser.kind = some rule) (none : rules .eof = none) : parser.ahead ≠ [] := by
  apply ahead_ne_nil_of_kind
  intro eof
  rw [eof, none] at found
  cases found

@[simp] theorem Parser.reportAs_ahead (parser : Parser) (cause : SyntaxCause)
    (expected : TokenKind) : (parser.reportAs cause expected).ahead = parser.ahead := by
  rw [reportAs]
  split <;> rfl

@[simp] theorem Parser.reportAs_consumed (parser : Parser) (cause : SyntaxCause)
    (expected : TokenKind) : (parser.reportAs cause expected).consumed = parser.consumed := by
  rw [reportAs]
  split <;> rfl

@[simp] theorem Parser.reportAs_unknowns (parser : Parser) (cause : SyntaxCause)
    (expected : TokenKind) : (parser.reportAs cause expected).unknowns = parser.unknowns := by
  rw [reportAs]
  split <;> rfl

namespace Runs

theorem trans (first : Runs before taken beyond between)
    (second : Runs between taken' beyond' after) :
    Runs before (taken ++ taken') (beyond + beyond') after := by
  induction first with
  | done => simpa using second
  | take next _ ih => exact .take next (ih second)
  | pass atEnd _ ih =>
    rw [Nat.add_right_comm]
    exact .pass atEnd (ih second)
  | report other _ ih => exact .report other (ih second)
  | note _ ih => exact .note (ih second)

/-- The tokens that were taken are those that are not ahead any more. -/
theorem ahead (runs : Runs before taken beyond after) : before.ahead = taken ++ after.ahead := by
  induction runs with
  | done => rfl
  | take next _ ih =>
    rw [Parser.advance, Parser.pass, next] at ih
    rw [next, List.cons_append, ← ih]
    rfl
  | pass atEnd _ ih => simpa [Parser.advance, Parser.pass, atEnd] using ih
  | report _ _ ih => simpa using ih
  | note _ ih => exact ih

theorem consumed (runs : Runs before taken beyond after) :
    after.consumed = before.consumed + taken.length + beyond := by
  induction runs with
  | done => rfl
  | take _ _ ih =>
    rw [ih, Parser.advance, Parser.pass, List.length_cons]
    dsimp only
    omega
  | pass _ _ ih =>
    rw [ih, Parser.advance, Parser.pass]
    dsimp only
    omega
  | report _ _ ih => simpa using ih
  | note _ ih => exact ih

/-- Each unknown token that was taken is counted, whatever was reported on the way. -/
theorem unknowns (runs : Runs before taken beyond after) :
    after.unknowns = before.unknowns + taken.countP Token.isUnknown := by
  induction runs with
  | done => rfl
  | take next _ ih =>
    rw [ih, Parser.advance, Parser.pass, next, List.countP_cons]
    simp only [List.take_succ_cons, List.take_zero, List.countP_singleton]
    omega
  | pass atEnd _ ih => simpa [Parser.advance, Parser.pass, atEnd] using ih
  | report _ _ ih => simpa using ih
  | note _ ih => exact ih

/-- Who passed the end is there. -/
theorem atEnd (runs : Runs before taken beyond after) (passed : 0 < beyond) :
    after.ahead = [] := by
  induction runs with
  | done => exact absurd passed (Nat.lt_irrefl 0)
  | take _ _ ih => exact ih passed
  | pass atEnd others _ =>
    have nothing := others.ahead
    rw [Parser.advance, Parser.pass, atEnd] at nothing
    exact (List.append_eq_nil_iff.mp nothing.symm).2
  | report _ _ ih => exact ih passed
  | note _ ih => exact ih passed

/-- If nothing was taken, the token ahead is the same. -/
theorem kind_of_nil (runs : Runs before [] beyond after) (present : before.ahead ≠ []) :
    after.ahead ≠ [] ∧ after.kind = before.kind := by
  have ahead := runs.ahead
  rw [List.nil_append] at ahead
  obtain ⟨token, rest, next⟩ := List.exists_cons_of_ne_nil present
  simp [Parser.kind, Parser.current, next, ← ahead]

end Runs

/-! ### Runs that pass the end a bounded number of times -/

/-- From one state to the other the end is passed at most `limit` times. -/
def Spends (limit : Nat) (before after : Parser) : Prop :=
  ∃ taken beyond, Runs before taken beyond after ∧ beyond ≤ limit

/-- The same, and a token is taken. -/
def Takes (limit : Nat) (before after : Parser) : Prop :=
  ∃ taken beyond, Runs before taken beyond after ∧ beyond ≤ limit ∧ taken ≠ []

section

variable {parser before between after : Parser} {limit : Nat}

namespace Spends

theorem refl (limit : Nat) (parser : Parser) : Spends limit parser parser :=
  ⟨[], 0, .done, Nat.zero_le _⟩

theorem mono (spends : Spends limit before after) (more : limit ≤ limit') :
    Spends limit' before after :=
  spends.imp fun _ => Exists.imp fun _ held => ⟨held.1, Nat.le_trans held.2 more⟩

/-- Either the first stretch does not pass the end, or the second one starts
there. -/
theorem andThen {first second atEnd : Nat} (head : Spends first before between)
    (tail : Spends second between after)
    (fromEnd : between.ahead = [] → Spends atEnd between after)
    (enough : first + atEnd ≤ second) : Spends second before after := by
  obtain ⟨taken, beyond, runs, bound⟩ := head
  rcases Nat.eq_zero_or_pos beyond with rfl | passed
  · obtain ⟨taken', beyond', runs', bound'⟩ := tail
    exact ⟨_, _, runs.trans runs', by omega⟩
  · obtain ⟨taken', beyond', runs', bound'⟩ := fromEnd (runs.atEnd passed)
    exact ⟨_, _, runs.trans runs', by omega⟩

theorem after_quiet (quiet : Spends 0 before between) (spends : Spends limit between after) :
    Spends limit before after :=
  quiet.andThen spends (fun _ => spends) (Nat.le_of_eq (Nat.zero_add limit))

theorem before_quiet (spends : Spends limit before between) (quiet : Spends 0 between after) :
    Spends limit before after :=
  spends.andThen (quiet.mono (Nat.zero_le limit)) (fun _ => quiet)
    (Nat.le_of_eq (Nat.add_zero limit))

theorem note (parser : Parser) {nesting : Nesting} {inventory : Inventory} :
    Spends 0 parser { parser with nesting, inventory } :=
  ⟨[], 0, .note .done, Nat.le_refl 0⟩

theorem enter (parser : Parser) : Spends 0 parser parser.enter := note parser

theorem leave (parser : Parser) (levels : Nat) : Spends 0 parser (parser.leave levels) :=
  note parser

/-- Levels that are opened and closed around a stretch make no difference. -/
theorem nested (inside : Spends limit parser.enter after) (levels : Nat) :
    Spends limit parser (after.leave levels) :=
  ((enter parser).after_quiet inside).before_quiet (leave after levels)

theorem report (parser : Parser) {expected : TokenKind} (cause : SyntaxCause)
    (other : expected.isLexical → parser.kind ≠ expected) :
    Spends 0 parser (parser.reportAs cause expected) :=
  ⟨[], 0, .report other .done, Nat.le_refl 0⟩

/-- What only names an expectation is no token's kind. -/
theorem reportNamed (parser : Parser) (cause : SyntaxCause) {expected : TokenKind}
    (named : expected.isLexical = false) : Spends 0 parser (parser.reportAs cause expected) :=
  report parser cause fun lexical => absurd lexical (by simp [named])

theorem advance (parser : Parser) : Spends 1 parser parser.advance := by
  cases next : parser.ahead with
  | nil => exact ⟨[], 1, .pass next .done, Nat.le_refl 1⟩
  | cons token rest => exact ⟨[token], 0, .take next .done, Nat.zero_le 1⟩

theorem take (present : parser.ahead ≠ []) : Spends 0 parser parser.advance := by
  obtain ⟨token, rest, next⟩ := List.exists_cons_of_ne_nil present
  exact ⟨[token], 0, .take next .done, Nat.le_refl 0⟩

private theorem advance_pass (parser : Parser) (count : Nat) :
    parser.advance.pass count = parser.pass (count + 1) := by
  cases next : parser.ahead <;>
    simp [Parser.advance, Parser.pass, next, List.countP_cons, Nat.add_comm, Nat.add_left_comm]

/-- Passing some of the tokens ahead takes them one by one. -/
theorem passAll (parser : Parser) (enough : count ≤ parser.ahead.length) :
    Spends 0 parser (parser.pass count) := by
  induction count generalizing parser with
  | zero => exact refl 0 parser
  | succ count ih =>
    have present : parser.ahead ≠ [] := List.ne_nil_of_length_pos (by omega)
    rw [← advance_pass]
    refine (take present).after_quiet (ih parser.advance ?_)
    rw [Parser.advance, Parser.pass, List.length_drop]
    omega

theorem skipTo (parser : Parser) (follow : List TokenKind) :
    Spends 0 parser (parser.skipTo follow) :=
  passAll parser (List.takeWhile_prefix _).length_le

theorem expect (parser : Parser) (lexical : expected ≠ .eof) :
    Spends 0 parser (parser.expect expected) := by
  rw [Parser.expect]
  split
  · rename_i found
    exact take (ahead_ne_nil_of_kind (found ▸ lexical))
  · rename_i other
    exact report parser .unexpected fun _ => other

theorem expectOr (parser : Parser) (follow : List TokenKind) (lexical : expected ≠ .eof) :
    Spends 0 parser (parser.expectOr expected follow) := by
  rw [Parser.expectOr]
  split
  · rename_i found
    exact take (ahead_ne_nil_of_kind (found ▸ lexical))
  · rename_i other
    exact (report parser .unexpected fun _ => other).after_quiet (skipTo _ follow)

theorem refuse (parser : Parser) (named : expected.isLexical = false) :
    Spends 0 parser (parser.refuse expected) :=
  (reportNamed parser .tooDeep named).after_quiet ((note _).after_quiet (skipTo _ _))

end Spends

theorem Takes.of_advance (present : parser.ahead ≠ [])
    (spends : Spends limit parser.advance after) : Takes limit parser after := by
  obtain ⟨token, rest, next⟩ := List.exists_cons_of_ne_nil present
  obtain ⟨taken, beyond, runs, bound⟩ := spends
  exact ⟨_, beyond, .take next runs, bound, List.cons_ne_nil token taken⟩

theorem Takes.spends (takes : Takes limit before after) : Spends limit before after :=
  takes.imp fun _ => Exists.imp fun _ held => ⟨held.1, held.2.1⟩

theorem Takes.after_quiet (quiet : Spends 0 before between) (takes : Takes limit between after) :
    Takes limit before after := by
  obtain ⟨taken, beyond, runs, none⟩ := quiet
  obtain ⟨taken', beyond', runs', bound, some⟩ := takes
  exact ⟨_, _, runs.trans runs', by omega, List.append_ne_nil_of_right_ne_nil taken some⟩

theorem Takes.before_quiet (takes : Takes limit before between) (quiet : Spends 0 between after) :
    Takes limit before after := by
  obtain ⟨taken, beyond, runs, bound, some⟩ := takes
  obtain ⟨taken', beyond', runs', none⟩ := quiet
  exact ⟨_, _, runs.trans runs', by omega, List.append_ne_nil_of_left_ne_nil some taken'⟩

theorem Takes.nested (inside : Takes limit parser.enter after) (levels : Nat) :
    Takes limit parser (after.leave levels) :=
  (after_quiet (.enter parser) inside).before_quiet (.leave after levels)

/-- Fewer tokens are ahead than before. -/
theorem Takes.shorter (takes : Takes limit before after) :
    after.ahead.length < before.ahead.length := by
  obtain ⟨taken, _, runs, _, some⟩ := takes
  have := List.length_pos_iff.mpr some
  rw [runs.ahead, List.length_append]
  omega

private theorem not_of_head_drop {accepts : α → Bool} {items : List α}
    (next : items.drop (items.takeWhile accepts).length = first :: rest) :
    accepts first = false := by
  induction items with
  | nil => cases next
  | cons item items ih =>
    by_cases accepted : accepts item
    · rw [List.takeWhile_cons_of_pos accepted] at next
      exact ih next
    · rw [List.takeWhile_cons_of_neg accepted] at next
      cases next
      simpa using accepted

/-- Skipping ends at a token to recover at, or at the end. -/
theorem Parser.skipTo_kind (parser : Parser) (follow : List TokenKind)
    (present : (parser.skipTo follow).ahead ≠ []) : (parser.skipTo follow).kind ∈ follow := by
  obtain ⟨token, rest, next⟩ := List.exists_cons_of_ne_nil present
  have stopped := not_of_head_drop next
  simpa [kind, current, next, Token.isOneOf] using stopped

end

/-! ### Repetition -/

/-- The steps of a repetition, one after the other, as many as the tokens ask
for. -/
inductive Loops (goesOn : TokenKind → Bool) (step : Parser → α × Parser) :
    Parser → List α × Parser → Prop
  | stop (stopped : goesOn parser.kind = false) : Loops goesOn step parser ([], parser)
  | again (continues : goesOn parser.kind)
      (others : Loops goesOn step (step parser).2 (items, after)) :
      Loops goesOn step parser ((step parser).1 :: items, after)

variable {limit : Nat} {goesOn : TokenKind → Bool} {step : Parser → α × Parser}

/-- If each step takes a token, a repetition is never cut short. -/
theorem loops_repeatWhile
    (shorter : ∀ parser, goesOn parser.kind →
      (step parser).2.ahead.length < parser.ahead.length)
    (finite : goesOn .eof = false) (parser : Parser) :
    Loops goesOn step parser (parser.repeatWhile goesOn step) := by
  rw [Parser.repeatWhile]
  generalize spare : parser.ahead.length = bound
  have enough : parser.ahead.length ≤ bound := Nat.le_of_eq spare
  clear spare
  induction bound generalizing parser with
  | zero =>
    have atEnd : parser.ahead = [] := List.length_eq_zero_iff.mp (Nat.le_zero.mp enough)
    exact .stop (kind_of_atEnd atEnd ▸ finite)
  | succ bound ih =>
    rw [Parser.repeatUpTo]
    split
    · rename_i continues
      have := shorter parser continues
      exact .again continues (ih (step parser).2 (by omega))
    · rename_i stopped
      exact .stop (by simpa using stopped)

/-- The tokens alone tell where a repetition ends. -/
theorem Loops.unique (loops : Loops goesOn step parser result)
    (loops' : Loops goesOn step parser result') : result = result' := by
  induction loops generalizing result' with
  | stop stopped =>
    cases loops' with
    | stop => rfl
    | again continues => simp [stopped] at continues
  | again continues _ ih =>
    cases loops' with
    | stop stopped => simp [stopped] at continues
    | again _ others =>
      cases ih others
      rfl

/-- A repetition that is never cut short is a step and a repetition, or nothing. -/
theorem repeatWhile_eq
    (shorter : ∀ parser, goesOn parser.kind →
      (step parser).2.ahead.length < parser.ahead.length)
    (finite : goesOn .eof = false) (parser : Parser) :
    parser.repeatWhile goesOn step =
      if goesOn parser.kind then
        let others := (step parser).2.repeatWhile goesOn step
        ((step parser).1 :: others.1, others.2)
      else ([], parser) := by
  have loops := loops_repeatWhile shorter finite
  refine (loops parser).unique ?_
  split
  · rename_i continues
    exact .again continues (loops (step parser).2)
  · rename_i stopped
    exact .stop (by simpa using stopped)

theorem spends_repeatWhile
    (steps : ∀ parser, goesOn parser.kind → Spends limit parser (step parser).2)
    (finite : goesOn .eof = false) (parser : Parser) :
    Spends limit parser (parser.repeatWhile goesOn step).2 := by
  have idle (bound : Nat) {parser : Parser} (atEnd : parser.ahead = []) :
      Parser.repeatUpTo goesOn step bound parser = ([], parser) := by
    cases bound with
    | zero => rfl
    | succ bound => simp [Parser.repeatUpTo, kind_of_atEnd atEnd, finite]
  rw [Parser.repeatWhile]
  generalize parser.ahead.length = bound
  induction bound generalizing parser with
  | zero => exact .refl limit parser
  | succ bound ih =>
    rw [Parser.repeatUpTo]
    split
    · rename_i continues
      refine (steps parser continues).andThen (ih _) (fun atEnd => ?_)
        (Nat.le_of_eq (Nat.add_zero limit))
      dsimp only
      rw [idle bound atEnd]
      exact .refl 0 _
    · exact .refl limit parser

end ToyC
