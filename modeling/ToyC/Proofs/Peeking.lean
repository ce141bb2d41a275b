import ToyC.Proofs.Reports

/-! Looking ahead changes no answer. A lexer stands somewhere in an endless row
of tokens, those of the text and then the closing one again and again. What it
has looked at is the next of them: a call gives this token or takes it, and the
unknown tokens are counted as far as the lexer has seen. -/
namespace ToyC

theorem tokenize_ne_nil (source : String) : tokenize source ≠ [] :=
  List.append_ne_nil_of_right_ne_nil _ (List.cons_ne_nil _ [])

/-- The endless row of tokens of a text: the last one is repeated. -/
def tokenOf (source : String) (index : Nat) : Token :=
  (tokenize source)[index]?.getD ((tokenize source).getLast (tokenize_ne_nil source))

/-- How many of the first tokens are unknown ones. -/
def unknownsAmong (source : String) (count : Nat) : Nat :=
  ((List.range count).map (tokenOf source)).countP Token.isUnknown

theorem unknownsAmong_succ (source : String) (count : Nat) :
    unknownsAmong source (count + 1) =
      unknownsAmong source count + (tokenOf source count).isUnknown.toNat := by
  rw [unknownsAmong, unknownsAmong, List.range_succ, List.map_append, List.countP_append,
    List.map_singleton, List.countP_singleton]
  cases (tokenOf source count).isUnknown <;> rfl

/-! ### Streams and cursors -/

namespace TokenStream

/-- What is left of a stream. -/
def drop (stream : TokenStream) (count : Nat) : TokenStream :=
  ⟨stream.tokens.drop count, stream.finish⟩

theorem tokenAt_drop (stream : TokenStream) (count index : Nat) :
    (stream.drop count).tokenAt index = stream.tokenAt (count + index) := by
  rw [tokenAt, tokenAt, drop, List.getElem?_drop]

theorem drop_drop (stream : TokenStream) (first second : Nat) :
    (stream.drop first).drop second = stream.drop (first + second) := by
  rw [drop, drop, drop, List.drop_drop]

end TokenStream

theorem tokenOf_eq (source : String) (index : Nat) :
    tokenOf source index = (TokenStream.scan (.start source)).tokenAt index := by
  have last : (tokenize source).getLast (tokenize_ne_nil source) =
      ⟨.eof, none, (TokenStream.scan (.start source)).finish⟩ := List.getLast_concat
  rw [tokenOf, last, tokenize, TokenStream.toList, TokenStream.tokenAt]
  rcases Nat.lt_or_ge index (TokenStream.scan (.start source)).tokens.length with inside | behind
  · rw [List.getElem?_append_left inside]
  · rw [List.getElem?_append_right behind, List.getElem?_eq_none behind, List.getElem?_singleton]
    split <;> rfl

private theorem Hands.next (hands : Hands cursor tokens ⟨[], finish⟩) :
    cursor.next.1 = TokenStream.tokenAt ⟨tokens, finish⟩ 0 ∧
      Hands cursor.next.2 (tokens.drop 1) ⟨[], finish⟩ := by
  generalize atEnd : (⟨[], finish⟩ : Cursor) = after at hands
  induction hands with
  | done =>
    subst atEnd
    exact ⟨rfl, .done⟩
  | blank blank _ ih =>
    rw [Cursor.next_of_blank blank]
    exact ih atEnd
  | token solid cut others ih =>
    subst cut
    rw [Cursor.next_of_solid solid]
    exact ⟨rfl, others⟩

/-- A cursor gives the first token of what it scans, and the rest is behind it. -/
theorem Cursor.next_scan (cursor : Cursor) :
    cursor.next.1 = (TokenStream.scan cursor).tokenAt 0 ∧
      TokenStream.scan cursor.next.2 = (TokenStream.scan cursor).drop 1 := by
  obtain ⟨token, behind⟩ := cursor.hands_scan.next
  exact ⟨token, behind.scan⟩

theorem Cursor.cons_next (cursor : Cursor) :
    TokenStream.cons cursor.next.1 (.scan cursor.next.2) = .scan cursor := by
  obtain ⟨first, rest⟩ := cursor.next_scan
  have present := TokenStream.scanUpTo_isLegible cursor.rest.length cursor
  rw [first, rest]
  change ∀ token ∈ (TokenStream.scan cursor).tokens, _ at present
  cases all : TokenStream.scan cursor with
  | mk tokens finish =>
    cases tokens with
    | nil => rfl
    | cons token tokens =>
      rw [all] at present
      have other := (Token.cut_of_isLegible (present token List.mem_cons_self)).present
      simp [TokenStream.cons, TokenStream.tokenAt, TokenStream.drop, other]

/-! ### Calls -/

/-- What may be asked of a lexer. -/
inductive Call where
  /-- To look at the next token. -/
  | peek
  /-- To take it. -/
  | next
deriving DecidableEq

namespace Lexer

def answer (lexer : Lexer) : Call → Token × Lexer
  | .peek => lexer.peek
  | .next => lexer.next

/-- The calls with their answers, and the lexer behind them. -/
def answers : Lexer → List Call → List (Call × Token) × Lexer
  | lexer, [] => ([], lexer)
  | lexer, call :: calls =>
    let first := lexer.answer call
    let others := first.2.answers calls
    ((call, first.1) :: others.1, others.2)

/-- The tokens that were taken. -/
def takenIn (answered : List (Call × Token)) : List Token :=
  answered.filterMap fun entry => if entry.1 = .next then some entry.2 else none

theorem answers_append (lexer : Lexer) (calls later : List Call) :
    lexer.answers (calls ++ later) =
      ((lexer.answers calls).1 ++ ((lexer.answers calls).2.answers later).1,
        ((lexer.answers calls).2.answers later).2) := by
  induction calls generalizing lexer with
  | nil => rfl
  | cons call calls ih => simp only [List.cons_append, answers, ih]

theorem takenIn_append (answered others : List (Call × Token)) :
    takenIn (answered ++ others) = takenIn answered ++ takenIn others := List.filterMap_append

/-- So many tokens of the text were taken. -/
structure HasTaken (source : String) (count : Nat) (lexer : Lexer) : Prop where
  token : lexer.ahead.1 = tokenOf source count
  behind : TokenStream.scan lexer.ahead.2 = (TokenStream.scan (.start source)).drop (count + 1)
  unknowns : lexer.unknownsTaken = unknownsAmong source count

theorem peek_ahead (lexer : Lexer) : lexer.peek.2.ahead = lexer.ahead := rfl

namespace HasTaken

variable {source : String} {count : Nat} {lexer : Lexer}

theorem start (source : String) : HasTaken source 0 (.start source) := by
  obtain ⟨first, rest⟩ := (Cursor.start source).next_scan
  exact ⟨first.trans (tokenOf_eq source 0).symm, rest, rfl⟩

theorem peek (taken : HasTaken source count lexer) : HasTaken source count lexer.peek.2 :=
  ⟨taken.token, taken.behind, taken.unknowns⟩

theorem next (taken : HasTaken source count lexer) :
    HasTaken source (count + 1) lexer.next.2 := by
  obtain ⟨first, rest⟩ := lexer.ahead.2.next_scan
  rw [taken.behind] at first rest
  constructor
  · rw [tokenOf_eq]
    exact first.trans (TokenStream.tokenAt_drop _ _ 0)
  · exact rest.trans (TokenStream.drop_drop _ _ 1)
  · rw [unknownsAmong_succ, ← taken.token, ← taken.unknowns]
    rfl

theorem answer (taken : HasTaken source count lexer) (call : Call) :
    (lexer.answer call).1 = tokenOf source count ∧
      HasTaken source (count + [call].count .next) (lexer.answer call).2 := by
  cases call with
  | peek => exact ⟨taken.token, taken.peek⟩
  | next => exact ⟨taken.token, taken.next⟩

/-- The token that was looked at or taken last is counted in either case. -/
theorem unknownCount (taken : HasTaken source count lexer) (call : Call) :
    (lexer.answer call).2.unknownCount = unknownsAmong source (count + 1) := by
  cases call with
  | peek =>
    rw [unknownsAmong_succ, ← taken.token, ← taken.unknowns]
    rfl
  | next => exact taken.next.unknowns

end HasTaken

/-- After any calls, the tokens that were taken are the first ones of the text. -/
theorem start_answers (source : String) (calls : List Call) :
    takenIn ((start source).answers calls).1 =
        (List.range (calls.count .next)).map (tokenOf source) ∧
      HasTaken source (calls.count .next) ((start source).answers calls).2 := by
  induction calls using List.reverseRecOn with
  | nil => exact ⟨rfl, .start source⟩
  | append_singleton calls call ih =>
    obtain ⟨before, taken⟩ := ih
    obtain ⟨token, after⟩ := taken.answer call
    rw [answers_append, takenIn_append, before, List.count_append]
    refine ⟨?_, after⟩
    cases call with
    | peek => exact List.append_nil _
    | next =>
      rw [List.count_singleton_self, List.range_succ, List.map_append, List.map_singleton, ← token]
      rfl

theorem start_unknownCount (source : String) (calls : List Call) :
    ((start source).answers calls).2.unknownCount =
      unknownsAmong source (calls.count .next + if calls.getLast? = some .peek then 1 else 0) := by
  induction calls using List.reverseRecOn with
  | nil => rfl
  | append_singleton calls call _ =>
    obtain ⟨_, taken⟩ := start_answers source calls
    rw [answers_append]
    change (Lexer.answer _ call).2.unknownCount = _
    rw [taken.unknownCount call, List.count_append, List.getLast?_concat]
    cases call <;> rfl

theorem peek_stream (lexer : Lexer) : lexer.peek.2.stream = lexer.stream := by
  obtain ⟨cursor, peeked, unknownsTaken⟩ := lexer
  cases peeked with
  | some token => rfl
  | none => exact cursor.cons_next

/-- To look at the next token, however often, changes nothing for who takes
tokens later. -/
theorem answers_peeks (lexer : Lexer) (peeks : Nat) :
    (lexer.answers (List.replicate peeks .peek)).2.ahead = lexer.ahead ∧
      Parser.ofLexer (lexer.answers (List.replicate peeks .peek)).2 = .ofLexer lexer := by
  induction peeks generalizing lexer with
  | zero => exact ⟨rfl, rfl⟩
  | succ peeks ih =>
    obtain ⟨same, parser⟩ := ih lexer.peek.2
    refine ⟨same.trans lexer.peek_ahead, parser.trans ?_⟩
    rw [Parser.ofLexer, Parser.ofLexer, peek_stream]
    rfl

end Lexer

/-- Looking ahead changes no answer. Whatever a lexer is asked, it hands out the
tokens of the text one after the other, and the closing one for ever; looking
gives the token that is taken next; the unknown tokens are counted up to the
last one that was seen; and a parser may start behind any number of looks. -/
theorem peeking_changes_no_answer (source : String) :
    (∀ calls, Lexer.takenIn ((Lexer.start source).answers calls).1 =
      (List.range (calls.count .next)).map (tokenOf source)) ∧
    (∀ calls peeks,
      ((Lexer.start source).answers calls).2.peek.1 =
        (((Lexer.start source).answers calls).2.answers
          (List.replicate (peeks + 1) .peek)).2.next.1) ∧
    (∀ calls, ((Lexer.start source).answers calls).2.unknownCount =
      unknownsAmong source
        (calls.count .next + if calls.getLast? = some .peek then 1 else 0)) ∧
    (∀ peeks,
      (Parser.ofLexer ((Lexer.start source).answers (List.replicate peeks .peek)).2).finishProgram
        .standard = parse source) := by
  refine ⟨fun calls => (Lexer.start_answers source calls).1, fun calls peeks => ?_,
    Lexer.start_unknownCount source, fun peeks => ?_⟩
  · exact (congrArg Prod.fst (Lexer.answers_peeks _ (peeks + 1)).1).symm
  · rw [(Lexer.answers_peeks _ peeks).2]
    rfl

end ToyC
