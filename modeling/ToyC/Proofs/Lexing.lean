import Mathlib.Data.List.TakeWhile
import ToyC.Proofs.Tokens

/-! Cutting a text that is known piece by piece. What is told of a piece is told
with the characters behind it, so that pieces put together are cut where they
meet: a word must not go on, nor a number, and a sign must not become a longer
one. -/
namespace ToyC

/-- A cursor hands out tokens on its way to a later place. -/
inductive Hands : Cursor → List Token → Cursor → Prop
  | done : Hands cursor [] cursor
  | blank (blank : isBlank c) (others : Hands ⟨rest, Cursor.pastBlank c rest place⟩ tokens after) :
      Hands ⟨c :: rest, place⟩ tokens after
  | token {lexeme : Lexeme} (solid : isBlank first = false) (cut : Lexeme.cut first rest = lexeme)
      (others : Hands (Cursor.past ⟨first :: rest, place⟩ lexeme) tokens after) :
      Hands ⟨first :: rest, place⟩ (lexeme.place place :: tokens) after

theorem Hands.trans (first : Hands before tokens middle) (second : Hands middle tokens' after) :
    Hands before (tokens ++ tokens') after := by
  induction first with
  | done => exact second
  | blank blank _ ih => exact .blank blank (ih second)
  | token solid cut _ ih => exact .token solid cut (ih second)

theorem Hands.spaces (count : Nat) (rest : List Char) (place : Position) :
    Hands ⟨List.replicate count ' ' ++ rest, place⟩ [] ⟨rest, place.along count⟩ := by
  induction count generalizing place with
  | zero =>
    rw [Position.along_zero]
    exact .done
  | succ count ih =>
    have others := ih (place.along 1)
    rw [Position.along_along, Nat.add_comm] at others
    exact .blank rfl others

/-! ### Every lexeme takes a character -/

private theorem takeWhile_ne_nil {accepts : Char → Bool} (accepted : accepts first)
    (rest : List Char) : (first :: rest).takeWhile accepts ≠ [] := by
  simp [accepted]

theorem Lexeme.symbol_text_ne_nil (first : Char) (rest : List Char) :
    (symbol first rest).text ≠ [] := by
  rw [symbol]
  split
  · rename_i text kind found
    have nonempty : ∀ entry ∈ symbols, entry.1 ≠ [] := by decide
    exact nonempty _ (List.mem_of_find?_eq_some found)
  · exact List.cons_ne_nil _ _

theorem Lexeme.number_text_ne_nil (digit : first.isDigit) (rest : List Char) :
    (number (first :: rest)).text ≠ [] := by
  have digits : (first :: rest).takeWhile Char.isDigit ≠ [] := takeWhile_ne_nil digit rest
  simp only [number]
  split
  · split
    · exact List.append_ne_nil_of_left_ne_nil digits _
    · exact List.append_ne_nil_of_left_ne_nil digits _
  · split
    · exact digits
    · exact digits

theorem Lexeme.quoted_text_ne_nil (rest : List Char) : (quoted rest).text ≠ [] := by
  rw [quoted.eq_def]
  split
  · split <;> exact List.cons_ne_nil _ _
  · simp only [unknown]
    split <;> exact List.cons_ne_nil _ _
  · exact List.cons_ne_nil _ _

theorem Lexeme.word_text (run : List Char) : (word run).text = run := by
  rw [word]
  split <;> rfl

theorem Lexeme.cut_text_ne_nil (first : Char) (rest : List Char) : (cut first rest).text ≠ [] := by
  rw [cut]
  split_ifs with letter digit quote
  · rw [word_text]
    exact takeWhile_ne_nil (by simp [Char.isAlphanum, letter]) rest
  · exact number_text_ne_nil digit rest
  · exact quoted_text_ne_nil rest
  · exact symbol_text_ne_nil first rest

/-! ### One token -/

theorem Cursor.next_of_blank (blank : isBlank c) (rest : List Char) (place : Position) :
    next ⟨c :: rest, place⟩ = next ⟨rest, pastBlank c rest place⟩ := by
  simp [next, skipBlanks, skipBlanksFrom, blank]

theorem Cursor.next_of_solid (solid : isBlank first = false) (rest : List Char)
    (place : Position) :
    next ⟨first :: rest, place⟩ =
      ((Lexeme.cut first rest).place place, past ⟨first :: rest, place⟩ (.cut first rest)) := by
  simp [next, skipBlanks, skipBlanksFrom, solid]

private theorem scanUpTo_congr (same : before.next = after.next) (bound : Nat) :
    TokenStream.scanUpTo (bound + 1) before = TokenStream.scanUpTo (bound + 1) after := by
  rw [TokenStream.scanUpTo, TokenStream.scanUpTo, same]

/-- As many tokens are scanned as there are: the bound on their number is never
met. -/
theorem Hands.scanUpTo (hands : Hands cursor tokens ⟨[], finish⟩)
    (enough : cursor.rest.length ≤ bound) :
    TokenStream.scanUpTo bound cursor = ⟨tokens, finish⟩ := by
  generalize atEnd : (⟨[], finish⟩ : Cursor) = after at hands
  induction hands generalizing bound with
  | done =>
    subst atEnd
    cases bound <;> rfl
  | @blank c rest place _ _ blank _ ih =>
    obtain ⟨bound, rfl⟩ := Nat.exists_eq_add_one.mpr (Nat.lt_of_lt_of_le (Nat.succ_pos _) enough)
    rw [scanUpTo_congr (Cursor.next_of_blank blank rest place)]
    exact ih (Nat.le_of_lt enough) atEnd
  | @token first rest place _ _ lexeme solid cut _ ih =>
    subst cut
    obtain ⟨bound, rfl⟩ := Nat.exists_eq_add_one.mpr (Nat.lt_of_lt_of_le (Nat.succ_pos _) enough)
    have shorter : (Cursor.past ⟨first :: rest, place⟩ (.cut first rest)).rest.length ≤ bound := by
      have := List.length_pos_iff.mpr (Lexeme.cut_text_ne_nil first rest)
      simp only [Cursor.past, List.length_drop, List.length_cons] at enough ⊢
      omega
    rw [TokenStream.scanUpTo, Cursor.next_of_solid solid rest place]
    simp only [(Lexeme.cut_cut first rest place).present, if_false, ih shorter atEnd]

/-- A cursor that gets to the end hands out all tokens there are. -/
theorem Hands.scan (hands : Hands cursor tokens ⟨[], finish⟩) :
    TokenStream.scan cursor = ⟨tokens, finish⟩ :=
  hands.scanUpTo le_rfl

theorem Hands.tokenize {source : String} (hands : Hands (.start source) tokens ⟨[], finish⟩) :
    ToyC.tokenize source = tokens ++ [⟨.eof, none, finish⟩] := by
  rw [ToyC.tokenize, hands.scan, TokenStream.toList]

/-! ### Pieces of a text -/

/-- Whatever its place, the piece gives tokens with these contents when `behind`
follows it. -/
def Lexes (piece behind : List Char) (spelling : List Content) : Prop :=
  ∀ place, ∃ tokens place', Hands ⟨piece ++ behind, place⟩ tokens ⟨behind, place'⟩ ∧
    tokens.map Token.content = spelling

namespace Lexes

variable {behind : List Char} {spelling spelling' : List Content}

theorem nil : Lexes [] behind [] := fun place => ⟨[], place, .done, rfl⟩

theorem append (first : Lexes piece (piece' ++ behind) spelling)
    (second : Lexes piece' behind spelling') :
    Lexes (piece ++ piece') behind (spelling ++ spelling') := by
  intro place
  obtain ⟨head, between, hands, spelled⟩ := first place
  obtain ⟨tail, finish, hands', spelled'⟩ := second between
  rw [List.append_assoc]
  exact ⟨head ++ tail, finish, hands.trans hands', by rw [List.map_append, spelled, spelled']⟩

theorem blank (blank : isBlank c) : Lexes [c] behind [] := fun _ =>
  ⟨[], _, .blank blank .done, rfl⟩

theorem blanks (all : ∀ c ∈ piece, isBlank c) : Lexes piece behind [] := by
  induction piece with
  | nil => exact nil
  | cons c piece ih =>
    obtain ⟨first, others⟩ := List.forall_mem_cons.mp all
    exact (blank first).append (ih others)

theorem after_blanks (all : ∀ c ∈ piece, isBlank c) (lexes : Lexes piece' behind spelling) :
    Lexes (piece ++ piece') behind spelling :=
  (blanks all).append lexes

theorem after_space (lexes : Lexes piece behind spelling) :
    Lexes ([' '] ++ piece) behind spelling :=
  lexes.after_blanks (List.forall_mem_singleton.mpr rfl)

theorem before_newline (lexes : Lexes piece ('\n' :: behind) spelling) :
    Lexes (piece ++ ['\n']) behind spelling := by
  simpa using lexes.append (.blank rfl)

/-- A piece that is cut off as one lexeme. -/
theorem lexeme (solid : isBlank first = false)
    (cut : Lexeme.cut first (more ++ behind) = ⟨kind, literal, first :: more⟩) :
    Lexes (first :: more) behind [⟨kind, literal⟩] := by
  intro place
  have past : Cursor.past ⟨first :: (more ++ behind), place⟩ ⟨kind, literal, first :: more⟩ =
      ⟨behind, place.along (more.length + 1)⟩ := by
    simp [Cursor.past]
  refine ⟨[⟨kind, literal, place⟩], place.along (more.length + 1), .token solid cut ?_, rfl⟩
  rw [past]
  exact .done

end Lexes

/-! ### Words, numbers and characters -/

/-- Neither a word nor a number goes on there. -/
def Breaks (behind : List Char) : Prop := ∀ c ∈ behind.head?, c.isAlphanum = false ∧ c ≠ '.'

theorem Breaks.cons (noWord : c.isAlphanum = false) (noPoint : c ≠ '.') : Breaks (c :: rest) := by
  rintro _ ⟨⟩
  exact ⟨noWord, noPoint⟩

section

variable {accepts : Char → Bool} {run behind : List Char}

theorem takeWhile_run (all : ∀ c ∈ run, accepts c)
    (stops : ∀ c ∈ behind.head?, accepts c = false) : (run ++ behind).takeWhile accepts = run := by
  rw [List.takeWhile_append_of_pos all]
  cases behind <;> simp_all

theorem dropWhile_run (all : ∀ c ∈ run, accepts c)
    (stops : ∀ c ∈ behind.head?, accepts c = false) :
    (run ++ behind).dropWhile accepts = behind := by
  rw [List.dropWhile_append_of_pos all]
  cases behind <;> simp_all

end

theorem refused_behind_run (accepts : Char → Bool) (text : List Char) :
    ∀ c ∈ (text.dropWhile accepts).head?, accepts c = false := by
  intro c head
  have refused := List.head?_dropWhile_not accepts text
  rw [Option.mem_def.mp head] at refused
  simpa using refused

private theorem isAlpha_iff {c : Char} :
    c.isAlpha ↔ (65 ≤ c.toNat ∧ c.toNat ≤ 90) ∨ (97 ≤ c.toNat ∧ c.toNat ≤ 122) := by
  change (decide (65 ≤ c.val ∧ c.val ≤ 90) || 97 ≤ c.val && c.val ≤ 122) ↔ _
  simp only [Bool.or_eq_true, Bool.and_eq_true, decide_eq_true_eq, UInt32.le_iff_toNat_le]
  rfl

private theorem isDigit_iff {c : Char} : c.isDigit ↔ 48 ≤ c.toNat ∧ c.toNat ≤ 57 := by
  change (48 ≤ c.val && c.val ≤ 57) ↔ _
  simp only [Bool.and_eq_true, decide_eq_true_eq, UInt32.le_iff_toNat_le]
  rfl

theorem isBlank_eq_false_of_isAlphanum {c : Char} (accepted : c.isAlphanum) :
    isBlank c = false := by
  rw [Char.isAlphanum, Bool.or_eq_true, isAlpha_iff, isDigit_iff] at accepted
  simp [isBlank, blankRanges]
  omega

private theorem isAlphanum_of_isDigit {c : Char} (digit : c.isDigit) : c.isAlphanum := by
  simp [Char.isAlphanum, digit]

theorem Breaks.noNumber (breaks : Breaks behind) :
    ∀ c ∈ behind.head?, c.isDigit = false ∧ c ≠ '.' := by
  intro c head
  refine ⟨?_, (breaks c head).2⟩
  by_contra digit
  have := (breaks c head).1
  rw [isAlphanum_of_isDigit (by simpa using digit)] at this
  cases this

private theorem isAlpha_eq_false_of_isDigit {c : Char} (digit : c.isDigit) : c.isAlpha = false := by
  rw [isDigit_iff] at digit
  by_contra letter
  rw [Bool.not_eq_false, isAlpha_iff] at letter
  omega

namespace Lexeme

variable {digits behind : List Char}

/-- The digits that a text starts with end at a point, or at what is neither. -/
theorem digits_first (text : List Char) :
    ∃ digits behind, text = digits ++ behind ∧ (∀ c ∈ digits, c.isDigit) ∧
      ((∃ rest, behind = '.' :: rest) ∨ ∀ c ∈ behind.head?, c.isDigit = false ∧ c ≠ '.') := by
  have noDigit := refused_behind_run Char.isDigit text
  refine ⟨_, _, List.takeWhile_append_dropWhile.symm, fun c => List.mem_takeWhile_imp, ?_⟩
  by_cases point : (text.dropWhile Char.isDigit).head? = some '.'
  · obtain ⟨rest, behind⟩ := List.head?_eq_some_iff.mp point
    exact .inl ⟨rest, behind⟩
  · refine .inr fun c head => ⟨noDigit c head, ?_⟩
    rintro rfl
    exact point head

/-- Digits with neither a digit nor a point behind them. -/
theorem number_whole (all : ∀ c ∈ digits, c.isDigit)
    (stops : ∀ c ∈ behind.head?, c.isDigit = false ∧ c ≠ '.') :
    number (digits ++ behind) =
      if digitsValue digits ≤ greatestInt then
        ⟨.intConst, some (.int (Int32.ofNat (digitsValue digits))), digits⟩
      else unknown digits := by
  have noDigit : ∀ c ∈ behind.head?, c.isDigit = false := fun c head => (stops c head).1
  simp only [number, takeWhile_run all noDigit, dropWhile_run all noDigit]
  split
  · exact absurd rfl (stops '.' rfl).2
  · rfl

/-- Digits with a point behind them. -/
theorem number_point (all : ∀ c ∈ digits, c.isDigit) (rest : List Char) :
    number (digits ++ '.' :: rest) =
      if (rest.takeWhile Char.isDigit).isEmpty then
        unknown (digits ++ '.' :: rest.takeWhile fun c => !isBlank c)
      else ⟨.floatConst, some (.float (.ofDigits digits (rest.takeWhile Char.isDigit))),
        digits ++ '.' :: rest.takeWhile Char.isDigit⟩ := by
  have noDigit : ∀ c ∈ ('.' :: rest).head?, c.isDigit = false := by
    rintro _ ⟨⟩
    rfl
  simp only [number, takeWhile_run all noDigit, dropWhile_run all noDigit]

end Lexeme

namespace Lexes

variable {behind : List Char}

/-- A run of letters and digits, up to its end. -/
theorem word (letter : first.isAlpha) (all : more.all Char.isAlphanum) (breaks : Breaks behind) :
    Lexes (first :: more) behind [(Lexeme.word (first :: more)).content] := by
  have accepted : first.isAlphanum := by simp [Char.isAlphanum, letter]
  refine lexeme (isBlank_eq_false_of_isAlphanum accepted) ?_
  have run : ((first :: more) ++ behind).takeWhile Char.isAlphanum = first :: more :=
    takeWhile_run (List.forall_mem_cons.mpr ⟨accepted, List.all_eq_true.mp all⟩)
      fun c member => (breaks c member).1
  rw [List.cons_append] at run
  rw [Lexeme.cut, if_pos letter, run]
  have text := Lexeme.word_text (first :: more)
  generalize Lexeme.word (first :: more) = lexeme at text
  cases lexeme
  cases text
  rfl

/-- Digits, up to their end. -/
theorem digits {digits : List Char} (some : digits ≠ []) (all : ∀ c ∈ digits, c.isDigit)
    (breaks : Breaks behind) :
    Lexes digits behind [if digitsValue digits ≤ greatestInt then
      ⟨.intConst, Option.some (.int (Int32.ofNat (digitsValue digits)))⟩ else ⟨.unknown, none⟩] := by
  have cut := Lexeme.number_whole all breaks.noNumber
  obtain ⟨first, more, rfl⟩ := List.exists_cons_of_ne_nil some
  have digit := all first List.mem_cons_self
  have solid := isBlank_eq_false_of_isAlphanum (isAlphanum_of_isDigit digit)
  have number : Lexeme.cut first (more ++ behind) = Lexeme.number (first :: more ++ behind) := by
    rw [Lexeme.cut, isAlpha_eq_false_of_isDigit digit, if_neg Bool.false_ne_true, if_pos digit]
    rfl
  rw [← number] at cut
  split_ifs at cut ⊢
  · exact lexeme solid cut
  · exact lexeme solid cut

/-- The digits of a number that is not too great. -/
theorem number (small : n ≤ greatestInt) (breaks : Breaks behind) :
    Lexes (Nat.toDigits 10 n) behind [⟨.intConst, some (.int (Int32.ofNat n))⟩] := by
  have all : ∀ c ∈ Nat.toDigits 10 n, c.isDigit := fun c member =>
    Nat.isDigit_of_mem_toDigits (by decide) (by decide) member
  have value : digitsValue (Nat.toDigits 10 n) = n :=
    Nat.ofDigitChars_toDigits (by decide) (by decide)
  have lexes := digits Nat.toDigits_ne_nil all breaks
  rwa [value, if_pos small] at lexes

theorem character (alphabetic : isAlphabetic c) :
    Lexes ['\'', c, '\''] behind [⟨.charConst, some (.char c)⟩] := by
  refine lexeme rfl ?_
  simp [Lexeme.cut, Lexeme.quoted, alphabetic]

/-- Negation, unless it is the start of an inequality. -/
theorem not (single : ∀ c ∈ behind.head?, c ≠ '=') : Lexes ['!'] behind [⟨.not, none⟩] := by
  refine lexeme rfl ?_
  cases behind with
  | nil => rfl
  | cons c rest =>
    have other : ('=' == c) = false := by simpa using (single c rfl).symm
    simp [Lexeme.cut, Lexeme.symbol, symbols, List.find?, List.isPrefixOf, other]

/-- A whole text is cut into the tokens of its pieces. -/
theorem tokenize {source : String} (lexes : Lexes source.toList [] spelling) :
    (ToyC.tokenize source).map Token.content = spelling ++ [⟨.eof, none⟩] := by
  obtain ⟨tokens, finish, hands, rfl⟩ := lexes .start
  rw [List.append_nil] at hands
  rw [Hands.tokenize hands, List.map_append]
  rfl

end Lexes

end ToyC
