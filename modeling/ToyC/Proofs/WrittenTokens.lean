import ToyC.Proofs.Pieces

/-! Tokens that are written one after the other, with blanks between them. Each
of them is read as it was meant, whatever the others are. -/
namespace ToyC

/-- The characters of a token that is always written the same. -/
def TokenKind.fixedText? : TokenKind → Option (List Char)
  | .mainWord => some ['m', 'a', 'i', 'n']
  | .intWord => some ['i', 'n', 't']
  | .charWord => some ['c', 'h', 'a', 'r']
  | .floatWord => some ['f', 'l', 'o', 'a', 't']
  | .booleanWord => some ['b', 'o', 'o', 'l', 'e', 'a', 'n']
  | .ifWord => some ['i', 'f']
  | .elseWord => some ['e', 'l', 's', 'e']
  | .whileWord => some ['w', 'h', 'i', 'l', 'e']
  | .and => some ['&', '&']
  | .or => some ['|', '|']
  | .equal => some ['=', '=']
  | .notEqual => some ['!', '=']
  | .lessEqual => some ['<', '=']
  | .greaterEqual => some ['>', '=']
  | .plus => some ['+']
  | .minus => some ['-']
  | .times => some ['*']
  | .divide => some ['/']
  | .modulo => some ['%']
  | .openParen => some ['(']
  | .closeParen => some [')']
  | .openBracket => some ['[']
  | .closeBracket => some [']']
  | .openBrace => some ['\x7b']
  | .closeBrace => some ['\x7d']
  | .semicolon => some [';']
  | .comma => some [',']
  | .assign => some ['=']
  | .not => some ['!']
  | .less => some ['<']
  | .greater => some ['>']
  | _ => none

/-- The characters of a truth value. -/
def truthText : Bool → List Char
  | true => ['t', 'r', 'u', 'e']
  | false => ['f', 'a', 'l', 's', 'e']

/-- How single tokens are written. A name is none of the words that mean
something else. A number may have zeros in front; digits of too great a value
are an unknown token. -/
inductive Written : List Char → Content → Prop
  | fixed (text : kind.fixedText? = some characters) : Written characters ⟨kind, none⟩
  | truth (value : Bool) : Written (truthText value) ⟨.booleanConst, some (.boolean value)⟩
  | name (letter : first.isAlpha) (all : ∀ c ∈ more, c.isAlphanum)
      (notFixed : ∀ kind : TokenKind, kind.fixedText? ≠ some (first :: more))
      (noTruth : ∀ value, truthText value ≠ first :: more) :
      Written (first :: more) ⟨.identifier, some (.identifier (String.ofList (first :: more)))⟩
  | number {value : Int32} (present : digits ≠ []) (all : ∀ c ∈ digits, c.isDigit)
      (same : value.toInt = digitsValue digits) : Written digits ⟨.intConst, some (.int value)⟩
  | tooGreat (present : digits ≠ []) (all : ∀ c ∈ digits, c.isDigit)
      (great : 2147483648 ≤ digitsValue digits) : Written digits ⟨.unknown, none⟩
  | character (alphabetic : isAlphabetic c) :
      Written ['\'', c, '\''] ⟨.charConst, some (.char c)⟩

theorem Ends.breaks (ends : Ends behind) : Breaks behind := by
  intro c head
  have blank := ends c head
  constructor
  · by_contra word
    rw [isBlank_eq_false_of_isAlphanum (by simpa using word)] at blank
    cases blank
  · rintro rfl
    cases blank

/-- Digits of each value that is not too great can be written. -/
theorem exists_written_digits (present : digits ≠ []) (all : ∀ c ∈ digits, c.isDigit)
    (small : digitsValue digits ≤ greatestInt) :
    ∃ value : Int32, value.toInt = digitsValue digits ∧
      Written digits ⟨.intConst, some (.int value)⟩ := by
  have same : (Int32.ofNat (digitsValue digits)).toInt = digitsValue digits :=
    Int32.toInt_ofNat_of_lt (Nat.lt_succ_of_le small)
  exact ⟨_, same, .number present all same⟩

/-! ### Each token alone -/

private theorem fixed_lexes {kind : TokenKind} (text : kind.fixedText? = some characters)
    (ends : Ends behind) : Lexes characters behind [⟨kind, none⟩] := by
  cases kind <;> cases text
  all_goals exact .lexeme rfl ((Lexeme.cut_append rfl ends _).trans rfl)

/-- A run that means nothing else is a name. -/
private theorem word_of_other (notFixed : ∀ kind : TokenKind, kind.fixedText? ≠ some run)
    (noTruth : ∀ value, truthText value ≠ run) :
    (Lexeme.word run).content = ⟨.identifier, some (.identifier (String.ofList run))⟩ := by
  have reserved : reservedWords.lookup run = none := by
    have fixed : ∀ entry ∈ reservedWords, entry.2.fixedText? = some entry.1 := by decide
    rw [List.lookup_eq_none_iff]
    intro entry listed
    rw [bne_iff_ne]
    rintro rfl
    exact notFixed entry.2 (fixed entry listed)
  have truth : booleanWords.lookup run = none := by
    have texts : ∀ entry ∈ booleanWords, truthText entry.2 = entry.1 := by decide
    rw [List.lookup_eq_none_iff]
    intro entry listed
    rw [bne_iff_ne]
    rintro rfl
    exact noTruth entry.2 (texts entry listed)
  rw [Lexeme.word, reserved, truth]
  rfl

private theorem number_lexes {value : Int32} (present : digits ≠ [])
    (all : ∀ c ∈ digits, c.isDigit) (same : value.toInt = digitsValue digits)
    (breaks : Breaks behind) : Lexes digits behind [⟨.intConst, some (.int value)⟩] := by
  have small : digitsValue digits ≤ greatestInt := by
    have bound := value.toInt_lt
    rw [greatestInt]
    omega
  obtain rfl : Int32.ofNat (digitsValue digits) = value := by
    rw [← Int32.toInt_inj, same]
    exact Int32.toInt_ofNat_of_lt (Nat.lt_succ_of_le small)
  have lexes := Lexes.digits present all breaks
  rwa [if_pos small] at lexes

/-- A written token is read as it was meant, with a blank behind it or nothing. -/
theorem Written.lexes (written : Written text content) (ends : Ends behind) :
    Lexes text behind [content] := by
  cases written with
  | fixed fixed => exact fixed_lexes fixed ends
  | truth value => cases value <;> exact .word rfl rfl ends.breaks
  | name letter all notFixed noTruth =>
    rw [← word_of_other notFixed noTruth]
    exact .word letter (List.all_eq_true.mpr all) ends.breaks
  | number present all same => exact number_lexes present all same ends.breaks
  | tooGreat present all great =>
    have lexes := Lexes.digits present all ends.breaks
    have beyond : ¬digitsValue text ≤ greatestInt := Nat.not_le_of_lt great
    rwa [if_neg beyond] at lexes
  | character alphabetic => exact .character alphabetic

/-! ### Texts -/

/-- Gaps that keep tokens apart: there are blanks in each of them, but the first
gap and the one behind all tokens may be empty. -/
structure Apart (gaps : List (List Char)) (last : List Char) : Prop where
  blank : ∀ gap ∈ gaps, ∀ c ∈ gap, isBlank c
  between : ∀ gap ∈ gaps.tail, gap ≠ []
  behind : ∀ c ∈ last, isBlank c

namespace Apart

theorem tail (apart : Apart (gap :: gaps) last) : Apart gaps last where
  blank gap' member := apart.blank gap' (List.mem_cons_of_mem gap member)
  between gap' member := apart.between gap' (List.mem_of_mem_tail member)
  behind := apart.behind

/-- A blank is behind each token, or the end. -/
theorem ends_join {pieces : List Piece} (apart : Apart (gap :: pieces.map Piece.gap) last) :
    Ends (Piece.join pieces last) := by
  cases pieces with
  | nil => exact fun c head => apart.behind c (List.mem_of_mem_head? head)
  | cons piece others =>
    obtain ⟨first, more, filled⟩ := List.exists_cons_of_ne_nil
      (apart.between piece.gap List.mem_cons_self)
    have blank := apart.blank piece.gap (List.mem_cons_of_mem gap List.mem_cons_self)
    intro c head
    rw [Piece.join, filled, List.cons_append, List.head?_cons, Option.mem_some] at head
    exact blank c (by simp [filled, head])

end Apart

/-- Tokens that are each read right before a blank are read all, if they are
kept apart. -/
theorem Lexes.join {pieces : List Piece} (apart : Apart (pieces.map Piece.gap) last)
    (each : ∀ piece ∈ pieces, ∀ behind, Ends behind → Lexes piece.lexeme behind [piece.content]) :
    Lexes (Piece.join pieces last) [] (pieces.map Piece.content) := by
  induction pieces with
  | nil => exact blanks apart.behind
  | cons piece others ih =>
    obtain ⟨first, later⟩ := List.forall_mem_cons.mp each
    have ends : Ends (Piece.join others last ++ []) := by
      rw [List.append_nil]
      exact apart.ends_join
    have lexes := (first _ ends).append (ih apart.tail later)
    exact lexes.after_blanks (apart.blank piece.gap List.mem_cons_self)

theorem tokenize_join {pieces : List Piece} {last : List Char}
    (apart : Apart (pieces.map Piece.gap) last)
    (written : ∀ piece ∈ pieces, Written piece.lexeme piece.content) :
    (tokenize (String.ofList (Piece.join pieces last))).map Token.content =
      pieces.map Piece.content ++ [⟨.eof, none⟩] := by
  refine Lexes.tokenize ?_
  rw [String.toList_ofList]
  exact .join apart fun piece member behind => (written piece member).lexes

/-- Tokens that are written apart are read as they were meant. Digits of too
great a value in the place of one of them are one unknown token, and change no
other. -/
theorem tokenize_written {pieces : List Piece} {last : List Char}
    (apart : Apart (pieces.map Piece.gap) last)
    (written : ∀ piece ∈ pieces, Written piece.lexeme piece.content) :
    (tokenize (String.ofList (Piece.join pieces last))).map Token.content =
        pieces.map Piece.content ++ [⟨.eof, none⟩] ∧
      ∀ front piece others digits, pieces = front ++ piece :: others →
        digits ≠ [] → (∀ c ∈ digits, c.isDigit) → 2147483648 ≤ digitsValue digits →
        (tokenize (String.ofList
            (Piece.join (front ++ ⟨piece.gap, digits, ⟨.unknown, none⟩⟩ :: others) last))).map
              Token.content =
          front.map Piece.content ++ ⟨.unknown, none⟩ :: others.map Piece.content ++
            [⟨.eof, none⟩] := by
  refine ⟨tokenize_join apart written, ?_⟩
  rintro front piece others digits rfl present all great
  have apart' : Apart ((front ++ ⟨piece.gap, digits, ⟨.unknown, none⟩⟩ :: others).map Piece.gap)
      last := by
    simpa using apart
  have written' : ∀ other ∈ front ++ ⟨piece.gap, digits, ⟨.unknown, none⟩⟩ :: others,
      Written other.lexeme other.content := by
    rw [List.forall_mem_append, List.forall_mem_cons] at written ⊢
    exact ⟨written.1, .tooGreat present all great, written.2.2⟩
  simpa using tokenize_join apart' written'

/-- A number with zeros in front, an operator that another one could have made
longer, a letter that is not in ASCII, and a name that starts with a truth
value; then digits of the first value that is too great. -/
theorem written_apart_are_read :
    (tokenize " 007\r\n<\u3000= 'é'\ttruest").map Token.content =
        [⟨.intConst, some (.int 7)⟩, ⟨.less, none⟩, ⟨.assign, none⟩, ⟨.charConst, some (.char 'é')⟩,
          ⟨.identifier, some (.identifier "truest")⟩, ⟨.eof, none⟩] ∧
      (tokenize " 007\r\n<\u3000= 02147483648\ttruest").map Token.content =
        [⟨.intConst, some (.int 7)⟩, ⟨.less, none⟩, ⟨.assign, none⟩, ⟨.unknown, none⟩,
          ⟨.identifier, some (.identifier "truest")⟩, ⟨.eof, none⟩] := by
  let number : Piece := ⟨[' '], ['0', '0', '7'], ⟨.intConst, some (.int 7)⟩⟩
  let less : Piece := ⟨['\r', '\n'], ['<'], ⟨.less, none⟩⟩
  let assign : Piece := ⟨['\u3000'], ['='], ⟨.assign, none⟩⟩
  let character : Piece := ⟨[' '], ['\'', 'é', '\''], ⟨.charConst, some (.char 'é')⟩⟩
  let name : Piece := ⟨['\t'], ['t', 'r', 'u', 'e', 's', 't'],
    ⟨.identifier, some (.identifier "truest")⟩⟩
  have gaps : ([number, less, assign, character, name].map Piece.gap).all (·.all isBlank) := rfl
  have apart : Apart ([number, less, assign, character, name].map Piece.gap) [] :=
    ⟨by simpa only [List.all_eq_true] using gaps, by decide, nofun⟩
  have written : ∀ piece ∈ [number, less, assign, character, name],
      Written piece.lexeme piece.content := by
    simp only [List.forall_mem_cons]
    refine ⟨.number (by decide) (List.all_eq_true.mp rfl) rfl, .fixed rfl, .fixed rfl,
      .character (by decide),
      .name rfl (List.all_eq_true.mp rfl) (fun kind => ?_) (fun value => ?_), nofun⟩
    · cases kind <;> decide
    · cases value <;> decide
  obtain ⟨read, unknown⟩ := tokenize_written apart written
  exact ⟨read, unknown [number, less, assign] character [name]
    ['0', '2', '1', '4', '7', '4', '8', '3', '6', '4', '8'] rfl (by decide)
    (List.all_eq_true.mp rfl) (by decide)⟩

end ToyC
