import Mathlib.Data.List.Find
import ToyC.Proofs.Lexing

/-! Where lexemes end. A lexeme is a piece of the text it is cut off, and what
it is does not depend on anything behind the next blank. So a text is cut apart
at its blanks, and one blank there is as good as many. -/
namespace ToyC

/-- The characters before the first blank. -/
def beforeBlank (text : List Char) : List Char := text.takeWhile fun c => !isBlank c

/-- A blank is next, or nothing. -/
def Ends (behind : List Char) : Prop := ∀ c ∈ behind.head?, isBlank c

theorem beforeBlank_cons_of_solid (solid : isBlank c = false) (rest : List Char) :
    beforeBlank (c :: rest) = c :: beforeBlank rest := by
  simp [beforeBlank, solid]

theorem beforeBlank_cons_of_blank (blank : isBlank c) (rest : List Char) :
    beforeBlank (c :: rest) = [] := by
  simp [beforeBlank, blank]

theorem beforeBlank_append_of_solid (solid : ∀ c ∈ piece, isBlank c = false) (behind : List Char) :
    beforeBlank (piece ++ behind) = piece ++ beforeBlank behind :=
  List.takeWhile_append_of_pos fun c member => by simp [solid c member]

theorem Ends.beforeBlank_append (ends : Ends behind) (piece : List Char) :
    beforeBlank (piece ++ behind) = beforeBlank piece := by
  induction piece with
  | nil =>
    cases behind with
    | nil => rfl
    | cons c rest => exact beforeBlank_cons_of_blank (ends c rfl) rest
  | cons c piece ih =>
    rw [List.cons_append]
    cases solid : isBlank c with
    | true => rw [beforeBlank_cons_of_blank solid, beforeBlank_cons_of_blank solid]
    | false => rw [beforeBlank_cons_of_solid solid, beforeBlank_cons_of_solid solid, ih]

/-! ### Runs of characters that are no blanks -/

theorem takeWhile_beforeBlank {accepts : Char → Bool} (solid : ∀ c, accepts c → isBlank c = false)
    (text : List Char) : (beforeBlank text).takeWhile accepts = text.takeWhile accepts := by
  rw [beforeBlank, List.takeWhile_takeWhile]
  congr
  funext c
  cases accepted : accepts c with
  | false => simp
  | true => simp [solid c accepted]

theorem head?_beforeBlank (text : List Char) : ∀ c ∈ (beforeBlank text).head?, c ∈ text.head? := by
  cases text with
  | nil => exact nofun
  | cons c rest =>
    cases solid : isBlank c with
    | true =>
      rw [beforeBlank_cons_of_blank solid]
      exact nofun
    | false =>
      rw [beforeBlank_cons_of_solid solid]
      exact fun _ head => head

private theorem isPrefixOf_beforeBlank {sign : List Char} (solid : ∀ c ∈ sign, isBlank c = false)
    (text : List Char) : sign.isPrefixOf (beforeBlank text) = sign.isPrefixOf text := by
  induction sign generalizing text with
  | nil => rfl
  | cons first sign ih =>
    obtain ⟨firstSolid, others⟩ := List.forall_mem_cons.mp solid
    cases text with
    | nil => rfl
    | cons c rest =>
      cases blank : isBlank c with
      | true =>
        have differ : (first == c) = false := by
          simp only [beq_eq_false_iff_ne]
          rintro rfl
          rw [blank] at firstSolid
          cases firstSolid
        simp [beforeBlank_cons_of_blank blank, List.isPrefixOf, differ]
      | false =>
        rw [beforeBlank_cons_of_solid blank, List.isPrefixOf, List.isPrefixOf, ih others]

theorem isAlphabetic_eq_false_of_isBlank (blank : isBlank c) : isAlphabetic c = false := by
  have none : ∀ range ∈ blankRanges, ∀ n ∈ List.range' range.1 (range.2 + 1 - range.1),
      isAlphabetic (Char.ofNat n) = false := by decide +kernel
  obtain ⟨range, member, within⟩ := List.any_eq_true.mp blank
  simp only [Bool.and_eq_true, decide_eq_true_eq] at within
  have listed : c.toNat ∈ List.range' range.1 (range.2 + 1 - range.1) := by
    rw [List.mem_range'_1]
    omega
  simpa using none range member c.toNat listed

/-! ### Lexemes -/

namespace Lexeme

private theorem number_beforeBlank (text : List Char) :
    number (beforeBlank text) = number text := by
  have solid (c : Char) (digit : c.isDigit) : isBlank c = false :=
    isBlank_eq_false_of_isAlphanum (by simp [Char.isAlphanum, digit])
  obtain ⟨digits, behind, rfl, all, ends⟩ := digits_first text
  rw [beforeBlank_append_of_solid fun c member => solid c (all c member)]
  rcases ends with ⟨rest, rfl⟩ | stops
  · rw [beforeBlank_cons_of_solid rfl, number_point all, number_point all,
      takeWhile_beforeBlank solid,
      takeWhile_beforeBlank fun c accepted => by simpa using accepted]
  · rw [number_whole all stops, number_whole all fun c head => stops c (head?_beforeBlank _ c head)]

private theorem quoted_beforeBlank (rest : List Char) :
    quoted (beforeBlank rest) = quoted rest := by
  match rest with
  | [] => rfl
  | [c] =>
    cases blank : isBlank c with
    | true =>
      simp [beforeBlank_cons_of_blank blank, quoted, isAlphabetic_eq_false_of_isBlank blank]
    | false => rw [beforeBlank_cons_of_solid blank]; rfl
  | c :: d :: rest =>
    cases blank : isBlank c with
    | true =>
      -- A blank is no letter, so the quote before it is unknown, whatever follows.
      rw [beforeBlank_cons_of_blank blank]
      by_cases quote : d = '\'' <;>
        simp [quoted, quote, isAlphabetic_eq_false_of_isBlank blank]
    | false =>
      rw [beforeBlank_cons_of_solid blank]
      by_cases quote : d = '\''
      · rw [quote, beforeBlank_cons_of_solid rfl]
        rfl
      · cases blank' : isBlank d with
        | true => simp [beforeBlank_cons_of_blank blank', quoted, quote]
        | false => simp [beforeBlank_cons_of_solid blank', quoted, quote]

private theorem symbol_beforeBlank (solid : isBlank first = false) (rest : List Char) :
    symbol first (beforeBlank rest) = symbol first rest := by
  have solidSigns : (symbols.all fun entry => entry.1.all fun c => !isBlank c) = true := by
    decide +kernel
  have signs : ∀ entry ∈ symbols, ∀ c ∈ entry.1, isBlank c = false := by
    simpa only [List.all_eq_true, Bool.not_eq_true'] using solidSigns
  have found : (symbols.find? fun entry => entry.1.isPrefixOf (first :: beforeBlank rest)) =
      symbols.find? fun entry => entry.1.isPrefixOf (first :: rest) := by
    refine List.find?_congr fun entry member => ?_
    rw [← beforeBlank_cons_of_solid solid, isPrefixOf_beforeBlank (signs entry member)]
  rw [symbol, symbol, found]

/-- A lexeme depends on what is before the next blank only. -/
theorem cut_beforeBlank (solid : isBlank first = false) (rest : List Char) :
    cut first (beforeBlank rest) = cut first rest := by
  rw [cut, cut, ← beforeBlank_cons_of_solid solid,
    takeWhile_beforeBlank (fun _ => isBlank_eq_false_of_isAlphanum), number_beforeBlank,
    quoted_beforeBlank, symbol_beforeBlank solid]

theorem cut_append (solid : isBlank first = false) (ends : Ends behind) (rest : List Char) :
    cut first (rest ++ behind) = cut first rest := by
  rw [← cut_beforeBlank solid, ends.beforeBlank_append, cut_beforeBlank solid]

private theorem number_text_prefix (text : List Char) : (number text).text <+: text := by
  obtain ⟨digits, behind, rfl, all, ⟨rest, rfl⟩ | stops⟩ := digits_first text
  · have fraction {taken : List Char} (start : taken <+: rest) :
        digits ++ '.' :: taken <+: digits ++ '.' :: rest :=
      (List.prefix_append_right_inj _).mpr ((List.prefix_cons_inj _).mpr start)
    rw [number_point all]
    split
    · exact fraction (List.takeWhile_prefix _)
    · exact fraction (List.takeWhile_prefix _)
  · rw [number_whole all stops]
    split
    · exact List.prefix_append ..
    · exact List.prefix_append ..

private theorem quoted_text_prefix (rest : List Char) : (quoted rest).text <+: '\'' :: rest := by
  rw [quoted.eq_def]
  split
  · split <;> simp [unknown]
  · simp only [unknown]
    split <;> simp
  · simp [unknown]

theorem symbol_text_prefix (first : Char) (rest : List Char) :
    (symbol first rest).text <+: first :: rest := by
  rw [symbol]
  split
  · rename_i found
    have starts := List.find?_some found
    exact List.isPrefixOf_iff_prefix.mp starts
  · simp [unknown]

theorem cut_text_prefix (first : Char) (rest : List Char) :
    (cut first rest).text <+: first :: rest := by
  rw [cut]
  split_ifs with letter digit quote
  · rw [word_text]
    exact List.takeWhile_prefix _
  · exact number_text_prefix _
  · rw [quote]
    exact quoted_text_prefix rest
  · exact symbol_text_prefix first rest

end Lexeme

/-! ### Texts -/

/-- The first lexeme of a piece is the same whatever comes behind the piece. -/
private theorem lexes_first (solid : isBlank first = false) (rest : List Char) :
    ∃ more others, rest = more ++ others ∧ ∀ behind, Ends behind →
      Lexes (first :: more) (others ++ behind) [(Lexeme.cut first rest).content] := by
  obtain ⟨others, whole⟩ := Lexeme.cut_text_prefix first rest
  obtain ⟨start, more, text⟩ := List.exists_cons_of_ne_nil (Lexeme.cut_text_ne_nil first rest)
  have whole : start = first ∧ more ++ others = rest := by simpa [text] using whole
  obtain ⟨rfl, rest_eq⟩ := whole
  refine ⟨more, others, rest_eq.symm, fun behind ends => .lexeme solid ?_⟩
  rw [← List.append_assoc, rest_eq, Lexeme.cut_append solid ends, ← text]

/-- Before a blank, or at the end, a piece of a text is cut into the same
lexemes whatever comes then. -/
theorem exists_lexes (piece : List Char) :
    ∃ spelling, ∀ behind, Ends behind → Lexes piece behind spelling := by
  -- A lexeme takes many characters at once, so the induction is on their number.
  generalize spare : piece.length = bound
  induction bound using Nat.strongRecOn generalizing piece with
  | ind bound ih =>
    cases piece with
    | nil => exact ⟨[], fun _ _ => .nil⟩
    | cons first rest =>
      cases solid : isBlank first with
      | true =>
        obtain ⟨spelling, lexes⟩ := ih rest.length (by simp [← spare]) rest rfl
        exact ⟨spelling, fun behind ends => (Lexes.blank solid).append (lexes behind ends)⟩
      | false =>
        obtain ⟨more, others, rfl, lexes⟩ := lexes_first solid rest
        have shorter : others.length < bound := by
          rw [← spare, List.length_cons, List.length_append]
          omega
        obtain ⟨spelling, lexes'⟩ := ih others.length shorter others rfl
        exact ⟨_, fun behind ends => (lexes behind ends).append (lexes' behind ends)⟩

/-- Whatever is left of a text is cut into tokens. -/
theorem Cursor.hands_scan (cursor : Cursor) :
    Hands cursor (TokenStream.scan cursor).tokens ⟨[], (TokenStream.scan cursor).finish⟩ := by
  obtain ⟨_, lexes⟩ := exists_lexes cursor.rest
  obtain ⟨tokens, finish, hands, _⟩ := lexes [] nofun cursor.position
  rw [List.append_nil] at hands
  rw [hands.scan]
  exact hands

/-- All of a text is cut into tokens. -/
theorem hands_scan (source : String) :
    Hands (.start source) (TokenStream.scan (.start source)).tokens
      ⟨[], (TokenStream.scan (.start source)).finish⟩ :=
  (Cursor.start source).hands_scan

/-- One gap is as good as another: the text is cut into the same tokens. -/
theorem tokenize_gap {before gap gap' behind : String} (some : gap ≠ "") (some' : gap' ≠ "")
    (blank : ∀ c ∈ gap.toList, isBlank c) (blank' : ∀ c ∈ gap'.toList, isBlank c) :
    (tokenize (before ++ gap ++ behind)).map Token.content =
      (tokenize (before ++ gap' ++ behind)).map Token.content := by
  obtain ⟨head, first⟩ := exists_lexes before.toList
  obtain ⟨tail, last⟩ := exists_lexes behind.toList
  have whole {gap : String} (some : gap ≠ "") (blank : ∀ c ∈ gap.toList, isBlank c) :
      (tokenize (before ++ gap ++ behind)).map Token.content = head ++ tail ++ [⟨.eof, none⟩] := by
    apply Lexes.tokenize
    rw [String.toList_append, String.toList_append, List.append_assoc]
    obtain ⟨c, rest, spelled⟩ := List.exists_cons_of_ne_nil (mt String.toList_eq_nil_iff.mp some)
    refine .append (first _ ?_) (.after_blanks blank (last [] nofun))
    rw [spelled] at blank ⊢
    rintro _ ⟨⟩
    exact blank _ List.mem_cons_self
  rw [whole some blank, whole some' blank']

end ToyC
