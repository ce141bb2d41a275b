import Mathlib.Data.List.DropRight
import ToyC.Excerpt
import ToyC.Proofs.Columns
import ToyC.Proofs.Reports

/-! Carets. An excerpt shows the line that is around a token, and its caret is
under the first character of the token's lexeme. The lexer counted the columns,
the excerpt spreads tabs and leaves out spaces, and they agree. -/
namespace ToyC

/-! ### What is shown of a line -/

/-- Of a line, with its tabs spread out, `removed` spaces in front are left out,
and the blanks behind what is shown. -/
structure ShownAs (line : List Char) (removed : Nat) (shown : List Char) : Prop where
  whole : ∃ trimmed, line.flatMap ExcerptLine.spread =
    List.replicate removed ' ' ++ (shown ++ trimmed) ∧
      (shown ++ trimmed).head? ≠ some ' ' ∧ ∀ c ∈ trimmed, isBlank c
  solid : ∀ c ∈ shown.getLast?, isBlank c = false

namespace ExcerptLine

theorem length_spread (text : List Char) : (text.flatMap spread).length = width text := by
  have each : ∀ c, (spread c).length = if c = '\t' then tabWidth else 1 := by
    intro c
    rw [spread]
    split <;> simp
  rw [List.length_flatMap, width, funext each]

theorem spread_of_solid (solid : isBlank c = false) : spread c = [c] := by
  rw [spread, if_neg]
  rintro rfl
  cases solid

theorem mem_spread (member : d ∈ spread c) : d = ' ' ∨ d = c := by
  rw [spread] at member
  split at member
  · exact .inl (List.eq_of_mem_replicate member)
  · exact .inr (List.mem_singleton.mp member)

theorem ofLine_shownAs (line : List Char) :
    ShownAs line (ofLine (String.ofList line)).removed (ofLine (String.ofList line)).text := by
  have spaces : List.replicate (ofLine (String.ofList line)).removed ' ' =
      (line.flatMap spread).takeWhile (· = ' ') := by
    rw [ofLine, String.toList_ofList, eq_comm, List.eq_replicate_iff]
    exact ⟨rfl, fun c member => by simpa using List.mem_takeWhile_imp member⟩
  generalize wide : line.flatMap spread = text at spaces
  have shown : (ofLine (String.ofList line)).text =
      (text.dropWhile (· = ' ')).rdropWhile isBlank := by
    rw [ofLine, String.toList_ofList, wide]
    rfl
  rw [shown]
  constructor
  · refine ⟨(text.dropWhile (· = ' ')).rtakeWhile isBlank, ?_, ?_, fun c => List.mem_rtakeWhile_imp⟩
    · rw [wide, spaces, List.rdropWhile_append_rtakeWhile, List.takeWhile_append_dropWhile]
    · rw [List.rdropWhile_append_rtakeWhile]
      intro space
      cases refused_behind_run (fun c : Char => decide (c = ' ')) text _ space
  · intro c last
    obtain ⟨filled, rfl⟩ := List.mem_getLast?_eq_getLast last
    simpa using List.rdropWhile_last_not isBlank _ filled

end ExcerptLine

namespace ShownAs

open ExcerptLine

variable {line shown : List Char} {removed : Nat}

theorem removed_le (shows : ShownAs line removed shown) : removed ≤ width line := by
  obtain ⟨trimmed, whole, -⟩ := shows.whole
  rw [← length_spread, whole, List.length_append, List.length_replicate]
  exact Nat.le_add_right ..

/-- What is shown of one line is on one line. -/
theorem unbroken (shows : ShownAs line removed shown) (unbroken : ∀ c ∈ line, isLineEnd c = false) :
    ∀ c ∈ shown, isLineEnd c = false := by
  intro d member
  obtain ⟨trimmed, whole, -⟩ := shows.whole
  have spreadOut : d ∈ line.flatMap spread := by
    rw [whole]
    exact List.mem_append_right _ (List.mem_append_left _ member)
  obtain ⟨c, onLine, within⟩ := List.mem_flatMap.mp spreadOut
  rcases mem_spread within with rfl | rfl
  · rfl
  · exact unbroken d onLine

/-- A character that is no blank is shown where its column is. -/
theorem solid_at (shows : ShownAs (left ++ first :: right) removed shown)
    (solid : isBlank first = false) :
    removed ≤ width left ∧ shown[width left - removed]? = some first := by
  obtain ⟨trimmed, whole, -, blank⟩ := shows.whole
  have there : ((left ++ first :: right).flatMap spread)[width left]? = some first := by
    rw [List.flatMap_append, List.flatMap_cons, spread_of_solid solid, ← length_spread]
    simp
  rw [whole] at there
  have inside : removed ≤ width left := by
    by_contra inFront
    rw [List.getElem?_append_left (by simpa using inFront), List.getElem?_replicate,
      if_pos (Nat.lt_of_not_le inFront)] at there
    cases there
    cases solid
  refine ⟨inside, ?_⟩
  rw [List.getElem?_append_right (by simpa using inside), List.length_replicate] at there
  rcases Nat.lt_or_ge (width left - removed) shown.length with onShown | behind
  · rwa [List.getElem?_append_left onShown] at there
  · rw [List.getElem?_append_right behind] at there
    have trimmedAway := blank first (List.mem_of_getElem? there)
    rw [solid] at trimmedAway
    cases trimmedAway

end ShownAs

/-! ### What is on a line -/

namespace LineAround

variable {before behind left right : List Char}

/-- Nothing is on the line in front of a point, if a line end is before it. -/
theorem left_eq_nil_iff (around : LineAround before behind left right) :
    left = [] ↔ ∀ c ∈ before.getLast?, isLineEnd c := by
  obtain ⟨above, rfl, last⟩ := around.starts
  constructor
  · rintro rfl
    rwa [List.append_nil]
  · intro ends
    by_contra filled
    have onLine := List.getLast?_eq_some_getLast filled
    have isEnd : isLineEnd (left.getLast filled) := ends _ (by simp [List.getLast?_append, onLine])
    have unbroken := around.unbroken _ (List.mem_append_left right (List.getLast_mem filled))
    rw [isEnd] at unbroken
    cases unbroken

theorem right_eq_nil (around : LineAround before [] left right) : right = [] := by
  obtain ⟨below, whole, -⟩ := around.ends
  exact (List.append_eq_nil_iff.mp whole.symm).1

theorem right_eq_cons (around : LineAround before (first :: rest) left right)
    (solid : isBlank first = false) : ∃ more, right = first :: more := by
  obtain ⟨below, whole, ends⟩ := around.ends
  cases right with
  | nil =>
    rw [List.nil_append] at whole
    subst whole
    have isEnd := ends first rfl
    rw [isLineEnd_eq_false_of_solid solid] at isEnd
    cases isEnd
  | cons c more =>
    obtain ⟨rfl, -⟩ := List.cons.inj whole
    exact ⟨more, rfl⟩

/-- A line is shown from the point on, if no blank is behind it. -/
theorem shown_at (around : LineAround before behind left right)
    (shows : ShownAs (left ++ right) removed shown) (solid : ∀ c ∈ behind.head?, isBlank c = false) :
    removed ≤ width left ∧ ∀ c ∈ behind.head?, shown[width left - removed]? = some c := by
  cases behind with
  | nil =>
    rw [around.right_eq_nil, List.append_nil] at shows
    exact ⟨shows.removed_le, nofun⟩
  | cons first rest =>
    obtain ⟨more, rfl⟩ := around.right_eq_cons (solid first rfl)
    obtain ⟨inside, found⟩ := shows.solid_at (solid first rfl)
    refine ⟨inside, fun c head => ?_⟩
    obtain rfl : first = c := Option.some.inj head
    exact found

end LineAround

/-! ### Excerpts -/

/-- A caret under the place cannot be printed: on its line of the source, too
much is shown before it. -/
def Position.IsTooFar (place : Position) (source : String) : Prop :=
  ∃ line, lineAt? source place = some line ∧
    greatestWidth < (ExcerptLine.ofLine line).pointerLength place.column.toNat

namespace Diagnostic

/-- Three lines: a bar, a text behind its line number and a bar, and a caret
under the character of the text that is number `reach`. -/
def underlined (number : String) (shown : List Char) (reach : Nat) : String :=
  let margin := String.ofList (List.replicate (number.length + 1) ' ')
  margin ++ "|\n" ++
    (number ++ " | " ++ String.ofList shown ++ "\n") ++
    (margin ++ "| " ++ String.ofList (List.replicate (reach - 1) '-') ++ "^\n")

theorem underlined_ne_empty (number : String) (shown : List Char) (reach : Nat) :
    underlined number shown reach ≠ "" := by
  simp [underlined]

theorem pointerLines?_eq {line : String} {place : Position}
    (inside : (ExcerptLine.ofLine line).removed < place.column.toNat) :
    pointerLines? line place =
      if place.column.toNat - (ExcerptLine.ofLine line).removed ≤ greatestWidth then
        some (underlined (toString place.line.toNat) (ExcerptLine.ofLine line).text
          (place.column.toNat - (ExcerptLine.ofLine line).removed))
      else none := by
  have reach : (ExcerptLine.ofLine line).pointerLength place.column.toNat =
      place.column.toNat - (ExcerptLine.ofLine line).removed := by
    rw [ExcerptLine.pointerLength]
    omega
  simp only [pointerLines?, underlined, reach, String.append_assoc]

theorem pointerLines?_eq_none_iff (line : String) (place : Position) :
    pointerLines? line place = none ↔
      greatestWidth < (ExcerptLine.ofLine line).pointerLength place.column.toNat := by
  simp only [pointerLines?]
  split_ifs with fits
  · simpa using fits
  · simpa using fits

/-- Where the lexer gets to is where the caret is. -/
theorem excerpt_at {diagnostic : Diagnostic} {source : String}
    (text : source.toList = before ++ behind) (leads : Leads .start before place)
    (solid : ∀ c ∈ behind.head?, isBlank c = false) (there : diagnostic.position = some place)
    (file : String) :
    ∃ left right removed shown reach,
      LineAround before behind left right ∧ ShownAs (left ++ right) removed shown ∧
      0 < reach ∧ place.column.toNat = removed + reach ∧
      (diagnostic.excerpt? source file =
        if left ++ behind = [] then some (diagnostic.heading file)
        else if reach ≤ greatestWidth then
          some (diagnostic.heading file ++ underlined (toString place.line.toNat) shown reach)
        else none) ∧
      ∀ c ∈ behind.head?, shown[reach - 1]? = some c := by
  have apart : behind.head? ≠ some '\n' := fun feed => by cases solid _ feed
  have around := lineAround before behind
  have line := lineOf?_sourceLines text apart leads
  have column : place.column.toNat = 1 + width (lineAfter [] before) := leads.column [] rfl
  generalize lineAfter [] before = left at around line column
  generalize restOfLine behind = right at around line
  have shows := ExcerptLine.ofLine_shownAs (left ++ right)
  generalize made : ExcerptLine.ofLine (String.ofList (left ++ right)) = part at shows
  obtain ⟨inside, found⟩ := around.shown_at shows solid
  refine ⟨left, right, part.removed, part.text, place.column.toNat - part.removed, around, shows,
    by omega, by omega, ?_, fun c head => ?_⟩
  · rw [excerpt?, excerptFrom?, there]
    dsimp only
    rw [line]
    by_cases nothing : left ++ behind = []
    · rw [if_pos nothing, if_pos nothing]
    · subst made
      rw [if_neg nothing, if_neg nothing]
      dsimp only
      rw [pointerLines?_eq (by omega), apply_ite (Option.map _)]
      rfl
  · rw [column, Nat.sub_sub, Nat.add_comm part.removed 1, ← Nat.sub_sub, Nat.add_sub_cancel_left]
    exact found c head

/-- A diagnostic has no excerpt just where its caret is too far to the right. -/
theorem excerpt?_eq_none_iff {diagnostic : Diagnostic} (there : diagnostic.position = some place)
    (source file : String) : diagnostic.excerpt? source file = none ↔ place.IsTooFar source := by
  rw [excerpt?, excerptFrom?, there, Position.IsTooFar, lineAt?]
  dsimp only
  cases lineOf? (sourceLines source) place with
  | none => simp
  | some line => simp [pointerLines?_eq_none_iff]

end Diagnostic

/-- On a line that starts with no blank the columns are those of the excerpt. -/
theorem Position.isTooFar_of_first {source : String} {place : Position}
    (text : source.toList = first :: rest) (solid : isBlank first = false) (line : place.line = 1)
    (far : greatestWidth < place.column.toNat) : place.IsTooFar source := by
  have unbroken : isLineEnd first = false := isLineEnd_eq_false_of_solid solid
  have found : lineAt? source place = some (String.ofList (first :: restOfLine rest)) := by
    have top : (linesFrom [] (first :: rest)).head? = _ := head?_linesFrom [] (List.cons_ne_nil _ _)
    rw [lineAt?, lineOf?, line, sourceLines, text, if_neg (by decide)]
    rw [List.head?_eq_getElem?] at top
    simpa [restOfLine, unbroken] using top
  have space : first ≠ ' ' := by
    rintro rfl
    cases solid
  have all : (ExcerptLine.ofLine (String.ofList (first :: restOfLine rest))).removed = 0 := by
    simp [ExcerptLine.ofLine, ExcerptLine.spread_of_solid solid, space]
  refine ⟨_, found, ?_⟩
  rw [ExcerptLine.pointerLength, all]
  omega

/-- The token of a report, and where its lexeme stands. -/
theorem exists_stands_of_mem {source : String} (short : source.length < 2 ^ 30)
    (reported : error ∈ (parse source).errors) :
    ∃ index token before lexeme behind,
      (tokenize source)[index]? = some token ∧ Stands source index before lexeme behind ∧
      error.found = token.kind ∧ error.position = token.position ∧
      Leads .start before error.position := by
  obtain ⟨parser, tracks, errors, -⟩ := parse_tracks source
  rw [errors, List.mem_reverse] at reported
  obtain ⟨found, position, -⟩ := tracks.faithful error reported
  obtain ⟨index, present⟩ := List.getElem?_of_mem (TokenStream.tokenAt_mem
    (.scan (.start source)) error.index)
  obtain ⟨before, lexeme, behind, stands, hands⟩ := exists_stands present
  obtain ⟨between, text, leads⟩ := hands.leads (Cursor.hasRoom_start short)
  obtain rfl : before = between := List.append_cancel_right (stands.text.symm.trans text)
  have apart : (lexeme ++ behind).head? ≠ some '\n' := fun feed => by
    cases stands.solid present _ feed
  exact ⟨index, _, before, lexeme, behind, present, stands, found, position, position ▸ leads apart⟩

/-- Nothing is around the closing token if no line was begun, and only then. -/
private theorem nothing_around (stands : Stands source index before lexeme behind)
    (present : (tokenize source)[index]? = some token)
    (around : LineAround before (lexeme ++ behind) left right) :
    left ++ (lexeme ++ behind) = [] ↔
      token.kind = .eof ∧ ∀ c ∈ source.toList.getLast?, isLineEnd c := by
  rcases stands.lexeme_of_token present with ⟨eof, rfl, rfl⟩ | ⟨other, first, more, rfl, -⟩
  · rw [stands.text, List.append_nil, List.append_nil, List.append_nil, around.left_eq_nil_iff]
    exact (and_iff_right eof).symm
  · simp [other]

/-- The caret of an excerpt is under the character it is about. -/
theorem caret_points_at_token {source : String} (short : source.length < 2 ^ 30) (file : String) :
    ∀ error ∈ (parse source).errors, error.position.column.toNat ≤ 65535 →
      ∃ index token before lexeme behind,
        (tokenize source)[index]? = some token ∧ Stands source index before lexeme behind ∧
        error.found = token.kind ∧ error.position = token.position ∧
        ((Diagnostic.ofSyntax error).excerpt? source file =
            some ((Diagnostic.ofSyntax error).heading file) ↔
          error.found = .eof ∧ ∀ c ∈ source.toList.getLast?, isLineEnd c) ∧
        (¬(error.found = .eof ∧ ∀ c ∈ source.toList.getLast?, isLineEnd c) →
          ∃ left right removed shown reach,
            LineAround before (lexeme ++ behind) left right ∧
            ShownAs (left ++ right) removed shown ∧ (∀ c ∈ shown, isLineEnd c = false) ∧
            0 < reach ∧ error.position.column.toNat = removed + reach ∧
            (Diagnostic.ofSyntax error).excerpt? source file =
              some ((Diagnostic.ofSyntax error).heading file ++
                Diagnostic.underlined (toString error.position.line.toNat) shown reach) ∧
            (error.found ≠ .eof →
              ∃ first more, lexeme = first :: more ∧ shown[reach - 1]? = some first)) := by
  intro error reported narrow
  obtain ⟨index, token, before, lexeme, behind, present, stands, found, position, leads⟩ :=
    exists_stands_of_mem short reported
  refine ⟨index, token, before, lexeme, behind, present, stands, found, position, ?_⟩
  have there : (Diagnostic.ofSyntax error).position = some error.position := rfl
  obtain ⟨left, right, removed, shown, reach, around, shows, some, column, excerpt, caret⟩ :=
    Diagnostic.excerpt_at stands.text leads (stands.solid present) there file
  have fits : reach ≤ greatestWidth := by
    rw [greatestWidth]
    omega
  rw [excerpt, if_pos fits, found, ← nothing_around stands present around]
  constructor
  · split_ifs with nothing
    · simp [nothing]
    · simp [nothing, Diagnostic.underlined_ne_empty]
  · intro there
    refine ⟨left, right, removed, shown, reach, around, shows, shows.unbroken around.unbroken, some,
      column, ?_, fun other => ?_⟩
    · rw [if_neg there]
    · obtain ⟨eof, -⟩ | ⟨-, first, more, spelled, -⟩ := stands.lexeme_of_token present
      · exact absurd eof other
      · exact ⟨first, more, spelled, caret first (by rw [spelled]; rfl)⟩

/-- One tab is before the line and one before the token, on a line that ends
with two characters. -/
theorem caret_behind_tabs :
    "int main() \x7b\r\n\tint\t3;\r\n\x7d".length < 2 ^ 30 ∧
      ∃ error ∈ (parse "int main() \x7b\r\n\tint\t3;\r\n\x7d").errors,
        error.position.column.toNat ≤ 65535 ∧ error.found ≠ .eof ∧
        ∃ removed shown reach, 12 = removed + reach ∧ 0 < reach ∧
          (Diagnostic.ofSyntax error).excerpt? "int main() \x7b\r\n\tint\t3;\r\n\x7d" "tabs.mc" =
            some ((Diagnostic.ofSyntax error).heading "tabs.mc" ++
              Diagnostic.underlined "2" shown reach) ∧
          shown[reach - 1]?.isSome := by
  have short : "int main() \x7b\r\n\tint\t3;\r\n\x7d".length < 2 ^ 30 := by decide +kernel
  have errors : (parse "int main() \x7b\r\n\tint\t3;\r\n\x7d").errors =
      [⟨.intConst, .identifier, ⟨2, 12⟩, 6, .unexpected⟩] := by decide +kernel
  have reported := errors ▸ List.mem_cons_self
  obtain ⟨_, _, _, _, _, _, _, _, _, _, points⟩ :=
    caret_points_at_token short "tabs.mc" _ reported (by decide)
  obtain ⟨_, _, removed, shown, reach, _, _, _, some, column, excerpt, caret⟩ := points (by decide)
  obtain ⟨first, _, _, found⟩ := caret (by decide)
  exact ⟨short, _, reported, by decide, by decide, removed, shown, reach, column, some, excerpt,
    by rw [found]; rfl⟩

end ToyC
