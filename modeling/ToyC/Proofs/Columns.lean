import Mathlib.Algebra.GroupWithZero.Nat
import ToyC.Proofs.Pieces
import ToyC.Proofs.Places

/-! Places and the text before them. The line of a place is told by the lines
that end before it, and its column by the characters since then. The lines of a
text are counted in the same way, so a place leads to its line. -/
namespace ToyC

/-- Whether a character ends a line, alone or as one of two. -/
def isLineEnd (c : Char) : Bool := c = '\n' || c = '\r'

/-- The columns that a text takes on its line. -/
def width (text : List Char) : Nat := (text.map fun c => if c = '\t' then tabWidth else 1).sum

/-- What is on the current line behind a text, if `left` was there before it. -/
def lineAfter (left : List Char) : List Char → List Char
  | [] => left
  | c :: rest => lineAfter (if isLineEnd c then [] else left ++ [c]) rest

/-- How many lines end in a text. -/
def linesEnded : List Char → Nat
  | [] => 0
  | c :: rest => (if endsLine c rest then 1 else 0) + linesEnded rest

/-! ### Line ends -/

theorem isLineEnd_of_endsLine (ends : endsLine c rest) : isLineEnd c := by
  simp only [endsLine, Bool.or_eq_true, Bool.and_eq_true] at ends
  simp only [isLineEnd, Bool.or_eq_true]
  exact ends.imp id And.left

theorem not_endsLine_of_unbroken (unbroken : isLineEnd c = false) (rest : List Char) :
    ¬endsLine c rest := by
  intro ends
  rw [isLineEnd_of_endsLine ends] at unbroken
  cases unbroken

/-- Only a carriage return before a line feed ends no line. -/
theorem head_of_not_endsLine (ends : isLineEnd c) (not : ¬endsLine c rest) :
    c = '\r' ∧ rest.head? = some '\n' := by
  simp [isLineEnd, endsLine] at ends not
  exact ⟨ends.resolve_left not.1, not.2 (ends.resolve_left not.1)⟩

/-- A character ends a line, or leaves that to the line feed behind it, or is
on a line. -/
theorem endsLine_cases (c : Char) (rest : List Char) :
    (endsLine c rest ∧ isLineEnd c) ∨ (¬endsLine c rest ∧ c = '\r' ∧ ∃ more, rest = '\n' :: more) ∨
      (¬endsLine c rest ∧ isLineEnd c = false ∧ c ≠ '\r') := by
  by_cases ends : endsLine c rest
  · exact .inl ⟨ends, isLineEnd_of_endsLine ends⟩
  · cases isEnd : isLineEnd c with
    | true =>
      obtain ⟨carriageReturn, feed⟩ := head_of_not_endsLine isEnd ends
      exact .inr (.inl ⟨ends, carriageReturn, List.head?_eq_some_iff.mp feed⟩)
    | false =>
      refine .inr (.inr ⟨ends, rfl, ?_⟩)
      rintro rfl
      cases isEnd

theorem endsLine_append (apart : behind.head? ≠ some '\n') (c : Char) (text : List Char) :
    endsLine c (text ++ behind) = endsLine c text := by
  cases text with
  | nil =>
    have same : (behind.head? != some '\n') = true := by simpa using apart
    rw [List.nil_append, endsLine, endsLine, same]
    rfl
  | cons d text => rfl

theorem isLineEnd_eq_false_of_solid (solid : isBlank c = false) : isLineEnd c = false := by
  by_contra ends
  simp only [isLineEnd, Bool.not_eq_false, Bool.or_eq_true, decide_eq_true_eq] at ends
  rcases ends with rfl | rfl <;> cases solid

/-! ### Columns -/

@[simp] theorem width_append (text text' : List Char) :
    width (text ++ text') = width text + width text' := by
  simp [width]

theorem width_of_solid (solid : ∀ c ∈ text, isBlank c = false) : width text = text.length := by
  have single : ∀ c ∈ text, (if c = '\t' then tabWidth else 1) = 1 := by
    intro c member
    rw [if_neg]
    rintro rfl
    cases solid _ member
  rw [width, List.map_congr_left single]
  simp

section

variable {text behind left : List Char}

theorem lineAfter_of_unbroken (unbroken : ∀ c ∈ text, isLineEnd c = false)
    (left behind : List Char) :
    lineAfter left (text ++ behind) = lineAfter (left ++ text) behind := by
  induction text generalizing left with
  | nil => simp
  | cons c text ih =>
    obtain ⟨first, others⟩ := List.forall_mem_cons.mp unbroken
    rw [List.cons_append, lineAfter, first, if_neg Bool.false_ne_true, ih others,
      List.append_assoc, List.singleton_append]

theorem linesEnded_of_unbroken (unbroken : ∀ c ∈ text, isLineEnd c = false) (behind : List Char) :
    linesEnded (text ++ behind) = linesEnded behind := by
  induction text with
  | nil => rfl
  | cons c text ih =>
    obtain ⟨first, others⟩ := List.forall_mem_cons.mp unbroken
    rw [List.cons_append, linesEnded, if_neg (not_endsLine_of_unbroken first _), ih others,
      Nat.zero_add]

end

/-- From one place a text leads to another: so many lines on, and so far on the
last of them. -/
structure Leads (place : Position) (text : List Char) (after : Position) : Prop where
  line : after.line.toNat = place.line.toNat + linesEnded text
  column : ∀ left, place.column.toNat = 1 + width left →
    after.column.toNat = 1 + width (lineAfter left text)

private theorem Leads.along (unbroken : isLineEnd c = false)
    (room : place.column.toNat + width [c] < 2 ^ 32)
    (leads : Leads (place.along (width [c])) text after) : Leads place (c :: text) after := by
  constructor
  · rw [leads.line, linesEnded, if_neg (not_endsLine_of_unbroken unbroken text), Nat.zero_add]
    rfl
  · intro left column
    rw [lineAfter, unbroken, if_neg Bool.false_ne_true]
    apply leads.column
    rw [Position.along_column room, width_append, column, Nat.add_assoc]

theorem Leads.pastBlank (room : Cursor.HasRoom ⟨c :: (text ++ behind), place⟩)
    (apart : behind.head? ≠ some '\n')
    (leads : Leads (Cursor.pastBlank c (text ++ behind) place) text after) :
    Leads place (c :: text) after := by
  obtain ⟨lines, columns⟩ := room
  simp only [List.length_cons, tabWidth] at lines columns
  rw [Cursor.pastBlank, endsLine_append apart] at leads
  rcases endsLine_cases c text with
    ⟨ends, isEnd⟩ | ⟨ends, rfl, more, rfl⟩ | ⟨ends, unbroken, noReturn⟩
  · rw [if_pos ends] at leads
    have line := leads.line
    rw [Position.nextLine_line (by omega)] at line
    constructor
    · rw [line, linesEnded, if_pos ends, Nat.add_assoc]
    · intro left _
      rw [lineAfter, if_pos isEnd]
      exact leads.column [] rfl
  · -- The line feed behind a carriage return counts for both.
    rw [if_neg ends, if_pos rfl] at leads
    have once : linesEnded ('\r' :: '\n' :: more) = linesEnded ('\n' :: more) := by
      rw [linesEnded, if_neg ends, Nat.zero_add]
    exact ⟨leads.line.trans (congrArg _ once.symm), leads.column⟩
  · rw [if_neg ends, if_neg noReturn] at leads
    split_ifs at leads with tab
    · subst tab
      have wide : width ['\t'] = 4 := rfl
      exact leads.along rfl (by omega)
    · have single : width [c] = 1 := by simp [width, tab]
      rw [← single] at leads
      exact leads.along unbroken (by omega)

/-- From one place to another the lexer counts lines and columns. -/
theorem Hands.leads (hands : Hands cursor tokens after) (room : cursor.HasRoom) :
    ∃ between, cursor.rest = between ++ after.rest ∧
      (after.rest.head? ≠ some '\n' → Leads cursor.position between after.position) := by
  induction hands with
  | done => exact ⟨[], rfl, fun _ => ⟨rfl, fun left column => column⟩⟩
  | @blank c rest place tokens after blank _ ih =>
    obtain ⟨between, text, leads⟩ := ih room.pastBlank
    obtain rfl : rest = between ++ after.rest := text
    exact ⟨c :: between, rfl, fun apart => (leads apart).pastBlank room apart⟩
  | @token first rest place tokens after lexeme solid cut _ ih =>
    subst cut
    obtain ⟨between, text, leads⟩ := ih room.past
    have solids := Lexeme.cut_text_solid solid rest
    have unbroken : ∀ c ∈ (Lexeme.cut first rest).text, isLineEnd c = false := fun c member =>
      isLineEnd_eq_false_of_solid (solids c member)
    refine ⟨(Lexeme.cut first rest).text ++ between, ?_, fun apart => ⟨?_, fun left column => ?_⟩⟩
    · rw [List.append_assoc, ← text, Cursor.past]
      exact (List.prefix_iff_eq_append.mp (Lexeme.cut_text_prefix first rest)).symm
    · rw [linesEnded_of_unbroken unbroken]
      exact (leads apart).line
    · have inside := (Lexeme.cut_text_prefix first rest).length_le
      have wide := room.columns
      have reached : (place.along (Lexeme.cut first rest).text.length).column.toNat =
          place.column.toNat + (Lexeme.cut first rest).text.length :=
        Position.along_column (by simp only [tabWidth] at wide; omega)
      rw [lineAfter_of_unbroken unbroken]
      apply (leads apart).column
      rw [Cursor.past, reached, width_append, width_of_solid solids, column, Nat.add_assoc]

/-! ### The line of a place -/

/-- `left` and `right` are what is on one line on either side of the point where
`before` ends and `behind` starts. -/
structure LineAround (before behind left right : List Char) : Prop where
  starts : ∃ above, before = above ++ left ∧ ∀ c ∈ above.getLast?, isLineEnd c
  ends : ∃ below, behind = right ++ below ∧ ∀ c ∈ below.head?, isLineEnd c
  unbroken : ∀ c ∈ left ++ right, isLineEnd c = false

/-- The characters up to the next line end. -/
def restOfLine (text : List Char) : List Char := text.takeWhile fun c => !isLineEnd c

/-- What is on a line behind a text is behind the last line end in it. -/
private theorem lineAfter_spec (unbroken : ∀ c ∈ left, isLineEnd c = false) (text : List Char) :
    (∃ above, left ++ text = above ++ lineAfter left text ∧ ∀ c ∈ above.getLast?, isLineEnd c) ∧
      ∀ c ∈ lineAfter left text, isLineEnd c = false := by
  induction text generalizing left with
  | nil => exact ⟨⟨[], List.append_nil left, nofun⟩, unbroken⟩
  | cons c text ih =>
    rw [lineAfter]
    split
    · rename_i isEnd
      obtain ⟨⟨above, whole, last⟩, within⟩ := ih (List.forall_mem_nil _)
      rw [List.nil_append] at whole
      refine ⟨⟨left ++ c :: above, ?_, fun d found => ?_⟩, within⟩
      · rw [List.append_assoc, List.cons_append, ← whole]
      · obtain rfl : above.getLast?.getD c = d := by
          simpa [List.getLast?_append, List.getLast?_cons] using found
        cases top : above.getLast? with
        | none => exact isEnd
        | some d => exact last d top
    · rename_i inside
      have unbroken' : ∀ d ∈ left ++ [c], isLineEnd d = false := fun d member => by
        rcases List.mem_append.mp member with onLeft | new
        · exact unbroken d onLeft
        · simpa [List.mem_singleton.mp new] using inside
      obtain ⟨⟨above, whole, last⟩, within⟩ := ih unbroken'
      rw [List.append_assoc, List.singleton_append] at whole
      exact ⟨⟨above, whole, last⟩, within⟩

theorem lineAround (before behind : List Char) :
    LineAround before behind (lineAfter [] before) (restOfLine behind) := by
  obtain ⟨starts, within⟩ := lineAfter_spec (List.forall_mem_nil _) before
  refine ⟨starts, ⟨_, List.takeWhile_append_dropWhile.symm, fun c head => ?_⟩, fun c member => ?_⟩
  · simpa using refused_behind_run _ behind c head
  · rcases List.mem_append.mp member with onLeft | onRight
    · exact within c onLeft
    · simpa using List.mem_takeWhile_imp onRight

theorem linesFrom_append (apart : behind.head? ≠ some '\n') (left text : List Char) :
    ∃ above, linesFrom left.reverse (text ++ behind) =
      above ++ linesFrom (lineAfter left text).reverse behind ∧ above.length = linesEnded text := by
  induction text generalizing left with
  | nil => exact ⟨[], rfl, rfl⟩
  | cons c text ih =>
    rw [List.cons_append, linesFrom, endsLine_append apart, linesEnded, lineAfter]
    rcases endsLine_cases c text with
      ⟨ends, isEnd⟩ | ⟨ends, rfl, more, rfl⟩ | ⟨ends, unbroken, noReturn⟩
    · rw [if_pos ends, if_pos ends, if_pos isEnd]
      obtain ⟨above, lines, count⟩ := ih []
      refine ⟨String.ofList left.reverse.reverse :: above, congrArg _ lines, ?_⟩
      rw [List.length_cons, count, Nat.add_comm]
    · rw [if_neg ends, if_neg ends, Nat.zero_add]
      exact ih left
    · rw [if_neg ends, if_neg ends, if_neg noReturn, unbroken, Nat.zero_add]
      rw [← List.reverse_concat']
      exact ih (left ++ [c])

theorem head?_linesFrom (left : List Char) (present : left ++ behind ≠ []) :
    (linesFrom left.reverse behind).head? = some (String.ofList (left ++ restOfLine behind)) := by
  induction behind generalizing left with
  | nil =>
    have filled : left ≠ [] := by simpa using present
    simp [linesFrom, restOfLine, filled]
  | cons c behind ih =>
    rw [linesFrom]
    rcases endsLine_cases c behind with
      ⟨ends, isEnd⟩ | ⟨ends, rfl, more, rfl⟩ | ⟨ends, unbroken, noReturn⟩
    · simp [ends, isEnd, restOfLine]
    · simp [linesFrom, endsLine, restOfLine, isLineEnd]
    · rw [if_neg ends, if_neg noReturn, ← List.reverse_concat', ih (left ++ [c]) (by simp)]
      simp [restOfLine, unbroken]

/-- A place leads to the line that is around it, if there is anything on it or
behind it. -/
theorem lineOf?_sourceLines {source : String} (text : source.toList = before ++ behind)
    (apart : behind.head? ≠ some '\n') (leads : Leads .start before place) :
    lineOf? (sourceLines source) place =
      if lineAfter [] before ++ behind = [] then none
      else some (String.ofList (lineAfter [] before ++ restOfLine behind)) := by
  have line : place.line.toNat = 1 + linesEnded before := leads.line
  have counted : place.line ≠ 0 := by
    rintro zero
    rw [zero, UInt32.toNat_zero] at line
    omega
  obtain ⟨above, lines, count⟩ := linesFrom_append apart [] before
  rw [List.reverse_nil] at lines
  rw [lineOf?, if_neg counted, line, Nat.add_sub_cancel_left, sourceLines, text, lines, ← count,
    List.getElem?_append_right (Nat.le_refl _), Nat.sub_self, ← List.head?_eq_getElem?]
  split_ifs with nothing
  · obtain ⟨onLeft, onRight⟩ := List.append_eq_nil_iff.mp nothing
    rw [onLeft, onRight]
    rfl
  · exact head?_linesFrom _ nothing

end ToyC
