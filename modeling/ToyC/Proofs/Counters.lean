import ToyC.Proofs.Columns

/-! Places without bounds. The line and the column of a token are numbers that
the text before it determines. On a text that is short enough the 32-bit
counters hold these numbers, and at no step of the lexer there is an addition
that would not fit. -/
namespace ToyC

/-- How often a line breaks in a text: at each line feed and each carriage
return, but once where they stand together in this order. -/
def lineBreaks : List Char → Nat
  | [] => 0
  | '\r' :: '\n' :: rest => lineBreaks rest + 1
  | c :: rest => lineBreaks rest + if isLineEnd c then 1 else 0

/-- The place is behind this text: so many lines broke, and so wide is what is
on the last one. -/
structure Position.Counts (place : Position) (text : List Char) : Prop where
  line : place.line.toNat = 1 + lineBreaks text
  column : place.column.toNat = 1 + width (lineAfter [] text)

/-- A line ends where it breaks. -/
theorem linesEnded_eq_lineBreaks (text : List Char) : linesEnded text = lineBreaks text := by
  fun_induction lineBreaks text with
  | case1 => rfl
  | case2 rest ih =>
    have onlyFeed : endsLine '\r' ('\n' :: rest) = false := rfl
    have feed : endsLine '\n' rest = true := rfl
    simp only [linesEnded, onlyFeed, feed, ih, if_true, Bool.false_eq_true, if_false]
    omega
  | case3 c rest apart ih =>
    have same : endsLine c rest = isLineEnd c := by
      rcases endsLine_cases c rest with
        ⟨ends, isEnd⟩ | ⟨_, carriageReturn, more, feed⟩ | ⟨noEnd, unbroken, _⟩
      · rw [ends, isEnd]
      · exact absurd feed (apart more carriageReturn)
      · simpa [unbroken] using noEnd
    rw [linesEnded, same, ih, Nat.add_comm]

theorem Leads.counts {text : List Char} {place : Position} (leads : Leads .start text place) :
    place.Counts text where
  line := by
    rw [leads.line, linesEnded_eq_lineBreaks]
    rfl
  column := leads.column [] rfl

/-! ### Room on the way -/

/-- Where the lexer gets to, there is still room. -/
theorem Hands.hasRoom (hands : Hands cursor tokens after) (room : cursor.HasRoom) :
    after.HasRoom := by
  induction hands with
  | done => exact room
  | blank _ _ ih => exact ih room.pastBlank
  | token _ cut _ ih =>
    subst cut
    exact ih room.past

/-- Whatever is next, a line break, a tab or a lexeme, it fits. -/
theorem Cursor.HasRoom.next {first : Char} {rest : List Char} {place : Position}
    (room : HasRoom ⟨first :: rest, place⟩) :
    place.line.toNat + 1 < 2 ^ 32 ∧
      place.column.toNat + max tabWidth (Lexeme.cut first rest).text.length < 2 ^ 32 := by
  obtain ⟨lines, columns⟩ := room
  have inside := (Lexeme.cut_text_prefix first rest).length_le
  simp only [List.length_cons, tabWidth] at lines columns inside ⊢
  omega

/-! ### Texts -/

/-- The place of a token is told by the text before it, as if there were no
bound on the numbers: that of the closing token by all of the text. So tokens
stand one behind the other, and no counter overflows on the way. -/
theorem places_count_text_before {source : String} (short : source.length < 2 ^ 30) :
    (∀ index token, (tokenize source)[index]? = some token →
      ∃ before lexeme behind, Stands source index before lexeme behind ∧
        source.toList = before ++ (lexeme ++ behind) ∧
        (token.kind = .eof → before = source.toList) ∧ (token.kind ≠ .eof → lexeme ≠ []) ∧
        token.position.Counts before) ∧
    ((tokenize source).map Token.position).Pairwise (· < ·) ∧
    (∀ tokens first rest place, Hands (.start source) tokens ⟨first :: rest, place⟩ →
      place.line.toNat + 1 < 2 ^ 32 ∧
        place.column.toNat + max tabWidth (Lexeme.cut first rest).text.length < 2 ^ 32) := by
  have room := Cursor.hasRoom_start short
  refine ⟨fun index token present => ?_, tokenize_places short, fun _ _ _ _ hands =>
    (hands.hasRoom room).next⟩
  obtain ⟨before, lexeme, behind, stands, hands⟩ := exists_stands present
  obtain ⟨between, same, leads⟩ := hands.leads room
  have text := stands.text
  obtain rfl : before = between := List.append_cancel_right (text.symm.trans same)
  have apart : (lexeme ++ behind).head? ≠ some '\n' := fun feed => by
    cases stands.solid present _ feed
  refine ⟨before, lexeme, behind, stands, text, fun eof => ?_, fun other => ?_,
    (leads apart).counts⟩
  · rcases stands.lexeme_of_token present with ⟨-, rfl, rfl⟩ | ⟨other, -⟩
    · rw [text, List.append_nil, List.append_nil]
    · exact absurd eof other
  · rcases stands.lexeme_of_token present with ⟨eof, -, -⟩ | ⟨-, first, more, rfl, -⟩
    · exact absurd eof other
    · exact List.cons_ne_nil first more

/-- Three ways to break a line, tabs, a blank of another script, a quote that
opens no literal and a number that ends in a point. -/
theorem places_behind_mixed_breaks :
    let source := "a\r\n\t\u2003'\r1.\t$\n\n\tb\r"
    source.length < 2 ^ 30 ∧
      (tokenize source).map Token.position =
        [⟨1, 1⟩, ⟨2, 6⟩, ⟨3, 1⟩, ⟨3, 7⟩, ⟨5, 5⟩, ⟨6, 1⟩] ∧
      (∃ before lexeme behind, Stands source 3 before lexeme behind ∧
        (⟨3, 7⟩ : Position).Counts before) ∧
      (⟨6, 1⟩ : Position).Counts source.toList := by
  intro source
  have short : source.length < 2 ^ 30 := by decide +kernel
  have fourth : (tokenize source)[3]? = some ⟨.unknown, none, ⟨3, 7⟩⟩ := by decide +kernel
  have closing : (tokenize source)[5]? = some ⟨.eof, none, ⟨6, 1⟩⟩ := by decide +kernel
  have counts := (places_count_text_before short).1
  obtain ⟨before, lexeme, behind, stands, _, _, _, counted⟩ := counts 3 _ fourth
  obtain ⟨whole, _, _, _, _, atEnd, _, finish⟩ := counts 5 _ closing
  rw [atEnd rfl] at finish
  exact ⟨short, by decide +kernel, ⟨before, lexeme, behind, stands, counted⟩, finish⟩

end ToyC
