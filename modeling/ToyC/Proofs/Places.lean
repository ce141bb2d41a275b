import Mathlib.Data.Prod.Lex
import ToyC.Proofs.Lexemes

/-! The places of tokens. On a text that is short enough for the counters each
token stands behind the one before it, and the end behind them all. -/
namespace ToyC

namespace Position

/-- The line and the column, the line first. -/
def key (place : Position) : ℕ ×ₗ ℕ := toLex (place.line.toNat, place.column.toNat)

theorem key_injective : Function.Injective key := by
  intro place other same
  cases place
  cases other
  simpa [key, UInt32.toNat_inj] using same

instance : LinearOrder Position := LinearOrder.lift' key key_injective

theorem lt_iff {place other : Position} :
    place < other ↔ place.line.toNat < other.line.toNat ∨
      (place.line.toNat = other.line.toNat ∧ place.column.toNat < other.column.toNat) :=
  Prod.Lex.lt_iff

theorem along_column {place : Position} {columns : Nat}
    (room : place.column.toNat + columns < 2 ^ 32) :
    (place.along columns).column.toNat = place.column.toNat + columns := by
  have word : columns < 2 ^ 32 := by omega
  rw [along, UInt32.toNat_add, UInt32.toNat_ofNat_of_lt' word]
  exact Nat.mod_eq_of_lt room

theorem nextLine_line {place : Position} (room : place.line.toNat + 1 < 2 ^ 32) :
    place.nextLine.line.toNat = place.line.toNat + 1 := by
  rw [nextLine, UInt32.toNat_add]
  exact Nat.mod_eq_of_lt room

end Position

/-! ### Room for the counters -/

/-- The counters have room for the rest of the text, even if each character of
it ends a line or is a tab. -/
structure Cursor.HasRoom (cursor : Cursor) : Prop where
  lines : cursor.position.line.toNat + cursor.rest.length < 2 ^ 32
  columns : cursor.position.column.toNat + tabWidth * cursor.rest.length < 2 ^ 32

namespace Cursor

theorem hasRoom_start {source : String} (short : source.length < 2 ^ 30) :
    (start source).HasRoom := by
  have length : source.toList.length < 2 ^ 30 := by rwa [String.length_toList]
  constructor
  · change 1 + source.toList.length < 2 ^ 32
    omega
  · change 1 + 4 * source.toList.length < 2 ^ 32
    omega

namespace HasRoom

variable {rest others : List Char} {place : Position} {columns characters : Nat}

private theorem along (room : HasRoom ⟨rest, place⟩)
    (shorter : others.length + characters ≤ rest.length)
    (near : columns ≤ tabWidth * characters) : HasRoom ⟨others, place.along columns⟩ := by
  obtain ⟨lines, width⟩ := room
  simp only [tabWidth] at lines width near
  constructor
  · change place.line.toNat + others.length < 2 ^ 32
    omega
  · rw [Position.along_column (by omega), tabWidth]
    dsimp only
    omega

private theorem lt_along (room : HasRoom ⟨rest, place⟩) (near : columns ≤ tabWidth * rest.length)
    (some : 0 < columns) : place < place.along columns := by
  have width : place.column.toNat + columns < 2 ^ 32 :=
    Nat.lt_of_le_of_lt (Nat.add_le_add_left near _) room.columns
  rw [Position.lt_iff, Position.along_column width]
  exact .inr ⟨rfl, Nat.lt_add_of_pos_right some⟩

private theorem nextLine (room : HasRoom ⟨c :: rest, place⟩) : HasRoom ⟨rest, place.nextLine⟩ := by
  obtain ⟨lines, width⟩ := room
  simp only [List.length_cons, tabWidth] at lines width
  constructor
  · rw [Position.nextLine_line (by omega)]
    dsimp only
    omega
  · change 1 + 4 * rest.length < 2 ^ 32
    omega

private theorem lt_nextLine (room : HasRoom ⟨c :: rest, place⟩) : place < place.nextLine := by
  have lines := room.lines
  simp only [List.length_cons] at lines
  rw [Position.lt_iff, Position.nextLine_line (by omega)]
  exact .inl (Nat.lt_succ_self _)

theorem pastBlank (room : HasRoom ⟨c :: rest, place⟩) :
    HasRoom ⟨rest, Cursor.pastBlank c rest place⟩ := by
  rw [Cursor.pastBlank]
  split_ifs
  · exact room.nextLine
  · have same := room.along (Nat.le_refl _) (Nat.zero_le (tabWidth * 1))
    rwa [Position.along_zero] at same
  · exact room.along (Nat.le_refl _) (Nat.le_refl (tabWidth * 1))
  · exact room.along (Nat.le_refl _) (by decide : 1 ≤ tabWidth * 1)

theorem le_pastBlank (room : HasRoom ⟨c :: rest, place⟩) :
    place ≤ Cursor.pastBlank c rest place := by
  have wide : tabWidth ≤ tabWidth * (c :: rest).length := Nat.le_mul_of_pos_right _ (Nat.succ_pos _)
  rw [Cursor.pastBlank]
  split_ifs
  · exact room.lt_nextLine.le
  · exact le_rfl
  · exact (room.lt_along wide (by decide)).le
  · exact (room.lt_along (Nat.le_trans (by decide) wide) Nat.one_pos).le

theorem past (room : HasRoom ⟨first :: rest, place⟩) :
    HasRoom (Cursor.past ⟨first :: rest, place⟩ (.cut first rest)) := by
  have inside := (Lexeme.cut_text_prefix first rest).length_le
  refine room.along ?_ (Nat.le_mul_of_pos_left _ (by decide : 0 < tabWidth))
  exact Nat.le_of_eq (by rw [List.length_drop, Nat.sub_add_cancel inside])

theorem lt_past (room : HasRoom ⟨first :: rest, place⟩) :
    place < (Cursor.past ⟨first :: rest, place⟩ (.cut first rest)).position := by
  have inside := (Lexeme.cut_text_prefix first rest).length_le
  refine room.lt_along ?_ (List.length_pos_iff.mpr (Lexeme.cut_text_ne_nil first rest))
  rw [tabWidth]
  omega

end HasRoom

end Cursor

/-! ### Tokens one behind the other -/

/-- From a cursor on, the tokens and the place where it ends stand one behind
the other. -/
theorem Hands.places (hands : Hands cursor tokens after) (room : cursor.HasRoom) :
    (tokens.map Token.position ++ [after.position]).Pairwise (· < ·) ∧
      ∀ place ∈ tokens.map Token.position ++ [after.position], cursor.position ≤ place := by
  induction hands with
  | done => exact ⟨List.pairwise_singleton .., fun place member => by simp_all⟩
  | blank blank _ ih =>
    obtain ⟨ordered, behind⟩ := ih room.pastBlank
    exact ⟨ordered, fun place member => room.le_pastBlank.trans (behind place member)⟩
  | @token _ _ place _ _ _ solid cut _ ih =>
    subst cut
    obtain ⟨ordered, behind⟩ := ih room.past
    rw [List.map_cons, List.cons_append]
    constructor
    · exact ordered.cons fun other member => room.lt_past.trans_le (behind other member)
    · intro other member
      rcases List.mem_cons.mp member with rfl | later
      · exact le_rfl
      · exact (room.lt_past.trans_le (behind other later)).le

/-- The tokens of a short text stand one behind the other. -/
theorem tokenize_places {source : String} (short : source.length < 2 ^ 30) :
    ((tokenize source).map Token.position).Pairwise (· < ·) := by
  have places := ((hands_scan source).places (Cursor.hasRoom_start short)).1
  simpa [tokenize, TokenStream.toList] using places

end ToyC
