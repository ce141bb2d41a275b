import ToyC.Expr
import ToyC.Lexer
import ToyC.Proofs.Grammar

/-! The tokens of a text. Whatever the text is, each of its tokens but the last
is of a kind that a source can have, and carries what its kind calls for. -/
namespace ToyC

/-- What a token says, wherever it stands. -/
structure Content where
  kind : TokenKind
  literal : Option Literal
deriving DecidableEq, Repr

def Token.content (token : Token) : Content := ⟨token.kind, token.literal⟩

def Lexeme.content (lexeme : Lexeme) : Content := ⟨lexeme.kind, lexeme.literal⟩

@[simp] theorem Lexeme.content_place (lexeme : Lexeme) (position : Position) :
    (lexeme.place position).content = lexeme.content := rfl

/-- A constant carries its value, and a name its text. -/
structure Token.WellFormed (token : Token) : Prop where
  constant : isConstant token.kind →
    ∃ literal value, token.literal = some literal ∧ Expr.ofConstant? literal = some value
  name : token.kind = .identifier → ∃ name, token.literal = some (.identifier name)

/-- The closing token, and what only names an expectation, is never cut off a
text; a symbol or a reserved word has nothing to carry. -/
def TokenKind.isPlain : TokenKind → Bool
  | .identifier | .intConst | .floatConst | .charConst | .booleanConst | .eof => false
  | _ => true

/-- Well-formed, and not the closing token. -/
structure Token.Cut (token : Token) : Prop where
  wellFormed : token.WellFormed
  present : token.kind ≠ .eof

/-- A letter and then letters and digits, and no word that means something else. -/
def isName (name : String) : Bool :=
  name.toList.head?.any Char.isAlpha && name.toList.all Char.isAlphanum &&
    (reservedWords.lookup name.toList).isNone && (booleanWords.lookup name.toList).isNone

/-- What a token that was cut off a text can say: numbers have no sign, and
characters are letters. -/
def Content.isLegible (content : Content) : Bool :=
  match content.literal with
  | some (.identifier name) => content.kind = .identifier && isName name
  | some (.int value) => content.kind = .intConst && 0 ≤ value.toInt
  | some (.float _) => content.kind = .floatConst
  | some (.char value) => content.kind = .charConst && isAlphabetic value
  | some (.boolean _) => content.kind = .booleanConst
  | none => content.kind.isPlain

theorem TokenKind.isConstant_of_isPlain {kind : TokenKind} (plain : kind.isPlain) :
    isConstant kind = false := by
  cases kind <;> first | rfl | cases plain

theorem Token.cut_of_isLegible {token : Token} (legible : token.content.isLegible) :
    token.Cut := by
  obtain ⟨kind, literal, position⟩ := token
  change Content.isLegible ⟨kind, literal⟩ at legible
  cases literal with
  | none =>
    have plain : kind.isPlain := legible
    refine ⟨⟨fun constant => ?_, fun name => ?_⟩, fun eof => ?_⟩
    · exact absurd constant (Bool.eq_false_iff.mp (TokenKind.isConstant_of_isPlain plain))
    · cases name
      cases plain
    · cases eof
      cases plain
  | some literal =>
    cases literal <;>
      simp only [Content.isLegible, Bool.and_eq_true, decide_eq_true_eq] at legible
    case identifier name =>
      cases legible.1
      exact ⟨⟨nofun, fun _ => ⟨name, rfl⟩⟩, nofun⟩
    case int value =>
      cases legible.1
      exact ⟨⟨fun _ => ⟨_, .int value, rfl, rfl⟩, nofun⟩, nofun⟩
    case float value =>
      cases legible
      exact ⟨⟨fun _ => ⟨_, .float value, rfl, rfl⟩, nofun⟩, nofun⟩
    case char value =>
      cases legible.1
      exact ⟨⟨fun _ => ⟨_, .char value, rfl, rfl⟩, nofun⟩, nofun⟩
    case boolean value =>
      cases legible
      exact ⟨⟨fun _ => ⟨_, .boolean value, rfl, rfl⟩, nofun⟩, nofun⟩

namespace Lexeme

theorem unknown_isLegible (text : List Char) : (unknown text).content.isLegible := rfl

/-- A run of letters and digits that starts with a letter. -/
theorem word_isLegible (letter : first.isAlpha) (all : more.all Char.isAlphanum) :
    (word (first :: more)).content.isLegible := by
  rw [word]
  split
  · rename_i kind found
    obtain ⟨_, _, spelled, _⟩ := List.lookup_eq_some_iff.mp found
    have plain : ∀ entry ∈ reservedWords, entry.2.isPlain := by decide
    exact plain _ (spelled ▸ List.mem_append_right _ List.mem_cons_self)
  · rfl
  · rename_i noReserved noBoolean
    simp [content, Content.isLegible, isName, noReserved, noBoolean, letter, all,
      Char.isAlphanum]

theorem number_isLegible (text : List Char) : (number text).content.isLegible := by
  simp only [number]
  split
  · split
    · exact unknown_isLegible _
    · rfl
  · split
    · rename_i small
      have small : digitsValue (text.takeWhile Char.isDigit) < 2 ^ 31 := Nat.lt_succ_of_le small
      simp [content, Content.isLegible, Int32.toInt_ofNat_of_lt small]
    · exact unknown_isLegible _

theorem quoted_isLegible (rest : List Char) : (quoted rest).content.isLegible := by
  rw [quoted.eq_def]
  split
  · split
    · assumption
    · exact unknown_isLegible _
  · exact unknown_isLegible _
  · exact unknown_isLegible _

theorem symbol_isLegible (first : Char) (rest : List Char) :
    (symbol first rest).content.isLegible := by
  rw [symbol]
  split
  · rename_i found
    have plain : ∀ entry ∈ symbols, entry.2.isPlain := by decide
    exact plain _ (List.mem_of_find?_eq_some found)
  · exact unknown_isLegible _

theorem cut_isLegible (first : Char) (rest : List Char) : (cut first rest).content.isLegible := by
  rw [cut]
  split_ifs with letter
  · have accepted : first.isAlphanum := by simp [Char.isAlphanum, letter]
    rw [List.takeWhile_cons_of_pos accepted]
    exact word_isLegible letter (List.all_takeWhile ..)
  · exact number_isLegible _
  · exact quoted_isLegible rest
  · exact symbol_isLegible first rest

theorem cut_cut (first : Char) (rest : List Char) (position : Position) :
    ((cut first rest).place position).Cut :=
  Token.cut_of_isLegible (cut_isLegible first rest)

end Lexeme

theorem Cursor.next_isLegible (cursor : Cursor) (present : cursor.next.1.kind ≠ .eof) :
    cursor.next.1.content.isLegible := by
  rw [Cursor.next] at present ⊢
  dsimp only at present ⊢
  split at present
  · exact absurd rfl present
  · exact Lexeme.cut_isLegible _ _

theorem TokenStream.scanUpTo_isLegible (bound : Nat) (cursor : Cursor) :
    ∀ token ∈ (scanUpTo bound cursor).tokens, token.content.isLegible := by
  induction bound generalizing cursor with
  | zero => exact List.forall_mem_nil _
  | succ bound ih =>
    rw [scanUpTo]
    dsimp only
    split
    · exact List.forall_mem_nil _
    · rename_i present
      intro token member
      rcases List.mem_cons.mp member with rfl | later
      · exact cursor.next_isLegible present
      · exact ih _ token later

/-- Tokens between two others, as between parentheses. -/
def Enclosed (left right : TokenKind) (good : List Token → Prop) (tokens : List Token) : Prop :=
  ∃ opener inside closer, tokens = opener :: (inside ++ [closer]) ∧ opener.kind = left ∧
    closer.kind = right ∧ good inside

/-- All tokens of a text but the last one. -/
theorem scan_isLegible (source : String) :
    ∀ token ∈ (TokenStream.scan (.start source)).tokens, token.content.isLegible :=
  TokenStream.scanUpTo_isLegible _ _

theorem scan_cut (source : String) :
    ∀ token ∈ (TokenStream.scan (.start source)).tokens, token.Cut := fun token member =>
  Token.cut_of_isLegible (scan_isLegible source token member)

end ToyC
