import ToyC.Proofs.Lexemes

/-! Texts in pieces. A text is gaps and lexemes in turn. A lexeme is cut off as
it would be if it were all of the text, and no character is behind it that it
could go on with. -/
namespace ToyC

/-- The characters that a lexeme of this kind goes on with. -/
def TokenKind.goesOnWith (kind : TokenKind) (c : Char) : Bool :=
  match kind with
  | .identifier | .booleanConst | .mainWord | .intWord | .charWord | .floatWord | .booleanWord
  | .ifWord | .elseWord | .whileWord => c.isAlphanum
  | .intConst => c.isDigit || c = '.'
  | .floatConst => c.isDigit
  | .assign | .not | .less | .greater => c = '='
  | _ => false

/-! ### Where lexemes end -/

namespace Lexeme

/-- No blank is in a lexeme. -/
theorem cut_text_solid (solid : isBlank first = false) (rest : List Char) :
    ∀ c ∈ (cut first rest).text, isBlank c = false := by
  have within := cut_text_prefix first (beforeBlank rest)
  rw [cut_beforeBlank solid, ← beforeBlank_cons_of_solid solid] at within
  intro c member
  have solid := List.mem_takeWhile_imp (within.subset member)
  simpa using solid

private theorem word_goesOnWith (run : List Char) (c : Char) :
    (word run).kind.goesOnWith c = c.isAlphanum := by
  rw [word]
  split
  · rename_i kind found
    obtain ⟨_, _, spelled, _⟩ := List.lookup_eq_some_iff.mp found
    have reserved : ∀ entry ∈ reservedWords, entry.2.goesOnWith c = c.isAlphanum := by
      simp [reservedWords, TokenKind.goesOnWith]
    exact reserved _ (spelled ▸ List.mem_append_right _ List.mem_cons_self)
  · rfl
  · rfl

private theorem number_stops (text : List Char) :
    ∃ behind, text = (number text).text ++ behind ∧
      ∀ c ∈ behind.head?, (number text).kind.goesOnWith c = false := by
  obtain ⟨digits, behind, rfl, all, ⟨rest, rfl⟩ | stops⟩ := digits_first text
  · rw [number_point all]
    split
    · exact ⟨rest.dropWhile fun c => !isBlank c, by simp [unknown], fun _ _ => rfl⟩
    · exact ⟨rest.dropWhile Char.isDigit, by simp, refused_behind_run Char.isDigit rest⟩
  · rw [number_whole all stops]
    refine ⟨behind, ?_, fun c head => ?_⟩
    · split <;> rfl
    · obtain ⟨noDigit, noPoint⟩ := stops c head
      split
      · simp [TokenKind.goesOnWith, noDigit, noPoint]
      · rfl

private theorem quoted_goesOnWith (rest : List Char) (c : Char) :
    (quoted rest).kind.goesOnWith c = false := by
  rw [quoted.eq_def]
  split
  · split <;> rfl
  · rfl
  · rfl

/-- What the symbol list has before a symbol that could go on. -/
private theorem longer_symbol_first : ∀ i : Fin symbols.length,
    symbols[i].2.goesOnWith '=' → ∃ j < i, symbols[j].1 = symbols[i].1 ++ ['='] := by
  decide

private theorem symbol_goesOnWith {entry : List Char × TokenKind} (listed : entry ∈ symbols)
    (goesOn : entry.2.goesOnWith c) : c = '=' := by
  have only : ∀ entry ∈ symbols, entry.2.goesOnWith c → c = '=' := by
    simp [symbols, TokenKind.goesOnWith]
  exact only entry listed goesOn

private theorem symbol_stops (whole : first :: rest = (symbol first rest).text ++ behind) :
    ∀ c ∈ behind.head?, (symbol first rest).kind.goesOnWith c = false := by
  rw [symbol] at whole ⊢
  split
  · rename_i text kind found
    simp only [found] at whole
    intro c head
    by_contra goesOn
    rw [Bool.not_eq_false] at goesOn
    obtain rfl := symbol_goesOnWith (List.mem_of_find?_eq_some found) goesOn
    obtain ⟨_, i, inside, listed, before⟩ := List.find?_eq_some_iff_getElem.mp found
    obtain ⟨j, earlier, longer⟩ := longer_symbol_first ⟨i, inside⟩ (by simpa [listed] using goesOn)
    have refused := before j earlier
    have starts : text ++ ['='] <+: first :: rest := by
      obtain ⟨others, rfl⟩ := List.head?_eq_some_iff.mp head
      exact ⟨others, by simp [whole]⟩
    simp only [Fin.getElem_fin, listed] at longer
    rw [longer, List.isPrefixOf_iff_prefix.mpr starts] at refused
    cases refused
  · exact fun _ _ => rfl

/-- No character is behind a lexeme that it could go on with. -/
theorem cut_stops (whole : first :: rest = (cut first rest).text ++ behind) :
    ∀ c ∈ behind.head?, (cut first rest).kind.goesOnWith c = false := by
  rw [cut] at whole ⊢
  split_ifs at whole ⊢ with letter digit quote
  · rw [word_text] at whole
    have cut := List.takeWhile_append_dropWhile (p := Char.isAlphanum) (l := first :: rest)
    have rest := List.append_cancel_left (cut.trans whole)
    intro c head
    rw [word_goesOnWith]
    exact refused_behind_run _ _ c (rest ▸ head)
  · obtain ⟨behind', whole', stops⟩ := number_stops (first :: rest)
    rwa [← List.append_cancel_left (whole'.symm.trans whole)]
  · exact fun c _ => quoted_goesOnWith rest c
  · exact symbol_stops whole

/-! ### Lexemes alone -/

private theorem number_alone (text : List Char) : number (number text).text = number text := by
  have solid (c : Char) (digit : c.isDigit) : isBlank c = false :=
    isBlank_eq_false_of_isAlphanum (by simp [Char.isAlphanum, digit])
  obtain ⟨digits, behind, rfl, all, ⟨rest, rfl⟩ | stops⟩ := digits_first text
  · rw [number_point all]
    split
    · rename_i noFraction
      have noFraction' : ((beforeBlank rest).takeWhile Char.isDigit).isEmpty := by
        rwa [takeWhile_beforeBlank solid]
      exact (number_point all (beforeBlank rest)).trans ((if_pos noFraction').trans
        (by rw [beforeBlank, List.takeWhile_idem]))
    · rename_i fraction
      rw [number_point all, List.takeWhile_idem, if_neg fraction]
  · have alone : number (digits ++ []) = _ := number_whole all (by simp)
    rw [List.append_nil] at alone
    rw [number_whole all stops]
    split
    · rename_i small
      rw [alone, if_pos small]
    · rename_i great
      rw [unknown, alone, if_neg great, unknown]

private theorem quoted_alone (text : (quoted rest).text = '\'' :: more) :
    quoted more = quoted rest := by
  match rest with
  | [] =>
    cases text
    rfl
  | c :: rest =>
    cases letter : isAlphabetic c with
    | false =>
      -- The quote is unknown, be there a closing one or not.
      have unknownQuote : quoted (c :: rest) = unknown ['\''] := by
        rw [quoted.eq_def]
        split <;> simp_all
      rw [unknownQuote] at text ⊢
      cases text
      rfl
    | true =>
      by_cases closed : rest.head? = some '\''
      · obtain ⟨others, rfl⟩ := List.head?_eq_some_iff.mp closed
        simp only [quoted, letter, if_true] at text ⊢
        cases text
        simp [letter]
      · have unknownLetter : quoted (c :: rest) = unknown ['\'', c] := by
          rw [quoted.eq_def]
          split <;> simp_all
        rw [unknownLetter] at text ⊢
        cases text
        simp [quoted, letter]

private theorem symbol_alone (text : (symbol first rest).text = first :: more) :
    symbol first more = symbol first rest := by
  have within : first :: more <+: first :: rest := text ▸ symbol_text_prefix first rest
  have refused {sign : List Char} (other : ¬sign <+: first :: rest) : ¬sign <+: first :: more :=
    fun starts => other (starts.trans within)
  cases found : symbols.find? fun entry => entry.1.isPrefixOf (first :: rest) with
  | none =>
    have found' : (symbols.find? fun entry => entry.1.isPrefixOf (first :: more)) = none := by
      rw [List.find?_eq_none] at found ⊢
      exact fun entry listed => by simpa using refused (by simpa using found entry listed)
    rw [symbol, symbol, found, found']
  | some entry =>
    obtain ⟨sign, kind⟩ := entry
    have spelled : sign = first :: more := by simpa [symbol, found] using text
    obtain ⟨_, i, inside, listed, before⟩ := List.find?_eq_some_iff_getElem.mp found
    have found' : (symbols.find? fun entry => entry.1.isPrefixOf (first :: more)) =
        some (sign, kind) := by
      refine List.find?_eq_some_iff_getElem.mpr
        ⟨by simp [spelled], i, inside, listed, fun j earlier => ?_⟩
      have other := before j earlier
      rw [Bool.not_eq_true', ← Bool.not_eq_true, List.isPrefixOf_iff_prefix] at other ⊢
      exact refused other
    rw [symbol, symbol, found, found']

/-- A lexeme says the same when it is all of a text. -/
theorem cut_alone (text : (cut first rest).text = first :: more) :
    cut first more = cut first rest := by
  rw [cut] at text
  rw [cut, cut]
  split_ifs at text ⊢ with letter digit quote
  · rw [word_text] at text
    rw [← text, List.takeWhile_idem]
  · rw [← text, number_alone]
  · exact quoted_alone (quote ▸ text)
  · exact symbol_alone text

/-- So all of its text is cut into this one token. -/
theorem tokenize_alone (solid : isBlank first = false) (rest : List Char) :
    tokenize (String.ofList (cut first rest).text) =
      [(cut first rest).place .start,
        ⟨.eof, none, .along .start (cut first rest).text.length⟩] := by
  obtain ⟨start, more, text⟩ := List.exists_cons_of_ne_nil (cut_text_ne_nil first rest)
  obtain ⟨rfl, -⟩ : start = first ∧ more <+: rest := by
    simpa [text] using cut_text_prefix first rest
  have alone := cut_alone text
  have hands : Hands (.start (String.ofList (start :: more)))
      [(cut start rest).place .start] ⟨[], .along .start (cut start rest).text.length⟩ := by
    have past : Cursor.past ⟨start :: more, .start⟩ (cut start rest) =
        ⟨[], .along .start (cut start rest).text.length⟩ := by
      rw [Cursor.past, text, List.drop_length]
    rw [Cursor.start, String.toList_ofList]
    exact .token solid alone (past ▸ .done)
  rw [text] at hands ⊢
  exact hands.tokenize

end Lexeme

/-! ### Texts -/

/-- A gap, the lexeme behind it, and what the lexeme says. -/
structure Piece where
  gap : List Char
  lexeme : List Char
  content : Content

namespace Piece

/-- The text of pieces, and of what is behind them. -/
def join : List Piece → List Char → List Char
  | [], behind => behind
  | piece :: others, behind => piece.gap ++ (piece.lexeme ++ join others behind)

/-- The piece is cut off where it stands before `behind`, and says the same when
it is all of a text. -/
structure Fits (piece : Piece) (behind : List Char) : Prop where
  gap : ∀ c ∈ piece.gap, isBlank c
  some : piece.lexeme ≠ []
  solid : ∀ c ∈ piece.lexeme, isBlank c = false
  alone : tokenize (String.ofList piece.lexeme) =
    [⟨piece.content.kind, piece.content.literal, .start⟩,
      ⟨.eof, none, .along .start piece.lexeme.length⟩]
  present : piece.content.kind ≠ .eof
  stops : ∀ c ∈ behind.head?, piece.content.kind.goesOnWith c = false

/-- Each of the pieces fits where it stands. -/
def AllFit : List Piece → List Char → Prop
  | [], _ => True
  | piece :: others, behind => piece.Fits (join others behind) ∧ AllFit others behind

/-- What is cut off is a piece that fits, with a gap before it. -/
theorem Fits.cut {gap : List Char} (blank : ∀ c ∈ gap, isBlank c) (solid : isBlank first = false)
    (whole : first :: rest = (Lexeme.cut first rest).text ++ behind) :
    Fits ⟨gap, (Lexeme.cut first rest).text, (Lexeme.cut first rest).content⟩ behind where
  gap := blank
  some := Lexeme.cut_text_ne_nil first rest
  solid := Lexeme.cut_text_solid solid rest
  alone := Lexeme.tokenize_alone solid rest
  present := (Lexeme.cut_cut first rest .start).present
  stops := Lexeme.cut_stops whole

theorem join_append (front pieces : List Piece) (behind : List Char) :
    join (front ++ pieces) behind = join front (join pieces behind) := by
  induction front with
  | nil => rfl
  | cons piece front ih => rw [List.cons_append, join, join, ih]

theorem join_behind (pieces : List Piece) (gap behind : List Char) :
    join pieces (gap ++ behind) = join pieces gap ++ behind := by
  induction pieces with
  | nil => rfl
  | cons piece pieces ih => rw [join, join, ih, List.append_assoc, List.append_assoc]

theorem AllFit.append (front : AllFit pieces (join others behind)) (rest : AllFit others behind) :
    AllFit (pieces ++ others) behind := by
  induction pieces with
  | nil => exact rest
  | cons piece pieces ih =>
    obtain ⟨fits, frontFits⟩ := front
    exact ⟨(join_append pieces others behind).symm ▸ fits, ih frontFits⟩

theorem AllFit.fits (fit : AllFit (front ++ piece :: others) behind) :
    piece.Fits (join others behind) := by
  induction front with
  | nil => exact fit.1
  | cons _ front ih => exact ih fit.2

end Piece

/-- A text in pieces, which say what its tokens say. -/
structure InPieces (source : String) (pieces : List Piece) (last : List Char) : Prop where
  text : source.toList = Piece.join pieces last
  fit : Piece.AllFit pieces last
  blank : ∀ c ∈ last, isBlank c
  tokens : (tokenize source).map Token.content = pieces.map Piece.content ++ [⟨.eof, none⟩]

/-- A cursor passes pieces and a gap on its way, and hands out what the pieces say. -/
theorem Hands.pieces (hands : Hands cursor tokens after) :
    ∃ pieces gap, cursor.rest = Piece.join pieces (gap ++ after.rest) ∧
      Piece.AllFit pieces (gap ++ after.rest) ∧ (∀ c ∈ gap, isBlank c) ∧
      tokens.map Token.content = pieces.map Piece.content := by
  induction hands with
  | done => exact ⟨[], [], rfl, trivial, List.forall_mem_nil _, rfl⟩
  | @blank c rest place tokens after blank _ ih =>
    obtain ⟨pieces, gap, text, fit, blanks, contents⟩ := ih
    cases pieces with
    | nil =>
      exact ⟨[], c :: gap, congrArg (c :: ·) text, trivial,
        List.forall_mem_cons.mpr ⟨blank, blanks⟩, contents⟩
    | cons piece others =>
      obtain ⟨fits, othersFit⟩ := fit
      exact ⟨{ piece with gap := c :: piece.gap } :: others, gap, congrArg (c :: ·) text,
        ⟨{ fits with gap := List.forall_mem_cons.mpr ⟨blank, fits.gap⟩ }, othersFit⟩, blanks,
        contents⟩
  | @token first rest place tokens after lexeme solid cut _ ih =>
    subst cut
    obtain ⟨pieces, gap, text, fit, blanks, contents⟩ := ih
    have whole : first :: rest =
        (Lexeme.cut first rest).text ++ Piece.join pieces (gap ++ after.rest) := by
      rw [← text, Cursor.past]
      exact (List.prefix_iff_eq_append.mp (Lexeme.cut_text_prefix first rest)).symm
    exact ⟨⟨[], (Lexeme.cut first rest).text, (Lexeme.cut first rest).content⟩ :: pieces, gap,
      whole, ⟨.cut (List.forall_mem_nil _) solid whole, fit⟩, blanks, by simp [contents]⟩

theorem Hands.inPieces {source : String} (hands : Hands (.start source) tokens ⟨[], finish⟩) :
    ∃ pieces last, InPieces source pieces last ∧ pieces.length = tokens.length := by
  obtain ⟨pieces, last, text, fit, blank, contents⟩ := hands.pieces
  rw [List.append_nil] at text fit
  refine ⟨pieces, last, ⟨text, fit, blank, ?_⟩, ?_⟩
  · rw [hands.tokenize, List.map_append, contents]
    rfl
  · simpa using (congrArg List.length contents).symm

/-- Each text is gaps and lexemes in turn, and has one token for each lexeme,
the same as if the lexeme were all of the text; and no lexeme could go on. -/
theorem exists_inPieces (source : String) : ∃ pieces last, InPieces source pieces last := by
  obtain ⟨pieces, last, inPieces, _⟩ := (hands_scan source).inPieces
  exact ⟨pieces, last, inPieces⟩

/-! ### The lexeme of a token -/

/-- The lexeme of the token with this index is between `before` and `behind`.
The closing token has none, and is at the end of the text. -/
inductive Stands (source : String) : Nat → List Char → List Char → List Char → Prop
  | lexeme (inPieces : InPieces source (front ++ piece :: others) last) :
      Stands source front.length (Piece.join front piece.gap) piece.lexeme (Piece.join others last)
  | finish (inPieces : InPieces source pieces last) :
      Stands source pieces.length source.toList [] []

theorem Hands.at_token {token : Token} (hands : Hands cursor (front ++ token :: others) after) :
    ∃ first rest place, Hands cursor front ⟨first :: rest, place⟩ ∧ isBlank first = false ∧
      token = (Lexeme.cut first rest).place place ∧
      Hands (Cursor.past ⟨first :: rest, place⟩ (.cut first rest)) others after := by
  generalize all : front ++ token :: others = tokens at hands
  induction hands generalizing front with
  | done => simp at all
  | blank blank _ ih =>
    obtain ⟨first, rest, place, hands, found⟩ := ih all
    exact ⟨first, rest, place, .blank blank hands, found⟩
  | @token first rest place _ _ _ solid cut hands ih =>
    subst cut
    cases front with
    | nil =>
      obtain ⟨rfl, rfl⟩ := List.cons.inj all
      exact ⟨first, rest, place, .done, solid, rfl, hands⟩
    | cons head front =>
      obtain ⟨rfl, later⟩ := List.cons.inj all
      obtain ⟨first', rest', place', hands, found⟩ := ih later
      exact ⟨first', rest', place', .token solid rfl hands, found⟩

/-- The pieces of a text before and behind a lexeme that the lexer gets to. -/
private theorem inPieces_at {source : String} {tokens : List Token}
    (before : Hands (.start source) tokens ⟨first :: rest, place⟩) (solid : isBlank first = false)
    (behind : Hands (Cursor.past ⟨first :: rest, place⟩ (.cut first rest)) others ⟨[], finish⟩) :
    ∃ front gap pieces last, InPieces source
      (front ++ ⟨gap, (Lexeme.cut first rest).text, (Lexeme.cut first rest).content⟩ :: pieces)
      last ∧ front.length = tokens.length ∧
        first :: rest = (Lexeme.cut first rest).text ++ Piece.join pieces last := by
  obtain ⟨front, gap, text, fit, blank, contents⟩ := before.pieces
  obtain ⟨pieces, last, text', fit', blank', contents'⟩ := behind.pieces
  rw [List.append_nil] at text' fit'
  have whole : first :: rest = (Lexeme.cut first rest).text ++ Piece.join pieces last := by
    rw [← text', Cursor.past]
    exact (List.prefix_iff_eq_append.mp (Lexeme.cut_text_prefix first rest)).symm
  refine ⟨front, gap, pieces, last, ⟨?_, ?_, blank', ?_⟩, ?_, whole⟩
  · rw [Piece.join_append, Piece.join, ← whole]
    exact text
  · refine .append ?_ ⟨.cut blank solid whole, fit'⟩
    rwa [Piece.join, ← whole]
  · rw [(before.trans (.token solid rfl behind)).tokenize]
    simp only [List.map_append, List.map_cons, contents, contents', Lexeme.content_place]
    rfl
  · simpa using (congrArg List.length contents).symm

/-- Each token has its lexeme somewhere, and its place is where the lexer gets
to before that. -/
theorem exists_stands {source : String} (present : (tokenize source)[index]? = some token) :
    ∃ before lexeme behind, Stands source index before lexeme behind ∧
      Hands (.start source) ((tokenize source).take index) ⟨lexeme ++ behind, token.position⟩ := by
  have hands := hands_scan source
  have all := hands.tokenize
  generalize TokenStream.scan (.start source) = stream at hands all
  rcases Nat.lt_or_ge index stream.tokens.length with inside | atEnd
  · rw [all, List.getElem?_append_left inside, List.getElem?_eq_some_iff] at present
    obtain ⟨_, found⟩ := present
    rw [← List.take_append_drop index stream.tokens, List.drop_eq_getElem_cons inside,
      found] at hands
    obtain ⟨first, rest, place, before, solid, rfl, behind⟩ := hands.at_token
    obtain ⟨front, gap, pieces, last, inPieces, length, whole⟩ := inPieces_at before solid behind
    have stands := Stands.lexeme inPieces
    rw [length, List.length_take_of_le inside.le] at stands
    refine ⟨_, _, _, stands, ?_⟩
    rw [all, List.take_append_of_le_length inside.le, ← whole]
    exact before
  · have closing : index = stream.tokens.length ∧ ⟨.eof, none, stream.finish⟩ = token := by
      rw [all, List.getElem?_append_right atEnd, List.getElem?_singleton] at present
      split at present
      · exact ⟨by omega, Option.some.inj present⟩
      · cases present
    obtain ⟨rfl, rfl⟩ := closing
    obtain ⟨pieces, last, inPieces, length⟩ := hands.inPieces
    refine ⟨_, _, _, length ▸ Stands.finish inPieces, ?_⟩
    rw [all, List.take_left]
    exact hands

namespace Stands

variable {source : String} {index : Nat} {before lexeme behind : List Char}

theorem text (stands : Stands source index before lexeme behind) :
    source.toList = before ++ (lexeme ++ behind) := by
  cases stands with
  | lexeme inPieces =>
    rw [inPieces.text, Piece.join_append, Piece.join, Piece.join_behind]
  | finish => rw [List.append_nil, List.append_nil]

/-- Only the closing token has no lexeme, and there is no text behind it. -/
theorem lexeme_of_token (stands : Stands source index before lexeme behind)
    (present : (tokenize source)[index]? = some token) :
    (token.kind = .eof ∧ lexeme = [] ∧ behind = []) ∨
      (token.kind ≠ .eof ∧ ∃ first more, lexeme = first :: more ∧ isBlank first = false) := by
  have content : ((tokenize source).map Token.content)[index]? = some token.content := by
    rw [List.getElem?_map, present]
    rfl
  cases stands with
  | @lexeme front piece others last inPieces =>
    have fits := inPieces.fit.fits
    have same : piece.content = token.content := by
      simpa [inPieces.tokens] using content
    obtain ⟨first, more, spelled⟩ := List.exists_cons_of_ne_nil fits.some
    refine .inr ⟨fun eof => fits.present (same ▸ eof), first, more, spelled, ?_⟩
    exact fits.solid first (spelled ▸ List.mem_cons_self)
  | @finish pieces last inPieces =>
    have same : ⟨.eof, none⟩ = token.content := by
      simpa [inPieces.tokens] using content
    exact .inl ⟨(congrArg Content.kind same).symm, rfl, rfl⟩

/-- No blank is where a token is. -/
theorem solid (stands : Stands source index before lexeme behind)
    (present : (tokenize source)[index]? = some token) :
    ∀ c ∈ (lexeme ++ behind).head?, isBlank c = false := by
  rcases stands.lexeme_of_token present with ⟨-, rfl, rfl⟩ | ⟨-, first, more, rfl, solid⟩
  · exact nofun
  · intro c head
    obtain rfl : first = c := Option.some.inj head
    exact solid

end Stands

end ToyC
