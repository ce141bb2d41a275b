import ToyC.Proofs.PrintedExpr

/-! The tokens of a printed program. Statements are printed up to the end of a
line each, so what stands behind a statement does not matter, and blanks and
line ends leave no token. -/
namespace ToyC

/-! ### Blanks -/

private theorem blank_indentation (depth : Nat) :
    ∀ c ∈ (indentation depth).toList, isBlank c := by
  intro c member
  rw [indentation, String.toList_ofList] at member
  rw [(List.mem_replicate.mp member).2]
  rfl

/-- What stands between a statement's head and its body. -/
private theorem blank_lead (depth : Nat) (body : Stmt) :
    ∃ first more, (body.bodyLead depth).toList = first :: more ∧ isBlank first ∧
      ∀ c ∈ more, isBlank c := by
  rw [Stmt.bodyLead]
  split
  · exact ⟨' ', [], rfl, rfl, List.forall_mem_nil _⟩
  · refine ⟨'\n', (indentation (depth + 1)).toList, ?_, rfl, blank_indentation _⟩
    rw [String.toList_append]
    rfl

private theorem Breaks.of_blank (blank : isBlank c) : Breaks (c :: rest) := by
  refine .cons ?_ ?_
  · by_contra accepted
    rw [isBlank_eq_false_of_isAlphanum (by simpa using accepted)] at blank
    cases blank
  · rintro rfl
    cases blank

/-! ### Statements -/

/-- A keyword with a condition in parentheses. -/
private def headText (word : List Char) (condition : Expr) : List Char :=
  word ++ ([' '] ++ (['('] ++ (condition.conditionText.toList ++ [')'])))

private theorem lexes_head {condition : Expr} (legible : condition.isLegible)
    (keyword : ∀ behind, Lexes word (' ' :: behind) [⟨kind, none⟩]) :
    Lexes (headText word condition) behind (Stmt.headSpelling kind condition) :=
  (keyword _).append (lexes_condition legible (.cons rfl (by decide))).parens.after_space

private theorem lexes_if {condition : Expr} (legible : condition.isLegible) :
    Lexes (headText ['i', 'f'] condition) behind (Stmt.headSpelling .ifWord condition) :=
  lexes_head legible fun _ => .lexeme rfl rfl

/-- The right side of an assignment, to the end of its line. -/
private def valueText (value : Expr) : List Char :=
  ['='] ++ ([' '] ++ (value.text.toList ++ ([';'] ++ ['\n'])))

private theorem lexes_value {value : Expr} (legible : value.isLegible) :
    Lexes (valueText value) behind (Stmt.valueSpelling value) := by
  have assign : ∀ rest, Lexes ['='] (' ' :: rest) [⟨.assign, none⟩] := fun _ => .lexeme rfl rfl
  have stop : Lexes [';'] ('\n' :: behind) [⟨.semicolon, none⟩] := .lexeme rfl rfl
  exact (assign _).append (.after_space
    ((lexes_expr legible (.cons rfl (by decide))).append stop.before_newline))

/-- A body, with what stands between the head and it. -/
private def bodyText (depth : Nat) (body : Stmt) : List Char :=
  (body.bodyLead depth).toList ++ (body.text (body.bodyDepth depth)).toList

private theorem breaks_body (depth : Nat) (body : Stmt) :
    Breaks (bodyText depth body ++ behind) := by
  obtain ⟨first, more, spelled, blank, _⟩ := blank_lead depth body
  rw [bodyText, spelled]
  exact .of_blank blank

private theorem lexes_body
    (lexes : Lexes (body.text (body.bodyDepth depth)).toList behind body.spelling) :
    Lexes (bodyText depth body) behind body.spelling := by
  obtain ⟨first, more, spelled, blank, blanks⟩ := blank_lead depth body
  refine .after_blanks ?_ lexes
  rw [spelled]
  exact List.forall_mem_cons.mpr ⟨blank, blanks⟩

mutual
/-- A printed statement is cut into the tokens that spell it. -/
theorem lexes_stmt {behind : List Char} (stmt : Stmt) (depth : Nat) (legible : stmt.isLegible) :
    Lexes (stmt.text depth).toList behind stmt.spelling :=
  match stmt with
  | .block body => by
    have text : ((Stmt.block body).text depth).toList = (['\x7b'] ++ ['\n']) ++
        ((Stmt.linesText (depth + 1) body).toList ++
          ((indentation depth).toList ++ (['\x7d'] ++ ['\n']))) := by
      simp [Stmt.text]
    have opening : ∀ rest, Lexes ['\x7b'] rest [⟨.openBrace, none⟩] := fun _ => .lexeme rfl rfl
    have closing : Lexes ['\x7d'] ('\n' :: behind) [⟨.closeBrace, none⟩] := .lexeme rfl rfl
    rw [text]
    exact (opening _).before_newline.append ((lexes_lines body (depth + 1) legible).append
      (closing.before_newline.after_blanks (blank_indentation depth)))
  | .ifThen condition thenBody => by
    have text : ((Stmt.ifThen condition thenBody).text depth).toList =
        headText ['i', 'f'] condition ++ bodyText depth thenBody := by
      simp [Stmt.text, headText, bodyText]
    simp only [Stmt.isLegible, Bool.and_eq_true] at legible
    rw [text]
    exact (lexes_if legible.1).append (lexes_body (lexes_stmt thenBody _ legible.2))
  | .ifThenElse condition thenBody elseBody => by
    have text : ((Stmt.ifThenElse condition thenBody elseBody).text depth).toList =
        headText ['i', 'f'] condition ++ (bodyText depth thenBody ++ ((indentation depth).toList ++
          (['e', 'l', 's', 'e'] ++ bodyText depth elseBody))) := by
      simp [Stmt.text, headText, bodyText]
    simp only [Stmt.isLegible, Bool.and_eq_true] at legible
    obtain ⟨⟨⟨conditionLegible, thenLegible⟩, _⟩, elseLegible⟩ := legible
    have otherwise : Lexes ['e', 'l', 's', 'e'] (bodyText depth elseBody ++ behind)
        [⟨.elseWord, none⟩] := .word rfl rfl (breaks_body depth elseBody)
    rw [text]
    exact (lexes_if conditionLegible).append
      ((lexes_body (lexes_stmt thenBody _ thenLegible)).append
        (.after_blanks (blank_indentation depth)
          (otherwise.append (lexes_body (lexes_stmt elseBody _ elseLegible)))))
  | .whileDo condition body => by
    have text : ((Stmt.whileDo condition body).text depth).toList =
        headText ['w', 'h', 'i', 'l', 'e'] condition ++ bodyText depth body := by
      simp [Stmt.text, headText, bodyText]
    simp only [Stmt.isLegible, Bool.and_eq_true] at legible
    have keyword : ∀ behind, Lexes ['w', 'h', 'i', 'l', 'e'] (' ' :: behind)
        [⟨.whileWord, none⟩] := fun _ => .lexeme rfl rfl
    rw [text]
    exact (lexes_head legible.1 keyword).append (lexes_body (lexes_stmt body _ legible.2))
  | .assign target value => by
    have text : ((Stmt.assign target value).text depth).toList =
        target.toList ++ ([' '] ++ valueText value) := by
      simp [Stmt.text, valueText]
    simp only [Stmt.isLegible, Bool.and_eq_true] at legible
    rw [text]
    exact (lexes_name legible.1 (.cons rfl (by decide))).append
      (lexes_value legible.2).after_space
  | .arrayAssign target index value => by
    have text : ((Stmt.arrayAssign target index value).text depth).toList =
        target.toList ++
          ((['['] ++ (index.text.toList ++ [']'])) ++ ([' '] ++ valueText value)) := by
      simp [Stmt.text, valueText]
    simp only [Stmt.isLegible, Bool.and_eq_true] at legible
    obtain ⟨⟨named, indexLegible⟩, valueLegible⟩ := legible
    rw [text]
    exact (lexes_name named (.cons rfl (by decide))).append
      ((lexes_expr indexLegible (.cons rfl (by decide))).brackets.append
        (lexes_value valueLegible).after_space)
  | .error => by simp [Stmt.isLegible] at legible
theorem lexes_lines {behind : List Char} (stmts : List Stmt) (depth : Nat)
    (legible : Stmt.allLegible stmts) :
    Lexes (Stmt.linesText depth stmts).toList behind (Stmt.allSpelling stmts) :=
  match stmts with
  | [] => Lexes.nil
  | stmt :: rest => by
    have text : (Stmt.linesText depth (stmt :: rest)).toList =
        (indentation depth).toList ++
          ((stmt.text depth).toList ++ (Stmt.linesText depth rest).toList) := by
      simp [Stmt.linesText]
    simp only [Stmt.allLegible, Bool.and_eq_true] at legible
    rw [text]
    exact .after_blanks (blank_indentation depth)
      ((lexes_stmt stmt depth legible.1).append (lexes_lines rest depth legible.2))
end

/-! ### Declarations and programs -/

private theorem lexes_type {type : Ty} (known : type.base?.isSome) :
    Lexes type.text.toList (' ' :: behind) type.spelling := by
  cases type with
  | scalar base => cases base <;> exact .lexeme rfl rfl
  | array base =>
    have word : ∀ rest, Lexes base.text.toList ('[' :: rest) [⟨base.kind, none⟩] := fun _ => by
      cases base <;> exact .lexeme rfl rfl
    have text : (Ty.array base).text.toList = base.text.toList ++ (['['] ++ ([] ++ [']'])) := by
      simp [Ty.text]
    rw [text]
    exact (word _).append Lexes.nil.brackets
  | _ => cases known

private theorem lexes_names {names : List String} (some : names ≠ [])
    (named : ∀ name ∈ names, isName name) :
    Lexes (String.intercalate ", " names).toList (';' :: behind) (namesSpelling names) := by
  induction names with
  | nil => exact absurd rfl some
  | cons name names ih =>
    obtain ⟨first, others⟩ := List.forall_mem_cons.mp named
    cases names with
    | nil =>
      rw [String.intercalate_singleton]
      exact lexes_name first (.cons rfl (by decide))
    | cons next names =>
      have text : (String.intercalate ", " (name :: next :: names)).toList = name.toList ++
          ([','] ++ ([' '] ++ (String.intercalate ", " (next :: names)).toList)) := by
        simp [String.intercalate_cons_cons]
      have comma : ∀ rest, Lexes [','] rest [⟨.comma, none⟩] := fun _ => .lexeme rfl rfl
      rw [text]
      exact (lexes_name first (.cons rfl (by decide))).append
        ((comma _).append (ih (List.cons_ne_nil _ _) others).after_space)

private theorem lexes_group (legible : isLegibleGroup group) :
    Lexes (declarationText group).toList behind (groupSpelling group) := by
  cases group with
  | nil => cases legible
  | cons first others =>
    have text : (declarationText (first :: others)).toList = (indentation 1).toList ++
        (first.type.text.toList ++ ([' '] ++
          ((String.intercalate ", " ((first :: others).map VarDecl.name)).toList ++
            ([';'] ++ ['\n'])))) := by
      simp [declarationText]
    simp only [isLegibleGroup, Bool.and_eq_true, List.all_eq_true] at legible
    obtain ⟨known, each⟩ := legible
    have named : ∀ name ∈ (first :: others).map VarDecl.name, isName name := by
      intro name member
      obtain ⟨declaration, within, rfl⟩ := List.mem_map.mp member
      exact (each declaration within).2
    have stop : Lexes [';'] ('\n' :: behind) [⟨.semicolon, none⟩] := .lexeme rfl rfl
    rw [text]
    exact .after_blanks (blank_indentation 1) ((lexes_type known).append
      ((lexes_names (List.cons_ne_nil _ _) named).append stop.before_newline).after_space)

private theorem lexes_groups {groups : List (List VarDecl)}
    (legible : groups.all isLegibleGroup) :
    Lexes (String.join (groups.map declarationText)).toList behind
      (groups.flatMap groupSpelling) := by
  induction groups with
  | nil => exact Lexes.nil
  | cons group groups ih =>
    have text : (String.join ((group :: groups).map declarationText)).toList =
        (declarationText group).toList ++ (String.join (groups.map declarationText)).toList := by
      simp
    rw [List.all_cons, Bool.and_eq_true] at legible
    rw [text, List.flatMap_cons]
    exact (lexes_group legible.1).append (ih legible.2)

/-- `int main() \x7b` on a line of its own. -/
private def openingText : List Char :=
  ['i', 'n', 't'] ++ ([' '] ++ (['m', 'a', 'i', 'n'] ++ ((['('] ++ ([] ++ [')'])) ++
    ([' '] ++ (['\x7b'] ++ ['\n'])))))

private theorem lexes_opening : Lexes openingText behind
    ([.intWord, .mainWord, .openParen, .closeParen, .openBrace].map fun kind => ⟨kind, none⟩) := by
  have int : ∀ rest, Lexes ['i', 'n', 't'] (' ' :: rest) [⟨.intWord, none⟩] :=
    fun _ => .lexeme rfl rfl
  have main : ∀ rest, Lexes ['m', 'a', 'i', 'n'] ('(' :: rest) [⟨.mainWord, none⟩] :=
    fun _ => .lexeme rfl rfl
  have brace : Lexes ['\x7b'] ('\n' :: behind) [⟨.openBrace, none⟩] := .lexeme rfl rfl
  exact (int _).append (Lexes.after_space ((main _).append (Lexes.nil.parens.append
    brace.before_newline.after_space)))

/-- A printed program is cut into the tokens that spell it. -/
theorem tokenize_text_content {program : Program} (legible : program.isLegible) :
    (tokenize program.text).map Token.content = program.spelling := by
  have text : program.text.toList = openingText ++
      ((String.join (program.declarations.map declarationText)).toList ++
        ((Stmt.linesText 1 program.statements).toList ++ (['\x7d'] ++ ['\n']))) := by
    simp [Program.text, openingText]
  rw [Program.isLegible, Bool.and_eq_true] at legible
  have closing : Lexes ['\x7d'] ['\n'] [⟨.closeBrace, none⟩] := .lexeme rfl rfl
  have lexes := lexes_opening.append ((lexes_groups legible.1).append
    ((lexes_lines program.statements 1 legible.2).append closing.before_newline))
  rw [← text] at lexes
  rw [lexes.tokenize, Program.spelling]
  simp

end ToyC
