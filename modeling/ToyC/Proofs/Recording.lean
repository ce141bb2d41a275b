import ToyC.ProgramReader
import ToyC.Proofs.Traversal

/-! What a parser records is what stands in the tree it returns, whatever the
tokens and the table are: reports, skipped tokens and refused levels change
neither without the other. The one exception is a name that turns out to start
no statement: it is recorded, and a placeholder stands in its place. -/
namespace ToyC

/-! ### Steps that record nothing -/

namespace Parser

variable (parser : Parser)

@[simp] theorem pass_inventory (count : Nat) : (parser.pass count).inventory = parser.inventory := rfl

@[simp] theorem advance_inventory : parser.advance.inventory = parser.inventory := rfl

@[simp] theorem enter_inventory : parser.enter.inventory = parser.inventory := rfl

@[simp] theorem leave_inventory (levels : Nat) :
    (parser.leave levels).inventory = parser.inventory := rfl

@[simp] theorem reportAs_inventory (cause : SyntaxCause) (expected : TokenKind) :
    (parser.reportAs cause expected).inventory = parser.inventory := by
  rw [reportAs]
  split <;> rfl

@[simp] theorem report_inventory (expected : TokenKind) :
    (parser.report expected).inventory = parser.inventory := reportAs_inventory ..

@[simp] theorem skipTo_inventory (follow : List TokenKind) :
    (parser.skipTo follow).inventory = parser.inventory := rfl

@[simp] theorem expect_inventory (expected : TokenKind) :
    (parser.expect expected).inventory = parser.inventory := by
  rw [expect]
  split <;> simp

@[simp] theorem expectOr_inventory (expected : TokenKind) (follow : List TokenKind) :
    (parser.expectOr expected follow).inventory = parser.inventory := by
  rw [expectOr]
  split <;> simp

@[simp] theorem refuse_inventory (expected : TokenKind) :
    (parser.refuse expected).inventory = parser.inventory := by
  simp [refuse]

@[simp] theorem type_inventory : parser.type.2.inventory = parser.inventory := by
  rw [type]
  split
  · simp
  · dsimp only
    split
    · split <;> simp
    · simp

@[simp] theorem identifier_inventory : parser.identifier.2.inventory = parser.inventory := by
  rw [identifier]
  split <;> simp

end Parser

/-- What holds of nothing that was read, and of one step before what holds of
the others, holds of a whole repetition. -/
theorem repeatWhile_inventory {step : Parser → α × Parser} {goesOn : TokenKind → Bool}
    (relates : Inventory → Inventory → List α → Prop)
    (nothing : ∀ inventory, relates inventory inventory [])
    (more : ∀ parser after others, relates (step parser).2.inventory after others →
      relates parser.inventory after ((step parser).1 :: others)) (parser : Parser) :
    relates parser.inventory (parser.repeatWhile goesOn step).2.inventory
      (parser.repeatWhile goesOn step).1 := by
  rw [Parser.repeatWhile]
  generalize parser.ahead.length = bound
  induction bound generalizing parser with
  | zero => exact nothing _
  | succ bound ih =>
    rw [Parser.repeatUpTo]
    split
    · exact more _ _ _ (ih _)
    · exact nothing _

/-! ### Expressions -/

/-- More names were referred to, in this order. -/
def Inventory.note (inventory : Inventory) (names : List String) : Inventory :=
  { inventory with identifiers := names.reverse ++ inventory.identifiers }

namespace Inventory

@[simp] theorem note_nil (inventory : Inventory) : inventory.note [] = inventory := rfl

@[simp] theorem note_note (inventory : Inventory) (first second : List String) :
    (inventory.note first).note second = inventory.note (first ++ second) := by
  simp [note]

end Inventory

@[simp] theorem Parser.recordIdentifier_inventory (parser : Parser) (name : String) :
    (parser.recordIdentifier name).inventory = parser.inventory.note [name] := rfl

/-- The names in what was read were recorded, and nothing else was. -/
def NotesNames (read : Parser → Expr × Parser) : Prop :=
  ∀ parser, (read parser).2.inventory = parser.inventory.note (read parser).1.names

/-- The same for what is folded into an expression that stands before it. -/
def NotesFolded (left : Expr) (parser : Parser) (read : Expr × Parser) : Prop :=
  ∃ more, read.1.names = left.names ++ more ∧ read.2.inventory = parser.inventory.note more

section

variable {expr : Parser → Expr × Parser} {operators : Int → Expr → Parser → Expr × Parser}
  {left : Expr} {parser : Parser}

theorem NotesFolded.nothing (same : after.inventory = parser.inventory) :
    NotesFolded left parser (left, after) :=
  ⟨[], (List.append_nil _).symm, same⟩

theorem NotesFolded.trans (first : NotesFolded left parser between)
    (second : NotesFolded between.1 between.2 whole) : NotesFolded left parser whole := by
  obtain ⟨more, names, inventory⟩ := first
  obtain ⟨more', names', inventory'⟩ := second
  refine ⟨more ++ more', ?_, ?_⟩
  · rw [names', names, List.append_assoc]
  · rw [inventory', inventory, Inventory.note_note]

private theorem constant_names (literal : Option Literal) :
    ((literal.bind Expr.ofConstant?).getD .error).names = [] := by
  cases literal with
  | none => rfl
  | some literal => cases literal <;> rfl

theorem OperandRule.read_notesNames (rule : OperandRule) (notes : NotesNames expr) :
    NotesNames (rule.read expr) := by
  intro parser
  cases rule with
  | constant => simp [read, constant_names]
  | name => simp [read, Expr.names]
  | sign =>
    simp only [read, notes parser.advance, Parser.advance_inventory]
    split <;> rfl
  | group => simp [read, notes parser.advance]
  | expression => exact notes parser

theorem Table.readOperand_notesNames (table : Table) (notes : NotesNames expr) :
    NotesNames (table.readOperand expr) := by
  intro parser
  rw [readOperand]
  split
  · exact OperandRule.read_notesNames _ notes parser
  · simp [Expr.names]

theorem OperatorRule.read_notesFolded (table : Table) (rule : OperatorRule)
    (precedence : Precedence) (notes : NotesNames expr)
    (folds : ∀ floor left parser, NotesFolded left parser (operators floor left parser)) :
    NotesFolded left parser (rule.read table expr operators precedence left parser) := by
  cases rule with
  | binary =>
    simp only [read]
    split
    · exact .nothing (by simp)
    · have operand := table.readOperand_notesNames notes parser.advance
      obtain ⟨more, names, inventory⟩ := folds (precedence.level + 1)
        (table.readOperand expr parser.advance).1 (table.readOperand expr parser.advance).2
      refine ⟨(table.readOperand expr parser.advance).1.names ++ more, ?_, ?_⟩
      · simp [Expr.names, names]
      · simp [inventory, operand]
  | index =>
    refine ⟨(expr parser.advance).1.names, rfl, ?_⟩
    simp [read, notes parser.advance]

private theorem notes_within (table : Table) (levels : Nat) :
    NotesNames (table.exprWithin levels) ∧
      ∀ floor left parser, NotesFolded left parser (table.operatorsWithin levels floor left parser) := by
  induction levels with
  | zero =>
    refine ⟨fun parser => by simp [Table.exprWithin, Expr.names], fun floor left parser => ?_⟩
    rw [Table.operatorsWithin]
    split
    · exact .nothing rfl
    · split
      · exact .nothing rfl
      · exact .nothing (by simp)
  | succ levels ih =>
    obtain ⟨notes, folds⟩ := ih
    refine ⟨fun parser => ?_, fun floor left parser => ?_⟩
    · have operand := table.readOperand_notesNames notes parser.enter
      obtain ⟨more, names, inventory⟩ := folds 0
        (table.readOperand (table.exprWithin levels) parser.enter).1
        (table.readOperand (table.exprWithin levels) parser.enter).2
      simp [Table.exprWithin, names, inventory, operand]
    · rw [Table.operatorsWithin]
      split
      · exact .nothing rfl
      · split
        · exact .nothing rfl
        · rename_i precedence rule _ _
          have folded : NotesFolded left parser.enter _ :=
            rule.read_notesFolded table precedence notes folds
          exact folded.trans (folds floor _ _)

/-- An expression is read with exactly its names recorded, in their order. -/
theorem exprWithin_notesNames (table : Table) (levels : Nat) :
    NotesNames (table.exprWithin levels) :=
  (notes_within table levels).1

end

/-! ### Statements -/

/-- More was found: what a statement itself holds, apart from those inside it. -/
def Inventory.add (inventory : Inventory) (stmt : Stmt) : Inventory where
  declarations := inventory.declarations
  identifiers := stmt.ownNames.reverse ++ inventory.identifiers
  assignments := stmt.assignment?.toList ++ inventory.assignments
  conditions := stmt.condition?.toList ++ inventory.conditions

/-- Between two inventories, what these statements hold was recorded. Of the
references that were recorded, no more are missing in the statements than there
are placeholders. -/
structure Collects (before after : Inventory) (nodes : List Stmt) : Prop where
  declarations : after.declarations = before.declarations
  conditions : after.conditions = (nodes.filterMap Stmt.condition?).reverse ++ before.conditions
  assignments :
    after.assignments = (nodes.filterMap Stmt.assignment?).reverse ++ before.assignments
  identifiers : ∃ noted, after.identifiers = noted.reverse ++ before.identifiers ∧
    (nodes.flatMap Stmt.ownNames).Sublist noted ∧
    noted.length ≤ (nodes.flatMap Stmt.ownNames).length + nodes.count .error

namespace Collects

theorem refl (inventory : Inventory) : Collects inventory inventory [] where
  declarations := rfl
  conditions := rfl
  assignments := rfl
  identifiers := ⟨[], rfl, .slnil, Nat.le_refl _⟩

theorem trans (first : Collects before between nodes) (second : Collects between after nodes') :
    Collects before after (nodes ++ nodes') where
  declarations := second.declarations.trans first.declarations
  conditions := by simp [second.conditions, first.conditions]
  assignments := by simp [second.assignments, first.assignments]
  identifiers := by
    obtain ⟨noted, recorded, present, missing⟩ := first.identifiers
    obtain ⟨noted', recorded', present', missing'⟩ := second.identifiers
    refine ⟨noted ++ noted', ?_, ?_, ?_⟩
    · simp [recorded', recorded]
    · rw [List.flatMap_append]
      exact present.append present'
    · simp only [List.flatMap_append, List.length_append, List.count_append]
      omega

theorem cons (first : Collects before between [stmt]) (others : Collects between after nodes) :
    Collects before after (stmt :: nodes) :=
  first.trans others

/-- A statement that was read is added with all it holds itself. -/
theorem own (inventory : Inventory) (stmt : Stmt) (read : stmt ≠ .error) :
    Collects inventory (inventory.add stmt) [stmt] where
  declarations := rfl
  conditions := by cases stmt <;> rfl
  assignments := by cases stmt <;> rfl
  identifiers := ⟨stmt.ownNames, rfl, by simp, by simp⟩

/-- A placeholder may stand for a name. -/
theorem placeholder (inventory : Inventory) (names : List String) (few : names.length ≤ 1) :
    Collects inventory (inventory.note names) [.error] where
  declarations := rfl
  conditions := rfl
  assignments := rfl
  identifiers := ⟨names, rfl, List.nil_sublist _, few⟩

end Collects

/-- The reader records what stands in the statements it returns. -/
def CollectsStatements (stmt : Parser → Stmt × Parser) : Prop :=
  ∀ parser, Collects parser.inventory (stmt parser).2.inventory (stmt parser).1.nodes

section

variable {expr : Parser → Expr × Parser} {stmt : Parser → Stmt × Parser}

/-- The statement that a condition belongs to is not known before its bodies. -/
private theorem condition_collects (notes : NotesNames expr) (parser : Parser) {whole : Stmt}
    (names : whole.ownNames = (parser.condition expr).1.names)
    (condition : whole.condition? = some (parser.condition expr).1)
    (noAssignment : whole.assignment? = none) :
    Collects parser.inventory (parser.condition expr).2.inventory [whole] := by
  have inner := notes (parser.expectOr .openParen [.closeParen, .openBrace, .closeBrace])
  have inventory : (parser.condition expr).2.inventory = parser.inventory.add whole := by
    rw [Inventory.add, names, condition, noAssignment]
    simp [Parser.condition, Parser.recordCondition, inner, Inventory.note]
  rw [inventory]
  exact .own _ _ (by rintro rfl; cases condition)

private theorem conditional_collects (notes : NotesNames expr) (collects : CollectsStatements stmt) :
    CollectsStatements (StatementRule.conditional.read expr stmt) := by
  intro parser
  have thenBody := collects (parser.advance.condition expr).2
  simp only [StatementRule.read]
  split
  · have elseBody := collects (stmt (parser.advance.condition expr).2).2.advance
    rw [Stmt.nodes]
    exact (condition_collects notes parser.advance rfl rfl rfl).cons (thenBody.trans elseBody)
  · rw [Stmt.nodes]
    exact (condition_collects notes parser.advance rfl rfl rfl).cons thenBody

private theorem loop_collects (notes : NotesNames expr) (collects : CollectsStatements stmt) :
    CollectsStatements (StatementRule.loop.read expr stmt) := by
  intro parser
  simp only [StatementRule.read, Stmt.nodes]
  exact (condition_collects notes parser.advance rfl rfl rfl).cons (collects _)

/-- A name was read; what follows it decides whether it starts a statement. -/
private theorem assignmentTo_collects (notes : NotesNames expr) (target : String) (parser : Parser)
    (noted : parser.inventory = inventory.note [target]) :
    Collects inventory (parser.assignmentTo expr target).2.inventory
      (parser.assignmentTo expr target).1.nodes := by
  rw [Parser.assignmentTo]
  split
  · have value := notes parser.advance
    have recorded : (((expr parser.advance).2.expect .semicolon).recordAssignment
        ⟨target, (expr parser.advance).1⟩).inventory =
          inventory.add (.assign target (expr parser.advance).1) := by
      simp [Parser.recordAssignment, value, noted, Inventory.note, Inventory.add, Stmt.ownNames,
        Stmt.assignment?, Stmt.condition?]
    dsimp only
    rw [recorded, Stmt.nodes]
    exact .own inventory _ nofun
  · have index := notes parser.advance
    generalize between : ((expr parser.advance).2.expectOr .closeBracket
      [.assign, .semicolon]).expectOr .assign [.semicolon] = equals
    have same : equals.inventory = (expr parser.advance).2.inventory := by simp [← between]
    have value := notes equals
    have recorded : (((expr equals).2.expect .semicolon).recordAssignment
        ⟨target, (expr equals).1⟩).inventory =
          inventory.add (.arrayAssign target (expr parser.advance).1 (expr equals).1) := by
      simp [Parser.recordAssignment, value, same, index, noted, Inventory.note, Inventory.add,
        Stmt.ownNames, Stmt.assignment?, Stmt.condition?]
    dsimp only
    rw [between, recorded, Stmt.nodes]
    exact .own inventory _ nofun
  · rw [Parser.unknownStatement, Parser.advance_inventory, Parser.report_inventory, noted]
    exact .placeholder inventory [target] (Nat.le_refl 1)

private theorem assignment_collects (notes : NotesNames expr) :
    CollectsStatements (StatementRule.assignment.read expr stmt) := fun _ =>
  assignmentTo_collects notes _ _ rfl

theorem repeatWhile_collects (collects : CollectsStatements stmt) (goesOn : TokenKind → Bool)
    (parser : Parser) :
    Collects parser.inventory (parser.repeatWhile goesOn stmt).2.inventory
      (Stmt.allNodes (parser.repeatWhile goesOn stmt).1) := by
  refine repeatWhile_inventory (fun before after stmts =>
    Collects before after (Stmt.allNodes stmts)) Collects.refl ?_ parser
  intro parser after others rest
  exact (collects parser).trans rest

private theorem block_collects (collects : CollectsStatements stmt) :
    CollectsStatements (StatementRule.block.read expr stmt) := by
  intro parser
  have body := repeatWhile_collects collects continuesBlock parser.advance
  have head : Collects parser.inventory parser.inventory
      [.block (parser.advance.repeatWhile continuesBlock stmt).1] := .own _ (.block _) nofun
  simpa [StatementRule.read, Stmt.nodes] using head.cons body

theorem StatementRule.read_collects (rule : StatementRule) (notes : NotesNames expr)
    (collects : CollectsStatements stmt) : CollectsStatements (rule.read expr stmt) := by
  cases rule with
  | conditional => exact conditional_collects notes collects
  | loop => exact loop_collects notes collects
  | block => exact block_collects collects
  | assignment => exact assignment_collects notes
  | statement => exact collects

end

private theorem unknownStatement_collects : CollectsStatements Parser.unknownStatement := by
  intro parser
  rw [Parser.unknownStatement, Parser.advance_inventory, Parser.report_inventory]
  exact .placeholder parser.inventory [] (Nat.zero_le 1)

/-- A statement is read with all it holds recorded. -/
theorem stmtWithin_collects (table : Table) (levels : Nat) :
    CollectsStatements (table.stmtWithin levels) := by
  induction levels with
  | zero =>
    intro parser
    have skipped : (table.stmtWithin 0 parser).2.inventory = parser.inventory := by
      rw [Table.stmtWithin]
      dsimp only
      split <;> simp
    rw [skipped]
    exact .placeholder parser.inventory [] (Nat.zero_le 1)
  | succ levels ih =>
    intro parser
    rw [Table.stmtWithin]
    dsimp only
    split
    · rename_i rule _
      exact rule.read_collects (exprWithin_notesNames table levels) ih parser.enter
    · exact unknownStatement_collects parser.enter

/-! ### Declarations -/

private theorem furtherNames_inventory (parser : Parser) :
    (parser.repeatWhile (· = .comma) fun comma => comma.advance.identifier).2.inventory =
      parser.inventory := by
  refine repeatWhile_inventory (fun before after _ => after = before) (fun _ => rfl) ?_ parser
  intro parser after others rest
  rw [rest, Parser.identifier_inventory, Parser.advance_inventory]

/-- Between two inventories, these declaration statements were recorded, each
with one type for all its names. -/
structure Declares (before after : Inventory) (groups : List (List VarDecl)) : Prop where
  recorded : after =
    { before with declarations := groups.flatten.reverse ++ before.declarations }
  oneType : ∀ group ∈ groups, ∃ type, ∀ declaration ∈ group, declaration.type = type

private theorem declaration_declares (parser : Parser) :
    Declares parser.inventory parser.declaration.2.inventory [parser.declaration.1] where
  recorded := by
    simp [Parser.declaration, Parser.recordDeclarations, furtherNames_inventory]
  oneType := by
    refine List.forall_mem_singleton.mpr ⟨parser.type.1, fun declaration member => ?_⟩
    obtain ⟨name, _, rfl⟩ := List.mem_map.mp member
    rfl

/-- Declaration statements are read with all they declare recorded. -/
theorem declarations_declares (parser : Parser) :
    Declares parser.inventory parser.declarations.2.inventory parser.declarations.1 := by
  rw [Parser.declarations]
  refine repeatWhile_inventory Declares (fun _ => ⟨rfl, List.forall_mem_nil _⟩) ?_ parser
  intro parser after others rest
  have first := declaration_declares parser
  refine ⟨?_, List.forall_mem_cons.mpr ⟨first.oneType _ List.mem_cons_self, rest.oneType⟩⟩
  simp [rest.recorded, first.recorded]

/-! ### Programs -/

/-- A program is read with its declarations recorded, then its statements. -/
theorem program_collects (table : Table) (parser : Parser) :
    ∃ declared, Declares parser.inventory declared (parser.program table).1.declarations ∧
      Collects declared (parser.program table).2.inventory (parser.program table).1.nodes := by
  generalize header : ((((parser.expect .intWord).expect .mainWord).expect .openParen).expect
    .closeParen).expect .openBrace = opened
  have same : opened.inventory = parser.inventory := by simp [← header]
  have declares := declarations_declares opened
  have statements := repeatWhile_collects
    (stmtWithin_collects table opened.declarations.2.nesting.levelsLeft) startsStatement
    opened.declarations.2
  refine ⟨opened.declarations.2.inventory, ?_, ?_⟩
  · rw [← same, Parser.program, header]
    exact declares
  · rw [Parser.program, header]
    simpa [Program.nodes, Parser.statements] using statements

end ToyC
