import ToyC.Proofs.Acceptance
import ToyC.Proofs.SpelledTree

/-! Reading a printed program gives the program back. The text is cut into the
tokens of the tree it was printed from, tokens have one tree at most, and a text
whose tokens have a tree is read in silence as far as levels of nesting are
left. -/
namespace ToyC

/-- Parsing undoes printing. -/
theorem parse_text {program : Program} (printable : program.isPrintable)
    (shallow : refusals program.text = 0) :
    (parse program.text).errors = [] ∧ (parse program.text).lexicalErrors = 0 ∧
      (parse program.text).program = program := by
  have tree := tokenize_text printable
  obtain ⟨read, silent, unknowns⟩ := parse_accepts tree.derives shallow
  have known : (tokenize program.text).countP Token.isUnknown = 0 := by
    rw [List.countP_eq_zero]
    intro token member unknown
    have kind : token.kind = .unknown := by simpa [Token.isUnknown] using unknown
    exact tree.derives.known (kind ▸ List.mem_map_of_mem member)
  exact ⟨silent, unknowns.trans known, read.unique tree⟩

/-- A loop around a conditional, with a sign in front of a sum. -/
theorem parse_text_loop :
    let program : Program := ⟨[[⟨.scalar .int, "a"⟩, ⟨.scalar .int, "b"⟩]],
      [.whileDo (.binary .less (.identifier "a") (.int 3)) (.block
        [.ifThenElse (.identifier "b")
          (.assign "a" (.negate (.binary .plus (.identifier "a") (.int 1))))
          (.arrayAssign "c" (.int 0) (.char 'x'))])]⟩
    program.isPrintable ∧ refusals program.text = 0 ∧ (parse program.text).program = program := by
  intro program
  have printable : program.isPrintable := by decide +kernel
  have shallow : refusals program.text = 0 := by decide +kernel
  exact ⟨printable, shallow, (parse_text printable shallow).2.2⟩

end ToyC
