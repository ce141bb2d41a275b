/-! Levels of nesting: one for each expression and statement that is being
read, and one for each operator that was folded into the expression being read.
Only a bounded number may be open at once. Beside the depth it is kept how deep
it ever was, how often a level was refused, and how many levels were closed
that were not open. -/
namespace ToyC

/-- The most levels that may be open at once. -/
def maxNesting : Nat := 256

structure Nesting where
  depth : Nat
  deepest : Nat
  refused : Nat
  unmatched : Nat
deriving DecidableEq, Repr

namespace Nesting

def none : Nesting := ⟨0, 0, 0, 0⟩

def enter (nesting : Nesting) : Nesting :=
  { nesting with depth := nesting.depth + 1, deepest := max nesting.deepest (nesting.depth + 1) }

def leave (nesting : Nesting) (levels : Nat) : Nesting :=
  { nesting with
    depth := nesting.depth - levels
    unmatched := nesting.unmatched + (levels - nesting.depth) }

def refuse (nesting : Nesting) : Nesting := { nesting with refused := nesting.refused + 1 }

/-- How many more levels may be opened. -/
def levelsLeft (nesting : Nesting) : Nat := maxNesting - nesting.depth

end Nesting

end ToyC
