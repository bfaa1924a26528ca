/-!
# Dataflow.Container

The four shapes of a bracketed group. Which characters open and close each of them is up to the
dialect (`Dataflow.Lexer.Dialect`); everything behind the lexer knows only the shapes.
-/

namespace Dataflow

/-- The shape of a bracketed group. -/
inductive Container where
  | list
  | vector
  | set
  | scalar
deriving DecidableEq

namespace Container

/-- Every shape, in the order in which a dialect is asked for the brackets of each. -/
def all : List Container := [.list, .vector, .set, .scalar]

theorem mem_all (c : Container) : c ∈ all := by cases c <;> simp [all]

/-- The name of the shape in running text. -/
def name : Container → String
  | .list => "list"
  | .vector => "vector"
  | .set => "set"
  | .scalar => "scalar"

/-- The name of the shape inside the name of a token kind. -/
def title : Container → String
  | .list => "List"
  | .vector => "Vector"
  | .set => "Set"
  | .scalar => "Scalar"

end Container

end Dataflow
