import Dataflow.Operator.Basic
import Dataflow.Circuit.Expr

/-!
# Dataflow.Circuit.Entity

What a definition declares about an entity, and how an instantiation refers to its pins.

* `Entity` — label, symbol, notation, precedence and the names of the pins;
* `Entity.operator` — the registration that lets expressions use the entity's symbol;
* `Binding` — a node bound to a pin, by the pin's name or by its place;
* `Side` — the inputs or the outputs of an entity.
-/

namespace Dataflow.Circuit

/-- Everything that a definition declares about an entity. -/
structure Entity where
  label : String
  symbol : String
  form : Notation
  precedence : Nat
  inputs : List String := []
  outputs : List String := []
  buses : List String := []
deriving DecidableEq

/-- The registration under which expressions use the entity. The number of its inputs fixes the
number of operands in function form; an entity that declares none takes any number. -/
def Entity.operator (e : Entity) : Operator where
  symbol := e.symbol
  entity := e.label
  form := e.form
  precedence := e.precedence
  arity := if e.form = .function ∧ e.inputs ≠ [] then some e.inputs.length else none

/-- A node bound to a pin: to the one that `label` names, or else to the next one in order. -/
structure Binding where
  label : Option String
  value : Expr
deriving DecidableEq

/-- The two sides on which an entity has pins. -/
inductive Side where
  | input
  | output
deriving DecidableEq

/-- The word for the side in a message. -/
def Side.name : Side → String
  | .input => "input"
  | .output => "output"

end Dataflow.Circuit
