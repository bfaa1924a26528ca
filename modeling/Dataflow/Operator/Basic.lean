import Dataflow.Operator.Notation
import Dataflow.Text.Quoted

/-!
# Dataflow.Operator.Basic

One registration of an operator: the symbol it is written with, the entity it applies, how it is
written and how tightly it binds.

A *smaller* precedence binds tighter. `Operator.accepts` says to how many operands a registration
can be applied: the place of the symbol decides, and only where it leaves the number open, the
registered arity.
-/

namespace Dataflow

open Text

/-- One registration of an operator. -/
structure Operator where
  /-- How the operator is spelled, such as `+` or `max`. -/
  symbol : String
  /-- The label of the entity that is applied. -/
  entity : String
  form : Notation
  /-- Precedence group; the smaller one binds tighter. -/
  precedence : Nat
  /-- The number of operands in function form, where it is fixed. -/
  arity : Option Nat := none
deriving DecidableEq

namespace Operator

/-- A registration in function form that takes exactly `arity` operands. -/
def function (entity symbol : String) (arity : Nat) : Operator :=
  { symbol, entity, form := .function, precedence := 0, arity := some arity }

/-- What a name stands for that is called without any registration: an entity of that name. -/
def adHoc (name : String) (arity : Nat) : Operator :=
  function name name arity

def fixity (op : Operator) : Fixity := op.form.fixity

/-- Whether a row of this operator groups to the right. -/
def isRightAssociative (op : Operator) : Bool := op.form = .infixRight

/-- Whether the operator can be applied to `n` operands. The registered arity counts only where
the place of the symbol does not settle the number, and without one any number will do. -/
def accepts (op : Operator) (n : Nat) : Bool :=
  match op.fixity.requiredArity.or op.arity with
  | some required => required = n
  | none => true

@[simp] theorem accepts_adHoc (name : String) (n : Nat) : (adHoc name n).accepts n = true := by
  simp [accepts, adHoc, function, fixity, Notation.fixity, Fixity.requiredArity]

/-- The text `entity "symbol" notation precedence`. -/
def text (op : Operator) : String :=
  op.entity ++ " " ++ quoteString op.symbol ++ " " ++ op.form.name ++ " " ++ toString op.precedence

end Operator

end Dataflow
