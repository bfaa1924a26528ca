/-!
# Dataflow.Operator.Notation

How an operator is written next to its operands.

* `Notation` — function form, before, behind or between the operands, the last in two
  associativities;
* `Fixity` — the place that a notation takes. Both notations between the operands have the same
  place, so a symbol associates to one side only.
-/

namespace Dataflow

/-- The place of an operator symbol: in front of a bracketed list of operands, in front of one
operand, between two operands, or behind one operand. -/
inductive Fixity where
  | function
  | prefixOp
  | infixOp
  | postfixOp
deriving DecidableEq

namespace Fixity

/-- Every place, in the order in which a table lists the registrations of one symbol. -/
def all : List Fixity := [.function, .prefixOp, .infixOp, .postfixOp]

theorem mem_all (f : Fixity) : f ∈ all := by cases f <;> simp [all]

/-- Position in `Fixity.all`. -/
def index : Fixity → Nat
  | .function => 0
  | .prefixOp => 1
  | .infixOp => 2
  | .postfixOp => 3

def name : Fixity → String
  | .function => "function"
  | .prefixOp => "prefix"
  | .infixOp => "infix"
  | .postfixOp => "postfix"

/-- The number of operands that the place leaves room for; the function form fixes none. -/
def requiredArity : Fixity → Option Nat
  | .function => none
  | .prefixOp | .postfixOp => some 1
  | .infixOp => some 2

end Fixity

/-- How an operator is written. -/
inductive Notation where
  /-- Function form only: `max(a, b)`. -/
  | function
  /-- In front of its operand: `-a`. -/
  | prefixOp
  /-- Behind its operand: `a!`. -/
  | postfixOp
  /-- Between its operands, grouping to the left: `a - b - c` is `(a - b) - c`. -/
  | infixLeft
  /-- Between its operands, grouping to the right: `a ^ b ^ c` is `a ^ (b ^ c)`. -/
  | infixRight
deriving DecidableEq

namespace Notation

/-- Every notation, in the order of their numbers. -/
def all : List Notation := [.function, .prefixOp, .postfixOp, .infixLeft, .infixRight]

theorem mem_all (n : Notation) : n ∈ all := by cases n <;> simp [all]

/-- Position in `Notation.all`. -/
def index : Notation → Nat
  | .function => 0
  | .prefixOp => 1
  | .postfixOp => 2
  | .infixLeft => 3
  | .infixRight => 4

/-- The word for the notation in a definition. -/
def name : Notation → String
  | .function => "none"
  | .prefixOp => "prefix"
  | .postfixOp => "postfix"
  | .infixLeft => "leftinfix"
  | .infixRight => "rightinfix"

/-- The notation that a word names. -/
def ofName? (word : String) : Option Notation :=
  all.find? (fun n => n.name = word)

theorem ofName?_name (n : Notation) : ofName? n.name = some n := by
  cases n <;> decide

theorem name_of_ofName? {word : String} {n : Notation} (h : ofName? word = some n) :
    n.name = word := by
  simpa using List.find?_some h

/-- What is said of a word that names no notation. -/
def invalidName (word : String) : String := "invalid notation: " ++ word

/-- The place that the notation takes. -/
def fixity : Notation → Fixity
  | .function => .function
  | .prefixOp => .prefixOp
  | .postfixOp => .postfixOp
  | .infixLeft | .infixRight => .infixOp

/-- Whether the operator stands between two operands. -/
def isInfix (n : Notation) : Bool := n.fixity = .infixOp

end Notation

end Dataflow
