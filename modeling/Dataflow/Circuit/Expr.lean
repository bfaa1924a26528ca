import Dataflow.Container
import Dataflow.Text.Quoted

/-!
# Dataflow.Circuit.Expr

The nodes of a dataflow circuit as expression trees, and their text.

* `Expr` — constants, signals, buses, applications of entities, bracketed groups, and the output
  pins of instances that nothing is bound to;
* `Expr.text` — the tree written out, applications in function form. Groups are shown between
  fixed brackets, whatever the dialect they were read in.
-/

namespace Dataflow.Circuit

open Text

/-- The three kinds of constants. -/
inductive ConstantKind where
  | literal
  | integer
  | real
deriving DecidableEq

/-- A node of the circuit. -/
inductive Expr where
  /-- A quoted literal, by its content. -/
  | literal (text : String)
  /-- A whole number, by its digits. -/
  | integer (text : String)
  /-- A number with a fraction, as it was written. -/
  | real (text : String)
  | signal (name : String)
  | bus (name : String)
  /-- An entity applied to arguments. -/
  | apply (entity : String) (arguments : List Expr)
  | group (container : Container) (items : List Expr)
  /-- The output `pin` of the instance of the given number. -/
  | pin (inst : Nat) (name : String)

namespace Expr

/-! ## Equality -/

mutual

/-- Whether two trees are the same. -/
def same : Expr → Expr → Bool
  | literal s, literal t | integer s, integer t | real s, real t | signal s, signal t
  | bus s, bus t => s = t
  | apply e as, apply f bs => e = f && sameAll as bs
  | group c as, group d bs => c = d && sameAll as bs
  | pin i s, pin j t => i = j && s = t
  | _, _ => false

/-- Whether two lists of trees are the same. -/
def sameAll : List Expr → List Expr → Bool
  | [], [] => true
  | a :: as, b :: bs => same a b && sameAll as bs
  | _, _ => false

end

mutual

theorem same_iff : (a b : Expr) → (same a b = true ↔ a = b)
  | literal _, b | integer _, b | real _, b | signal _, b | bus _, b | pin _ _, b => by
    cases b <;> simp [same]
  | apply _ as, b => by cases b <;> simp [same, sameAll_iff as]
  | group _ as, b => by cases b <;> simp [same, sameAll_iff as]

theorem sameAll_iff : (as bs : List Expr) → (sameAll as bs = true ↔ as = bs)
  | [], bs => by cases bs <;> simp [sameAll]
  | a :: as, bs => by cases bs <;> simp [sameAll, same_iff a, sameAll_iff as]

end

instance : DecidableEq Expr := fun a b => decidable_of_iff _ (same_iff a b)

/-! ## Nodes and their text -/

/-- The constant of a kind with the given text. -/
def constant : ConstantKind → String → Expr
  | .literal => literal
  | .integer => integer
  | .real => real

/-- Whether the node is a signal, and so can be driven. -/
def isSignal : Expr → Bool
  | signal _ => true
  | _ => false

/-- The brackets that a group is shown in. -/
def brackets : Container → String × String
  | .list => ("(", ")")
  | .vector => ("[", "]")
  | .set => ("\x7b", "\x7d")
  | .scalar => ("⟨", "⟩")

mutual

/-- The tree written out: literals quoted, names and numbers as they are, applications as
`entity(argument, …)`, groups in their brackets, and a pin as `#instance.pin`. -/
def text : Expr → String
  | literal s => quoteString s
  | integer s | real s | signal s | bus s => s
  | apply entity arguments => entity ++ "(" ++ textAll arguments ++ ")"
  | group container items => (brackets container).1 ++ textAll items ++ (brackets container).2
  | pin inst name => "#" ++ toString inst ++ "." ++ name

/-- Several trees, with a comma and a space between them. -/
def textAll : List Expr → String
  | [] => ""
  | [e] => text e
  | e :: rest => text e ++ ", " ++ textAll rest

end

end Expr

end Dataflow.Circuit
