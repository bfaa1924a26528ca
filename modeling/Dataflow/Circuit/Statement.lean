import Dataflow.Circuit.Entity

/-!
# Dataflow.Circuit.Statement

The statements of the language, with the nodes that the netlist answered with.
-/

namespace Dataflow.Circuit

/-- A statement as it has been read and told to the netlist. -/
inductive Statement where
  /-- The definition of an entity, whose symbol is registered by now. -/
  | entity (e : Entity)
  /-- The definition of an architecture, with the statements of its body. -/
  | architecture (name entity : String) (body : List Statement)
  /-- An instance of an entity, with the nodes of its outputs. -/
  | instantiation (entity : String) (outputs : List Expr)
  | signals (nodes : List Expr)
  | buses (nodes : List Expr)
  /-- Signals driven by a value. -/
  | assignment (targets : List Expr) (value : Expr)
  | expression (value : Expr)

namespace Statement

mutual

/-- Whether two statements are the same. -/
def same : Statement → Statement → Bool
  | entity e, entity f => e = f
  | architecture n e body, architecture m f other => n = m && e = f && sameAll body other
  | instantiation e as, instantiation f bs => e = f && as = bs
  | signals as, signals bs | buses as, buses bs => as = bs
  | assignment ts v, assignment us w => ts = us && v = w
  | expression v, expression w => v = w
  | _, _ => false

/-- Whether two lists of statements are the same. -/
def sameAll : List Statement → List Statement → Bool
  | [], [] => true
  | a :: as, b :: bs => same a b && sameAll as bs
  | _, _ => false

end

mutual

theorem same_iff : (a b : Statement) → (same a b = true ↔ a = b)
  | entity _, b | instantiation _ _, b | signals _, b | buses _, b | assignment _ _, b
  | expression _, b => by cases b <;> simp [same]
  | architecture _ _ body, b => by cases b <;> simp [same, sameAll_iff body, and_assoc]

theorem sameAll_iff : (as bs : List Statement) → (sameAll as bs = true ↔ as = bs)
  | [], bs => by cases bs <;> simp [sameAll]
  | a :: as, bs => by cases bs <;> simp [sameAll, same_iff a, sameAll_iff as]

end

instance : DecidableEq Statement := fun a b => decidable_of_iff _ (same_iff a b)

end Statement

end Dataflow.Circuit
