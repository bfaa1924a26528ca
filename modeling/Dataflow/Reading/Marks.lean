import Dataflow.Run

/-!
# Dataflow.Reading.Marks

The places to which a cursor can go back, innermost first. A mark is set, and later either given
up (`commit`) or gone back to (`rollback`); both take the innermost one away.
-/

namespace Dataflow.Reading

/-- The outstanding marks, innermost first. -/
abbrev Marks := List Nat

namespace Marks

/-- Sets an innermost mark. -/
def mark (offset : Nat) : Run Marks Unit :=
  modify (offset :: ·)

/-- Takes the innermost mark away and gives its offset; to have none left breaks a rule. -/
def pop (missing : Violation) : Run Marks Nat
  | [] => .error (.violation missing) []
  | offset :: outer => .ok offset outer

/-- Gives the innermost mark up. -/
def commit : Run Marks Unit := do
  let _ ← pop .commitWithoutMark

/-- Goes back to the innermost mark. -/
def rollback : Run Marks Nat := pop .rollbackWithoutMark

/-- Forgets all marks. -/
def clear : Run Marks Unit := set ([] : Marks)

end Marks

end Dataflow.Reading
