import Dataflow.Proofs.Assertions

/-!
# Dataflow.Proofs.Pins

**Which pin gets which node.** A binding with a label means the first pin of that name, and one without
a label means the pin whose number it has among those without one (`pinPlaces`). Bindings that are
accepted give every one of them a pin of its own, and a pin that none of them means gets nothing.

* `Binds` — some binding puts a node to the pin at a place;
* `bindPins_ok` — what is bound when all bindings have been accepted.
-/

namespace Dataflow.Circuit

/-- The places of the pins that bindings mean, in their order. The next one without a label means the
pin at place `next`; a label that no pin has means none. -/
def pinPlaces (pins : List String) : List Binding → Nat → List (Option Nat)
  | [], _ => []
  | b :: rest, next =>
    match b.label with
    | none => some next :: pinPlaces pins rest (next + 1)
    | some label => pins.idxOf? label :: pinPlaces pins rest next

/-- One of the bindings puts `node` to the pin at place `j`. -/
def Binds (pins : List String) (bindings : List Binding) (j : Nat) (node : Expr) : Prop :=
  (some j, node) ∈ (pinPlaces pins bindings 0).zip (bindings.map Binding.value)

instance (pins : List String) (bindings : List Binding) (j : Nat) (node : Expr) :
    Decidable (Binds pins bindings j node) :=
  inferInstanceAs (Decidable (_ ∈ _))

section

variable {side : Side} {entity : String} {pins : List String} {given next : Nat}
  {bindings : List Binding} {bound bound' : List (Option Expr)}

theorem bindAt_eq_some {node : Expr} {i : Nat} (h : bindAt node i bound = some bound') :
    bound[i]? = some none ∧ bound' = bound.set i (some node) := by
  cases hplace : bound[i]? with
  | none =>
    exfalso
    induction bound generalizing i bound' with
    | nil => cases i <;> cases h
    | cons first rest ih =>
      cases i with
      | zero => cases hplace
      | succ i =>
        simp only [bindAt, Option.map_eq_some_iff] at h
        obtain ⟨rest', hrest, -⟩ := h
        exact ih hrest hplace
  | some place =>
    rw [bindAt_of_getElem? hplace] at h
    cases place with
    | none => exact ⟨rfl, (Option.some.inj h).symm⟩
    | some held => cases h

/-- **The step.** A binding that is accepted means a pin that is free, and takes it. -/
theorem bindPinsFrom_cons {b : Binding}
    (h : bindPinsFrom side entity pins given (b :: bindings) next bound = .ok bound') :
    ∃ i next', pinPlaces pins (b :: bindings) next = some i :: pinPlaces pins bindings next' ∧
      bound[i]? = some none ∧
      bindPinsFrom side entity pins given bindings next' (bound.set i (some b.value)) = .ok bound' := by
  -- what both kinds of binding do once the place is known
  have hplace : ∀ i next', bindPlace side entity pins given b.value i bound
      (bindPinsFrom side entity pins given bindings next') = .ok bound' →
      bound[i]? = some none ∧
        bindPinsFrom side entity pins given bindings next' (bound.set i (some b.value)) = .ok bound' := by
    intro i next' h
    unfold bindPlace at h
    cases hpin : pins[i]? with
    | none => rw [hpin] at h; cases h
    | some pin =>
      rw [hpin] at h
      cases hat : bindAt b.value i bound with
      | none => rw [hat] at h; cases h
      | some taken =>
        rw [hat] at h
        obtain ⟨hfree, rfl⟩ := bindAt_eq_some hat
        exact ⟨hfree, h⟩
  cases hlabel : b.label with
  | none =>
    simp only [bindPinsFrom, hlabel] at h
    exact ⟨next, next + 1, by simp [pinPlaces, hlabel], hplace next (next + 1) h⟩
  | some label =>
    simp only [bindPinsFrom, hlabel] at h
    cases hidx : pins.idxOf? label with
    | none => rw [hidx] at h; cases h
    | some i =>
      rw [hidx] at h
      exact ⟨i, next, by simp [pinPlaces, hlabel, hidx], hplace i next h⟩

/-- A place that was free is taken by one more node. -/
theorem countP_set_free {i : Nat} (h : bound[i]? = some none) (node : Expr) :
    (bound.set i (some node)).countP Option.isSome = bound.countP Option.isSome + 1 := by
  induction bound generalizing i with
  | nil => cases h
  | cons first rest ih =>
    cases i with
    | zero =>
      obtain rfl : first = none := Option.some.inj h
      simp
    | succ i => simp [List.countP_cons, ih (i := i) h]; omega

/-- **The run.** What was bound before stays, every binding adds one node, and each node is where its
binding puts it. -/
theorem bindPinsFrom_ok (h : bindPinsFrom side entity pins given bindings next bound = .ok bound') :
    bound'.length = bound.length ∧
      bound'.countP Option.isSome = bound.countP Option.isSome + bindings.length ∧
      ∀ j node, bound'[j]? = some (some node) ↔ bound[j]? = some (some node) ∨
        (some j, node) ∈ (pinPlaces pins bindings next).zip (bindings.map Binding.value) := by
  induction bindings generalizing next bound with
  | nil =>
    cases h
    exact ⟨rfl, by simp, by simp⟩
  | cons b rest ih =>
    obtain ⟨i, next', hplaces, hfree, hrest⟩ := bindPinsFrom_cons h
    obtain ⟨hlength, hcount, hnodes⟩ := ih hrest
    have hi : i < bound.length := (List.getElem?_eq_some_iff.1 hfree).1
    refine ⟨by rw [hlength, List.length_set], ?_, ?_⟩
    · rw [hcount, countP_set_free hfree, List.length_cons]
      omega
    · intro j node
      rw [hnodes, hplaces, List.map_cons, List.zip_cons_cons, List.mem_cons, List.getElem?_set]
      by_cases hj : i = j
      · subst hj
        rw [if_pos rfl, if_pos hi, hfree]
        simp [eq_comm]
      · have hj' : j ≠ i := Ne.symm hj
        simp [hj, hj']

theorem bindPins_ok (h : bindPins side entity pins bindings = .ok bound) :
    bound.length = pins.length ∧ bound.countP Option.isSome = bindings.length ∧
      ∀ j node, bound[j]? = some (some node) ↔ Binds pins bindings j node := by
  obtain ⟨hlength, hcount, hnodes⟩ := bindPinsFrom_ok h
  refine ⟨by simpa using hlength, ?_, ?_⟩
  · have hnone : (pins.map fun _ => (none : Option Expr)).countP Option.isSome = 0 := by
      simp [List.countP_eq_zero]
    rw [hcount, hnone, Nat.zero_add]
  · intro j node
    have hempty : (pins.map fun _ => (none : Option Expr))[j]? ≠ some (some node) := by
      rw [List.getElem?_map]
      cases pins[j]? <;> simp
    rw [hnodes, Binds, or_iff_right hempty]

/-- There are pins for all bindings that are accepted. -/
theorem length_le_of_bindPins (h : bindPins side entity pins bindings = .ok bound) :
    bindings.length ≤ pins.length := by
  obtain ⟨hlength, hcount, -⟩ := bindPins_ok h
  rw [← hlength, ← hcount]
  exact List.countP_le_length

end

end Dataflow.Circuit
