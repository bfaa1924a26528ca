import Dataflow.Proofs.Pins
import Dataflow.Proofs.Effects
import Mathlib.Data.List.Nodup

/-!
# Dataflow.Proofs.Instances

**An entity is instantiated exactly if the bindings match its pins.** Which pin a binding targets is
said here without the loop that binds: a label targets the first pin of that name, and the binding of
number `j` among those without a label targets the pin at place `j` (`Targets`). The bindings match the
pins if each of them has a target and no two have the same one (`Matching`).

* `getElem?_pinPlaces`, `targets_iff` — the places that the loop goes through are the targets;
* `bindPinsFrom_accepts` — the loop accepts bindings to free places that are all different;
* `bindPins_accepts` — the loop accepts what matches, and nothing else;
* `Netlist.instantiate_matching` — the instantiation, and what it is answered with.
-/

namespace Dataflow.Circuit

/-- The number of the bindings without a label in front of the one at place `i`. -/
def unlabelledBefore (bindings : List Binding) (i : Nat) : Nat :=
  (bindings.take i).countP (·.label.isNone)

/-- The binding at place `i` targets the pin at place `j`. -/
def Targets (pins : List String) (bindings : List Binding) (i j : Nat) : Prop :=
  ∃ b, bindings[i]? = some b ∧
    match b.label with
    | some label => pins[j]? = some label ∧ ∀ k < j, pins[k]? ≠ some label
    | none => j = unlabelledBefore bindings i ∧ j < pins.length

/-- Every binding has a target, and no two of them share it. -/
structure Matching (pins : List String) (bindings : List Binding) : Prop where
  targeted : ∀ i < bindings.length, ∃ j, Targets pins bindings i j
  apart : ∀ i i' j, Targets pins bindings i j → Targets pins bindings i' j → i = i'

section

variable {side : Side} {entity : String} {pins : List String} {given next : Nat}
  {bindings : List Binding} {bound : List (Option Expr)}

/-! ### The places that the loop goes through -/

theorem length_pinPlaces (pins : List String) (bindings : List Binding) (next : Nat) :
    (pinPlaces pins bindings next).length = bindings.length := by
  induction bindings generalizing next with
  | nil => rfl
  | cons b rest ih =>
    unfold pinPlaces
    cases b.label <;> simp [ih]

/-- The counter of the loop is ahead of `next` by the bindings without a label so far. -/
theorem getElem?_pinPlaces (pins : List String) (bindings : List Binding) (next i : Nat) :
    (pinPlaces pins bindings next)[i]? = bindings[i]?.map fun b =>
      match b.label with
      | some label => pins.idxOf? label
      | none => some (next + unlabelledBefore bindings i) := by
  induction bindings generalizing next i with
  | nil => rfl
  | cons b rest ih =>
    cases i with
    | zero => cases hlabel : b.label <;> simp [pinPlaces, unlabelledBefore, hlabel]
    | succ i =>
      cases hlabel : b.label with
      | none =>
        simp only [pinPlaces, hlabel, List.getElem?_cons_succ, ih, unlabelledBefore, List.take_succ_cons,
          List.countP_cons, Option.isNone_none, if_true, Nat.add_assoc, Nat.add_comm]
      | some label =>
        simp only [pinPlaces, hlabel, List.getElem?_cons_succ, ih, unlabelledBefore, List.take_succ_cons,
          List.countP_cons, Option.isNone_some, Bool.false_eq_true, if_false, Nat.add_zero]

/-- The first pin of a name, by its place. -/
theorem idxOf?_eq_some {label : String} {j : Nat} :
    pins.idxOf? label = some j ↔ pins[j]? = some label ∧ ∀ k < j, pins[k]? ≠ some label := by
  rw [List.idxOf?_eq_some_iff]
  constructor
  · intro ⟨hj, hlabel, hfirst⟩
    refine ⟨List.getElem?_eq_some_iff.2 ⟨hj, hlabel⟩, ?_⟩
    intro k hk hother
    obtain ⟨_, hother⟩ := List.getElem?_eq_some_iff.1 hother
    exact hfirst k hk hother
  · intro ⟨hlabel, hfirst⟩
    obtain ⟨hj, hlabel⟩ := List.getElem?_eq_some_iff.1 hlabel
    exact ⟨hj, hlabel, fun k hk hother => hfirst k hk (List.getElem?_eq_some_iff.2 ⟨_, hother⟩)⟩

/-- A binding targets the pin to which the loop goes with it, if there is a pin. -/
theorem targets_iff {i j : Nat} :
    Targets pins bindings i j ↔ (pinPlaces pins bindings 0)[i]? = some (some j) ∧ j < pins.length := by
  rw [getElem?_pinPlaces, Targets]
  cases hb : bindings[i]? with
  | none => simp
  | some b =>
    simp only [Option.some.injEq, exists_eq_left', Option.map_some, Nat.zero_add]
    cases hlabel : b.label with
    | none => simp [eq_comm]
    | some label =>
      simp only [idxOf?_eq_some]
      constructor
      · intro h
        exact ⟨h, (List.getElem?_eq_some_iff.1 h.1).1⟩
      · intro ⟨h, _⟩
        exact h

/-- Bindings match the pins if the loop goes to a pin with each of them, and never twice to one. -/
theorem matching_iff :
    Matching pins bindings ↔ (pinPlaces pins bindings 0).Nodup ∧
      ∀ place ∈ pinPlaces pins bindings 0, ∃ j, place = some j ∧ j < pins.length := by
  have hlength := length_pinPlaces pins bindings 0
  constructor
  · intro h
    have htargeted : ∀ i (hi : i < (pinPlaces pins bindings 0).length),
        ∃ j, (pinPlaces pins bindings 0)[i] = some j ∧ j < pins.length := by
      intro i hi
      obtain ⟨j, hj⟩ := h.targeted i (hlength ▸ hi)
      obtain ⟨hplace, hlt⟩ := targets_iff.1 hj
      exact ⟨j, (List.getElem?_eq_some_iff.1 hplace).2, hlt⟩
    constructor
    · rw [List.nodup_iff_injective_getElem]
      intro ⟨i, hi⟩ ⟨i', hi'⟩ heq
      obtain ⟨j, hj, hlt⟩ := htargeted i hi
      have htarget : Targets pins bindings i j :=
        targets_iff.2 ⟨List.getElem?_eq_some_iff.2 ⟨hi, hj⟩, hlt⟩
      have htarget' : Targets pins bindings i' j :=
        targets_iff.2 ⟨List.getElem?_eq_some_iff.2 ⟨hi', heq.symm.trans hj⟩, hlt⟩
      exact Fin.ext (h.apart i i' j htarget htarget')
    · intro place hplace
      obtain ⟨i, hi, rfl⟩ := List.mem_iff_getElem.1 hplace
      exact htargeted i hi
  · intro ⟨hnodup, hplaces⟩
    constructor
    · intro i hi
      obtain ⟨j, hj, hlt⟩ := hplaces _ (List.getElem_mem (hlength.symm ▸ hi))
      exact ⟨j, targets_iff.2 ⟨List.getElem?_eq_some_iff.2 ⟨_, hj⟩, hlt⟩⟩
    · intro i i' j h h'
      obtain ⟨hi, hj⟩ := List.getElem?_eq_some_iff.1 (targets_iff.1 h).1
      obtain ⟨hi', hj'⟩ := List.getElem?_eq_some_iff.1 (targets_iff.1 h').1
      exact (hnodup.getElem_inj_iff).1 (hj.trans hj'.symm)

instance (pins : List String) (bindings : List Binding) : Decidable (Matching pins bindings) :=
  decidable_of_iff ((pinPlaces pins bindings 0).Nodup ∧
      ∀ place ∈ pinPlaces pins bindings 0, place.any (· < pins.length) = true) <| by
    rw [matching_iff]
    refine and_congr_right fun _ => forall₂_congr fun place _ => ?_
    cases place <;> simp

/-- Some binding puts a node to a pin if it targets the pin. -/
theorem binds_iff {j : Nat} {node : Expr} (hj : j < pins.length) :
    Binds pins bindings j node ↔
      ∃ i b, bindings[i]? = some b ∧ Targets pins bindings i j ∧ b.value = node := by
  unfold Binds
  rw [List.mem_iff_getElem?]
  simp only [List.getElem?_zip_eq_some, List.getElem?_map, Option.map_eq_some_iff, targets_iff]
  constructor
  · intro ⟨i, hplace, b, hb, hvalue⟩
    exact ⟨i, b, hb, ⟨hplace, hj⟩, hvalue⟩
  · intro ⟨i, b, hb, ⟨hplace, _⟩, hvalue⟩
    exact ⟨i, hplace, b, hb, hvalue⟩

/-! ### The loop -/

/-- A free place is taken, and the loop goes on. -/
theorem bindPlace_free {value : Expr} {i : Nat}
    {k : List (Option Expr) → Except BuildError (List (Option Expr))} (hbound : bound.length = pins.length)
    (h : bound[i]? = some none) :
    bindPlace side entity pins given value i bound k = k (bound.set i (some value)) := by
  have hi : i < pins.length := hbound ▸ (List.getElem?_eq_some_iff.1 h).1
  rw [bindPlace, List.getElem?_eq_getElem hi, bindAt_of_getElem? h]
  rfl

/-- **The step.** A binding is accepted if the place that it means is free. -/
theorem bindPinsFrom_cons_free {b : Binding} {i : Nat} {places : List (Option Nat)}
    (hbound : bound.length = pins.length) (hplaces : pinPlaces pins (b :: bindings) next = some i :: places)
    (h : bound[i]? = some none) :
    ∃ next', places = pinPlaces pins bindings next' ∧
      bindPinsFrom side entity pins given (b :: bindings) next bound =
        bindPinsFrom side entity pins given bindings next' (bound.set i (some b.value)) := by
  cases hlabel : b.label with
  | none =>
    simp only [pinPlaces, hlabel, List.cons.injEq, Option.some.injEq] at hplaces
    obtain ⟨rfl, rfl⟩ := hplaces
    refine ⟨next + 1, rfl, ?_⟩
    simp only [bindPinsFrom, hlabel]
    exact bindPlace_free hbound h
  | some label =>
    simp only [pinPlaces, hlabel, List.cons.injEq] at hplaces
    obtain ⟨hidx, rfl⟩ := hplaces
    refine ⟨next, rfl, ?_⟩
    simp only [bindPinsFrom, hlabel, hidx]
    exact bindPlace_free hbound h

/-- **The run.** Bindings are accepted if the places that they mean are free and all different. -/
theorem bindPinsFrom_accepts (hbound : bound.length = pins.length) :
    (∃ bound', bindPinsFrom side entity pins given bindings next bound = .ok bound') ↔
      (pinPlaces pins bindings next).Nodup ∧
        ∀ place ∈ pinPlaces pins bindings next, ∃ j, place = some j ∧ bound[j]? = some none := by
  induction bindings generalizing next bound with
  | nil => exact ⟨fun _ => ⟨List.nodup_nil, by simp [pinPlaces]⟩, fun _ => ⟨bound, rfl⟩⟩
  | cons b rest ih =>
    -- a place is free behind the first binding if it was free before and is another one
    have hfree : ∀ (i j : Nat), bound[i]? = some none →
        ((bound.set i (some b.value))[j]? = some none ↔ j ≠ i ∧ bound[j]? = some none) := by
      intro i j hi
      rw [List.getElem?_set]
      by_cases hij : i = j
      · simp [hij]
      · simp [hij, Ne.symm hij]
    constructor
    · intro haccepts
      obtain ⟨bound', h⟩ := haccepts
      obtain ⟨i, next', hplaces, hi, hrest⟩ := bindPinsFrom_cons h
      obtain ⟨hnodup, hothers⟩ := (ih (by rwa [List.length_set])).1 ⟨bound', hrest⟩
      rw [hplaces]
      constructor
      · refine List.nodup_cons.2 ⟨?_, hnodup⟩
        intro hmem
        obtain ⟨j, hj, hset⟩ := hothers _ hmem
        obtain rfl := Option.some.inj hj
        exact ((hfree i i hi).1 hset).1 rfl
      · intro place hplace
        rcases List.mem_cons.1 hplace with rfl | hplace
        · exact ⟨i, rfl, hi⟩
        · obtain ⟨j, hj, hset⟩ := hothers place hplace
          exact ⟨j, hj, ((hfree i j hi).1 hset).2⟩
    · intro hspread
      obtain ⟨hnodup, hplaces⟩ := hspread
      cases hall : pinPlaces pins (b :: rest) next with
      | nil => simpa [hall] using length_pinPlaces pins (b :: rest) next
      | cons place places =>
        rw [hall] at hnodup hplaces
        obtain ⟨hnotmem, hrest⟩ := List.nodup_cons.1 hnodup
        obtain ⟨i, rfl, hi⟩ := hplaces _ List.mem_cons_self
        obtain ⟨next', rfl, hstep⟩ := bindPinsFrom_cons_free hbound hall hi
        rw [hstep]
        refine (ih (by rwa [List.length_set])).2 ⟨hrest, ?_⟩
        intro place hplace
        obtain ⟨j, rfl, hj⟩ := hplaces place (List.mem_cons_of_mem _ hplace)
        refine ⟨j, rfl, (hfree i j hi).2 ⟨?_, hj⟩⟩
        rintro rfl
        exact hnotmem hplace

/-- **Bindings are accepted exactly if they match the pins.** -/
theorem bindPins_accepts :
    (∃ bound, bindPins side entity pins bindings = .ok bound) ↔ Matching pins bindings := by
  have hfree : ∀ j, (pins.map fun _ => (none : Option Expr))[j]? = some none ↔ j < pins.length := by
    intro j
    by_cases hj : j < pins.length <;> simp [hj]
  rw [matching_iff, bindPins, bindPinsFrom_accepts (List.length_map _)]
  simp only [hfree]

end

/-! ### The instantiation -/

namespace Netlist

variable {n : Netlist}

/-- An instantiation is accepted exactly if both sides match and there are not too many buses. -/
theorem instantiate_accepts {entity : String} {e : Entity} (h : n.entity? entity = some e)
    (inputs outputs : List Binding) (buses : List Expr) :
    (∃ nodes m, perform (.instantiate entity inputs outputs buses) n = .ok nodes m) ↔
      Matching e.inputs inputs ∧ Matching e.outputs outputs ∧ buses.length ≤ e.buses.length := by
  constructor
  · intro haccepts
    obtain ⟨nodes, m, hcall⟩ := haccepts
    obtain ⟨d, bound, hd, htaken, hbound, hbuses, -, -⟩ := effect_of_perform hcall
    cases h.symm.trans hd
    exact ⟨bindPins_accepts.1 htaken, bindPins_accepts.1 ⟨bound, hbound⟩, hbuses⟩
  · intro hmatching
    obtain ⟨hinputs, houtputs, hbuses⟩ := hmatching
    obtain ⟨taken, htaken⟩ : ∃ taken, bindPins .input e.label e.inputs inputs = .ok taken :=
      bindPins_accepts.2 hinputs
    obtain ⟨bound, hbound⟩ : ∃ bound, bindPins .output e.label e.outputs outputs = .ok bound :=
      bindPins_accepts.2 houtputs
    refine ⟨(bound.zip e.outputs).map fun bound => bound.1.getD (.pin n.instances.length bound.2),
      n.recordInstance e.label inputs outputs buses, ?_⟩
    rw [perform, instantiate_apply]
    simp only [h, htaken, hbound, if_neg (Nat.not_lt.2 hbuses)]

/-- **An instantiation succeeds exactly if its bindings match the pins of the entity.** It is recorded
as it was given and is answered with one node for each output pin: what is bound to the pin, and where
nothing is, the pin of this instance. -/
theorem instantiate_matching {entity : String} {e : Entity} (h : n.entity? entity = some e)
    (inputs outputs : List Binding) (buses : List Expr) :
    ((∃ nodes m, perform (.instantiate entity inputs outputs buses) n = .ok nodes m) ↔
      Matching e.inputs inputs ∧ Matching e.outputs outputs ∧ buses.length ≤ e.buses.length) ∧
    ∀ nodes m, perform (.instantiate entity inputs outputs buses) n = .ok nodes m →
      m = { n.countStatement with
        instances := n.instances ++
          [{ entity := e.label, inputs, outputs, buses, architecture := n.current }] } ∧
      nodes.length = e.outputs.length ∧
      ∀ j pin, e.outputs[j]? = some pin → ∃ node, nodes[j]? = some node ∧
        ((∃ i b, outputs[i]? = some b ∧ Targets e.outputs outputs i j ∧ b.value = node) ∨
          (∀ i, ¬ Targets e.outputs outputs i j) ∧ node = .pin n.instances.length pin) := by
  refine ⟨instantiate_accepts h inputs outputs buses, ?_⟩
  intro nodes m hcall
  obtain ⟨d, bound, hd, -, hbound, -, rfl, rfl⟩ := effect_of_perform hcall
  cases h.symm.trans hd
  obtain ⟨hlength, -, hnodes⟩ := bindPins_ok hbound
  refine ⟨rfl, by simp [hlength], ?_⟩
  intro j pin hpin
  obtain ⟨hj, -⟩ := List.getElem?_eq_some_iff.1 hpin
  have hplace : bound[j]? = some bound[j] := List.getElem?_eq_getElem (hlength.symm ▸ hj)
  refine ⟨bound[j].getD (.pin n.instances.length pin), ?_, ?_⟩
  · have hboth : (bound.zip e.outputs)[j]? = some (bound[j], pin) :=
      List.getElem?_zip_eq_some.2 ⟨hplace, hpin⟩
    rw [List.getElem?_map, hboth]
    rfl
  · cases hnode : bound[j] with
    | some node => exact .inl ((binds_iff hj).1 ((hnodes j node).1 (hplace.trans (congrArg some hnode))))
    | none =>
      refine .inr ⟨?_, rfl⟩
      intro i htarget
      obtain ⟨b, hb, -⟩ := id htarget
      have hbinds := (hnodes j b.value).2 ((binds_iff hj).2 ⟨i, b, hb, htarget, rfl⟩)
      rw [hplace, hnode] at hbinds
      cases hbinds

/-- An adder with the carry bound by its label, and the same with the sum bound twice: by its label,
and by the first binding without one. -/
theorem instantiate_matching_adder :
    let adder : Entity :=
      { label := "Adder", symbol := "+", form := .infixLeft, precedence := 20,
        inputs := ["a", "b"], outputs := ["sum", "carry"], buses := ["clk"] }
    let n : Netlist := { entities := [adder] }
    n.entity? "+" = some adder ∧
      (∃ nodes m, perform (.instantiate "+" [⟨none, .signal "x"⟩] [⟨some "carry", .signal "c"⟩] []) n =
        .ok nodes m ∧ nodes.length = 2) ∧
      ¬ ∃ nodes m, perform (.instantiate "+" [] [⟨some "sum", .signal "s"⟩, ⟨none, .signal "t"⟩] []) n =
        .ok nodes m := by
  intro adder n
  have hadder : n.entity? "+" = some adder := by decide
  refine ⟨hadder, ?_, ?_⟩
  · have hboth := instantiate_matching hadder [⟨none, .signal "x"⟩] [⟨some "carry", .signal "c"⟩] []
    obtain ⟨nodes, m, hcall⟩ := hboth.1.2 (by decide)
    exact ⟨nodes, m, hcall, (hboth.2 nodes m hcall).2.1⟩
  · intro h
    have hmatching := (instantiate_matching hadder [] [⟨some "sum", .signal "s"⟩, ⟨none, .signal "t"⟩] []).1.1 h
    exact absurd hmatching.2.1 (by decide)

end Netlist

end Dataflow.Circuit
