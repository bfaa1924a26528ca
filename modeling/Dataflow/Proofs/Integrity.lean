import Dataflow.Proofs.Pins
import Dataflow.Proofs.Recording

/-!
# Dataflow.Proofs.Integrity

**A netlist stays consistent.** It can be told anything in any order, and refuses some of it; whatever
that was, what it has recorded fits together: names are of one kind, labels are unique, counts are right
and references lead somewhere (`Netlist.Consistent`).

* `Netlist.performAll` — calls one after the other, each with its answer;
* `Netlist.Consistent.perform` — the step; with `effect_of_perform` it is one case for each kind of
  record that a call can make;
* `Netlist.consistent` — the run.

The nodes that an instantiation answers with are the pins of the new instance, but only those to which
nothing is bound: what is bound to a pin is handed back as it is, and may be a pin of another instance.
-/

namespace Dataflow.Circuit

/-- A call with what came of it: its reply, or the cause of the refusal. -/
structure Answered where
  call : Call
  answer : Except BuildError call.Reply

/-- An instantiation that was accepted, with the nodes that it was answered with. -/
structure Instantiated where
  reference : String
  inputs : List Binding
  outputs : List Binding
  buses : List Expr
  nodes : List Expr
deriving DecidableEq

namespace Answered

/-- The name that the call has used or declared as a signal. -/
def signal? : Answered → Option String
  | ⟨.useSignal name, .ok _⟩ | ⟨.declareSignal name, .ok _⟩ => some name
  | _ => none

/-- The name that the call has used or declared as a bus. -/
def bus? : Answered → Option String
  | ⟨.useBus name, .ok _⟩ | ⟨.declareBus name, .ok _⟩ => some name
  | _ => none

def instantiation? : Answered → Option Instantiated
  | ⟨.instantiate reference inputs outputs buses, .ok nodes⟩ =>
    some { reference, inputs, outputs, buses, nodes }
  | _ => none

end Answered

namespace Netlist

/-- Tells a netlist one thing more, and notes what it answered. -/
def performNext (log : List Answered × Netlist) (call : Call) : List Answered × Netlist :=
  match perform call log.2 with
  | .ok reply m => (log.1 ++ [⟨call, .ok reply⟩], m)
  | .error cause m => (log.1 ++ [⟨call, .error cause⟩], m)

/-- Tells a fresh netlist one thing after the other, whether it accepts them or not. -/
def performAll (calls : List Call) : List Answered × Netlist :=
  calls.foldl performNext ([], {})

variable {n m : Netlist} {past : List Answered}

/-! ### The invariant -/

/-- The nodes that an instantiation of `e` as number `inst` is answered with: one for each output pin,
either what is bound to the pin or, where nothing is, the pin itself. -/
def Answers (e : Entity) (inst : Nat) (outputs : List Binding) (nodes : List Expr) : Prop :=
  nodes.length = e.outputs.length ∧
    ∀ j node, nodes[j]? = some node → Binds e.outputs outputs j node ∨
      (∀ other, ¬ Binds e.outputs outputs j other) ∧ ∃ name, e.outputs[j]? = some name ∧ node = .pin inst name

/-- The instance of number `i` has been recorded for the instantiation, and what is bound there has its
place at the entity. -/
structure Realizes (e : Entity) (x : Instance) (i : Nat) (y : Instantiated) : Prop where
  label : e.label = x.entity
  reference : y.reference = e.label ∨ y.reference = e.symbol
  bound : x.inputs = y.inputs ∧ x.outputs = y.outputs ∧ x.buses = y.buses
  inputs : x.inputs.length ≤ e.inputs.length
  outputs : x.outputs.length ≤ e.outputs.length
  buses : x.buses.length ≤ e.buses.length
  nodes : Answers e i y.outputs y.nodes

/-- The number of assignments and instances that have been recorded for an architecture. -/
def recorded (n : Netlist) (name : String) : Nat :=
  n.assignments.countP (fun x => x.architecture = some name) +
    n.instances.countP (fun x => x.architecture = some name)

/-- What holds of a netlist that has been fresh and then has been told the calls. -/
structure Consistent (past : List Answered) (n : Netlist) : Prop where
  apart : ∀ name ∈ n.signals, name ∉ n.buses
  /-- The names stand in the order of their first use. -/
  signals : n.signals = (past.filterMap Answered.signal?).eraseDups
  buses : n.buses = (past.filterMap Answered.bus?).eraseDups
  labels : (n.entities.map Entity.label).Nodup
  names : (n.architectures.map Architecture.name).Nodup
  opened : ∀ name, n.current = some name → name ∈ n.architectures.map Architecture.name
  counts : ∀ a ∈ n.architectures, a.statements = n.recorded a.name
  /-- What is recorded for an architecture is recorded for one that there is. -/
  inside : ∀ name, n.recorded name ≠ 0 → name ∈ n.architectures.map Architecture.name
  implements : ∀ a ∈ n.architectures, ∃ e ∈ n.entities, e.label = a.entity
  targets : ∀ x ∈ n.assignments, ∀ node ∈ x.targets, node.isSignal = true
  instances : List.Forall₂ (fun x y => ∃ e ∈ n.entities, Realizes e x.1 x.2 y) n.instances.zipIdx
    (past.filterMap Answered.instantiation?)

/-- A fresh netlist has nothing to be inconsistent. -/
theorem consistent_fresh : Consistent [] {} where
  apart := by simp
  signals := rfl
  buses := rfl
  labels := by simp
  names := by simp
  opened := nofun
  counts := by simp
  inside := fun _ h => absurd rfl h
  implements := by simp
  targets := by simp
  instances := .nil

/-! ### What one call adds -/

/-- A name that is used once more. -/
theorem eraseDups_concat (names : List String) (name : String) :
    (names ++ [name]).eraseDups = addName name names.eraseDups := by
  rw [List.eraseDups_append]
  unfold addName
  by_cases h : name ∈ names
  · simp [List.removeAll, h]
  · simp [List.removeAll, h, List.eraseDups_cons]

theorem nodup_eraseDups (names : List String) : names.eraseDups.Nodup := by
  induction names using List.reverseRecOn with
  | nil => exact List.nodup_nil
  | append_singleton names name ih => rw [eraseDups_concat]; exact nodup_addName ih

variable {a : Answered}

/-- Nothing has been recorded. -/
theorem Consistent.same (h : Consistent past n) (hsignal : a.signal? = none) (hbus : a.bus? = none)
    (hinstance : a.instantiation? = none) : Consistent (past ++ [a]) n :=
  { h with
    signals := by simp [hsignal, h.signals]
    buses := by simp [hbus, h.buses]
    instances := by simpa [hinstance] using h.instances }

/-- A name has been used as that of a signal. -/
theorem Consistent.signal (h : Consistent past n) {name : String} (hfree : name ∉ n.buses)
    (hsignal : a.signal? = some name) (hbus : a.bus? = none) (hinstance : a.instantiation? = none) :
    Consistent (past ++ [a]) { n with signals := addName name n.signals } :=
  { h with
    apart := by
      intro other hother
      rcases mem_addName.1 hother with rfl | hother
      · exact hfree
      · exact h.apart other hother
    signals := by simp [hsignal, eraseDups_concat, h.signals]
    buses := by simp [hbus, h.buses]
    instances := by simpa [hinstance] using h.instances }

/-- A name has been used as that of a bus. -/
theorem Consistent.bus (h : Consistent past n) {name : String} (hfree : name ∉ n.signals)
    (hsignal : a.signal? = none) (hbus : a.bus? = some name) (hinstance : a.instantiation? = none) :
    Consistent (past ++ [a]) { n with buses := addName name n.buses } :=
  { h with
    apart := by
      intro other hother hmem
      rcases mem_addName.1 hmem with rfl | hmem
      · exact hfree hother
      · exact h.apart other hother hmem
    signals := by simp [hsignal, h.signals]
    buses := by simp [hbus, eraseDups_concat, h.buses]
    instances := by simpa [hinstance] using h.instances }

/-- The clauses about instances hold on if more entities are known. -/
theorem realizes_mono {known more : List Entity} (hmore : ∀ e ∈ known, e ∈ more)
    {xs : List (Instance × Nat)} {ys : List Instantiated}
    (h : List.Forall₂ (fun x y => ∃ e ∈ known, Realizes e x.1 x.2 y) xs ys) :
    List.Forall₂ (fun x y => ∃ e ∈ more, Realizes e x.1 x.2 y) xs ys :=
  h.imp fun _ _ ⟨e, he, hx⟩ => ⟨e, hmore e he, hx⟩

/-- An entity has been defined under a new label. -/
theorem Consistent.entity (h : Consistent past n) {e : Entity} (hfree : ∀ d ∈ n.entities, d.label ≠ e.label)
    (hsignal : a.signal? = none) (hbus : a.bus? = none) (hinstance : a.instantiation? = none) :
    Consistent (past ++ [a]) { n with entities := n.entities ++ [e] } :=
  have hmore : ∀ d ∈ n.entities, d ∈ n.entities ++ [e] := fun _ => List.mem_append_left _
  { h with
    signals := by simp [hsignal, h.signals]
    buses := by simp [hbus, h.buses]
    labels := by
      rw [List.map_append, List.nodup_append]
      refine ⟨h.labels, by simp, ?_⟩
      intro label hlabel other hother
      obtain ⟨d, hd, rfl⟩ := List.mem_map.1 hlabel
      obtain rfl : other = e.label := by simpa using hother
      exact hfree d hd
    implements := by
      intro x hx
      obtain ⟨d, hd, hlabel⟩ := h.implements x hx
      exact ⟨d, hmore d hd, hlabel⟩
    instances := by simpa [hinstance] using realizes_mono hmore h.instances }

/-- The body of the open architecture has been closed. -/
theorem Consistent.closed (h : Consistent past n)
    (hsignal : a.signal? = none) (hbus : a.bus? = none) (hinstance : a.instantiation? = none) :
    Consistent (past ++ [a]) { n with current := none } :=
  { h.same hsignal hbus hinstance with opened := nofun }

/-- A reference leads to an entity by its label or by its symbol. -/
theorem entity?_mem {reference : String} {e : Entity} (h : n.entity? reference = some e) :
    e ∈ n.entities ∧ (reference = e.label ∨ reference = e.symbol) := by
  unfold entity? at h
  rcases Option.or_eq_some_iff.1 h with h | ⟨-, h⟩
  · have hlabel : e.label = reference := by simpa using List.find?_some h
    exact ⟨List.mem_of_find?_eq_some h, .inl hlabel.symm⟩
  · have hsymbol : e.symbol = reference := by simpa using List.find?_some h
    exact ⟨List.mem_of_find?_eq_some h, .inr hsymbol.symm⟩

/-- The body of a new architecture has been opened. Nothing has been recorded for it so far, as then
there would have been one of its name. -/
theorem Consistent.architecture (h : Consistent past n) {name : String} {e : Entity}
    (hfree : n.architecture? name = none) (he : e ∈ n.entities)
    (hsignal : a.signal? = none) (hbus : a.bus? = none) (hinstance : a.instantiation? = none) :
    Consistent (past ++ [a]) (n.openArchitecture name e.label) := by
  have hname : name ∉ n.architectures.map Architecture.name := by
    simpa [architecture?] using hfree
  have hnone : n.recorded name = 0 := Decidable.byContradiction fun hne => hname (h.inside name hne)
  have hmap : (n.openArchitecture name e.label).architectures.map Architecture.name =
      n.architectures.map Architecture.name ++ [name] := by simp [openArchitecture]
  exact
    { h.same hsignal hbus hinstance with
      names := by
        rw [hmap, List.nodup_append]
        exact ⟨h.names, by simp, fun other hother _ hmem => by
          obtain rfl := List.mem_singleton.1 hmem
          exact fun heq => hname (heq ▸ hother)⟩
      opened := by
        intro other hother
        obtain rfl := Option.some.inj hother
        simp [hmap]
      counts := by
        intro x hx
        rcases List.mem_append.1 hx with hx | hx
        · exact h.counts x hx
        · obtain rfl := List.mem_singleton.1 hx
          exact hnone.symm
      inside := by
        intro other hother
        rw [hmap]
        exact List.mem_append_left _ (h.inside other hother)
      implements := by
        intro x hx
        rcases List.mem_append.1 hx with hx | hx
        · exact h.implements x hx
        · obtain rfl := List.mem_singleton.1 hx
          exact ⟨e, he, rfl⟩ }

/-! ### Statements that are counted -/

/-- Counting a statement changes no names. -/
theorem map_countStatement {β : Type} {f : Architecture → β}
    (hf : ∀ x count, f { x with statements := count } = f x) :
    n.countStatement.architectures.map f = n.architectures.map f := by
  rw [countStatement_architectures]
  cases n.current with
  | none => rfl
  | some name =>
    rw [List.map_map]
    refine List.map_congr_left fun x _ => ?_
    unfold credited
    simp only [Function.comp]
    split
    · exact hf x _
    · rfl

@[simp] theorem countStatement_signals : n.countStatement.signals = n.signals := by
  unfold countStatement
  cases n.current <;> rfl

@[simp] theorem countStatement_buses : n.countStatement.buses = n.buses := by
  unfold countStatement
  cases n.current <;> rfl

/-- Between the two netlists, one assignment or one instance has been recorded and counted. -/
structure Counted (n m : Netlist) : Prop where
  signals : m.signals = n.signals
  buses : m.buses = n.buses
  entities : m.entities = n.entities
  current : m.current = n.current
  architectures : m.architectures = n.countStatement.architectures
  recorded : ∀ name, m.recorded name = n.recorded name + if n.current = some name then 1 else 0

theorem counted_recordAssignment (targets : List Expr) (value : Expr) :
    Counted n (n.recordAssignment targets value) where
  signals := countStatement_signals
  buses := countStatement_buses
  entities := countStatement_entities n
  current := countStatement_current n
  architectures := rfl
  recorded := by
    intro name
    simp [recorded, recordAssignment, List.countP_append, List.countP_cons]
    omega

theorem counted_recordInstance (label : String) (inputs outputs : List Binding) (buses : List Expr) :
    Counted n (n.recordInstance label inputs outputs buses) where
  signals := countStatement_signals
  buses := countStatement_buses
  entities := countStatement_entities n
  current := countStatement_current n
  architectures := rfl
  recorded := by
    intro name
    simp [recorded, recordInstance, List.countP_append, List.countP_cons]
    omega

/-- The count of an architecture goes up where a statement is recorded for it, and nowhere else. -/
theorem Counted.counts (hm : Counted n m) (h : Consistent past n) :
    ∀ x ∈ m.architectures, x.statements = m.recorded x.name := by
  intro x hx
  rw [hm.architectures, countStatement_architectures] at hx
  rw [hm.recorded]
  cases hcurrent : n.current with
  | none =>
    rw [hcurrent] at hx
    simpa using h.counts x hx
  | some name =>
    rw [hcurrent] at hx
    obtain ⟨y, hy, rfl⟩ := List.mem_map.1 hx
    have hcount := h.counts y hy
    unfold credited
    by_cases hname : y.name = name
    · simpa [hname] using hcount
    · simp [hname, Ne.symm hname, hcount]

/-- **One statement more.** The assignments and the instances are looked at by those who record them. -/
theorem Counted.consistent (hm : Counted n m) (h : Consistent past n)
    (hsignal : a.signal? = none) (hbus : a.bus? = none)
    (htargets : ∀ x ∈ m.assignments, ∀ node ∈ x.targets, node.isSignal = true)
    (hinstances : List.Forall₂ (fun x y => ∃ e ∈ n.entities, Realizes e x.1 x.2 y) m.instances.zipIdx
      ((past ++ [a]).filterMap Answered.instantiation?)) : Consistent (past ++ [a]) m := by
  have hnames : m.architectures.map Architecture.name = n.architectures.map Architecture.name := by
    rw [hm.architectures, map_countStatement fun _ _ => rfl]
  have hreferences : m.architectures.map Architecture.entity = n.architectures.map Architecture.entity := by
    rw [hm.architectures, map_countStatement fun _ _ => rfl]
  exact {
    apart := by rw [hm.signals, hm.buses]; exact h.apart
    signals := by simp [hm.signals, hsignal, h.signals]
    buses := by simp [hm.buses, hbus, h.buses]
    labels := by rw [hm.entities]; exact h.labels
    names := by rw [hnames]; exact h.names
    opened := by rw [hm.current, hnames]; exact h.opened
    counts := hm.counts h
    inside := by
      intro name hne
      rw [hm.recorded] at hne
      rw [hnames]
      by_cases hcurrent : n.current = some name
      · exact h.opened name hcurrent
      · exact h.inside name (by simpa [hcurrent] using hne)
    implements := by
      intro x hx
      have hx : x.entity ∈ n.architectures.map Architecture.entity :=
        hreferences ▸ List.mem_map_of_mem hx
      obtain ⟨y, hy, hentity⟩ := List.mem_map.1 hx
      obtain ⟨e, he, hlabel⟩ := h.implements y hy
      exact ⟨e, hm.entities ▸ he, hlabel.trans hentity⟩
    targets := htargets
    instances := by rw [hm.entities]; exact hinstances }

/-- Signals have been driven. -/
theorem Consistent.assigned (h : Consistent past n) {targets : List Expr} {value : Expr}
    (htargets : ∀ node ∈ targets, node.isSignal = true)
    (hsignal : a.signal? = none) (hbus : a.bus? = none) (hinstance : a.instantiation? = none) :
    Consistent (past ++ [a]) (n.recordAssignment targets value) := by
  refine (counted_recordAssignment targets value).consistent h hsignal hbus ?_ ?_
  · intro x hx
    rcases List.mem_append.1 hx with hx | hx
    · exact h.targets x hx
    · obtain rfl := List.mem_singleton.1 hx
      exact htargets
  · simpa [recordAssignment, hinstance] using h.instances

/-- The nodes of the outputs are what is bound there, and the pins of the new instance elsewhere. -/
theorem answers_of_bindPins {e : Entity} {outputs : List Binding} {bound : List (Option Expr)}
    (h : bindPins .output e.label e.outputs outputs = .ok bound) (inst : Nat) :
    Answers e inst outputs ((bound.zip e.outputs).map fun (node, pin) => node.getD (.pin inst pin)) := by
  obtain ⟨hlength, -, hnodes⟩ := bindPins_ok h
  refine ⟨by simp [hlength], ?_⟩
  intro j node hnode
  simp only [List.getElem?_map, Option.map_eq_some_iff, List.getElem?_zip_eq_some, Prod.exists] at hnode
  obtain ⟨place, pin, ⟨hplace, hpin⟩, rfl⟩ := hnode
  cases place with
  | some node => exact .inl ((hnodes j node).1 hplace)
  | none =>
    refine .inr ⟨?_, pin, hpin, rfl⟩
    intro other hother
    have := hplace.symm.trans ((hnodes j other).2 hother)
    cases this

/-- An entity has been put into the circuit. -/
theorem Consistent.instantiated (h : Consistent past n) {y : Instantiated} {e : Entity}
    {taken bound : List (Option Expr)} (he : n.entity? y.reference = some e)
    (htaken : bindPins .input e.label e.inputs y.inputs = .ok taken)
    (hbound : bindPins .output e.label e.outputs y.outputs = .ok bound)
    (hbuses : y.buses.length ≤ e.buses.length)
    (hnodes : y.nodes = (bound.zip e.outputs).map fun (node, pin) => node.getD (.pin n.instances.length pin))
    (hsignal : a.signal? = none) (hbus : a.bus? = none) (hinstance : a.instantiation? = some y) :
    Consistent (past ++ [a]) (n.recordInstance e.label y.inputs y.outputs y.buses) := by
  obtain ⟨hmem, hreference⟩ := entity?_mem he
  refine (counted_recordInstance ..).consistent h hsignal hbus ?_ ?_
  · simpa [recordInstance] using h.targets
  · have hnew : Realizes e ⟨e.label, y.inputs, y.outputs, y.buses, n.current⟩ n.instances.length y :=
      { label := rfl
        reference := hreference
        bound := ⟨rfl, rfl, rfl⟩
        inputs := length_le_of_bindPins htaken
        outputs := length_le_of_bindPins hbound
        buses := hbuses
        nodes := hnodes ▸ answers_of_bindPins hbound n.instances.length }
    have hlast : [a].filterMap Answered.instantiation? = [y] := by simp [hinstance]
    simp only [recordInstance, List.zipIdx_append, List.filterMap_append, hlast]
    refine List.rel_append h.instances (.cons ⟨e, hmem, ?_⟩ .nil)
    simpa using hnew

/-! ### All calls -/

/-- **The step.** Whatever a consistent netlist is told, and whether it accepts it or not, it is
consistent afterwards. -/
theorem Consistent.perform {call : Call} {reply : call.Reply} (h : Consistent past n)
    (hcall : perform call n = .ok reply m) : Consistent (past ++ [⟨call, .ok reply⟩]) m := by
  have heffect := effect_of_perform hcall
  cases call with
  | constant kind text | encapsulate container items =>
    obtain ⟨-, rfl⟩ := heffect
    exact h.same rfl rfl rfl
  | applyOperator op arguments =>
    obtain ⟨-, -, rfl⟩ := heffect
    exact h.same rfl rfl rfl
  | useSignal name | declareSignal name =>
    obtain ⟨-, hfree, rfl⟩ := heffect
    exact h.signal hfree rfl rfl rfl
  | useBus name =>
    obtain ⟨-, hmem, rfl⟩ := heffect
    have hadd : addName name m.buses = m.buses := if_pos hmem
    simpa [hadd] using h.bus (fun hsignal => h.apart name hsignal hmem) rfl rfl rfl
  | declareBus name =>
    obtain ⟨-, hfree, rfl⟩ := heffect
    exact h.bus hfree rfl rfl rfl
  | assign targets value =>
    obtain ⟨htargets, rfl⟩ := heffect
    exact h.assigned htargets rfl rfl rfl
  | defineEntity e =>
    obtain ⟨hfree, rfl⟩ := heffect
    exact h.entity hfree rfl rfl rfl
  | beginArchitecture name entity =>
    obtain ⟨-, hfree, e, he, rfl⟩ := heffect
    exact h.architecture hfree (entity?_mem he).1 rfl rfl rfl
  | endArchitecture =>
    obtain ⟨-, rfl⟩ := heffect
    exact h.closed rfl rfl rfl
  | instantiate reference inputs outputs buses =>
    obtain ⟨e, bound, he, ⟨taken, htaken⟩, hbound, hbuses, hnodes, rfl⟩ := heffect
    exact h.instantiated (y := ⟨reference, inputs, outputs, buses, reply⟩) he htaken hbound hbuses hnodes
      rfl rfl rfl

theorem Consistent.refused {call : Call} {cause : BuildError} (h : Consistent past n)
    (hcall : Netlist.perform call n = .error cause m) :
    Consistent (past ++ [⟨call, .error cause⟩]) m := by
  obtain rfl := eq_of_refused hcall
  have hnothing : ∀ a : Answered, a.answer.isOk = false →
      a.signal? = none ∧ a.bus? = none ∧ a.instantiation? = none := by
    rintro ⟨call, answer⟩ ha
    cases answer with
    | ok reply => cases ha
    | error cause => cases call <;> exact ⟨rfl, rfl, rfl⟩
  obtain ⟨hsignal, hbus, hinstance⟩ := hnothing ⟨call, .error cause⟩ rfl
  exact h.same hsignal hbus hinstance

theorem Consistent.performNext {log : List Answered × Netlist} (h : Consistent log.1 log.2) (call : Call) :
    Consistent (performNext log call).1 (performNext log call).2 := by
  unfold Netlist.performNext
  split
  · next hcall => exact h.perform hcall
  · next hcall => exact h.refused hcall

/-- **A netlist is consistent whatever it has been told**, in whatever order, and whatever it has
refused of that. -/
theorem consistent_of_performAll (calls : List Call) :
    let (past, n) := performAll calls
    Consistent past n ∧ n.signals.Nodup ∧ n.buses.Nodup := by
  have h : Consistent (performAll calls).1 (performAll calls).2 :=
    List.foldlRecOn (motive := fun log => Consistent log.1 log.2) calls performNext consistent_fresh
      fun _ hlog call _ => hlog.performNext call
  exact ⟨h, h.signals ▸ nodup_eraseDups _, h.buses ▸ nodup_eraseDups _⟩

/-- Two adders, where the sum of the second one is bound to the carry of the first one. -/
def chainedAdders : List Call :=
  [ .defineEntity
      { label := "Adder", symbol := "+", form := .infixLeft, precedence := 20,
        inputs := ["a", "b"], outputs := ["sum", "carry"], buses := ["clk"] },
    .instantiate "Adder" [] [] [],
    .instantiate "Adder" [] [⟨some "sum", .pin 0 "carry"⟩] [] ]

/-- What is bound to an output is answered as it is: the node may be a pin, and it need not be one of
the new instance. -/
theorem bound_pin_answered : ¬ ∀ calls i y,
    ((performAll calls).1.filterMap Answered.instantiation?)[i]? = some y →
      ∀ inst name, Expr.pin inst name ∈ y.nodes → inst = i := by
  intro h
  have hnodes : ((performAll chainedAdders).1.filterMap Answered.instantiation?)[1]? =
      some ⟨"Adder", [], [⟨some "sum", .pin 0 "carry"⟩], [], [.pin 0 "carry", .pin 1 "carry"]⟩ := by
    decide +kernel
  exact absurd (h chainedAdders 1 _ hnodes 0 "carry" (by simp)) (by decide)

end Netlist

end Dataflow.Circuit
