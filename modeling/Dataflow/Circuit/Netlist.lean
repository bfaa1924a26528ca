import Dataflow.Circuit.BuildError

/-!
# Dataflow.Circuit.Netlist

The record of a dataflow circuit under construction: the signals and buses in use, the entities and
architectures defined, and what has been assigned and instantiated. Nothing is computed with the
circuit; the netlist checks that names, pins and nesting fit together and keeps what it was told.

* `Netlist` — the record, every list in the order in which its members came;
* `Netlist.Change` — a change of a netlist that can be refused, for a `BuildError`;
* `Netlist.entity?` — an entity by its label or else by its symbol;
* `bindPins` — which node each pin of one side gets;
* one `Change` for each thing that a netlist can be told, such as `Netlist.assign` or
  `Netlist.instantiate`. Each checks everything before it records anything.
-/

namespace Dataflow.Circuit

/-- What an architecture implements, and how many assignments and instances its body holds. -/
structure Architecture where
  name : String
  entity : String
  statements : Nat := 0
deriving DecidableEq

/-- Signals driven by a value, and the architecture in whose body they are. -/
structure Assignment where
  targets : List Expr
  value : Expr
  architecture : Option String
deriving DecidableEq

/-- An entity put into the circuit, and the architecture in whose body it is. -/
structure Instance where
  entity : String
  inputs : List Binding
  outputs : List Binding
  buses : List Expr
  architecture : Option String
deriving DecidableEq

/-- A dataflow circuit as far as it has been described. -/
structure Netlist where
  signals : List String := []
  buses : List String := []
  entities : List Entity := []
  architectures : List Architecture := []
  /-- The architecture whose body is being described. -/
  current : Option String := none
  assignments : List Assignment := []
  instances : List Instance := []
deriving DecidableEq

/-- The list with `name` at its end, if it was not in the list before. -/
def addName (name : String) (names : List String) : List String :=
  if name ∈ names then names else names ++ [name]

@[simp] theorem mem_addName {name other : String} {names : List String} :
    other ∈ addName name names ↔ other = name ∨ other ∈ names := by
  unfold addName
  split
  · simp_all
  · simp [or_comm]

theorem nodup_addName {name : String} {names : List String} (h : names.Nodup) :
    (addName name names).Nodup := by
  unfold addName
  split
  · exact h
  · next hn =>
    rw [List.nodup_append]
    exact ⟨h, by simp, fun a ha b hb => by rintro rfl; simp at hb; exact hn (hb ▸ ha)⟩

/-- Puts a value at one place of a list of places that may be free, or says that the place is
taken. -/
def bindAt (value : Expr) : Nat → List (Option Expr) → Option (List (Option Expr))
  | _, [] => none
  | 0, none :: rest => some (some value :: rest)
  | 0, some _ :: _ => none
  | i + 1, place :: rest => (bindAt value i rest).map (place :: ·)

/-- Binds nodes to the pins of one side of an entity and returns, for every pin in order, the
node that it gets. A binding with a label goes to the first pin of that name; the ones without a
label go to the first pin, the second pin and so on, whatever the labelled ones take. No pin
gets two nodes. `given` is the number of all the bindings, which the message for a binding
without a pin mentions. -/
def bindPinsFrom (side : Side) (entity : String) (pins : List String) (given : Nat) :
    List Binding → Nat → List (Option Expr) → Except BuildError (List (Option Expr))
  | [], _, bound => .ok bound
  | b :: rest, next, bound =>
    let target : Except BuildError (Nat × Nat) :=
      match b.label with
      | none => .ok (next, next + 1)
      | some label =>
        match pins.idxOf? label with
        | some i => .ok (i, next)
        | none => .error (.noPin entity side label)
    match target with
    | .error e => .error e
    | .ok (i, next) =>
      match pins[i]? with
      | none => .error (.pinCount entity pins.length side given)
      | some pin =>
        match bindAt b.value i bound with
        | none => .error (.pinTwice side pin entity)
        | some bound => bindPinsFrom side entity pins given rest next bound

/-- Binds nodes to all the pins of one side of an entity. -/
def bindPins (side : Side) (entity : String) (pins : List String) (bindings : List Binding) :
    Except BuildError (List (Option Expr)) :=
  bindPinsFrom side entity pins bindings.length bindings 0 (pins.map fun _ => none)

namespace Netlist

/-- A change of a netlist with an answer, or a refusal. -/
abbrev Change := EStateM BuildError Netlist

/-- Refuses the change. -/
def refuse {α : Type} (e : BuildError) : Change α := throw e

/-- The entity of the given label or, if no label fits, the first one of that symbol. -/
def entity? (n : Netlist) (name : String) : Option Entity :=
  (n.entities.find? (fun e => e.label = name)).or (n.entities.find? (fun e => e.symbol = name))

def architecture? (n : Netlist) (name : String) : Option Architecture :=
  n.architectures.find? (fun a => a.name = name)

/-- Counts one more statement of the architecture being described, if there is one. -/
def countStatement (n : Netlist) : Netlist :=
  match n.current with
  | none => n
  | some name =>
    { n with
      architectures := n.architectures.map fun a =>
        if a.name = name then { a with statements := a.statements + 1 } else a }

/-- A constant, which is always accepted. -/
def constant (kind : ConstantKind) (text : String) : Change Expr :=
  return .constant kind text

/-- An operator applied to operands. Where the netlist knows the entity and its inputs, their
number has to fit. -/
def applyOperator (op : Operator) (arguments : List Expr) : Change Expr := do
  if let some e := (← get).entity? op.entity then
    if e.inputs ≠ [] ∧ e.inputs.length ≠ arguments.length then
      refuse (.inputCount e.label e.inputs.length arguments.length)
  return .apply op.entity arguments

/-- The items of a bracketed group, which are always accepted. -/
def encapsulate (container : Container) (items : List Expr) : Change Expr :=
  return .group container items

/-- A signal by name, which comes into being on first use. -/
def useSignal (name : String) : Change Expr := do
  if name ∈ (← get).buses then
    refuse (.busNotSignal name)
  modify fun n => { n with signals := addName name n.signals }
  return .signal name

/-- A bus by name, which has to be declared before. -/
def useBus (name : String) : Change Expr := do
  if name ∉ (← get).buses then
    refuse (.unknownBus name)
  return .bus name

/-- Declares a signal. -/
def declareSignal (name : String) : Change Expr := do
  if name ∈ (← get).buses then
    refuse (.declaredAsBus name)
  modify fun n => { n with signals := addName name n.signals }
  return .signal name

/-- Declares a bus. -/
def declareBus (name : String) : Change Expr := do
  if name ∈ (← get).signals then
    refuse (.declaredAsSignal name)
  modify fun n => { n with buses := addName name n.buses }
  return .bus name

/-- Drives signals from a value. -/
def assign (targets : List Expr) (value : Expr) : Change Unit := do
  if let some node := targets.find? (fun t => !t.isSignal) then
    refuse (.notAssignable node)
  modify fun n =>
    { n.countStatement with
      assignments := n.assignments ++ [{ targets, value, architecture := n.current }] }

/-- Defines an entity under a new label. -/
def defineEntity (e : Entity) : Change Unit := do
  if (← get).entities.any (fun d => d.label = e.label) then
    refuse (.entityDefined e.label)
  modify fun n => { n with entities := n.entities ++ [e] }

/-- Opens the body of an architecture of a defined entity. -/
def beginArchitecture (name entity : String) : Change Unit := do
  let n ← get
  if let some outer := n.current then
    refuse (.nestedArchitecture name outer)
  let some e := n.entity? entity | refuse (.architectureOfUnknown name entity)
  if (n.architecture? name).isSome then
    refuse (.architectureDefined name)
  modify fun n =>
    { n with
      architectures := n.architectures ++ [{ name, entity := e.label }]
      current := some name }

/-- Closes the body of the open architecture. -/
def endArchitecture : Change Unit := do
  if (← get).current.isNone then
    refuse .noOpenArchitecture
  modify fun n => { n with current := none }

/-- Puts an entity into the circuit and returns the nodes of its outputs: what is bound to an
output pin, or else the pin itself. -/
def instantiate (entity : String) (inputs outputs : List Binding) (buses : List Expr) :
    Change (List Expr) := do
  let n ← get
  let some e := n.entity? entity | refuse (.instanceOfUnknown entity)
  match bindPins .input e.label e.inputs inputs with
  | .error cause => refuse cause
  | .ok _ =>
    match bindPins .output e.label e.outputs outputs with
    | .error cause => refuse cause
    | .ok bound =>
      if e.buses.length < buses.length then
        refuse (.busCount e.label e.buses.length buses.length)
      modify fun n =>
        { n.countStatement with
          instances := n.instances ++
            [{ entity := e.label, inputs, outputs, buses, architecture := n.current }] }
      return (bound.zip e.outputs).map fun (node, pin) =>
        node.getD (.pin n.instances.length pin)

end Netlist

end Dataflow.Circuit
