import Dataflow.Proofs.Telling

/-!
# Dataflow.Proofs.Recording

**The netlist keeps what the parser answers.** A parser returns the statements of a text, and its netlist
is told about them while they are read; here the two accounts are compared. Taken in the order of the
text, bodies behind the architectures they belong to, the statements are the assignments, the instances,
the entities and the architectures that a fresh netlist has recorded when all of the text has been read
(`Netlist.Records`).

What a reference to an entity denotes depends on the entities defined in front of it. So each statement is
looked at in its situation (`Situated`): with these entities, and with the architecture around it.

Only a body counts, and inside a body no architecture begins: the netlist refuses that. So the induction
is done twice, over the statements of a body and over those outside of all bodies, with one step lemma for
what both have in common.
-/

namespace Dataflow

open Reading

namespace Circuit

/-! ### A program in the order of its text -/

mutual

/-- A statement and, for an architecture, the statements of its body behind it, each with the
architecture in whose body it is. -/
def Statement.flat (inside : Option String) : Statement → List (Option String × Statement)
  | .architecture name reference body =>
    (inside, .architecture name reference body) :: Statement.flatAll (some name) body
  | .entity e => [(inside, .entity e)]
  | .instantiation reference outputs => [(inside, .instantiation reference outputs)]
  | .signals nodes => [(inside, .signals nodes)]
  | .buses nodes => [(inside, .buses nodes)]
  | .assignment targets value => [(inside, .assignment targets value)]
  | .expression value => [(inside, .expression value)]

/-- Several statements, in order. -/
def Statement.flatAll (inside : Option String) : List Statement → List (Option String × Statement)
  | [] => []
  | statement :: rest => Statement.flat inside statement ++ Statement.flatAll inside rest

end

/-- The assignment that a statement is. -/
def assignment? : Option String × Statement → Option Assignment
  | (inside, .assignment targets value) => some { targets, value, architecture := inside }
  | _ => none

/-- The entity that a statement defines. -/
def definition? : Option String × Statement → Option Entity
  | (_, .entity e) => some e
  | _ => none

/-- Whether the statement is counted for the architecture around it. -/
def Statement.counts : Statement → Bool
  | .assignment .. | .instantiation .. => true
  | _ => false

def Statement.isInstantiation : Statement → Bool
  | .instantiation .. => true
  | _ => false

def Statement.isArchitecture : Statement → Bool
  | .architecture .. => true
  | _ => false

/-- A statement with the entities that are defined in front of it and the architecture around it. -/
structure Situated where
  known : List Entity
  inside : Option String
  statement : Statement

/-- Every statement in its situation, where some entities are known at the start. -/
def situated (known : List Entity) : List (Option String × Statement) → List Situated
  | [] => []
  | item :: rest => ⟨known, item.1, item.2⟩ :: situated (known ++ (definition? item).toList) rest

/-- A reference denotes the entity of this label. -/
def Denotes (known : List Entity) (reference label : String) : Prop :=
  ∃ e, Netlist.entity? { entities := known } reference = some e ∧ e.label = label

/-- The statement is the instantiation that the instance has been recorded for. -/
def Instantiates (i : Situated) (x : Instance) : Prop :=
  match i.statement with
  | .instantiation reference _ => Denotes i.known reference x.entity ∧ x.architecture = i.inside
  | _ => False

/-- The statement is the definition that the architecture has been recorded for, with the number of
assignments and instances in its body. -/
def Implements (i : Situated) (a : Architecture) : Prop :=
  match i.statement with
  | .architecture name reference body =>
    a.name = name ∧ Denotes i.known reference a.entity ∧ a.statements = body.countP Statement.counts
  | _ => False

/-- The netlist has recorded these statements, and nothing else. -/
structure Netlist.Records (n : Netlist) (statements : List Statement) : Prop where
  assignments : n.assignments = (Statement.flatAll none statements).filterMap assignment?
  instances : List.Forall₂ Instantiates
    ((situated [] (Statement.flatAll none statements)).filter (·.statement.isInstantiation)) n.instances
  entities : n.entities = (Statement.flatAll none statements).filterMap definition?
  labels : (n.entities.map Entity.label).Nodup
  architectures : List.Forall₂ Implements
    ((situated [] (Statement.flatAll none statements)).filter (·.statement.isArchitecture))
    n.architectures
  closed : n.current = none

@[simp] theorem situated_append (known : List Entity) (items more : List (Option String × Statement)) :
    situated known (items ++ more) =
      situated known items ++ situated (known ++ items.filterMap definition?) more := by
  induction items generalizing known with
  | nil => simp [situated]
  | cons item items ih =>
    cases hitem : definition? item <;> simp [situated, ih, hitem]

/-- The call asks for a node, or declares one. -/
def Call.isNode (call : Call) : Bool :=
  match call with
  | .declareSignal _ | .declareBus _ => true
  | _ => call.node?.isSome

/-- All calls that only build trees ask for nodes. -/
theorem Turns.isNode {first second : List Expr} {calls : List Call} (h : Turns first calls second) :
    ∀ call ∈ calls, call.isNode = true := by
  intro call hcall
  have hmem : call.node? ∈ (Expr.postorderAll second).map some := by
    rw [← h]
    exact List.mem_append_right _ (List.mem_map_of_mem hcall)
  obtain ⟨e, -, he⟩ := List.mem_map.1 hmem
  unfold Call.isNode
  rw [← he]
  split <;> rfl

namespace Netlist

variable {n m k : Netlist}

/-! ### Calls that leave the record alone -/

/-- Nothing is recorded between the two netlists; signals and buses aside. -/
structure SameRecord (n m : Netlist) : Prop where
  entities : m.entities = n.entities
  architectures : m.architectures = n.architectures
  current : m.current = n.current
  assignments : m.assignments = n.assignments
  instances : m.instances = n.instances

theorem SameRecord.refl (n : Netlist) : SameRecord n n := ⟨rfl, rfl, rfl, rfl, rfl⟩

theorem SameRecord.trans (h : SameRecord n m) (h' : SameRecord m k) : SameRecord n k where
  entities := h'.entities.trans h.entities
  architectures := h'.architectures.trans h.architectures
  current := h'.current.trans h.current
  assignments := h'.assignments.trans h.assignments
  instances := h'.instances.trans h.instances

/-- A call that asks for a node or declares one records nothing. -/
theorem SameRecord.of_effect {call : Call} {reply : call.Reply} (hnode : call.isNode = true)
    (h : Effect call n reply m) : SameRecord n m := by
  cases call with
  | constant | encapsulate =>
    obtain ⟨-, rfl⟩ := h
    exact .refl _
  | applyOperator | useBus =>
    obtain ⟨-, -, rfl⟩ := h
    exact .refl _
  | useSignal | declareSignal | declareBus =>
    obtain ⟨-, -, rfl⟩ := h
    exact ⟨rfl, rfl, rfl, rfl, rfl⟩
  | _ => cases hnode

theorem SameRecord.of_performs {calls : List Call} (hnodes : ∀ call ∈ calls, call.isNode = true)
    (h : Performs n calls m) : SameRecord n m := by
  induction h with
  | nil n => exact .refl n
  | cons hcall _ ih =>
    refine (SameRecord.of_effect (hnodes _ (by simp)) (effect_of_perform hcall)).trans (ih ?_)
    intro call hmem
    exact hnodes call (List.mem_cons_of_mem _ hmem)

/-! ### One statement -/

/-- Between the two netlists, everything but the architectures has been recorded of the statements. -/
structure Extends (n : Netlist) (items : List (Option String × Statement)) (m : Netlist) : Prop where
  assignments : m.assignments = n.assignments ++ items.filterMap assignment?
  instances : ∃ new, m.instances = n.instances ++ new ∧ List.Forall₂ Instantiates
    ((situated n.entities items).filter (·.statement.isInstantiation)) new
  entities : m.entities = n.entities ++ items.filterMap definition?
  labels : (n.entities.map Entity.label).Nodup → (m.entities.map Entity.label).Nodup

theorem Extends.nil (n : Netlist) : Extends n [] n :=
  ⟨by simp, ⟨[], by simp, by simp [situated]⟩, by simp, id⟩

theorem Extends.trans {items more : List (Option String × Statement)} (h : Extends n items m)
    (h' : Extends m more k) : Extends n (items ++ more) k where
  assignments := by rw [h'.assignments, h.assignments, List.filterMap_append, List.append_assoc]
  instances := by
    obtain ⟨new, hnew, hall⟩ := h.instances
    obtain ⟨new', hnew', hall'⟩ := h'.instances
    refine ⟨new ++ new', by rw [hnew', hnew, List.append_assoc], ?_⟩
    rw [situated_append, List.filter_append, ← h.entities]
    exact List.rel_append hall hall'
  entities := by rw [h'.entities, h.entities, List.filterMap_append, List.append_assoc]
  labels := h'.labels ∘ h.labels

/-- Statements of which nothing is recorded. -/
theorem SameRecord.extends (h : SameRecord n m) {item : Option String × Statement}
    (hassignment : assignment? item = none) (hentity : definition? item = none)
    (hinstantiation : item.2.isInstantiation = false) : Extends n [item] m where
  assignments := by simp [h.assignments, hassignment]
  instances := ⟨[], by simp [h.instances], by simp [situated, hinstantiation]⟩
  entities := by simp [h.entities, hentity]
  labels := by rw [h.entities]; exact id

/-- The architecture of the given name is credited with further statements. -/
def credited (name : String) (count : Nat) (a : Architecture) : Architecture :=
  if a.name = name then { a with statements := a.statements + count } else a

theorem countStatement_architectures (n : Netlist) :
    n.countStatement.architectures =
      match n.current with
      | none => n.architectures
      | some name => n.architectures.map (credited name 1) := by
  unfold countStatement
  cases n.current <;> rfl

/-- What a statement does to the netlist that is not a definition of an architecture. -/
structure Recorded (n : Netlist) (statement : Statement) (m : Netlist) : Prop where
  extend : Extends n [(n.current, statement)] m
  current : m.current = n.current
  architectures : m.architectures =
    if statement.counts then n.countStatement.architectures else n.architectures

theorem SameRecord.recorded (h : SameRecord n m) {statement : Statement}
    (hassignment : assignment? (n.current, statement) = none)
    (hdefinition : definition? (n.current, statement) = none) (hcounts : statement.counts = false)
    (hinstantiation : statement.isInstantiation = false) : Recorded n statement m where
  extend := h.extends hassignment hdefinition hinstantiation
  current := h.current
  architectures := by simp [hcounts, h.architectures]

section Counting

@[simp] theorem countStatement_entities (n : Netlist) : n.countStatement.entities = n.entities := by
  unfold countStatement
  cases n.current <;> rfl

@[simp] theorem countStatement_current (n : Netlist) : n.countStatement.current = n.current := by
  unfold countStatement
  cases hcurrent : n.current <;> simp [hcurrent]

@[simp] theorem countStatement_assignments (n : Netlist) :
    n.countStatement.assignments = n.assignments := by
  unfold countStatement
  cases n.current <;> rfl

@[simp] theorem countStatement_instances (n : Netlist) :
    n.countStatement.instances = n.instances := by
  unfold countStatement
  cases n.current <;> rfl

/-- Counting looks only at the architectures and at which of them is open. -/
theorem SameRecord.countStatement (h : SameRecord n m) :
    m.countStatement.architectures = n.countStatement.architectures := by
  rw [countStatement_architectures, countStatement_architectures, h.current, h.architectures]

end Counting

/-- What a reference denotes depends on the entities only. -/
theorem denotes_of_entity? {reference : String} {e : Entity} (h : n.entity? reference = some e) :
    Denotes n.entities reference e.label := ⟨e, h, rfl⟩

theorem recorded_of_assign {targets : List Expr} {value : Expr} (h : SameRecord n m) :
    Recorded n (.assignment targets value) (m.recordAssignment targets value) where
  extend := {
    assignments := by simp [recordAssignment, assignment?, h.assignments, h.current]
    instances := ⟨[], by simp [recordAssignment, h.instances],
      by simp [situated, Statement.isInstantiation]⟩
    entities := by simp [recordAssignment, definition?, h.entities]
    labels := by simp [recordAssignment, h.entities] }
  current := by simp [recordAssignment, h.current]
  architectures := by simp [recordAssignment, Statement.counts, h.countStatement]

theorem recorded_of_instantiate {reference : String} {e : Entity} {nodes : List Expr}
    {inputs outputs : List Binding} {buses : List Expr} (h : SameRecord n m)
    (hentity : m.entity? reference = some e) : Recorded n (.instantiation reference nodes)
      (m.recordInstance e.label inputs outputs buses) where
  extend := {
    assignments := by simp [recordInstance, assignment?, h.assignments]
    instances := by
      refine ⟨_, by rw [recordInstance, h.instances], ?_⟩
      have hdenotes := denotes_of_entity? hentity
      rw [h.entities] at hdenotes
      simpa [situated, Statement.isInstantiation, Instantiates, h.current] using hdenotes
    entities := by simp [recordInstance, definition?, h.entities]
    labels := by simp [recordInstance, h.entities] }
  current := by simp [recordInstance, h.current]
  architectures := by simp [recordInstance, Statement.counts, h.countStatement]

theorem recorded_of_define {e : Entity} (hfresh : ∀ d ∈ n.entities, d.label ≠ e.label) :
    Recorded n (.entity e) { n with entities := n.entities ++ [e] } where
  extend := {
    assignments := by simp [assignment?]
    instances := ⟨[], by simp, by simp [situated, Statement.isInstantiation]⟩
    entities := by simp [definition?]
    labels := by
      intro hnodup
      rw [List.map_append, List.nodup_append]
      refine ⟨hnodup, by simp, ?_⟩
      intro label hlabel other hother
      obtain ⟨d, hd, rfl⟩ := List.mem_map.1 hlabel
      obtain rfl : other = e.label := by simpa using hother
      exact hfresh d hd }
  current := rfl
  architectures := rfl

/-- **The step.** Calls of a statement that defines no architecture. -/
theorem recorded_of_calls {statement : Statement} {calls : List Call}
    (hcalls : Statement.Calls statement calls) (hplain : statement.isArchitecture = false)
    (h : Performs n calls m) : Recorded n statement m := by
  cases hcalls with
  | entity e =>
    cases h with
    | cons hcall rest =>
      cases rest
      obtain ⟨hfresh, rfl⟩ := effect_of_perform hcall
      exact recorded_of_define hfresh
  | architecture => cases hplain
  | instantiation reference nodes hturns =>
    obtain ⟨n₁, hfirst, hlast⟩ := h.split
    have hsame := SameRecord.of_performs hturns.isNode hfirst
    cases hlast with
    | cons hcall rest =>
      cases rest
      obtain ⟨e, bound, hentity, -, -, -, -, rfl⟩ := effect_of_perform hcall
      exact recorded_of_instantiate hsame hentity
  | signals names =>
    refine (SameRecord.of_performs ?_ h).recorded rfl rfl rfl rfl
    simp [Call.isNode]
  | buses names =>
    refine (SameRecord.of_performs ?_ h).recorded rfl rfl rfl rfl
    simp [Call.isNode]
  | assignment names hturns =>
    obtain ⟨n₁, hfirst, hlast⟩ := h.split
    have hturns' := (Turns.names Turns.signal names).append hturns
    have hsame := SameRecord.of_performs hturns'.isNode hfirst
    cases hlast with
    | cons hcall rest =>
      cases rest
      obtain ⟨-, rfl⟩ := effect_of_perform hcall
      exact recorded_of_assign hsame
  | expression hturns => exact (SameRecord.of_performs hturns.isNode h).recorded rfl rfl rfl rfl

/-! ### Bodies -/

theorem credited_zero (name : String) : credited name 0 = id := by
  funext a
  simp [credited]

theorem credited_credited (name : String) (first second : Nat) (a : Architecture) :
    credited name second (credited name first a) = credited name (first + second) a := by
  by_cases ha : a.name = name <;> simp [credited, ha, Nat.add_assoc]

/-- A statement that is no architecture stands alone. -/
theorem flat_of_plain {statement : Statement} (h : statement.isArchitecture = false)
    (inside : Option String) : Statement.flat inside statement = [(inside, statement)] := by
  cases statement with
  | architecture => cases h
  | _ => rfl

/-- Inside a body no architecture begins. -/
theorem plain_of_open {statement : Statement} {calls : List Call} {name : String}
    (hcalls : Statement.Calls statement calls) (hopen : n.current = some name)
    (h : Performs n calls m) : statement.isArchitecture = false := by
  cases hcalls with
  | architecture inner reference hbody =>
    cases h with
    | cons hcall rest =>
      obtain ⟨hclosed, -⟩ := effect_of_perform hcall
      rw [hopen] at hclosed
      cases hclosed
  | _ => rfl

/-- The run of the statements of a body. The open architecture is credited with those that count. -/
theorem body_extends {name : String} {body : List Statement} {calls : List Call}
    (hcalls : Statement.AllCalls body calls) (hopen : n.current = some name)
    (h : Performs n calls m) :
    Extends n (Statement.flatAll (some name) body) m ∧ m.current = some name ∧
      m.architectures = n.architectures.map (credited name (body.countP Statement.counts)) ∧
      ∀ item ∈ Statement.flatAll (some name) body, item.2.isArchitecture = false := by
  induction body generalizing n calls with
  | nil =>
    cases hcalls
    cases h
    exact ⟨.nil _, hopen, by simp [credited_zero], by simp [Statement.flatAll]⟩
  | cons statement body ih =>
    cases hcalls with
    | cons hfirst hrest =>
      obtain ⟨n₁, hperforms, hperforms'⟩ := h.split
      have hplain := plain_of_open hfirst hopen hperforms
      have hstep := recorded_of_calls hfirst hplain hperforms
      have hextend := hstep.extend
      rw [hopen] at hextend
      obtain ⟨hextend', hopen', harchitectures, hall⟩ := ih hrest (hstep.current.trans hopen) hperforms'
      refine ⟨?_, hopen', ?_, ?_⟩
      · rw [Statement.flatAll, flat_of_plain hplain]
        exact hextend.trans hextend'
      · rw [harchitectures, hstep.architectures, countStatement_architectures, hopen]
        cases hcounts : statement.counts
        · simp [hcounts]
        · simp [hcounts, credited_credited, Nat.add_comm]
      · intro item hitem
        rw [Statement.flatAll, flat_of_plain hplain] at hitem
        rcases List.mem_cons.1 hitem with rfl | hitem
        · exact hplain
        · exact hall item hitem

/-! ### Programs -/

/-- Outside of all bodies: what has been recorded, with the architectures. -/
structure Grows (n : Netlist) (items : List (Option String × Statement)) (m : Netlist) : Prop where
  extend : Extends n items m
  closed : m.current = none
  architectures : ∃ new, m.architectures = n.architectures ++ new ∧ List.Forall₂ Implements
    ((situated n.entities items).filter (·.statement.isArchitecture)) new

theorem Grows.trans {items more : List (Option String × Statement)} (h : Grows n items m)
    (h' : Grows m more k) : Grows n (items ++ more) k where
  extend := h.extend.trans h'.extend
  closed := h'.closed
  architectures := by
    obtain ⟨new, hnew, hall⟩ := h.architectures
    obtain ⟨new', hnew', hall'⟩ := h'.architectures
    refine ⟨new ++ new', by rw [hnew', hnew, List.append_assoc], ?_⟩
    rw [situated_append, List.filter_append, ← h.extend.entities]
    exact List.rel_append hall hall'

/-- Nothing in a situated list is an architecture if nothing in the list is. -/
theorem filter_situated {items : List (Option String × Statement)} (known : List Entity)
    (h : ∀ item ∈ items, item.2.isArchitecture = false) :
    (situated known items).filter (·.statement.isArchitecture) = [] := by
  induction items generalizing known with
  | nil => rfl
  | cons item items ih =>
    have hrest := ih (known ++ (definition? item).toList)
      fun other hother => h other (List.mem_cons_of_mem _ hother)
    simpa [situated, h item (by simp)] using hrest

/-- No other architecture is credited than the one that has just begun. -/
theorem credited_of_fresh {name label : String} (hfresh : n.architecture? name = none) (count : Nat) :
    (n.openArchitecture name label).architectures.map (credited name count) =
      n.architectures ++ [{ name, entity := label, statements := count }] := by
  have hother : n.architectures.map (credited name count) = n.architectures := by
    refine (List.map_congr_left fun a ha => ?_).trans (List.map_id _)
    have hne : a.name ≠ name := by simpa using List.find?_eq_none.1 hfresh a ha
    simp [credited, hne]
  simp [openArchitecture, hother, credited]

theorem grows_of_architecture {name reference : String} {body : List Statement} {inner : List Call}
    (hinner : Statement.AllCalls body inner)
    (h : Performs n (.beginArchitecture name reference :: inner ++ [.endArchitecture]) m) :
    Grows n (Statement.flat none (.architecture name reference body)) m := by
  cases h with
  | cons hbegin rest =>
    obtain ⟨hclosed, hfresh, e, hentity, rfl⟩ := effect_of_perform hbegin
    obtain ⟨n₁, hbody, hlast⟩ := rest.split
    obtain ⟨hextend, hopen, harchitectures, hplain⟩ := body_extends hinner rfl hbody
    rw [credited_of_fresh hfresh] at harchitectures
    cases hlast with
    | cons hend rest =>
      cases rest
      obtain ⟨-, rfl⟩ := effect_of_perform hend
      have hbegun : Extends n [(none, .architecture name reference body)]
          (n.openArchitecture name e.label) :=
        ⟨by simp [openArchitecture, assignment?], ⟨[], by simp [openArchitecture],
          by simp [situated, Statement.isInstantiation]⟩,
          by simp [openArchitecture, definition?], id⟩
      have hall := hbegun.trans hextend
      refine ⟨⟨hall.assignments, hall.instances, hall.entities, hall.labels⟩, rfl, _, harchitectures, ?_⟩
      rw [Statement.flat, situated, List.filter_cons_of_pos rfl, filter_situated _ hplain]
      exact .cons ⟨rfl, denotes_of_entity? hentity, rfl⟩ .nil

theorem grows_of_calls {statement : Statement} {calls : List Call}
    (hcalls : Statement.Calls statement calls) (hclosed : n.current = none) (h : Performs n calls m) :
    Grows n (Statement.flat none statement) m := by
  by_cases harchitecture : statement.isArchitecture = true
  · cases hcalls with
    | architecture name reference hinner => exact grows_of_architecture hinner h
    | _ => cases harchitecture
  · have hplain : statement.isArchitecture = false := by simpa using harchitecture
    have hstep := recorded_of_calls hcalls hplain h
    have hextend := hstep.extend
    rw [hclosed] at hextend
    rw [flat_of_plain hplain]
    refine ⟨hextend, hstep.current.trans hclosed, [], ?_, ?_⟩
    · rw [hstep.architectures, countStatement_architectures, hclosed]
      simp
    · simp [situated, hplain]

/-- The run of all statements of a program. -/
theorem grows_of_allCalls {statements : List Statement} {calls : List Call}
    (hcalls : Statement.AllCalls statements calls) (hclosed : n.current = none)
    (h : Performs n calls m) : Grows n (Statement.flatAll none statements) m := by
  induction statements generalizing n calls with
  | nil =>
    cases hcalls
    cases h
    exact ⟨.nil _, hclosed, [], by simp, by simp [Statement.flatAll, situated]⟩
  | cons statement statements ih =>
    cases hcalls with
    | cons hfirst hrest =>
      obtain ⟨n₁, hperforms, hperforms'⟩ := h.split
      have hstep := grows_of_calls hfirst hclosed hperforms
      exact hstep.trans (ih hrest hstep.closed hperforms')

end Netlist

end Circuit

namespace Parser

open Circuit

variable {σ : Type} [Source σ Char]

/-- **The answer and the record agree.** Where all of a text is read, the fresh netlist has recorded
exactly the statements that are answered: their assignments, instances and entities in order, each with
the architecture around it, and their architectures, each with the number of assignments and instances in
its body. What an instance or an architecture refers to is the label of the entity that the reference
denoted at that place of the text, no label is defined twice, and no architecture is left open. -/
theorem records_of_parseAll {source : σ} {dialect : Lexer.Dialect} {table : Operator.Table}
    {statements : List Statement} {t : Session σ}
    (h : parseAll (Session.ofSource source dialect table) = .ok statements t) :
    t.netlist.Records statements := by
  obtain ⟨calls, htold, hcalls⟩ := (parseAll_tells _).of_ok h
  obtain ⟨hextend, hclosed, new, hnew, hall⟩ := Netlist.grows_of_allCalls hcalls rfl htold.performs
  obtain ⟨instances, hinstances, hinstantiates⟩ := hextend.instances
  exact {
    assignments := hextend.assignments
    instances := by rw [hinstances]; exact hinstantiates
    entities := hextend.entities
    labels := hextend.labels .nil
    architectures := by rw [hnew]; exact hall
    closed := hclosed }

/-- Two entities, of which the second one is referred to by its symbol inside a body, and an instance
and an assignment outside. -/
theorem records_of_body_and_instance : ∃ (source : Items Char) (statements : List Statement)
    (t : Session (Items Char)), statements = [.entity ⟨"Inc", "inc", .function, 0, ["a"], ["s"], []⟩,
      .architecture "Body" "Inc" [.entity ⟨"Dec", "dec", .function, 0, [], ["d"], []⟩,
        .assignment [.signal "s"] (.signal "a"), .instantiation "dec" [.signal "u"]],
      .instantiation "Inc" [.pin 1 "s"], .assignment [.signal "v"] (.apply "Inc" [.signal "u"])] ∧
    parseAll (Session.ofSource source {} .standard) = .ok statements t ∧ t.netlist.Records statements := by
  have h := Run.eq_ok_of_answer? (r := parseAll (Session.ofSource (Items.ofText
    "define entity Inc inc none in a out s; define architecture Body Inc {define entity Dec dec none out d;
      s <- a; instantiate dec out u}; instantiate Inc; v <- inc(u)") {} .standard))
    (a := [.entity ⟨"Inc", "inc", .function, 0, ["a"], ["s"], []⟩,
      .architecture "Body" "Inc" [.entity ⟨"Dec", "dec", .function, 0, [], ["d"], []⟩,
        .assignment [.signal "s"] (.signal "a"), .instantiation "dec" [.signal "u"]],
      .instantiation "Inc" [.pin 1 "s"], .assignment [.signal "v"] (.apply "Inc" [.signal "u"])])
    (by decide +kernel)
  exact ⟨_, _, _, rfl, h, records_of_parseAll h⟩

end Parser

end Dataflow
