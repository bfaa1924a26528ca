import Dataflow.Circuit.Call

/-!
# Dataflow.Proofs.Effects

**What a netlist does with a call that it accepts.** Every call is told here by its answer, by what
has to hold of the netlist for it not to be refused, and by the netlist behind it (`Netlist.Effect`);
nothing else needs to know how the checks are made.

* `Netlist.applyOperator_apply` and its like — what each change is for a given netlist, its checks first;
* `Netlist.perform_cases` — the one case distinction over `Netlist.perform`: a call is refused or has its
  effect. `effect_of_perform` and `eq_of_refused` are the two halves of it;
* `Netlist.Performs` — a number of calls, none of them refused.
-/

namespace Dataflow.Circuit.Netlist

theorem get_bind_apply {α : Type} (f : Netlist → Change α) (n : Netlist) : (get >>= f) n = f n n := rfl

/-- The netlist with one more statement recorded for the architecture being described. -/
def recordAssignment (n : Netlist) (targets : List Expr) (value : Expr) : Netlist :=
  { n.countStatement with
    assignments := n.assignments ++ [{ targets, value, architecture := n.current }] }

/-- The netlist with an instance of an entity of the given label. -/
def recordInstance (n : Netlist) (label : String) (inputs outputs : List Binding)
    (buses : List Expr) : Netlist :=
  { n.countStatement with
    instances := n.instances ++
      [{ entity := label, inputs, outputs, buses, architecture := n.current }] }

/-- The netlist with the body of a new architecture opened. -/
def openArchitecture (n : Netlist) (name label : String) : Netlist :=
  { n with architectures := n.architectures ++ [{ name, entity := label }], current := some name }

/-- What comes of a call that is accepted: under which condition, with which answer, and what the
netlist is then. -/
def Effect : (call : Call) → (n : Netlist) → call.Reply → Netlist → Prop
  | .constant kind text, n, node, m => node = .constant kind text ∧ m = n
  | .applyOperator op arguments, n, node, m =>
    node = .apply op.entity arguments ∧
      (∀ e, n.entity? op.entity = some e → e.inputs ≠ [] → e.inputs.length = arguments.length) ∧
      m = n
  | .encapsulate container items, n, node, m => node = .group container items ∧ m = n
  | .useSignal name, n, node, m | .declareSignal name, n, node, m =>
    node = .signal name ∧ name ∉ n.buses ∧ m = { n with signals := addName name n.signals }
  | .useBus name, n, node, m => node = .bus name ∧ name ∈ n.buses ∧ m = n
  | .declareBus name, n, node, m =>
    node = .bus name ∧ name ∉ n.signals ∧ m = { n with buses := addName name n.buses }
  | .assign targets value, n, _, m =>
    (∀ node ∈ targets, node.isSignal = true) ∧ m = n.recordAssignment targets value
  | .defineEntity e, n, _, m =>
    (∀ d ∈ n.entities, d.label ≠ e.label) ∧ m = { n with entities := n.entities ++ [e] }
  | .beginArchitecture name entity, n, _, m =>
    n.current = none ∧ n.architecture? name = none ∧
      ∃ e, n.entity? entity = some e ∧ m = n.openArchitecture name e.label
  | .endArchitecture, n, _, m => n.current ≠ none ∧ m = { n with current := none }
  | .instantiate entity inputs outputs buses, n, nodes, m =>
    ∃ e bound, n.entity? entity = some e ∧
      (∃ taken, bindPins .input e.label e.inputs inputs = .ok taken) ∧
      bindPins .output e.label e.outputs outputs = .ok bound ∧
      buses.length ≤ e.buses.length ∧
      nodes = ((bound.zip e.outputs).map fun (node, pin) =>
        node.getD (.pin n.instances.length pin)) ∧
      m = n.recordInstance e.label inputs outputs buses

/-! ### The changes, each with its checks in front -/

section Equations

variable (n : Netlist)

theorem applyOperator_apply (op : Operator) (arguments : List Expr) :
    applyOperator op arguments n = match n.entity? op.entity with
      | none => .ok (.apply op.entity arguments) n
      | some e =>
        if e.inputs ≠ [] ∧ e.inputs.length ≠ arguments.length then
          .error (.inputCount e.label e.inputs.length arguments.length) n
        else .ok (.apply op.entity arguments) n := by
  unfold applyOperator
  rw [get_bind_apply]
  cases n.entity? op.entity with
  | none => rfl
  | some e =>
    dsimp only
    split <;> rfl

theorem useSignal_apply (name : String) :
    useSignal name n = if name ∈ n.buses then .error (.busNotSignal name) n
      else .ok (.signal name) { n with signals := addName name n.signals } := by
  unfold useSignal
  rw [get_bind_apply]
  split <;> rfl

theorem useBus_apply (name : String) :
    useBus name n = if name ∉ n.buses then .error (.unknownBus name) n else .ok (.bus name) n := by
  unfold useBus
  rw [get_bind_apply]
  split <;> rfl

theorem declareSignal_apply (name : String) :
    declareSignal name n = if name ∈ n.buses then .error (.declaredAsBus name) n
      else .ok (.signal name) { n with signals := addName name n.signals } := by
  unfold declareSignal
  rw [get_bind_apply]
  split <;> rfl

theorem declareBus_apply (name : String) :
    declareBus name n = if name ∈ n.signals then .error (.declaredAsSignal name) n
      else .ok (.bus name) { n with buses := addName name n.buses } := by
  unfold declareBus
  rw [get_bind_apply]
  split <;> rfl

theorem assign_apply (targets : List Expr) (value : Expr) :
    assign targets value n = match targets.find? (fun t => !t.isSignal) with
      | some node => .error (.notAssignable node) n
      | none => .ok () (n.recordAssignment targets value) := by
  unfold assign
  cases targets.find? (fun t => !t.isSignal) <;> rfl

theorem defineEntity_apply (e : Entity) :
    defineEntity e n = if n.entities.any (fun d => d.label = e.label) then .error (.entityDefined e.label) n
      else .ok () { n with entities := n.entities ++ [e] } := by
  unfold defineEntity
  rw [get_bind_apply]
  split <;> rfl

theorem beginArchitecture_apply (name entity : String) :
    beginArchitecture name entity n = match n.current, n.entity? entity with
      | some outer, _ => .error (.nestedArchitecture name outer) n
      | none, none => .error (.architectureOfUnknown name entity) n
      | none, some e =>
        if (n.architecture? name).isSome then .error (.architectureDefined name) n
        else .ok () (n.openArchitecture name e.label) := by
  unfold beginArchitecture
  rw [get_bind_apply]
  cases n.current with
  | some outer => rfl
  | none =>
    cases n.entity? entity with
    | none => rfl
    | some e =>
      dsimp only
      split <;> rfl

theorem endArchitecture_apply :
    endArchitecture n = if n.current.isNone then .error .noOpenArchitecture n
      else .ok () { n with current := none } := by
  unfold endArchitecture
  rw [get_bind_apply]
  split <;> rfl

theorem instantiate_apply (entity : String) (inputs outputs : List Binding) (buses : List Expr) :
    instantiate entity inputs outputs buses n = match n.entity? entity with
      | none => .error (.instanceOfUnknown entity) n
      | some e => match bindPins .input e.label e.inputs inputs, bindPins .output e.label e.outputs outputs with
        | .error cause, _ | .ok _, .error cause => .error cause n
        | .ok _, .ok bound =>
          if e.buses.length < buses.length then .error (.busCount e.label e.buses.length buses.length) n
          else .ok ((bound.zip e.outputs).map fun (node, pin) => node.getD (.pin n.instances.length pin))
            (n.recordInstance e.label inputs outputs buses) := by
  unfold instantiate
  rw [get_bind_apply]
  cases n.entity? entity with
  | none => rfl
  | some e =>
    dsimp only
    cases bindPins .input e.label e.inputs inputs with
    | error cause => rfl
    | ok taken =>
      cases bindPins .output e.label e.outputs outputs with
      | error cause => rfl
      | ok bound =>
        dsimp only
        split <;> rfl

end Equations

/-! ### What comes of a call -/

variable {n m : Netlist}

/-- **A call is refused by a netlist that stays as it is, or has its effect.** -/
theorem perform_cases (call : Call) (n : Netlist) :
    (∃ cause, perform call n = .error cause n) ∨
      ∃ reply m, perform call n = .ok reply m ∧ Effect call n reply m := by
  cases call with
  | constant kind text | encapsulate container items => exact .inr ⟨_, _, rfl, rfl, rfl⟩
  | applyOperator op arguments =>
    simp only [perform, applyOperator_apply]
    cases hentity : n.entity? op.entity with
    | none => exact .inr ⟨_, _, rfl, rfl, by simp [hentity], rfl⟩
    | some e =>
      by_cases hwrong : e.inputs ≠ [] ∧ e.inputs.length ≠ arguments.length
      · exact .inl ⟨_, if_pos hwrong⟩
      · refine .inr ⟨_, _, if_neg hwrong, rfl, ?_, rfl⟩
        intro d hd hinputs
        cases hentity.symm.trans hd
        exact Decidable.not_not.1 fun hcount => hwrong ⟨hinputs, hcount⟩
  | useSignal name =>
    by_cases hbus : name ∈ n.buses
    · exact .inl ⟨_, (useSignal_apply n name).trans (if_pos hbus)⟩
    · exact .inr ⟨_, _, (useSignal_apply n name).trans (if_neg hbus), rfl, hbus, rfl⟩
  | useBus name =>
    by_cases hbus : name ∈ n.buses
    · exact .inr ⟨_, _, (useBus_apply n name).trans (if_neg (not_not_intro hbus)), rfl, hbus, rfl⟩
    · exact .inl ⟨_, (useBus_apply n name).trans (if_pos hbus)⟩
  | declareSignal name =>
    by_cases hbus : name ∈ n.buses
    · exact .inl ⟨_, (declareSignal_apply n name).trans (if_pos hbus)⟩
    · exact .inr ⟨_, _, (declareSignal_apply n name).trans (if_neg hbus), rfl, hbus, rfl⟩
  | declareBus name =>
    by_cases hsignal : name ∈ n.signals
    · exact .inl ⟨_, (declareBus_apply n name).trans (if_pos hsignal)⟩
    · exact .inr ⟨_, _, (declareBus_apply n name).trans (if_neg hsignal), rfl, hsignal, rfl⟩
  | assign targets value =>
    simp only [perform, assign_apply]
    cases hfound : targets.find? (fun t => !t.isSignal) with
    | some node => exact .inl ⟨_, rfl⟩
    | none => exact .inr ⟨_, _, rfl, by simpa using hfound, rfl⟩
  | defineEntity e =>
    by_cases hdefined : n.entities.any (fun d => d.label = e.label) = true
    · exact .inl ⟨_, (defineEntity_apply n e).trans (if_pos hdefined)⟩
    · exact .inr ⟨_, _, (defineEntity_apply n e).trans (if_neg hdefined), by simpa using hdefined, rfl⟩
  | beginArchitecture name entity =>
    simp only [perform, beginArchitecture_apply]
    cases hcurrent : n.current with
    | some outer => exact .inl ⟨_, rfl⟩
    | none =>
      cases hentity : n.entity? entity with
      | none => exact .inl ⟨_, rfl⟩
      | some e =>
        by_cases hdefined : (n.architecture? name).isSome = true
        · exact .inl ⟨_, if_pos hdefined⟩
        · exact .inr ⟨_, _, if_neg hdefined, hcurrent, by simpa using hdefined, e, hentity, rfl⟩
  | endArchitecture =>
    by_cases hopen : n.current.isNone = true
    · exact .inl ⟨_, (endArchitecture_apply n).trans (if_pos hopen)⟩
    · exact .inr ⟨_, _, (endArchitecture_apply n).trans (if_neg hopen), by simpa using hopen, rfl⟩
  | instantiate entity inputs outputs buses =>
    simp only [perform, instantiate_apply]
    cases hentity : n.entity? entity with
    | none => exact .inl ⟨_, rfl⟩
    | some e =>
      cases htaken : bindPins .input e.label e.inputs inputs with
      | error cause => exact .inl ⟨cause, by simp only [htaken]⟩
      | ok taken =>
        cases hbound : bindPins .output e.label e.outputs outputs with
        | error cause => exact .inl ⟨cause, by simp only [htaken, hbound]⟩
        | ok bound =>
          simp only [htaken, hbound]
          by_cases hbuses : e.buses.length < buses.length
          · exact .inl ⟨_, if_pos hbuses⟩
          · exact .inr ⟨_, _, if_neg hbuses, e, bound, hentity, ⟨taken, htaken⟩, hbound, by omega, rfl, rfl⟩

/-- **What an accepted call does.** -/
theorem effect_of_perform {call : Call} {reply : call.Reply}
    (h : perform call n = .ok reply m) : Effect call n reply m := by
  rcases perform_cases call n with ⟨cause, hrefused⟩ | ⟨reply', m', haccepted, heffect⟩
  · cases hrefused.symm.trans h
  · cases haccepted.symm.trans h
    exact heffect

/-- **A refused call changes nothing.** Everything is checked before anything is recorded. -/
theorem eq_of_refused {call : Call} {cause : BuildError} (h : perform call n = .error cause m) :
    m = n := by
  rcases perform_cases call n with ⟨cause', hrefused⟩ | ⟨reply, m', haccepted, -⟩
  · cases hrefused.symm.trans h
    rfl
  · cases haccepted.symm.trans h

/-- The netlist accepts one call after the other and is then the second one. -/
inductive Performs : Netlist → List Call → Netlist → Prop
  | nil (n : Netlist) : Performs n [] n
  | cons {n m k : Netlist} {call : Call} {calls : List Call} {reply : call.Reply}
    (h : perform call n = .ok reply m) (rest : Performs m calls k) : Performs n (call :: calls) k

namespace Performs

variable {k : Netlist} {calls more : List Call}

theorem single {call : Call} {reply : call.Reply} (h : perform call n = .ok reply m) :
    Performs n [call] m := .cons h (.nil m)

theorem trans (h : Performs n calls m) (h' : Performs m more k) : Performs n (calls ++ more) k := by
  induction h with
  | nil n => exact h'
  | cons hcall _ ih => exact .cons hcall (ih h')

/-- Between any two calls there is a netlist. -/
theorem split (h : Performs n (calls ++ more) k) : ∃ m, Performs n calls m ∧ Performs m more k := by
  induction calls generalizing n with
  | nil => exact ⟨n, .nil n, h⟩
  | cons call calls ih =>
    cases h with
    | cons hcall rest =>
      obtain ⟨m, hfirst, hsecond⟩ := ih rest
      exact ⟨m, .cons hcall hfirst, hsecond⟩

end Performs

end Dataflow.Circuit.Netlist
