import Dataflow.Proofs.Integrity
import Dataflow.Proofs.Logging
import Dataflow.Proofs.SessionMatching

/-!
# Dataflow.Proofs.Registrations

**Operators and entities stay in step.** The operators that a session knows belong to its lexer, the
entities to its netlist. A definition adds to both, one right after the other, and nothing else adds to
either of them: so whatever a parser has read, and wherever it has failed, the operators are those of the
start and behind them, in order, one for each entity (`Parser.table_in_step`).

* `Session.InStep` — the invariant, which goes through the parser by `Respected`;
* `entityDefinition_ends` — a definition adds an entity and its operator, or changes neither store.
-/

namespace Dataflow

open Reading Circuit

/-! ### Tokens leave the operators alone -/

namespace Reading.Cursor.SeesUnder

variable {σ β : Type} {t : Operator.Table}

/-- What a cursor answers or fails with, the operators are the same behind it. -/
abbrev Stays (t : Operator.Table) (x : Run (Cursor (Lexer σ) Token) β) : Prop :=
  Run.Leads (fun _ => SeesUnder t) (SeesUnder t) (fun _ => SeesUnder t) x

theorem mark_stays : Stays t (Cursor.mark : Run (Cursor (Lexer σ) Token) Unit) := by
  rintro c ⟨v, hv, rfl⟩
  obtain ⟨c', hmark, hc'⟩ := hv.mark
  rw [hmark]
  exact ⟨_, hc', rfl⟩

theorem commit_stays : Stays t (Cursor.commit : Run (Cursor (Lexer σ) Token) Unit) := by
  rintro c ⟨v, hv, rfl⟩
  cases hm : v.marked with
  | nil =>
    obtain ⟨limits, o, hshows, -, -, hmarked, -⟩ := id hv
    rw [commit_none hshows (hmarked.trans hm)]
    exact ⟨v, hv, rfl⟩
  | cons held outer =>
    obtain ⟨c', hcommit, hc'⟩ := hv.commit hm
    rw [hcommit]
    exact ⟨_, hc', rfl⟩

theorem rollback_stays : Stays t (Cursor.rollback : Run (Cursor (Lexer σ) Token) Unit) := by
  rintro c ⟨v, hv, rfl⟩
  cases hm : v.marked with
  | nil =>
    obtain ⟨limits, o, hshows, -, -, hmarked, -⟩ := id hv
    rw [rollback_none hshows (hmarked.trans hm)]
    exact ⟨v, hv, rfl⟩
  | cons held outer =>
    obtain ⟨c', hrollback, hc'⟩ := hv.rollback hm
    rw [hrollback]
    exact ⟨_, hc', rfl⟩

variable [Source σ Char]

theorem lookahead_stays (k : Nat) : Stays t (Cursor.lookahead k : Run (Cursor (Lexer σ) Token) Token) :=
  fun _ h => h.of_agrees k fun _ _ hshows => lookahead_agrees hshows k

theorem consume_stays : Stays t (Cursor.consume : Run (Cursor (Lexer σ) Token) Token) := by
  rintro c ⟨v, hv, rfl⟩
  refine hv.consume.mono ?_ fun _ _ he => he
  rintro token c' ⟨tokens, w, hbecomes, hw, -⟩
  exact ⟨_, hw, hbecomes.table_eq (by simp)⟩

end Reading.Cursor.SeesUnder

/-! ### Sessions -/

namespace Session

variable {σ β : Type} [Source σ Char]

/-- What holds of the operators and of the netlist. -/
def Holds (P : Operator.Table → Netlist → Prop) (s : Session σ) : Prop :=
  ∃ t, s.tokens.SeesUnder t ∧ P t s.netlist

/-- The operators are those of the start, and behind them those of the entities. -/
def InStep (start t : Operator.Table) (n : Netlist) : Prop :=
  t = start.insertAll (n.entities.map Entity.operator)

variable {P : Operator.Table → Netlist → Prop}

/-- Whatever the computation comes to, `P` holds if it held before. -/
abbrev Holding (P : Operator.Table → Netlist → Prop) (x : Run (Session σ) β) : Prop :=
  Run.Leads (fun _ => Holds P) (Holds P) (fun _ => Holds P) x

omit [Source σ Char] in
theorem onTokens_holding {x : Run (Cursor (Lexer σ) Token) β}
    (hx : ∀ t, Cursor.SeesUnder.Stays t x) : Holding P (onTokens x) := by
  rintro s ⟨t, hs, hP⟩
  refine (onTokens_ends (hx t s.tokens hs)).mono ?_ ?_
  · rintro _ _ ⟨c, hc, rfl⟩
    exact ⟨t, hc, hP⟩
  · rintro _ _ ⟨c, hc, rfl⟩
    exact ⟨t, hc, hP⟩

theorem mismatch_holding (expected : String) :
    Run.Leads (fun _ => Holds P) (Holds P) (fun _ _ => False) (mismatch expected : Run (Session σ) β) := by
  rintro s ⟨t, hs, hP⟩
  obtain ⟨e, c, hmismatch, hc⟩ := hs.mismatch expected
  unfold mismatch
  rw [Run.bind_apply, onTokens_ok hmismatch]
  exact ⟨t, hc, hP⟩

theorem unexpectedOperand_holding :
    Run.Leads (fun _ => Holds P) (Holds P) (fun _ _ => False) (unexpectedOperand : Run (Session σ) β) := by
  rintro s ⟨t, hs, hP⟩
  obtain ⟨e, c, hunexpected, hc⟩ := hs.unexpectedOperand
  unfold unexpectedOperand
  rw [Run.bind_apply, onTokens_ok hunexpected]
  exact ⟨t, hc, hP⟩

omit [Source σ Char] in
theorem tell_holding {call : Call}
    (hcall : ∀ t n reply m, P t n → Netlist.perform call n = .ok reply m → P t m) :
    Holding P (tell call : Run (Session σ) call.Reply) := by
  rintro s ⟨t, hs, hP⟩
  cases hperform : Netlist.perform call s.netlist with
  | ok reply m =>
    rw [tell_ok call hperform]
    exact ⟨t, hs, hcall t _ reply m hP hperform⟩
  | error cause m =>
    rw [tell_error call hperform, Netlist.eq_of_refused hperform]
    exact ⟨t, hs, hP⟩

omit [Source σ Char] in
/-- The netlist accepts an entity and its operator is registered, or it refuses and neither is. -/
theorem define_holds {e : Entity} {Q : Operator.Table → Netlist → Prop}
    (hcall : ∀ t n m, P t n → (∀ d ∈ n.entities, d.label ≠ e.label) →
      m = { n with entities := n.entities ++ [e] } → Q (t.insert e.operator) m) :
    Run.Leads (fun _ => Holds P) (Holds P) (fun _ => Holds Q) (Parser.define e : Run (Session σ) Unit) := by
  rintro s ⟨t, ⟨v, hv, rfl⟩, hP⟩
  unfold Parser.define
  rw [Run.bind_apply]
  cases hperform : Netlist.perform (.defineEntity e) s.netlist with
  | ok reply m =>
    obtain ⟨hfree, hm⟩ := Netlist.effect_of_perform hperform
    rw [tell_ok (.defineEntity e) hperform]
    exact ⟨_, ⟨_, hv.register e.operator, rfl⟩, hcall _ _ m hP hfree hm⟩
  | error cause m =>
    rw [tell_error (.defineEntity e) hperform, Netlist.eq_of_refused hperform]
    exact ⟨_, ⟨v, hv, rfl⟩, hP⟩

open Run (Both)

/-- The steps on the tokens keep what holds of the operators and the netlist. -/
theorem steps_both : Parser.Steps (σ := σ) (.both (Holds P)) (Both (Holds P)) (Both (Holds P)) where
  loosen := id
  peek := .of_leads (onTokens_holding fun _ => Cursor.SeesUnder.lookahead_stays 0)
  second := by
    rw [kindAt_eq]
    exact (Run.Matches.of_leads (onTokens_holding fun _ => Cursor.SeesUnder.lookahead_stays 1)).bind
      fun _ => .pure _
  consume := .of_leads (onTokens_holding fun _ => Cursor.SeesUnder.consume_stays)
  mark := .of_leads (onTokens_holding fun _ => Cursor.SeesUnder.mark_stays)
  commit := .of_leads (onTokens_holding fun _ => Cursor.SeesUnder.commit_stays)
  rollback := .of_leads (onTokens_holding fun _ => Cursor.SeesUnder.rollback_stays)
  mismatch _ expected :=
    (Run.Matches.of_leads (mismatch_holding expected)).mono (fun _ _ h => h) fun _ _ _ h => h.2.elim
  unexpectedOperand _ :=
    (Run.Matches.of_leads unexpectedOperand_holding).mono (fun _ _ h => h) fun _ _ _ h => h.2.elim
  table h := by rw [h.1]
  remaining h := by rw [h.1]
  failed h e _ := ⟨rfl, h⟩

/-- A relation between operators and netlist that definitions keep, and that other calls keep too, goes
through all of the parser. -/
theorem respected_both
    (htell : ∀ call t n reply m, call.defines = false → P t n → Netlist.perform call n = .ok reply m → P t m)
    (hdefine : ∀ e t n m, P t n → (∀ d ∈ n.entities, d.label ≠ e.label) →
      m = { n with entities := n.entities ++ [e] } → P (t.insert e.operator) m) :
    Parser.Respected (σ := σ) (.both (Holds P)) (Both (Holds P)) (Both (Holds P)) where
  tokens := steps_both
  tell call hcall := .of_leads (tell_holding fun t n reply m => htell call t n reply m hcall)
  define e := .of_leads (define_holds (hdefine e))

end Session

/-! ### Parsers -/

namespace Parser

open Session

variable {σ : Type} [Source σ Char]

/-- Only a definition adds an entity. -/
theorem entities_of_effect {call : Call} {n m : Netlist} {reply : call.Reply} (hcall : call.defines = false)
    (h : Netlist.Effect call n reply m) : m.entities = n.entities := by
  cases call with
  | constant | encapsulate =>
    obtain ⟨-, rfl⟩ := h
    rfl
  | applyOperator | useBus =>
    obtain ⟨-, -, rfl⟩ := h
    rfl
  | useSignal | declareSignal | declareBus =>
    obtain ⟨-, -, rfl⟩ := h
    rfl
  | assign targets value =>
    obtain ⟨-, rfl⟩ := h
    exact Netlist.countStatement_entities n
  | instantiate =>
    obtain ⟨e, bound, -, -, -, -, -, rfl⟩ := h
    exact Netlist.countStatement_entities n
  | defineEntity e => cases hcall
  | beginArchitecture name entity =>
    obtain ⟨-, -, e, -, rfl⟩ := h
    rfl
  | endArchitecture =>
    obtain ⟨-, rfl⟩ := h
    rfl

/-- **The invariant** goes through the parser. -/
theorem respected_inStep (start : Operator.Table) :
    Respected (σ := σ) (.both (Holds (InStep start))) (Run.Both (Holds (InStep start)))
      (Run.Both (Holds (InStep start))) := by
  refine respected_both ?_ ?_
  · intro call t n reply m hcall h hperform
    unfold InStep at h ⊢
    rw [entities_of_effect hcall (Netlist.effect_of_perform hperform)]
    exact h
  · rintro e t n m h - rfl
    unfold InStep at h ⊢
    rw [List.map_append, Operator.Table.insertAll, List.foldl_append, h]
    rfl

/-- What has been told and registered when a definition is read, and that one entity and its operator are
added to it or nothing is. -/
theorem entityDefinition_ends {P : Operator.Table → Netlist → Prop} {s : Session σ} (h : s.Holds P) :
    Run.Ends
      (fun statement t => ∃ e, statement = .entity e ∧
        t.netlist = { s.netlist with entities := s.netlist.entities ++ [e] } ∧
        t.table = s.table.insert e.operator)
      (fun _ t => t.netlist = s.netlist ∧ t.table = s.table) (entityDefinition s) := by
  obtain ⟨operators, hs, -⟩ := h
  have htable : ∀ {t : Session σ} {ops : Operator.Table}, t.tokens.SeesUnder ops → t.table = ops := by
    rintro t ops ⟨v, hv, rfl⟩
    exact Sees.table_eq hv
  -- up to where the netlist is told, both are as they were
  have hparts := (entityParts_kept (σ := σ)
    (steps_both (P := fun t n => t = operators ∧ n = s.netlist))).keeps s ⟨_, hs, rfl, rfl⟩
  rw [entityDefinition_eq]
  refine hparts.bind ?_ ?_
  · rintro e s₁ h₁
    refine ((define_holds (e := e)
      (Q := fun t m => t = operators.insert e.operator ∧
        m = { s.netlist with entities := s.netlist.entities ++ [e] }) ?_) s₁ h₁).bind ?_ ?_
    · rintro t n m ⟨rfl, rfl⟩ - hm
      exact ⟨rfl, hm⟩
    · rintro _ s₂ ⟨ops, hs₂, rfl, hnetlist⟩
      exact ⟨e, rfl, hnetlist, by rw [htable hs₂, htable hs]⟩
    · rintro cause s₂ ⟨ops, hs₂, rfl, hnetlist⟩
      exact ⟨hnetlist, by rw [htable hs₂, htable hs]⟩
  · rintro cause s₁ ⟨ops, hs₁, rfl, hnetlist⟩
    exact ⟨hnetlist, by rw [htable hs₁, htable hs]⟩

theorem holds_ofSource (source : σ) (d : Lexer.Dialect) (start : Operator.Table) :
    (Session.ofSource source d start).Holds (InStep start) :=
  ⟨start, ⟨_, Cursor.sees_ofSource _ _, rfl⟩, rfl⟩

/-- The session behind `n` requests for a statement, whatever came of them. -/
def asked (n : Nat) (s : Session σ) : Session σ := (fun s => Run.leaves (parseStatement s))^[n] s

theorem asked_holds {start : Operator.Table} {s : Session σ} (h : s.Holds (InStep start)) (n : Nat) :
    (asked n s).Holds (InStep start) := by
  unfold asked
  induction n generalizing s with
  | zero => exact h
  | succ n ih => exact ih ((parseStatement_kept (respected_inStep start)).keeps.of_leaves h)

/-- The operators of the session are those of the start with one for each entity of its netlist, in the
order of the definitions, and an entity's operator tells what its definition says. -/
structure Aligned (start : Operator.Table) (s : Session σ) : Prop where
  table : s.table = start.insertAll (s.netlist.entities.map Entity.operator)
  operators : ∀ e ∈ s.netlist.entities, e.operator.entity = e.label ∧ e.operator.symbol = e.symbol ∧
    e.operator.form = e.form ∧ e.operator.precedence = e.precedence ∧
    (e.operator.arity.isSome = true ↔ e.form = .function ∧ e.inputs ≠ [])

omit [Source σ Char] in
theorem Aligned.of_holds {start : Operator.Table} {s : Session σ} (h : s.Holds (InStep start)) :
    Aligned start s where
  table := by
    obtain ⟨_, ⟨v, hv, rfl⟩, hinStep⟩ := h
    exact (Sees.table_eq hv).trans hinStep
  operators := by
    intro e _
    refine ⟨rfl, rfl, rfl, rfl, ?_⟩
    show (if e.form = .function ∧ e.inputs ≠ [] then some e.inputs.length else none).isSome = true ↔ _
    split <;> simp [*]

/-- **Operators and entities stay in step**, however often a parser has been asked for a statement and
whatever came of it. A definition that is rejected, or is not complete, changes neither the operators nor
the netlist. -/
theorem table_in_step (source : σ) (d : Lexer.Dialect) (start : Operator.Table) (n : Nat) :
    Aligned start (asked n (Session.ofSource source d start)) ∧
      ∀ s : Session σ, s.Holds (InStep start) →
        Run.Ends
          (fun statement t => ∃ e, statement = .entity e ∧
            t.netlist = { s.netlist with entities := s.netlist.entities ++ [e] } ∧
            t.table = s.table.insert e.operator)
          (fun _ t => t.netlist = s.netlist ∧ t.table = s.table) (entityDefinition s) :=
  ⟨.of_holds (asked_holds (holds_ofSource source d start) n), fun _ => entityDefinition_ends⟩

/-- A label is defined once more, and the netlist refuses it. -/
theorem table_in_step_of_rejected : ∃ s : Session (Items Char), s.Holds (InStep .standard) ∧
    s.netlist.entities.map Entity.label = ["Twice"] ∧
    ∃ e t, entityDefinition s = .error e t ∧ t.netlist = s.netlist ∧ t.table = s.table := by
  have hrejected : ∀ s : Session (Items Char), s.Holds (InStep .standard) →
      (Run.answer? (entityDefinition s)).isNone = true →
      ∃ e t, entityDefinition s = .error e t ∧ t.netlist = s.netlist ∧ t.table = s.table := by
    intro s hs hnone
    obtain ⟨e, he⟩ := Run.eq_error_of_isNone hnone
    exact ⟨e, _, he, ((table_in_step (Items.ofText "") {} .standard 0).2 s hs).of_error he⟩
  have hs := asked_holds (holds_ofSource (Items.ofText "define entity Twice twice none in a; Twice thrice none")
    {} .standard) 1
  exact ⟨_, hs, by decide +kernel, hrejected _ hs (by decide +kernel)⟩

end Parser

end Dataflow
