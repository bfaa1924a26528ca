import Dataflow.Proofs.Recording
import Dataflow.Proofs.Registrations

/-!
# Dataflow.Proofs.Naming

**What a symbol stands for.** A definition gives an entity a label, which is its own, and a symbol, which
others may have too. The symbol is looked up in two stores. An expression asks the operators, where the
latest registration takes the place of the one before it; a reference to an entity asks the netlist, which
has all entities and takes the first one that fits. As long as a symbol is defined once both mean the same
entity, and as soon as it is defined again they do not.

* `namesakes` — the entities of one symbol, in the order of their definitions;
* `entity?_symbol` — the netlist means the first of them;
* `get?_symbol` — the operators have the registration of the last one, if all have the same fixity;
* `entities_of_symbol` — both stores behind a text that has been read.
-/

namespace Dataflow

open Reading Circuit

namespace Circuit

/-- The entities that a program defines, in the order of its text. -/
def definitions (statements : List Statement) : List Entity :=
  (Statement.flatAll none statements).filterMap definition?

/-- The entities of a symbol, in the order of their definitions. -/
def namesakes (symbol : String) (entities : List Entity) : List Entity :=
  entities.filter (·.symbol = symbol)

variable {symbol : String} {entities : List Entity}

/-- A name that is no label means the first entity of that symbol. -/
theorem Netlist.entity?_symbol {n : Netlist} (hlabel : ∀ e ∈ n.entities, e.label ≠ symbol) :
    n.entity? symbol = (namesakes symbol n.entities).head? := by
  have hnone : n.entities.find? (fun e => e.label = symbol) = none := by
    rw [List.find?_eq_none]
    exact fun e he => by simpa using hlabel e he
  rw [Netlist.entity?, hnone, Option.none_or, namesakes, List.head?_filter]

/-- The latest registration of a symbol takes the place of those before it. -/
theorem get?_symbol {start : Operator.Table} {f : Fixity}
    (hfixity : ∀ e ∈ entities, e.symbol = symbol → e.form.fixity = f) :
    (start.insertAll (entities.map Entity.operator)).get? symbol f =
      ((namesakes symbol entities).getLast?.map Entity.operator).or (start.get? symbol f) := by
  induction entities generalizing start with
  | nil => rfl
  | cons e rest ih =>
    show ((start.insert e.operator).insertAll (rest.map Entity.operator)).get? symbol f = _
    rw [ih fun d hd => hfixity d (List.mem_cons_of_mem _ hd), Operator.Table.get?_insert]
    by_cases hsymbol : e.symbol = symbol
    · have hplace : symbol = e.operator.symbol ∧ f = e.operator.fixity :=
        ⟨hsymbol.symm, (hfixity e (List.mem_cons_self ..) hsymbol).symm⟩
      have hcons : namesakes symbol (e :: rest) = e :: namesakes symbol rest :=
        List.filter_cons_of_pos (by simpa using hsymbol)
      rw [if_pos hplace, hcons, List.getLast?_cons]
      cases (namesakes symbol rest).getLast? <;> rfl
    · have hplace : ¬ (symbol = e.operator.symbol ∧ f = e.operator.fixity) :=
        fun h => hsymbol h.1.symm
      have hcons : namesakes symbol (e :: rest) = namesakes symbol rest :=
        List.filter_cons_of_neg (by simpa using hsymbol)
      rw [if_neg hplace, hcons]

/-- Where labels differ, the first and the last one of some entities have the same label only if there
are no others. -/
theorem label_head?_eq_getLast? {e : Entity} {rest : List Entity}
    (hlabels : ((e :: rest).map Entity.label).Nodup) :
    (e :: rest).head?.map Entity.label = (e :: rest).getLast?.map Entity.label ↔ rest = [] := by
  refine ⟨fun h => ?_, fun h => by rw [h]; rfl⟩
  rcases List.eq_nil_or_concat rest with rfl | ⟨front, last, rfl⟩
  · rfl
  · simp only [List.map_cons, List.nodup_cons, List.mem_map] at hlabels
    rw [List.concat_eq_append, ← List.cons_append, List.getLast?_concat] at h
    exact absurd ⟨last, by simp, (Option.some.inj h).symm⟩ hlabels.1

end Circuit

namespace Parser

variable {σ : Type} [Source σ Char]

/-- **What a symbol stands for.** Where all of a text is read, with no operators at the start, take a
symbol that it defines, always in the same notation, and that is no label. For the netlist the symbol is
the first entity that has been defined under it, and for expressions it is the last one. These are the same
only if no other one has been defined. -/
theorem entities_of_symbol {source : σ} {dialect : Lexer.Dialect} {statements : List Statement}
    {t : Session σ} (h : parseAll (Session.ofSource source dialect {}) = .ok statements t)
    {e : Entity} (he : e ∈ definitions statements)
    (hform : ∀ d ∈ definitions statements, d.symbol = e.symbol → d.form = e.form)
    (hlabel : ∀ d ∈ definitions statements, d.label ≠ e.symbol) :
    t.netlist.entity? e.symbol = (namesakes e.symbol (definitions statements)).head? ∧
    t.table.get? e.symbol e.form.fixity =
      (namesakes e.symbol (definitions statements)).getLast?.map Entity.operator ∧
    ((t.netlist.entity? e.symbol).map Entity.label =
        (t.table.get? e.symbol e.form.fixity).map Operator.entity ↔
      namesakes e.symbol (definitions statements) = [e]) := by
  obtain ⟨calls, htold, hcalls⟩ := (parseAll_tells _).of_ok h
  obtain ⟨hextend, -⟩ := Netlist.grows_of_allCalls hcalls rfl htold.performs
  have hentities : t.netlist.entities = definitions statements := hextend.entities
  have hlabels : (t.netlist.entities.map Entity.label).Nodup := hextend.labels .nil
  have hholds := (parseAll_kept (respected_inStep {})).keeps.of_leaves (holds_ofSource source dialect {})
  rw [h] at hholds
  have htable : t.table = Operator.Table.insertAll {} (t.netlist.entities.map Entity.operator) :=
    (Aligned.of_holds hholds).table
  have hnetlist : t.netlist.entity? e.symbol = (namesakes e.symbol t.netlist.entities).head? :=
    Netlist.entity?_symbol fun d hd => hlabel d (hentities ▸ hd)
  have hoperator : (Operator.Table.insertAll {} (t.netlist.entities.map Entity.operator)).get?
        e.symbol e.form.fixity =
      ((namesakes e.symbol t.netlist.entities).getLast?.map Entity.operator).or
        (({} : Operator.Table).get? e.symbol e.form.fixity) :=
    get?_symbol fun d hd hsymbol => congrArg Notation.fixity (hform d (hentities ▸ hd) hsymbol)
  have hempty : (({} : Operator.Table).get? e.symbol e.form.fixity) = none :=
    Operator.Slots.get?_empty _
  rw [← htable, hempty, Option.or_none, hentities] at hoperator
  rw [hentities] at hnetlist hlabels
  refine ⟨hnetlist, hoperator, ?_⟩
  have hmem : e ∈ namesakes e.symbol (definitions statements) :=
    List.mem_filter.2 ⟨he, by simp⟩
  have hnodup : ((namesakes e.symbol (definitions statements)).map Entity.label).Nodup :=
    hlabels.sublist (List.filter_sublist.map _)
  rw [hnetlist, hoperator, Option.map_map]
  obtain ⟨first, rest, hnamesakes⟩ := List.exists_cons_of_ne_nil (List.ne_nil_of_mem hmem)
  rw [hnamesakes] at hmem hnodup ⊢
  refine (label_head?_eq_getLast? hnodup).trans ⟨fun hnil => ?_, fun hsingle => ?_⟩
  · subst hnil
    rw [List.mem_singleton.1 hmem]
  · exact (List.cons.inj hsingle).2

/-- The addition is defined again under its symbol, and the multiplication is not. -/
def redefinitionText : String :=
  "define entity Add + leftinfix 60 in a, b out x; define entity Times * leftinfix 50 in a, b out z;
    define entity Plus + leftinfix 70 in a, b out y"

/-- The statements of this text. -/
def redefinition : List Statement :=
  [.entity ⟨"Add", "+", .infixLeft, 60, ["a", "b"], ["x"], []⟩,
    .entity ⟨"Times", "*", .infixLeft, 50, ["a", "b"], ["z"], []⟩,
    .entity ⟨"Plus", "+", .infixLeft, 70, ["a", "b"], ["y"], []⟩]

theorem parseAll_redefinition :
    Run.answer? (parseAll (Session.ofSource (Items.ofText redefinitionText) {} {})) = some redefinition := by
  decide +kernel

theorem entities_of_redefinition : ∃ t : Session (Items Char),
    parseAll (Session.ofSource (Items.ofText redefinitionText) {} {}) = .ok redefinition t ∧
    (t.netlist.entity? "+").map Entity.label = some "Add" ∧
    (t.table.get? "+" .infixOp).map Operator.entity = some "Plus" ∧
    (t.netlist.entity? "*").map Entity.label = (t.table.get? "*" .infixOp).map Operator.entity := by
  have h := Run.eq_ok_of_answer? parseAll_redefinition
  have hplus := entities_of_symbol h (e := ⟨"Add", "+", .infixLeft, 60, ["a", "b"], ["x"], []⟩)
    (by decide +kernel) (by decide +kernel) (by decide +kernel)
  have htimes := entities_of_symbol h (e := ⟨"Times", "*", .infixLeft, 50, ["a", "b"], ["z"], []⟩)
    (by decide +kernel) (by decide +kernel) (by decide +kernel)
  exact ⟨_, h, congrArg (Option.map Entity.label) hplus.1,
    congrArg (Option.map Operator.entity) hplus.2.1, htimes.2.2.2 (by decide +kernel)⟩

/-- A symbol need not mean the same entity to the netlist and to expressions: behind a second definition,
an instantiation under the symbol is one of the first entity, and an application one of the second. -/
theorem symbol_of_two_entities :
    (¬ ∀ (source : Items Char) (statements : List Statement) (t : Session (Items Char)),
      parseAll (Session.ofSource source {} {}) = .ok statements t →
      (∀ statement ∈ statements, ∃ e, statement = .entity e) →
      (∀ e ∈ definitions statements, ∀ d ∈ definitions statements, e.symbol = d.symbol → e.form = d.form) →
      (∀ e ∈ definitions statements, ∀ d ∈ definitions statements, e.symbol ≠ d.label) →
      ∀ e ∈ definitions statements, (t.netlist.entity? e.symbol).map Entity.label =
        (t.table.get? e.symbol e.form.fixity).map Operator.entity) ∧
    Run.answer? (parseAll (Session.ofSource (Items.ofText
      "define entity A + leftinfix in a, b out x; define entity B + leftinfix in a, b out y;
        instantiate +; 1 + 2") {} {})) =
      some [.entity ⟨"A", "+", .infixLeft, 0, ["a", "b"], ["x"], []⟩,
        .entity ⟨"B", "+", .infixLeft, 0, ["a", "b"], ["y"], []⟩,
        .instantiation "+" [.pin 0 "x"],
        .expression (.apply "B" [.constant .integer "1", .constant .integer "2"])] := by
  refine ⟨fun hsame => ?_, by decide +kernel⟩
  have h := hsame _ redefinition _ (Run.eq_ok_of_answer? parseAll_redefinition)
    (by
      intro statement hstatement
      simp only [redefinition, List.mem_cons, List.not_mem_nil, or_false] at hstatement
      rcases hstatement with rfl | rfl | rfl <;> exact ⟨_, rfl⟩)
    (by decide +kernel) (by decide +kernel)
    ⟨"Add", "+", .infixLeft, 60, ["a", "b"], ["x"], []⟩ (by decide +kernel)
  revert h
  decide +kernel

end Parser

end Dataflow
