import Dataflow.Proofs.Composition
import Dataflow.Proofs.Consumption
import Dataflow.Proofs.Defining
import Dataflow.Proofs.Survival

/-!
# Dataflow.Proofs.Whereabouts

**Between statements a session is at a place.** What is known of a single statement is known of a session that is at
a place of its text, with nothing in view. A session begins like that, and every statement leaves it like that, or
with the end of the input in view, behind which there are no more statements (`Yields.rests`). A source that never
fails does not fail behind them either (`Yields.firm`).

That a statement leaves a session at a place does not depend on what the statement is. It comes of reading the text
side by side with itself (`Coupled`); that nothing is in view, of what a statement consumes (`parseStatement_logs`).
-/

namespace Dataflow

open Reading Lexer Text Circuit

variable {σ : Type} [Supply σ Char] {g : Setting} {n : Netlist} {p : Place} {s u : Session σ}

/-! ### What is before a session -/

namespace Session

omit [Supply σ Char] in
theorem Sees.ahead_eq {v : Sight σ} (h : u.Sees v) :
    v.ahead = u.tokens.buffer.ring.toList.drop u.tokens.offset := by
  obtain ⟨limits, o, hshows, -, hahead, -⟩ := h
  rw [hshows.ahead, hahead]

end Session

/-- What is before a cursor is seen. -/
theorem Reading.Cursor.Faces.sees {c : Cursor (Lexer σ) Token} {v : Prospect} (h : c.Faces g v) :
    ∃ w : Sight σ, c.Sees w ∧ w.ahead = v.ahead ∧ w.lexer.table = g.table ∧ Lexer.Reads g w.lexer v.place [] := by
  obtain ⟨o, hshows, hahead, -, hended, hreads, -⟩ := h
  exact ⟨⟨o.source, o.ahead, o.marked⟩, ⟨_, o, hshows, rfl, rfl, rfl, hended⟩, hahead, hreads.table, hreads⟩

/-! ### Statement by statement -/

/-- The session is at some place, and it has nothing in view, or the end of the input. -/
def Session.Rests (d : Dialect) (s : Session σ) : Prop :=
  ∃ g q, g.dialect = d ∧ (s.Has g s.netlist [] q ∨ ∃ last, last.kind = .endOfFile ∧ s.Has g s.netlist [last] q)

/-- One statement. -/
theorem Session.Has.rests {x : Statement} (h : s.Has g n [] p)
    (hparse : Parser.parseStatement s = .ok (some x) u) : u.Rests g.dialect := by
  -- The session reads the text side by side with itself.
  have hcoupled : Coupled (.same g.dialect g.dialect.limits p) { pending := p.text.length } s s :=
    .ofSame rfl rfl rfl h.2 h.2 rfl rfl
  rcases Parser.parseStatement_cases hcoupled with ⟨s₁, t', -, hnone, -⟩ | htogether
  · rw [hparse] at hnone
    cases hnone
  rw [hparse] at htogether
  obtain ⟨-, -, hcoupled | hpassed⟩ := htogether
  · obtain ⟨g', -, v, v', hd, -, -, hfaces, -, hmatches, -⟩ := hcoupled
    obtain ⟨v₀, hv₀, hempty, -⟩ := h.2.sees
    obtain ⟨w, hw, hahead, -⟩ := hfaces.sees
    obtain ⟨es, w', -, hw', -, -, ending, -, -, -, hcloses, hshort⟩ := (Parser.parseStatement_logs hv₀).of_ok hparse
    have hlength := (hshort (by simp [hempty])).2
    have hsame : w'.ahead = v.ahead := hw'.ahead_eq.trans ((Session.Sees.ahead_eq hw).symm.trans hahead)
    have hmarked : v.marked = [] :=
      List.eq_nil_of_length_eq_zero (hmatches.marked.length_eq.trans hmatches.marks.length_eq)
    obtain ⟨ahead, marked, place⟩ := v
    simp only at hsame hmarked
    subst hsame hmarked
    refine ⟨g', place, hd, ?_⟩
    rcases hcloses with ⟨executor, rfl, -⟩ | ⟨rfl, last, rest, hrest, hlast⟩
    · rw [List.length_singleton] at hlength
      have hnil : w'.ahead = [] := List.eq_nil_of_length_eq_zero (by omega)
      rw [hnil] at hfaces
      exact .inl ⟨rfl, hfaces⟩
    · rw [Parser.eq_of_head hrest hlength] at hfaces
      exact .inr ⟨last, hlast, rfl, hfaces⟩
  · obtain ⟨-, -, -, -, -, -, -, -, -, -, -, ⟨-, more, hmore, -⟩, -⟩ := hpassed
    cases hmore

/-- **All statements.** A session that is at a place is at a place again behind any number of statements. -/
theorem Parser.Yields.rests {replies : List Reply} (h : Yields s replies u) (hs : s.Rests g.dialect) :
    u.Rests g.dialect := by
  induction h with
  | nil s => exact hs
  | @cons s t u statement replies hparse _ ih =>
    obtain ⟨g', q, hd, hhas | ⟨last, hlast, -, hfaces⟩⟩ := hs
    · exact ih (hd ▸ hhas.rests hparse)
    · -- Behind the end of the input there are no statements.
      obtain ⟨tokens, hnone, -⟩ := parseStatement_atEnd (s := s) ⟨hfaces, last, [], rfl, hlast⟩
      cases hparse.symm.trans hnone

/-- A source that never fails goes on without failing. -/
theorem Parser.Yields.firm {replies : List Reply} {d : Dialect} (h : Yields s replies u)
    (hs : s.tokens.Firm Reading.Delivering d) : u.tokens.Firm Reading.Delivering d := by
  induction h with
  | nil s => exact hs
  | cons hparse _ ih =>
    obtain ⟨v, hv, hsecure⟩ := hs
    obtain ⟨tokens, w, hreaches, hw, -⟩ := (parseStatement_survives Supply.ebbs hv hsecure).of_ok hparse
    exact ih ⟨w, hw, hreaches.secure Supply.ebbs hsecure⟩

end Dataflow
