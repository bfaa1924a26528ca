import Dataflow.Parser.Statement
import Dataflow.Proofs.Standing

/-!
# Dataflow.Proofs.Ending

**At the end of the input** nothing more can be read: a session that has seen the end, and is
asked for an expression or a statement, ends with an error (`statement_atEnd`). On the way there
it marks the end and goes back to it, but never takes it.
-/

namespace Dataflow

open Reading Lexer Circuit

variable {σ β γ : Type} [Supply σ Char] {g : Setting} {v : Prospect} {s : Session σ}

/-- The run has no answer. -/
def Fails (r : EStateM.Result Failure (Session σ) β) : Prop :=
  Run.Ends (fun _ _ => False) (fun _ _ => True) r

omit [Supply σ Char] in
theorem Fails.bind {x : Run (Session σ) β} (h : Fails (x s)) (k : β → Run (Session σ) γ) :
    Fails ((x >>= k) s) :=
  Run.Ends.bind h (fun _ _ hf => hf.elim) fun _ _ _ => trivial

namespace Session

/-- The end has been looked at, and is next. -/
def AtEnd (s : Session σ) (g : Setting) (v : Prospect) : Prop :=
  s.tokens.Faces g v ∧ ∃ token rest, v.ahead = token :: rest ∧ token.kind = .endOfFile

namespace AtEnd

theorem peek (h : s.AtEnd g v) :
    ∃ token tokens, Session.peek s = .ok token { s with tokens } ∧ token.kind = .endOfFile ∧
      ({ s with tokens } : Session σ).AtEnd g v := by
  obtain ⟨hfaces, token, rest, hahead, hkind⟩ := h
  obtain ⟨c, hlook, hc⟩ := hfaces.lookahead_held (k := 0) (t := token) (by rw [hahead]; rfl)
  exact ⟨token, c, onTokens_ok hlook, hkind, hc, token, rest, hahead, hkind⟩

theorem peekKind (h : s.AtEnd g v) :
    ∃ tokens, Session.peekKind s = .ok .endOfFile { s with tokens } ∧
      ({ s with tokens } : Session σ).AtEnd g v := by
  obtain ⟨token, tokens, hpeek, hkind, ht⟩ := h.peek
  refine ⟨tokens, ?_, ht⟩
  rw [peekKind_eq, Run.bind_apply, hpeek, ← hkind]
  rfl

theorem accept (h : s.AtEnd g v) {kind : Token.Kind} (hne : kind ≠ .endOfFile) :
    ∃ tokens, Session.accept kind s = .ok false { s with tokens } ∧
      ({ s with tokens } : Session σ).AtEnd g v := by
  obtain ⟨token, tokens, hpeek, hkind, ht⟩ := h.peek
  refine ⟨tokens, ?_, ht⟩
  rw [accept_eq, Run.bind_apply, hpeek]
  exact congrFun (if_neg (by rw [hkind]; exact hne.symm)) _

/-- There is nothing to skip. -/
theorem skip (h : s.AtEnd g v) {kind : Token.Kind} (hne : kind ≠ .endOfFile) :
    ∃ tokens, Session.skip kind s = .ok () { s with tokens } ∧
      ({ s with tokens } : Session σ).AtEnd g v := by
  obtain ⟨tokens, haccept, ht⟩ := h.accept hne
  refine ⟨tokens, ?_, ht⟩
  unfold Session.skip Run.iterate
  rw [Run.iterateFor_succ, Run.bind_apply, haccept]
  rfl

theorem expect (h : s.AtEnd g v) {kind : Token.Kind} (hne : kind ≠ .endOfFile) :
    Fails (Session.expect kind s) := by
  obtain ⟨t, haccept, -⟩ := h.accept hne
  rw [expect_eq, Run.bind_apply, haccept]
  exact mismatch_ends kind.name _

end AtEnd

end Session

namespace Parser

open Session

/-- No operand begins at the end. -/
theorem operandBy_atEnd (read : ExprReader σ) (h : s.AtEnd g v) : Fails (operandBy read s) := by
  obtain ⟨t, hkind, -⟩ := h.peekKind
  unfold operandBy
  rw [Run.bind_apply, hkind]
  exact unexpectedOperand_ends _

theorem climb_atEnd (depth : Nat) (bound : Option Nat) (h : s.AtEnd g v) :
    Fails (climb depth bound s) := by
  cases depth with
  | zero => exact trivial
  | succ depth => exact (operandBy_atEnd (climb depth) h).bind _

theorem expression_atEnd (h : s.AtEnd g v) : Fails (expression s) :=
  climb_atEnd (s.remaining + 1) none h

/-- At the end there are no targets, and the session is at the end again. -/
theorem assignmentTargets_atEnd (h : s.AtEnd g v) :
    ∃ t, assignmentTargets s = .ok none t ∧ t.AtEnd g v := by
  obtain ⟨hfaces, token, rest, hahead, hkind⟩ := h
  obtain ⟨c, hmark, hc⟩ := hfaces.mark_ok
  have hmarked : ({ s with tokens := c } : Session σ).AtEnd g
      { v with marked := v.ahead :: v.marked } := ⟨hc, token, rest, hahead, hkind⟩
  obtain ⟨c', hpeek, ht, -⟩ := hmarked.peekKind
  have htargets : tryTargets { s with tokens := c } = .ok none { s with tokens := c' } := by
    unfold tryTargets Run.iterate
    rw [Run.iterateFor_succ, Run.bind_apply, hpeek]
    rfl
  obtain ⟨c'', hrollback, hc''⟩ := ht.rollback_ok rfl
  refine ⟨{ s with tokens := c'' }, ?_, hc'', token, rest, hahead, hkind⟩
  unfold assignmentTargets
  rw [Run.bind_apply, onTokens_ok hmark]
  dsimp only
  rw [Run.bind_apply, htargets]
  dsimp only
  rw [Run.bind_apply, onTokens_ok hrollback]
  rfl

/-- At the end there is no statement. -/
theorem parseStatement_atEnd (h : s.AtEnd g v) :
    ∃ tokens, parseStatement s = .ok none { s with tokens } ∧
      ({ s with tokens } : Session σ).AtEnd g v := by
  obtain ⟨tokens, hskip, ht⟩ := h.skip (show Token.Kind.executor ≠ .endOfFile by simp)
  obtain ⟨tokens', hpeek, ht'⟩ := ht.peekKind
  refine ⟨tokens', ?_, ht'⟩
  unfold parseStatement
  rw [Run.bind_apply, hskip]
  dsimp only
  rw [Run.bind_apply, hpeek]
  rfl

/-- **No statement begins at the end.** -/
theorem statement_atEnd (depth : Nat) (h : s.AtEnd g v) : Fails (statement depth s) := by
  cases depth with
  | zero => exact trivial
  | succ depth =>
    obtain ⟨t, hkind, ht⟩ := h.peekKind
    obtain ⟨u, htargets, hu⟩ := assignmentTargets_atEnd ht
    unfold statement statementBy
    rw [Run.bind_apply, hkind]
    show Fails (assignmentOrExpression _)
    unfold assignmentOrExpression
    rw [Run.bind_apply, htargets]
    exact (expression_atEnd hu).bind _

end Parser

end Dataflow
