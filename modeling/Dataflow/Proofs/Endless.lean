import Dataflow.Parser.Expression
import Dataflow.Proofs.Standing

/-!
# Dataflow.Proofs.Endless

**The end marker in a role.** A dialect may take the end marker for an executor, a separator or a
bracket. Where nothing else is left, that token is met again and again (`Session.Endless`), and
consuming it leads nowhere:

* who skips executors there never stops (`skip_halts`);
* who reads a group there is in front of a group again (`climb_halts`).

A session in such a place runs out of the rounds or levels that it has, if no buffer stops it
before: it `Halts`, and the netlist has been told nothing more.
-/

namespace Dataflow

open Reading Lexer Circuit

variable {σ β γ : Type}

/-- The run meets a bound, with these calls of the netlist made. -/
def Halts (calls : List Call) (r : EStateM.Result Failure (Session σ) β) : Prop :=
  Run.Ends (fun _ _ => False) (fun e t => e.MeetsBound ∧ t.calls = calls) r

theorem Halts.bind {calls : List Call} {x : Run (Session σ) β} {s : Session σ}
    (h : Halts calls (x s)) (k : β → Run (Session σ) γ) : Halts calls ((x >>= k) s) :=
  Run.Ends.bind h (fun _ _ hf => hf.elim) fun _ _ he => he

variable [Supply σ Char] {g : Setting} {s : Session σ} {kind : Token.Kind}

/-- A computation ends as said, and has told the netlist nothing, or the limit of a buffer stops
it. -/
def Session.Endures (s : Session σ) (Q : β → Session σ → Prop)
    (r : EStateM.Result Failure (Session σ) β) : Prop :=
  Run.Ends (fun b t => Q b t ∧ t.calls = s.calls) (fun e t =>
    (∃ requested limit, e = .error (.capacityExceeded requested limit)) ∧ t.calls = s.calls) r

omit [Supply σ Char] in
theorem Session.Endures.bind {Q : β → Session σ → Prop} {x : Run (Session σ) β}
    {k : β → Run (Session σ) γ} (hx : s.Endures Q (x s))
    (hk : ∀ b t, Q b t → t.calls = s.calls → Halts s.calls (k b t)) :
    Halts s.calls ((x >>= k) s) := by
  refine Run.Ends.bind hx (fun b t hb => hk b t hb.1 hb.2) ?_
  intro e t he
  exact ⟨.inr he.1, he.2⟩

namespace Session

/-- One round of skipping. -/
def skipRound (kind : Token.Kind) (_ : Unit) : Run (Session σ) (Run.Round Unit Unit) := do
  if ← accept kind then return .again () else return .done ()

/-- Nothing is left but the end marker, which the dialect takes for a token of this kind. -/
def Endless (kind : Token.Kind) (s : Session σ) : Prop :=
  ∃ g v, s.tokens.Faces g v ∧ g.dialect.endKind = kind ∧ g.dialect.quote ≠ endOfInput ∧
    v.place.text = [] ∧ ∀ t ∈ v.ahead, t.kind = kind

/-- A token that covers nothing is the end marker, and only that is left. -/
theorem endless_of_isEmpty {v : Prospect} {t : Token} {rest : List Token}
    (h : s.tokens.Faces g v) (hahead : v.ahead = t :: rest) (hempty : t.span.isEmpty = true) :
    s.Endless t.kind := by
  have hspent := h.spent
  rw [hahead] at hspent
  obtain ⟨⟨hkind, hquote⟩, htext⟩ := hspent.2 t List.mem_cons_self hempty
  refine ⟨g, v, h, hkind.symm, hquote, htext, fun u hu => ?_⟩
  rw [hahead] at hu
  rcases List.mem_cons.1 hu with rfl | hu
  · rfl
  · have hrest := (List.pairwise_cons.1 hspent.1).1 u hu hempty
    rw [((hspent.2 u (List.mem_cons_of_mem t hu)) hrest).1.1, hkind]

namespace Endless

theorem peek (h : s.Endless kind) :
    s.Endures (fun token t => token.kind = kind ∧ ∃ g v rest, t.tokens.Faces g v ∧
        g.dialect.endKind = kind ∧ g.dialect.quote ≠ endOfInput ∧ v.place.text = [] ∧
        v.ahead = token :: rest ∧ ∀ t ∈ rest, t.kind = kind)
      (Session.peek s) := by
  obtain ⟨g, v, hfaces, hkind, hquote, htext, hahead⟩ := h
  cases hv : v.ahead with
  | cons token rest =>
    rw [hv, List.forall_mem_cons] at hahead
    obtain ⟨c, hlook, hc⟩ := hfaces.lookahead_held (k := 0) (t := token) (by rw [hv]; rfl)
    rw [show Session.peek s = _ from onTokens_ok hlook]
    exact ⟨⟨hahead.1, g, v, rest, hc, hkind, hquote, htext, hv, hahead.2⟩, rfl⟩
  | nil =>
    refine (onTokens_ends (hfaces.lookahead_next (by rw [hv]; rfl) (Nat.zero_le 1))).mono ?_ ?_
    · rintro token t ⟨c, ⟨q, hq, hc⟩, rfl⟩
      obtain ⟨htoken, hq', -⟩ := Place.next_of_nil hq htext
      exact ⟨⟨htoken.trans hkind, g, _, [], hc, hkind, hquote, hq', by simp [Prospect.scan, hv],
        by simp⟩, rfl⟩
    · rintro e t ⟨c, he, rfl⟩
      obtain ⟨token, q, hq⟩ := Place.exists_next_of_nil hquote g.table htext
      exact ⟨(he.excused hq).1, rfl⟩

/-- The token is taken, and nothing has changed. -/
theorem consume (h : s.Endless kind) (hend : kind ≠ .endOfFile) :
    s.Endures (fun token t => token.kind = kind ∧ t.Endless kind) (Session.consume s) := by
  have hpeek := h.peek
  cases hlook : (Cursor.lookahead 0 : Run _ Token) s.tokens with
  | error e c =>
    rw [show Session.peek s = _ from onTokens_error hlook] at hpeek
    rw [show Session.consume s = _ from onTokens_error (Cursor.consume_of_error hlook)]
    exact hpeek
  | ok token c =>
    rw [show Session.peek s = _ from onTokens_ok hlook] at hpeek
    obtain ⟨⟨htoken, g, v, rest, hfaces, hkind, hquote, htext, hahead, hrest⟩, -⟩ := hpeek
    obtain ⟨c', hconsume, hc'⟩ := hfaces.consume_of_lookahead hlook hahead fun hplain =>
      absurd (hkind.symm.trans hplain.endKind) hend
    rw [show Session.consume s = _ from onTokens_ok hconsume]
    exact ⟨⟨htoken, g, _, hc', hkind, hquote, htext, hrest⟩, rfl⟩

theorem peekKind (h : s.Endless kind) :
    s.Endures (fun found t => found = kind ∧ t.Endless kind) (Session.peekKind s) := by
  rw [peekKind_eq]
  refine Run.Ends.bind h.peek ?_ fun _ _ he => he
  rintro token t ⟨⟨htoken, g, v, rest, hfaces, hkind, hquote, htext, hahead, hrest⟩, hcalls⟩
  refine ⟨⟨htoken, g, v, hfaces, hkind, hquote, htext, ?_⟩, hcalls⟩
  rw [hahead, List.forall_mem_cons]
  exact ⟨htoken, hrest⟩

/-- The token is taken where its kind is accepted, and nothing has changed in any case. -/
theorem accept (h : s.Endless kind) (hend : kind ≠ .endOfFile) (wanted : Token.Kind) :
    s.Endures (fun taken t => taken = decide (kind = wanted) ∧ t.Endless kind)
      (Session.accept wanted s) := by
  rw [accept_eq]
  refine Run.Ends.bind h.peek ?_ fun _ _ he => he
  rintro token t ⟨⟨rfl, g, v, rest, hfaces, hkind, hquote, htext, hahead, hrest⟩, hcalls⟩
  have ht : t.Endless token.kind := by
    refine ⟨g, v, hfaces, hkind, hquote, htext, ?_⟩
    rw [hahead, List.forall_mem_cons]
    exact ⟨rfl, hrest⟩
  by_cases hwanted : token.kind = wanted
  · rw [if_pos hwanted]
    refine Run.Ends.bind (ht.consume hend) ?_ fun e u he => ⟨he.1, he.2.trans hcalls⟩
    rintro _ u ⟨⟨-, hu⟩, hcalls'⟩
    exact ⟨⟨(decide_eq_true hwanted).symm, hu⟩, hcalls'.trans hcalls⟩
  · rw [if_neg hwanted]
    exact ⟨⟨(decide_eq_false hwanted).symm, ht⟩, hcalls⟩

/-- **Skipping never stops** at the end marker of the kind that is skipped. -/
theorem skip_halts (h : s.Endless kind) (hend : kind ≠ .endOfFile) (rounds : Nat) :
    Halts s.calls (Run.iterateFor (skipRound kind) rounds () s) := by
  induction rounds generalizing s with
  | zero => exact ⟨.inl rfl, rfl⟩
  | succ rounds ih =>
    rw [Run.iterateFor_succ]
    unfold skipRound
    rw [Run.bind_apply]
    have haccept := h.accept hend kind
    cases hr : Session.accept kind s with
    | error e t =>
      obtain ⟨hexceeded, hcalls⟩ := haccept.of_error hr
      exact ⟨.inr hexceeded, hcalls⟩
    | ok taken t =>
      obtain ⟨⟨htaken, ht⟩, hcalls⟩ := haccept.of_ok hr
      rw [decide_eq_true rfl] at htaken
      subst htaken
      rw [← hcalls]
      exact ih ht

end Endless

end Session

namespace Parser

open Session

variable {container : Container} {read : ExprReader σ}

/-- Inside the bracket there is another one. -/
theorem groupBy_halts (hread : ∀ t : Session σ, t.Endless (.opening container) →
      Halts t.calls (read none t)) (h : s.Endless (.opening container)) :
    Halts s.calls (groupBy read s) := by
  have hend : Token.Kind.opening container ≠ .endOfFile := by simp
  unfold groupBy
  refine (h.consume hend).bind ?_
  rintro token t ⟨hkind, ht⟩ hcalls
  rw [hkind, ← hcalls]
  refine Halts.bind ?_ _
  unfold itemsBy
  refine (ht.accept hend _).bind ?_
  rintro taken u ⟨htaken, hu⟩ hcalls
  rw [decide_eq_false (by simp)] at htaken
  subst htaken
  rw [← hcalls, if_neg Bool.false_ne_true, Run.iterate, Run.iterateFor]
  exact Halts.bind ((hread u hu).bind _) _

theorem operandBy_halts (hread : ∀ t : Session σ, t.Endless (.opening container) →
      Halts t.calls (read none t)) (h : s.Endless (.opening container)) :
    Halts s.calls (operandBy read s) := by
  unfold operandBy
  refine h.peekKind.bind ?_
  rintro _ t ⟨rfl, ht⟩ hcalls
  rw [← hcalls]
  exact (groupBy_halts hread ht).bind _

/-- **Groups never end** where the end marker opens them. -/
theorem climb_halts (depth : Nat) (bound : Option Nat) (h : s.Endless (.opening container)) :
    Halts s.calls (climb depth bound s) := by
  induction depth generalizing s bound with
  | zero => exact ⟨.inl rfl, rfl⟩
  | succ depth ih => exact (operandBy_halts (fun t => ih none) h).bind _

end Parser

end Dataflow
