import Dataflow.Proofs.SessionComparing

/-!
# Dataflow.Proofs.SessionMatching

**Sessions that match.** If the steps of a parser keep two sessions related and fail alike
(`Parser.Respected`), all of the parser does, whatever the relation is. This is one way to compare sessions
(`Run.Tolerance.comparison`), and all that is to be shown for it is that loops and rules inside each other
have the same bounds.
-/

namespace Dataflow.Parser

open Reading Circuit Session

variable {σ τ β : Type} [Source σ Char] [Source τ Char]

/-- The steps of a parser on the tokens keep sessions related by `R`; where the token at the cursor has
been looked at, they are related by `S`. -/
structure Steps (k : Run.Tolerance (Session σ) (Session τ)) (R S : Session σ → Session τ → Prop) :
    Prop where
  loosen {s : Session σ} {t : Session τ} : S s t → R s t
  peek : Run.Matches k R (fun _ => S) peek peek
  second : Run.Matches k S (fun _ => S) (kindAt 1) (kindAt 1)
  consume : Run.Matches k R (fun _ => R) consume consume
  mark : Run.Matches k R (fun _ => R) (onTokens Cursor.mark) (onTokens Cursor.mark)
  commit : Run.Matches k R (fun _ => R) (onTokens Cursor.commit) (onTokens Cursor.commit)
  rollback : Run.Matches k R (fun _ => R) (onTokens Cursor.rollback) (onTokens Cursor.rollback)
  mismatch {β : Type} (Q : β → Session σ → Session τ → Prop) (expected : String) :
    Run.Matches k S Q (mismatch expected) (mismatch expected)
  unexpectedOperand {β : Type} (Q : β → Session σ → Session τ → Prop) :
    Run.Matches k S Q unexpectedOperand unexpectedOperand
  table {s : Session σ} {t : Session τ} : R s t → t.table = s.table
  remaining {s : Session σ} {t : Session τ} : R s t → t.remaining = s.remaining
  failed {s : Session σ} {t : Session τ} :
    R s t → ∀ e, (∀ error, e ≠ .error error) → k.alike e e s t

/-- All steps of a parser keep sessions related. -/
structure Respected (k : Run.Tolerance (Session σ) (Session τ)) (R S : Session σ → Session τ → Prop) :
    Prop where
  tokens : Steps k R S
  tell (call : Call) (hcall : call.defines = false) :
    Run.Matches k R (fun _ => R) (tell call) (tell call)
  define (e : Entity) : Run.Matches k R (fun _ => R) (define e) (define e)

variable {k : Run.Tolerance (Session σ) (Session τ)} {R S : Session σ → Session τ → Prop}

/-- A computation keeps sessions related. -/
abbrev Kept (k : Run.Tolerance (Session σ) (Session τ)) (R : Session σ → Session τ → Prop)
    (x : Run (Session σ) β) (x' : Run (Session τ) β) : Prop :=
  Run.Matches k R (fun _ => R) x x'

/-- Rules inside each other have the same bounds, and fail alike where they run out. -/
theorem Kept.descend {ι : Type} (hremaining : ∀ s t, R s t → t.remaining = s.remaining)
    (hstalled : ∀ s t, R s t → k.alike .stalled .stalled s t) {f : Nat → ι → Run (Session σ) β}
    {f' : Nat → ι → Run (Session τ) β} (hzero : ∀ i, f 0 i = throw .stalled) (hzero' : ∀ i, f' 0 i = throw .stalled)
    (hsucc : ∀ d d', (∀ i, Kept k R (f d i) (f' d' i)) → ∀ i, Kept k R (f (d + 1) i) (f' (d' + 1) i)) (i : ι) :
    Kept k R (fun s => f (s.remaining + 1) i s) (fun t => f' (t.remaining + 1) i t) := by
  have hdepth : ∀ depth i, Kept k R (f depth i) (f' depth i) := by
    intro depth
    induction depth with
    | zero =>
      intro i
      rw [hzero, hzero']
      exact fun s t hs => .failure (hstalled s t hs)
    | succ depth ih => exact hsucc depth depth ih
  intro s t hs
  dsimp only
  rw [hremaining s t hs]
  exact hdepth _ i s t hs

/-- Loops and rules inside each other have the same bounds. -/
theorem Steps.compared (h : Steps k R S) : ComparedTokens k.comparison R S where
  loosen := h.loosen
  peek := h.peek
  second := h.second
  consume := h.consume
  mismatch := h.mismatch
  unexpectedOperand := h.unexpectedOperand
  violate _ _ := fun _ _ hs => .failure (h.failed hs _ nofun)
  table _ _ hs := (h.table hs).symm
  iterate a hstep := Run.Matches.iterate
    (.inr fun _ _ hs => ⟨h.remaining hs, h.failed hs _ nofun⟩) a hstep
  descend := Kept.descend (fun _ _ => h.remaining) fun _ _ hs => h.failed hs _ nofun

theorem Respected.compared (h : Respected k R S) : Compared k.comparison R S where
  tokens := h.tokens.compared
  tell := h.tell
  targets := assignmentTargets_keptBy h.tokens.compared h.tokens.mark h.tokens.commit h.tokens.rollback
  define := h.define

theorem entityParts_kept (h : Steps k R S) : Kept k R entityParts entityParts :=
  entityParts_keptBy h.compared

/-- **A statement.** -/
theorem parseStatement_kept (h : Respected k R S) : Kept k R parseStatement parseStatement :=
  parseStatement_keptBy h.compared.rules

/-- **All statements.** -/
theorem parseAll_kept (h : Respected k R S) : Kept k R parseAll parseAll :=
  parseAll_keptBy h.compared.rules

end Dataflow.Parser
