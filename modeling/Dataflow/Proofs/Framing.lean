import Dataflow.Parser.Expression

/-!
# Dataflow.Proofs.Framing

**What has been told before makes no difference.** A parser never reads the trace of its calls to
the netlist. Put calls in front of those that a session has made, and everything it answers, every
error and every further call stays the same (`Framed`).
-/

namespace Dataflow

open Reading Circuit

variable {σ α β γ : Type}

namespace Session

/-- The session after further calls, made before its own. -/
def onto (s : Session σ) (old : List Call) : Session σ := { s with calls := s.calls ++ old }

@[simp] theorem onto_tokens (s : Session σ) (old : List Call) : (s.onto old).tokens = s.tokens :=
  rfl

@[simp] theorem onto_netlist (s : Session σ) (old : List Call) :
    (s.onto old).netlist = s.netlist := rfl

/-- The same end of a run after further calls. -/
def endOnto (old : List Call) :
    EStateM.Result Failure (Session σ) β → EStateM.Result Failure (Session σ) β
  | .ok b t => .ok b (t.onto old)
  | .error e t => .error e (t.onto old)

/-- Earlier calls make no difference to the computation. -/
def Framed (x : Run (Session σ) β) : Prop := ∀ s old, x (s.onto old) = endOnto old (x s)

namespace Framed

theorem pure (b : β) : Framed (pure b : Run (Session σ) β) := fun _ _ => rfl

theorem violate (v : Violation) : Framed (Run.violate v : Run (Session σ) β) := fun _ _ => rfl

theorem fail (e : Error) : Framed (Run.fail e : Run (Session σ) β) := fun _ _ => rfl

theorem bind {x : Run (Session σ) β} {k : β → Run (Session σ) γ} (hx : Framed x)
    (hk : ∀ b, Framed (k b)) : Framed (x >>= k) := by
  intro s old
  rw [Run.bind_apply, Run.bind_apply, hx s old]
  cases x s with
  | ok b t => exact hk b t old
  | error e t => rfl

theorem ite {c : Prop} [Decidable c] {x y : Run (Session σ) β} (hx : Framed x) (hy : Framed y) :
    Framed (if c then x else y) := by
  split
  · exact hx
  · exact hy

theorem onTokens (x : Run (Cursor (Lexer σ) Token) β) : Framed (onTokens x) := by
  intro s old
  cases hx : x s.tokens with
  | ok b tokens => rw [onTokens_ok hx, onTokens_ok (s := s.onto old) hx]; rfl
  | error e tokens => rw [onTokens_error hx, onTokens_error (s := s.onto old) hx]; rfl

theorem tell (call : Call) : Framed (tell call : Run (Session σ) call.Reply) := by
  intro s old
  unfold Session.tell onto
  dsimp only
  cases Netlist.perform call s.netlist <;> rfl

/-- A computation may look at all of the session but the trace. -/
theorem get_bind {k : Session σ → Run (Session σ) β}
    (hsame : ∀ (s : Session σ) (old : List Call), k (s.onto old) = k s)
    (hk : ∀ s, Framed (k s)) : Framed (get >>= k) := by
  intro s old
  show k (s.onto old) (s.onto old) = endOnto old (k s s)
  rw [hsame]
  exact hk s s old

theorem iterate [Source σ Char] {step : α → Run (Session σ) (Run.Round α β)} {a : α}
    (hstep : ∀ a, Framed (step a)) : Framed (Run.iterate remaining a step) := by
  have key : ∀ rounds a, Framed (Run.iterateFor step rounds a) := by
    intro rounds
    induction rounds with
    | zero => exact fun _ _ _ => rfl
    | succ rounds ih =>
      intro a
      refine (hstep a).bind fun round => ?_
      cases round with
      | again a' => exact ih a'
      | done b => exact .pure b
  exact fun s old => key (s.remaining + 1) a s old

end Framed

/-- The sessions differ in nothing but the trace. -/
structure Like (s t : Session σ) : Prop where
  tokens : s.tokens = t.tokens
  netlist : s.netlist = t.netlist

theorem Like.rfl {s : Session σ} : s.Like s := ⟨Eq.refl _, Eq.refl _⟩

theorem Like.of_calls {s t : Session σ} (h : s.Like t) (calls : List Call) :
    Like { s with calls } t := ⟨h.tokens, h.netlist⟩

/-- What is answered in one session is answered in the other. -/
theorem Framed.transfer {x : Run (Session σ) β} (hx : Framed x) {s s' t : Session σ} {b : β}
    (hlike : s'.Like s) (h : x s = .ok b t) : ∃ t', x s' = .ok b t' ∧ t'.Like t := by
  obtain ⟨tokens, netlist, calls⟩ := s
  obtain ⟨tokens', netlist', calls'⟩ := s'
  obtain ⟨rfl, rfl⟩ : tokens' = tokens ∧ netlist' = netlist := ⟨hlike.tokens, hlike.netlist⟩
  have hfirst := hx ⟨tokens', netlist', []⟩ calls
  have hsecond := hx ⟨tokens', netlist', []⟩ calls'
  unfold onto at hfirst hsecond
  simp only [List.nil_append] at hfirst hsecond
  rw [hfirst] at h
  rw [hsecond]
  cases hr : x ⟨tokens', netlist', []⟩ with
  | error e u =>
    rw [hr] at h
    cases h
  | ok b' u =>
    rw [hr] at h
    cases h
    exact ⟨_, Eq.refl _, Eq.refl _, Eq.refl _⟩

end Session

namespace Parser

open Session

variable [Source σ Char] {read : ExprReader σ}

theorem accept_framed (kind : Token.Kind) : Framed (accept kind : Run (Session σ) Bool) :=
  (Framed.onTokens _).bind fun _ => .pure _

theorem expect_framed (kind : Token.Kind) : Framed (expect kind : Run (Session σ) Unit) :=
  (Framed.onTokens _).bind fun _ => .pure _

theorem unexpectedOperand_framed : Framed (unexpectedOperand : Run (Session σ) β) :=
  (Framed.onTokens _).bind fun e => .fail e

theorem operatorAt_framed (fixity : Fixity) :
    Framed (operatorAt fixity : Run (Session σ) (Option Operator)) :=
  (Framed.onTokens _).bind fun _ =>
    .ite (.get_bind (fun _ _ => rfl) fun _ => .pure _) (.pure _)

theorem itemsBy_framed (hread : ∀ bound, Framed (read bound)) (container : Container) :
    Framed (itemsBy read container) := by
  refine (accept_framed _).bind fun accepted => .ite (.pure _) (.iterate fun items => ?_)
  refine (hread none).bind fun e => (accept_framed _).bind fun accepted => .ite (.pure _) ?_
  exact (expect_framed _).bind fun _ => .pure _

theorem groupBy_framed (hread : ∀ bound, Framed (read bound)) : Framed (groupBy read) := by
  refine (Framed.onTokens _).bind fun token => ?_
  split
  · exact (itemsBy_framed hread _).bind fun _ => .pure _
  · exact .violate _

theorem callBy_framed (hread : ∀ bound, Framed (read bound)) : Framed (callBy read) := by
  refine (Framed.onTokens _).bind fun _ => (groupBy_framed hread).bind fun found => ?_
  exact .get_bind (fun _ _ => rfl) fun _ => .tell _

theorem prefixedBy_framed (hread : ∀ bound, Framed (read bound)) (op : Operator) :
    Framed (prefixedBy read op) :=
  (Framed.onTokens _).bind fun _ => (hread _).bind fun _ => .tell _

theorem namedBy_framed (hread : ∀ bound, Framed (read bound)) (kind : Token.Kind) :
    Framed (namedBy read kind) := by
  refine (Framed.onTokens _).bind fun token => .get_bind (fun _ _ => rfl) fun s => ?_
  refine (Framed.onTokens _).bind fun second => .ite (callBy_framed hread) ?_
  refine (operatorAt_framed _).bind fun found => ?_
  cases found with
  | some op => exact prefixedBy_framed hread op
  | none =>
    exact .ite unexpectedOperand_framed ((Framed.onTokens _).bind fun _ => .tell _)

theorem operandBy_framed (hread : ∀ bound, Framed (read bound)) : Framed (operandBy read) := by
  refine (Framed.onTokens _).bind fun kind => ?_
  split
  · exact (Framed.onTokens _).bind fun _ => .tell _
  · refine .ite ((groupBy_framed hread).bind fun found => ?_) (.ite (namedBy_framed hread kind)
      unexpectedOperand_framed)
    split
    · exact .pure _
    · exact .tell _

omit [Source σ Char] in
theorem popOperand_framed (operands : List Expr) :
    Framed (popOperand operands : Run (Session σ) (Expr × List Expr)) := by
  cases operands with
  | nil => exact .violate _
  | cons e rest => exact .pure _

omit [Source σ Char] in
theorem reduceWhile_framed (first : Operator → Bool) (n : Nat) (held : Stacks) :
    Framed (reduceWhile first n held : Run (Session σ) Stacks) := by
  induction n generalizing held with
  | zero => exact .pure _
  | succ n ih =>
    refine .ite (.bind ?_ ih) (.pure _)
    unfold reduce
    split
    · exact .violate _
    · refine (popOperand_framed _).bind fun right => (popOperand_framed _).bind fun left => ?_
      exact (Framed.tell _).bind fun _ => .pure _

theorem infixesBy_framed (hread : ∀ bound, Framed (read bound)) (bound : Option Nat)
    (held : Stacks) : Framed (infixesBy read bound held) := by
  refine .iterate fun held => (operatorAt_framed _).bind fun found => ?_
  cases found with
  | none => exact .pure _
  | some op =>
    refine .ite ((reduceWhile_framed _ _ _).bind fun held => ?_) (.pure _)
    exact (Framed.onTokens _).bind fun _ => (operandBy_framed hread).bind fun _ => .pure _

theorem postfixesBy_framed (bound : Option Nat) (operand : Expr) :
    Framed (postfixesBy bound operand : Run (Session σ) (Expr × Bool)) := by
  refine .iterate fun ⟨operand, applied⟩ => (operatorAt_framed _).bind fun found => ?_
  cases found with
  | none => exact .pure _
  | some op =>
    exact .ite ((Framed.onTokens _).bind fun _ => (Framed.tell _).bind fun _ => .pure _) (.pure _)

theorem climbBy_framed (hread : ∀ bound, Framed (read bound)) (bound : Option Nat) :
    Framed (climbBy read bound) := by
  refine (operandBy_framed hread).bind fun first => .iterate fun first => ?_
  refine (infixesBy_framed hread _ _).bind fun held => (reduceWhile_framed _ _ _).bind
    fun held => (popOperand_framed _).bind fun whole => (postfixesBy_framed _ _).bind
    fun found => (operatorAt_framed _).bind fun _ => .ite (.pure _) (.pure _)

theorem climb_framed (depth : Nat) (bound : Option Nat) :
    Framed (climb depth bound : Run (Session σ) Expr) := by
  induction depth generalizing bound with
  | zero => exact fun _ _ => rfl
  | succ depth ih => exact climbBy_framed ih bound

/-- **An expression is read without a look at the trace.** -/
theorem expression_framed : Framed (expression : Run (Session σ) Expr) :=
  fun s old => climb_framed (s.remaining + 1) none s old

end Parser

end Dataflow
