import Dataflow.Proofs.LexerMemory
import Dataflow.Proofs.Transcript

/-!
# Dataflow.Proofs.SessionMemory

**Arbitrarily long programs in bounded memory.** A session sets a mark only where a statement begins,
to try the targets of an assignment, and no further than over a run of names and separators. In front
of it a token has been consumed without a mark, so that little is behind the mark. A buffer is too
small only for such a run, or for what the lexer holds back for a symbol or an exponent; how many
statements there are and how long they are makes no difference.

* `Session.Outgrows` — the session has met something that is longer than the bounds allow;
* `Session.Calm` — what holds of a session without marks, and `Frugal` — a computation that keeps it,
  and fails for lack of room only where the bounds are outgrown. Every rule of the parser is frugal;
* `expression_frugal` — an expression consumes a token without a mark, so that behind it no drop is
  due, as the next statement needs it;
* `Session.Trying`, `assignmentTargets_frugal` — what is tried at the start of a statement.
-/

namespace Dataflow

open Reading Circuit

variable {σ α β : Type}

namespace Session

/-- A run of names and separators. -/
def IsRun (tokens : List Token) : Prop :=
  ∀ token ∈ tokens, token.kind.isTextIdentifier = true ∨ token.kind = .separator

/-- The session has met something that is longer than the bounds allow: a run of names and separators
at the start of a statement, a registered symbol, or an exponent. -/
def Outgrows (b : Bounds) (s : Session σ) : Prop :=
  IsRun s.tokens.heldBack ∧ b.targets < s.tokens.heldBack.length ∨ s.lexer.Outgrows b

/-- If a buffer is too small, that is for something that outgrows the bounds. -/
def Blames (b : Bounds) (e : Failure) (s : Session σ) : Prop := e.Exceeded → s.Outgrows b

variable [Supply σ Char] {b : Bounds} {d : Lexer.Dialect} {i j : Bool}

/-- A session without marks, for which no drop is due if it is settled. -/
structure Calm (d : Lexer.Dialect) (settled : Bool) (s : Session σ) : Prop where
  tokens : s.tokens.Sound (fun l => Lexer.Calm d false l) d.limits
  marks : s.tokens.marks = []
  settled : settled = true → s.tokens.Settled

/-- A session with one mark, from which `held` has been consumed. -/
def Trying (d : Lexer.Dialect) (held : List Token) (s : Session σ) : Prop :=
  s.tokens.Spans (fun l => Lexer.Calm d false l) d.limits held

theorem Calm.weaken {s : Session σ} (h : Calm d true s) (settled : Bool) : Calm d settled s :=
  ⟨h.tokens, h.marks, fun _ => h.settled rfl⟩

theorem Calm.loosen {s : Session σ} (h : Calm d i s) : Calm d false s :=
  ⟨h.tokens, h.marks, nofun⟩

theorem calm_ofSource {source : σ} (h : Lexer.Delivering source) (d : Lexer.Dialect)
    (t : Operator.Table) (netlist : Netlist) :
    Calm d true { Session.ofSource source d t with netlist } where
  tokens := Cursor.sound_ofSource (Lexer.calm_ofSource h d t false) d.limits
  marks := rfl
  settled _ := Cursor.settled_ofSource _ d.limits

/-- From a session that is calm a computation leads to one that is calm again. It fails for lack of
room only where the bounds are outgrown. -/
abbrev Frugal (b : Bounds) (d : Lexer.Dialect) (i j : Bool) (x : Run (Session σ) β) : Prop :=
  Run.Leads (Blames b) (Calm d i) (fun _ => Calm d j) x

omit [Supply σ Char] in
theorem blames_stalled (b : Bounds) (s : Session σ) : Blames b .stalled s := by
  rintro ⟨_, _, he⟩
  cases he

omit [Supply σ Char] in
theorem fail_leads {P : Session σ → Prop} {Q : β → Session σ → Prop} {e : Error}
    (he : ∀ requested limit, e ≠ .capacityExceeded requested limit) :
    Run.Leads (Blames b) P Q (Run.fail e : Run (Session σ) β) := by
  rintro s - ⟨requested, limit, heq⟩
  cases heq
  exact absurd rfl (he requested limit)

omit [Supply σ Char] in
theorem violate_leads {P : Session σ → Prop} {Q : β → Session σ → Prop} (v : Violation) :
    Run.Leads (Blames b) P Q (Run.violate v : Run (Session σ) β) := by
  rintro s - ⟨_, _, he⟩
  cases he

/-! ### Steps without marks -/

/-- The netlist does not touch the tokens. -/
theorem tell_frugal (call : Call) : Frugal b d i i (tell call : Run (Session σ) call.Reply) := by
  rintro s h
  unfold tell
  dsimp only
  cases Netlist.perform call s.netlist with
  | ok reply netlist => exact ⟨h.tokens, h.marks, h.settled⟩
  | error e netlist =>
    rintro ⟨_, _, he⟩
    cases he

theorem insertOperator_calm {s : Session σ} (h : Calm d i s) (op : Operator) :
    Calm d i (s.insertOperator op) := by
  obtain ⟨⟨hthrifty, o, hshows, hsource⟩, hmarks, hsettled⟩ := h
  refine ⟨⟨⟨⟨hthrifty.grown.limit, hthrifty.grown.capacity⟩, hthrifty.compactAfter,
    hthrifty.offset_le, hthrifty.marks_le⟩, { o with source := (o.source.register op).2 }, ?_,
    hsource.register op⟩, hmarks, hsettled⟩
  exact ⟨congrArg (fun l => (Lexer.register l op).2) hshows.source, hshows.ahead, hshows.marked,
    hshows.ended, hshows.offset_le, hshows.marks_le, hshows.passed,
    ⟨hshows.grown.limit, hshows.grown.capacity⟩⟩

/-- A token, or the one behind it, is looked at. -/
theorem lookahead_frugal (hfit : b.Fit d.limits) {k : Nat} (hk : k ≤ 1) :
    Frugal b d i i (onTokens (Cursor.lookahead k) : Run (Session σ) Token) := by
  intro s h
  have hlook := h.tokens.lookahead_free (Lexer.feeds hfit) h.marks k
  cases hr : (Cursor.lookahead k : Run (Cursor (Lexer σ) Token) Token) s.tokens with
  | error e tokens =>
    rw [onTokens_error hr]
    intro hexceeded
    rcases hlook.of_error hr hexceeded with hblames | hceiling
    · exact .inr (hblames hexceeded)
    · have := hfit.room
      omega
  | ok token tokens =>
    rw [onTokens_ok hr]
    obtain ⟨hsound, hstays, -⟩ := hlook.of_ok hr
    exact ⟨hsound, hstays.marks.trans h.marks, fun hs => hstays.settled (h.settled hs)⟩

theorem consume_settles (hfit : b.Fit d.limits) :
    Frugal b d i true (consume : Run (Session σ) Token) := by
  intro s h
  have hconsume := h.tokens.consume_free (Lexer.feeds hfit) h.marks
  unfold consume
  cases hr : (Cursor.consume : Run (Cursor (Lexer σ) Token) Token) s.tokens with
  | error e tokens =>
    rw [onTokens_error hr]
    intro hexceeded
    rcases hconsume.of_error hr hexceeded with hblames | hceiling
    · exact .inr (hblames hexceeded)
    · have := hfit.room
      omega
  | ok token tokens =>
    rw [onTokens_ok hr]
    obtain ⟨hsound, hadvances⟩ := hconsume.of_ok hr
    exact ⟨hsound, hadvances.marks.trans h.marks, fun _ => hadvances.settled h.marks⟩

theorem peek_frugal (hfit : b.Fit d.limits) : Frugal b d i i (peek : Run (Session σ) Token) :=
  lookahead_frugal hfit (Nat.zero_le 1)

theorem kindAt_frugal (hfit : b.Fit d.limits) {k : Nat} (hk : k ≤ 1) :
    Frugal b d i i (kindAt k : Run (Session σ) Token.Kind) := by
  unfold kindAt Cursor.kindAt
  rw [onTokens_bind]
  exact (lookahead_frugal hfit hk).bind fun token => .pure _

theorem peekKind_frugal (hfit : b.Fit d.limits) :
    Frugal b d i i (peekKind : Run (Session σ) Token.Kind) := kindAt_frugal hfit (Nat.zero_le 1)

/-- What is consumed without marks leaves the session calm. -/
theorem consume_frugal (hfit : b.Fit d.limits) :
    Frugal b d i i (consume : Run (Session σ) Token) :=
  (consume_settles hfit).mono (fun _ h => h) fun _ _ h => h.weaken i

theorem acceptToken_frugal (hfit : b.Fit d.limits) (kind : Token.Kind) :
    Frugal b d i i (onTokens (Cursor.accept kind) : Run (Session σ) (Option Token)) := by
  unfold Cursor.accept
  rw [onTokens_bind]
  refine (peek_frugal hfit).bind fun token => ?_
  split
  · rw [onTokens_bind]
    exact (consume_frugal hfit).bind fun token => .pure _
  · exact .pure _

theorem accept_frugal (hfit : b.Fit d.limits) (kind : Token.Kind) :
    Frugal b d i i (accept kind : Run (Session σ) Bool) :=
  (acceptToken_frugal hfit kind).bind fun _ => .pure _

/-- The error that something else is expected has nothing to do with room. -/
theorem mismatch_leads {Q : β → Session σ → Prop} (expected : String) :
    Run.Leads (Blames b) (Calm d i) Q (mismatch expected : Run (Session σ) β) := by
  intro s h
  obtain ⟨e, tokens, hmismatch, -, he⟩ := Cursor.mismatch_stays h.tokens.thrifty expected
  unfold mismatch
  rw [Run.bind_apply, onTokens_ok hmismatch]
  exact fail_leads (P := fun _ => True) he _ trivial

theorem unexpectedOperand_leads {Q : β → Session σ → Prop} :
    Run.Leads (Blames b) (Calm d i) Q (unexpectedOperand : Run (Session σ) β) := by
  intro s h
  obtain ⟨e, tokens, hunexpected, -, he⟩ := Cursor.unexpectedOperand_stays h.tokens.thrifty
  unfold unexpectedOperand
  rw [Run.bind_apply, onTokens_ok hunexpected]
  exact fail_leads (P := fun _ => True) he _ trivial

theorem expect_frugal (hfit : b.Fit d.limits) (kind : Token.Kind) :
    Frugal b d i i (expect kind : Run (Session σ) Unit) := by
  unfold expect Cursor.expect
  rw [onTokens_bind]
  refine Run.Leads.bind ((acceptToken_frugal hfit kind).bind fun accepted => ?_) fun _ => .pure _
  cases accepted with
  | some token => exact .pure _
  | none =>
    rw [onTokens_bind]
    exact mismatch_leads _

theorem acceptWord_frugal (hfit : b.Fit d.limits) (word : String) :
    Frugal b d i i (acceptWord word : Run (Session σ) Bool) :=
  (peek_frugal hfit).bind fun _ => .ite ((consume_frugal hfit).bind fun _ => .pure _) (.pure _)

theorem skip_frugal (hfit : b.Fit d.limits) (kind : Token.Kind) :
    Frugal b d i i (skip kind : Run (Session σ) Unit) :=
  .iterate _ _ (fun _ => (accept_frugal hfit kind).bind fun _ => .ite (.pure _) (.pure _))
    (blames_stalled b)

theorem mapM_frugal {f : α → Run (Session σ) β} (hf : ∀ a, Frugal b d i i (f a)) (items : List α) :
    Frugal b d i i (items.mapM f) := by
  induction items with
  | nil => exact .pure []
  | cons a items ih =>
    rw [List.mapM_cons]
    exact (hf a).bind fun _ => ih.bind fun _ => .pure _

/-! ### Steps under a mark -/

variable {held : List Token}

theorem IsRun.snoc (h : IsRun held) {token : Token}
    (ht : token.kind.isTextIdentifier = true ∨ token.kind = .separator) : IsRun (held ++ [token]) := by
  intro token' hmem
  rcases List.mem_append.1 hmem with hmem | hmem
  · exact h token' hmem
  · rw [List.mem_singleton.1 hmem]
    exact ht

omit [Supply σ Char] in
/-- A refusal under a mark is to blame on the run that is held back, or on the lexer. -/
theorem blames_of_overruns (hfit : b.Fit d.limits) (hheld : IsRun held) {e : Failure}
    {s : Session σ} (h : e.Exceeded → s.tokens.source.Blames b e ∨
      s.tokens.heldBack = held ∧ s.tokens.Overruns d.limits) : Blames b e s := by
  intro hexceeded
  rcases h hexceeded with hblames | ⟨hback, hoverruns⟩
  · exact .inr (hblames hexceeded)
  · have hroom := hfit.room
    rw [Cursor.Overruns, hback] at hoverruns
    simp only [contextRadius] at hoverruns
    refine .inl ?_
    rw [hback]
    exact ⟨hheld, by omega⟩

theorem peek_trying (hfit : b.Fit d.limits) (hheld : IsRun held) :
    Run.Leads (Blames b) (Trying d held)
      (fun token s => Trying d held s ∧ s.tokens.next? = some token)
      (peek : Run (Session σ) Token) := by
  intro s h
  have hlook := Cursor.Spans.peek (Lexer.feeds hfit) h
  unfold peek Cursor.peek
  cases hr : (Cursor.lookahead 0 : Run (Cursor (Lexer σ) Token) Token) s.tokens with
  | error e tokens =>
    rw [onTokens_error hr]
    exact blames_of_overruns hfit hheld (hlook.of_error hr)
  | ok token tokens =>
    rw [onTokens_ok hr]
    exact hlook.of_ok hr

/-- The token that has been looked at is consumed. -/
theorem consume_trying (hfit : b.Fit d.limits) (hheld : IsRun held) (token : Token) :
    Run.Leads (Blames b) (fun s => Trying d held s ∧ s.tokens.next? = some token)
      (fun a s => a = token ∧ Trying d (held ++ [token]) s) (consume : Run (Session σ) Token) := by
  rintro s ⟨h, hnext⟩
  have hconsume := Cursor.Spans.consume (Lexer.feeds hfit) h
  unfold consume
  cases hr : (Cursor.consume : Run (Cursor (Lexer σ) Token) Token) s.tokens with
  | error e tokens =>
    rw [onTokens_error hr]
    exact blames_of_overruns hfit hheld (hconsume.of_error hr)
  | ok a tokens =>
    rw [onTokens_ok hr]
    obtain ⟨hspans, hsame⟩ := hconsume.of_ok hr
    obtain rfl := hsame token hnext
    exact ⟨rfl, hspans⟩

theorem peekKind_trying (hfit : b.Fit d.limits) (hheld : IsRun held) :
    Run.Leads (Blames b) (Trying d held)
      (fun kind s => Trying d held s ∧ ∃ token, s.tokens.next? = some token ∧ token.kind = kind)
      (peekKind : Run (Session σ) Token.Kind) := by
  unfold peekKind kindAt Cursor.kindAt
  rw [onTokens_bind]
  exact (peek_trying hfit hheld).bind fun token s h => ⟨h.1, token, h.2, rfl⟩

/-- What is accepted is held back too. -/
theorem accept_trying (hfit : b.Fit d.limits) (hheld : IsRun held) (kind : Token.Kind) :
    Run.Leads (Blames b) (Trying d held)
      (fun accepted s => if accepted then ∃ token, token.kind = kind ∧ Trying d (held ++ [token]) s
        else Trying d held s) (accept kind : Run (Session σ) Bool) := by
  unfold accept Cursor.accept
  rw [onTokens_bind, bind_assoc]
  refine (peek_trying hfit hheld).bind fun token => ?_
  by_cases hkind : Element.kind token = kind
  · rw [if_pos hkind, onTokens_bind, bind_assoc]
    refine (consume_trying hfit hheld token).bind fun a s h => ?_
    exact ⟨token, hkind, h.2⟩
  · rw [if_neg hkind]
    exact fun s h => h.1

end Session

namespace Parser

open Session

variable [Supply σ Char] {b : Bounds} {d : Lexer.Dialect} {i j : Bool}

/-! ### Targets -/

/-- What is tried as targets is a run of names and separators, up to an arrow. -/
theorem tryTargets_leads (hfit : b.Fit d.limits) :
    Run.Leads (Blames b) (Trying d []) (fun _ s => ∃ held, Trying d held s)
      (tryTargets : Run (Session σ) (Option (List String))) := by
  intro s h
  refine Run.Ends.iterate (I := fun _ s => ∃ held, IsRun held ∧ Trying d held s) ?_
    (blames_stalled b) ⟨[], by simp [IsRun], h⟩
  rintro names s ⟨held, hheld, h⟩
  refine (peekKind_trying hfit hheld s h).bind ?_ fun _ _ he => he
  rintro kind s₁ ⟨h₁, token, hnext, rfl⟩
  split
  · next hname =>
    refine (consume_trying hfit hheld token s₁ ⟨h₁, hnext⟩).bind ?_ fun _ _ he => he
    rintro _ s₂ ⟨rfl, h₂⟩
    have hheld₂ := hheld.snoc (.inl hname)
    refine (accept_trying hfit hheld₂ _ s₂ h₂).bind ?_ fun _ _ he => he
    rintro (_ | _) s₃ h₃
    · refine (accept_trying hfit hheld₂ _ s₃ h₃).bind ?_ fun _ _ he => he
      rintro (_ | _) s₄ h₄
      · exact ⟨_, h₄⟩
      · obtain ⟨arrow, -, h₄⟩ := h₄
        exact ⟨_, h₄⟩
    · obtain ⟨separator, hkind, h₃⟩ := h₃
      exact ⟨_, hheld₂.snoc (.inr hkind), h₃⟩
  · exact ⟨held, h₁⟩

/-- **The targets of an assignment** are tried where no drop is due. -/
theorem assignmentTargets_frugal (hfit : b.Fit d.limits) :
    Frugal b d true false (assignmentTargets : Run (Session σ) (Option (List String))) := by
  intro s h
  obtain ⟨tokens, hmark, hspans, -⟩ := h.tokens.mark h.marks (h.settled rfl)
  unfold assignmentTargets
  rw [Run.bind_apply, onTokens_ok hmark]
  refine (tryTargets_leads hfit { s with tokens } hspans).bind ?_ fun _ _ he => he
  rintro (_ | names) t ⟨held, ht⟩
  · obtain ⟨tokens, hrollback, hsound, hmarks⟩ := Cursor.Spans.rollback ht
    dsimp only
    rw [Run.bind_apply, onTokens_ok hrollback]
    exact ⟨hsound, hmarks, nofun⟩
  · obtain ⟨tokens, hcommit, hsound, hmarks⟩ := Cursor.Spans.commit ht
    dsimp only
    rw [Run.bind_apply, onTokens_ok hcommit]
    exact ⟨hsound, hmarks, nofun⟩

/-! ### Expressions -/

section Expressions

variable {read : ExprReader σ}

theorem operatorAt_frugal (hfit : b.Fit d.limits) (fixity : Fixity) :
    Frugal b d i i (operatorAt fixity : Run (Session σ) (Option Operator)) :=
  (peek_frugal hfit).bind fun _ => .ite (.get fun _ _ => .pure _) (.pure _)

theorem itemsBy_frugal (hfit : b.Fit d.limits) (hread : ∀ bound, Frugal b d true true (read bound))
    (container : Container) : Frugal b d true true (itemsBy read container) := by
  refine (accept_frugal hfit _).bind fun accepted => .ite (.pure _)
    (.iterate _ _ (fun items => ?_) (blames_stalled b))
  refine (hread none).bind fun e => (accept_frugal hfit _).bind fun accepted => .ite (.pure _) ?_
  exact (expect_frugal hfit _).bind fun _ => .pure _

theorem groupBy_frugal (hfit : b.Fit d.limits) (hread : ∀ bound, Frugal b d true true (read bound)) :
    Frugal b d i true (groupBy read) := by
  refine (consume_settles hfit).bind fun token => ?_
  split
  · exact (itemsBy_frugal hfit hread _).bind fun _ => .pure _
  · exact violate_leads _

theorem callBy_frugal (hfit : b.Fit d.limits) (hread : ∀ bound, Frugal b d true true (read bound)) :
    Frugal b d i true (callBy read) :=
  (consume_settles hfit).bind fun _ => (groupBy_frugal hfit hread).bind fun _ =>
    .get fun _ _ => tell_frugal (.applyOperator _ _)

theorem prefixedBy_frugal (hfit : b.Fit d.limits)
    (hread : ∀ bound, Frugal b d true true (read bound)) (op : Operator) :
    Frugal b d i true (prefixedBy read op) :=
  (consume_settles hfit).bind fun _ => (hread _).bind fun _ => tell_frugal (.applyOperator _ _)

theorem namedBy_frugal (hfit : b.Fit d.limits) (hread : ∀ bound, Frugal b d true true (read bound))
    (kind : Token.Kind) : Frugal b d i true (namedBy read kind) := by
  refine (peek_frugal hfit).bind fun token => .get fun _ _ => ?_
  refine (kindAt_frugal hfit (Nat.le_refl 1)).bind fun second => .ite (callBy_frugal hfit hread) ?_
  refine (operatorAt_frugal hfit _).bind fun found => ?_
  cases found with
  | some op => exact prefixedBy_frugal hfit hread op
  | none =>
    exact .ite unexpectedOperand_leads
      ((consume_settles hfit).bind fun _ => tell_frugal (.useSignal _))

/-- Behind an operand no drop is due, whatever there was in front of it. -/
theorem operandBy_frugal (hfit : b.Fit d.limits)
    (hread : ∀ bound, Frugal b d true true (read bound)) : Frugal b d i true (operandBy read) := by
  refine (peekKind_frugal hfit).bind fun kind => ?_
  split
  · exact (consume_settles hfit).bind fun _ => tell_frugal (.constant _ _)
  · refine .ite ((groupBy_frugal hfit hread).bind fun found => ?_)
      (.ite (namedBy_frugal hfit hread kind) unexpectedOperand_leads)
    split
    · exact .pure _
    · exact tell_frugal (.encapsulate _ _)

theorem popOperand_frugal (operands : List Expr) :
    Frugal b d i i (popOperand operands : Run (Session σ) (Expr × List Expr)) := by
  cases operands with
  | nil => exact violate_leads _
  | cons e rest => exact .pure _

theorem reduceWhile_frugal (first : Operator → Bool) (n : Nat) (held : Stacks) :
    Frugal b d i i (reduceWhile first n held : Run (Session σ) Stacks) := by
  induction n generalizing held with
  | zero => exact .pure _
  | succ n ih =>
    refine .ite (.bind ?_ ih) (.pure _)
    unfold reduce
    split
    · exact violate_leads _
    · refine (popOperand_frugal _).bind fun right => (popOperand_frugal _).bind fun left => ?_
      exact (tell_frugal _).bind fun _ => .pure _

theorem infixesBy_frugal (hfit : b.Fit d.limits)
    (hread : ∀ bound, Frugal b d true true (read bound)) (bound : Option Nat) (held : Stacks) :
    Frugal b d true true (infixesBy read bound held) := by
  refine .iterate _ _ (fun held => (operatorAt_frugal hfit _).bind fun found => ?_)
    (blames_stalled b)
  cases found with
  | none => exact .pure _
  | some op =>
    refine .ite ((reduceWhile_frugal _ _ _).bind fun held => ?_) (.pure _)
    exact (consume_frugal hfit).bind fun _ => (operandBy_frugal hfit hread).bind fun _ => .pure _

theorem postfixesBy_frugal (hfit : b.Fit d.limits) (bound : Option Nat) (operand : Expr) :
    Frugal b d i i (postfixesBy bound operand : Run (Session σ) (Expr × Bool)) := by
  refine .iterate _ _ (fun ⟨operand, applied⟩ => (operatorAt_frugal hfit _).bind fun found => ?_)
    (blames_stalled b)
  cases found with
  | none => exact .pure _
  | some op =>
    exact .ite ((consume_frugal hfit).bind fun _ => (tell_frugal _).bind fun _ => .pure _) (.pure _)

theorem climbBy_frugal (hfit : b.Fit d.limits) (hread : ∀ bound, Frugal b d true true (read bound))
    (bound : Option Nat) : Frugal b d i true (climbBy read bound) := by
  refine (operandBy_frugal hfit hread).bind fun first =>
    .iterate _ _ (fun first => ?_) (blames_stalled b)
  exact (infixesBy_frugal hfit hread _ _).bind fun held => (reduceWhile_frugal _ _ _).bind
    fun held => (popOperand_frugal _).bind fun whole => (postfixesBy_frugal hfit _ _).bind
    fun found => (operatorAt_frugal hfit _).bind fun _ => .ite (.pure _) (.pure _)

theorem climb_frugal (hfit : b.Fit d.limits) (depth : Nat) (bound : Option Nat) :
    Frugal b d i true (climb depth bound : Run (Session σ) Expr) := by
  induction depth generalizing bound i with
  | zero => exact fun s _ => blames_stalled b s
  | succ depth ih => exact climbBy_frugal hfit (fun _ => ih _) bound

/-- **An expression** is read in bounded memory, and behind it no drop is due. -/
theorem expression_frugal (hfit : b.Fit d.limits) :
    Frugal b d i true (expression : Run (Session σ) Expr) :=
  fun s h => climb_frugal hfit (s.remaining + 1) none s h

end Expressions

/-! ### Statements -/

theorem name_frugal (hfit : b.Fit d.limits) :
    Frugal b d true true (name : Run (Session σ) String) :=
  (peekKind_frugal hfit).bind fun _ =>
    .ite ((consume_frugal hfit).bind fun _ => .pure _) (mismatch_leads _)

theorem names_frugal (hfit : b.Fit d.limits) :
    Frugal b d true true (names : Run (Session σ) (List String)) := by
  refine (name_frugal hfit).bind fun first => .iterate _ _ (fun names => ?_) (blames_stalled b)
  exact (accept_frugal hfit _).bind fun _ =>
    .ite ((name_frugal hfit).bind fun _ => .pure _) (.pure _)

theorem namesAfterWord_frugal (hfit : b.Fit d.limits) (word : String) :
    Frugal b d true true (namesAfterWord word : Run (Session σ) (List String)) :=
  (acceptWord_frugal hfit word).bind fun _ => .ite (names_frugal hfit) (.pure _)

theorem busNames_frugal (hfit : b.Fit d.limits) :
    Frugal b d true true (busNames : Run (Session σ) (List String)) :=
  (accept_frugal hfit _).bind fun _ => .ite (names_frugal hfit) (.pure _)

theorem entityReference_frugal (hfit : b.Fit d.limits) :
    Frugal b d true true (entityReference : Run (Session σ) String) :=
  (peekKind_frugal hfit).bind fun _ =>
    .ite ((consume_frugal hfit).bind fun _ => .pure _) (mismatch_leads _)

theorem adjacentSymbols_frugal (hfit : b.Fit d.limits) (text : String) (stop : Text.Position) :
    Frugal b d true true (adjacentSymbols text stop : Run (Session σ) String) :=
  .iterate _ _ (fun (_, _) => (peek_frugal hfit).bind fun _ =>
    .ite ((consume_frugal hfit).bind fun _ => .pure _) (.pure _)) (blames_stalled b)

theorem definedSymbol_frugal (hfit : b.Fit d.limits) :
    Frugal b d true true (definedSymbol : Run (Session σ) String) :=
  (peekKind_frugal hfit).bind fun _ =>
    .ite ((consume_frugal hfit).bind fun _ => .pure _)
      (.ite ((consume_frugal hfit).bind fun _ => adjacentSymbols_frugal hfit _ _) (mismatch_leads _))

theorem definedNotation_frugal (hfit : b.Fit d.limits) :
    Frugal b d true true (definedNotation : Run (Session σ) Notation) := by
  refine (peek_frugal hfit).bind fun token => ?_
  split
  · exact .ite ((consume_frugal hfit).bind fun _ => .pure _) (mismatch_leads _)
  · exact mismatch_leads _

theorem definedPrecedence_frugal (hfit : b.Fit d.limits) :
    Frugal b d true true (definedPrecedence : Run (Session σ) Nat) := by
  refine (peekKind_frugal hfit).bind fun kind => .ite ((peek_frugal hfit).bind fun token => ?_)
    (.pure _)
  exact .ite ((consume_frugal hfit).bind fun _ => .pure _) (mismatch_leads _)

theorem entityDefinition_frugal (hfit : b.Fit d.limits) :
    Frugal b d true true (entityDefinition : Run (Session σ) Statement) := by
  refine (name_frugal hfit).bind fun label => (definedSymbol_frugal hfit).bind fun symbol =>
    (definedNotation_frugal hfit).bind fun form => (definedPrecedence_frugal hfit).bind
    fun precedence => (namesAfterWord_frugal hfit _).bind fun inputs =>
    (namesAfterWord_frugal hfit _).bind fun outputs => (busNames_frugal hfit).bind fun buses =>
    (tell_frugal _).bind fun _ => ?_
  intro s h
  exact insertOperator_calm h _

section Bodies

variable {read : Run (Session σ) Statement}

theorem bodyBy_frugal (hfit : b.Fit d.limits) (hread : Frugal b d true true read) :
    Frugal b d true true (bodyBy read) := by
  refine .iterate _ _ (fun statements => (skip_frugal hfit _).bind fun _ =>
    (accept_frugal hfit _).bind fun _ => .ite (.pure _) ?_) (blames_stalled b)
  refine hread.bind fun statement => (accept_frugal hfit _).bind fun _ => .ite (.pure _) ?_
  exact (expect_frugal hfit _).bind fun _ => .pure _

theorem architectureBy_frugal (hfit : b.Fit d.limits) (hread : Frugal b d true true read) :
    Frugal b d true true (architectureBy read) :=
  (name_frugal hfit).bind fun _ => (entityReference_frugal hfit).bind fun _ =>
    (expect_frugal hfit _).bind fun _ => (tell_frugal _).bind fun _ =>
    (bodyBy_frugal hfit hread).bind fun _ => (tell_frugal _).bind fun _ => .pure _

theorem definitionBy_frugal (hfit : b.Fit d.limits) (hread : Frugal b d true true read) :
    Frugal b d true true (definitionBy read) :=
  (acceptWord_frugal hfit _).bind fun _ => .ite (entityDefinition_frugal hfit)
    ((acceptWord_frugal hfit _).bind fun _ =>
      .ite (architectureBy_frugal hfit hread) (mismatch_leads _))

end Bodies

theorem bindingLabel_frugal (hfit : b.Fit d.limits) :
    Frugal b d true true (bindingLabel : Run (Session σ) (Option String)) := by
  refine (peekKind_frugal hfit).bind fun kind => .ite ?_ (.pure _)
  refine (kindAt_frugal hfit (Nat.le_refl 1)).bind fun second => .ite ?_ (.pure _)
  exact (consume_frugal hfit).bind fun _ => (consume_frugal hfit).bind fun _ => .pure _

theorem bindingsAfterWord_frugal (hfit : b.Fit d.limits) (word : String)
    {read : Run (Session σ) Expr} (hread : Frugal b d true true read) :
    Frugal b d true true (bindingsAfterWord word read) := by
  refine (acceptWord_frugal hfit word).bind fun _ => .ite ?_ (.pure _)
  refine .iterate _ _ (fun bindings => ?_) (blames_stalled b)
  exact (bindingLabel_frugal hfit).bind fun _ => hread.bind fun _ =>
    (accept_frugal hfit _).bind fun _ => .ite (.pure _) (.pure _)

theorem outputSignal_frugal (hfit : b.Fit d.limits) :
    Frugal b d true true (outputSignal : Run (Session σ) Expr) :=
  (name_frugal hfit).bind fun _ => tell_frugal (.useSignal _)

theorem instantiation_frugal (hfit : b.Fit d.limits) :
    Frugal b d true true (instantiation : Run (Session σ) Statement) :=
  (expect_frugal hfit _).bind fun _ => (entityReference_frugal hfit).bind fun _ =>
    (bindingsAfterWord_frugal hfit _ (expression_frugal hfit)).bind fun _ =>
    (bindingsAfterWord_frugal hfit _ (outputSignal_frugal hfit)).bind fun _ =>
    (busNames_frugal hfit).bind fun _ =>
    (mapM_frugal (fun name => tell_frugal (.useBus name)) _).bind fun _ =>
    (tell_frugal (.instantiate _ _ _ _)).bind fun _ => .pure _

theorem assignmentOrExpression_frugal (hfit : b.Fit d.limits) :
    Frugal b d true true (assignmentOrExpression : Run (Session σ) Statement) := by
  refine (assignmentTargets_frugal hfit).bind fun targets => ?_
  cases targets with
  | none => exact (expression_frugal hfit).bind fun _ => .pure _
  | some names =>
    refine (mapM_frugal (fun name => tell_frugal (.useSignal name)) _).bind fun targets => ?_
    exact (expression_frugal hfit).bind fun _ => (tell_frugal (.assign _ _)).bind fun _ => .pure _

theorem statementBy_frugal (hfit : b.Fit d.limits) {read : Run (Session σ) Statement}
    (hread : Frugal b d true true read) : Frugal b d true true (statementBy read) := by
  refine (peekKind_frugal hfit).bind fun kind => ?_
  split
  · exact (consume_frugal hfit).bind fun _ => definitionBy_frugal hfit hread
  · exact instantiation_frugal hfit
  · exact (consume_frugal hfit).bind fun _ => (names_frugal hfit).bind fun _ =>
      (mapM_frugal (fun name => tell_frugal (.declareSignal name)) _).bind fun _ => .pure _
  · exact (consume_frugal hfit).bind fun _ => (names_frugal hfit).bind fun _ =>
      (mapM_frugal (fun name => tell_frugal (.declareBus name)) _).bind fun _ => .pure _
  · exact assignmentOrExpression_frugal hfit

theorem statement_frugal (hfit : b.Fit d.limits) (depth : Nat) :
    Frugal b d true true (statement depth : Run (Session σ) Statement) := by
  induction depth with
  | zero => exact fun s _ => blames_stalled b s
  | succ depth ih => exact statementBy_frugal hfit ih

/-- **A statement** is read in bounded memory, and behind it no drop is due. -/
theorem parseStatement_frugal (hfit : b.Fit d.limits) :
    Frugal b d true true (parseStatement : Run (Session σ) (Option Statement)) := by
  refine (skip_frugal hfit _).bind fun _ => (peekKind_frugal hfit).bind fun kind =>
    .ite (.pure _) (.get fun s _ => ?_)
  refine (statement_frugal hfit _).bind fun statement => (accept_frugal hfit _).bind fun _ =>
    .ite (.pure _) ?_
  exact (peekKind_frugal hfit).bind fun _ => .ite (.pure _) (mismatch_leads _)

/-- So are all statements. -/
theorem parseAll_frugal (hfit : b.Fit d.limits) :
    Frugal b d true true (parseAll : Run (Session σ) (List Statement)) := by
  refine .iterate _ _ (fun statements => (parseStatement_frugal hfit).bind fun found => ?_)
    (blames_stalled b)
  cases found with
  | none => exact .pure _
  | some statement => exact .pure _

/-- Behind every statement a session is calm. -/
theorem Yields.calm (hfit : b.Fit d.limits) {s t : Session σ} {replies : List Reply}
    (h : Yields s replies t) (hs : s.Calm d true) : t.Calm d true := by
  induction h with
  | nil s => exact hs
  | cons hparse _ ih => exact ih ((parseStatement_frugal hfit _ hs).of_ok hparse)

end Parser

end Dataflow
