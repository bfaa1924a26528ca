import Dataflow.Proofs.Consumption
import Dataflow.Proofs.Mirroring
import Dataflow.Proofs.SessionMatching
import Dataflow.Proofs.Survival
import Dataflow.Proofs.Unmarked

/-!
# Dataflow.Proofs.Undisturbed

**No mark is left behind** as long as the source, the buffers and the lexer report no error. A parser sets one
mark, for the targets of an assignment, and takes it back unless a token in between could not be had. So a session
that has been told of mismatches, of missing operands and of refused calls only has no marks.

* `Session.Spares` — a computation that leaves marks, room, netlist and calls alone, and fails for errors of
  reading only; trying for the targets of an assignment is one (`assignmentTargets_spares`);
* `Session.Unmarked` — no mark is outstanding. Whatever fails for another reason leaves a session unmarked
  (`parseStatement_unmarked`);
* `Undisturbed` — a session in which source, buffers and lexer have reported no error.
-/

namespace Dataflow

open Reading Circuit

/-! ### Frames -/

namespace Reading.Cursor

variable {σ α κ : Type} [Source σ α] {c : Cursor σ α} {room : Option Nat} {marks : Marks}

omit [Source σ α] in
theorem mark_frames (h : c.Framed marks room) :
    ∃ m c', mark c = .ok () c' ∧ c'.Framed (m :: marks) room :=
  ⟨c.offset, { c with marks := c.offset :: c.marks }, rfl, congrArg (c.offset :: ·) h.1, h.2⟩

omit [Source σ α] in
theorem commit_frames {m : Nat} (h : c.Framed (m :: marks) room) :
    ∃ c', commit c = .ok () c' ∧ c'.Framed marks room := by
  obtain ⟨buffer, held, offset, consumed, compactAfter⟩ := c
  obtain ⟨rfl, hroom⟩ : held = m :: marks ∧ _ := h
  exact ⟨_, rfl, rfl, hroom⟩

omit [Source σ α] in
theorem rollback_frames {m : Nat} (h : c.Framed (m :: marks) room) :
    ∃ c', rollback c = .ok () c' ∧ c'.Framed marks room := by
  obtain ⟨buffer, held, offset, consumed, compactAfter⟩ := c
  obtain ⟨rfl, hroom⟩ : held = m :: marks ∧ _ := h
  exact ⟨_, rfl, rfl, hroom⟩

variable [Element α κ] [DecidableEq κ]

/-- Composing a message leaves the marks alone, whatever cannot be read for it. -/
theorem compose_marks (hσ : Source.Troubled σ) (make : String → Option Text.Span → String → Error)
    (h : c.marks = marks) :
    ∃ e c', (compose make : Run (Cursor σ α) Error) c = .ok e c' ∧ c'.marks = marks := by
  obtain ⟨found, context, c', hcompose, h'⟩ := compose_ok (I := fun c : Cursor σ α => c.marks = marks)
    (fun k c hc => (elementAt_frames hσ (c.offset + k) c ⟨hc, rfl⟩).mono (fun _ _ h => h.1) fun _ _ h => h.2)
    ((lookahead_frames hσ 0 c ⟨h, rfl⟩).mono (fun _ _ h => h.1) fun _ _ h => h.2) make
  exact ⟨_, c', hcompose, h'⟩

end Reading.Cursor

namespace Session

variable {σ β : Type} [Source σ Char] {netlist : Netlist} {calls : List Call} {marks : Marks} {room : Option Nat}

/-- The session has this netlist and has made these calls, and its cursor has these marks and this room. -/
def Untouched (netlist : Netlist) (calls : List Call) (marks : Marks) (room : Option Nat) (s : Session σ) : Prop :=
  s.netlist = netlist ∧ s.calls = calls ∧ s.tokens.Framed marks room

/-- A computation that leaves all of that alone. Where it fails, it is for an error of reading. -/
abbrev Spares (netlist : Netlist) (calls : List Call) (marks : Marks) (room : Option Nat)
    (x : Run (Session σ) β) : Prop :=
  Run.Leads (fun e _ => e.OfReading) (Untouched netlist calls marks room) (fun _ => Untouched netlist calls marks room) x

omit [Source σ Char] in
theorem onTokens_spares {x : Run (Cursor (Lexer σ) Token) β} (hx : Cursor.Frames marks room x) :
    Spares netlist calls marks room (onTokens x) := by
  rintro s ⟨hnetlist, hcalls, htokens⟩
  have hends := hx s.tokens htokens
  cases hr : x s.tokens with
  | ok b c =>
    rw [onTokens_ok hr]
    exact ⟨hnetlist, hcalls, hends.of_ok hr⟩
  | error e c =>
    rw [onTokens_error hr]
    exact (hends.of_error hr).1

variable (hσ : Source.Troubled σ)

include hσ

theorem lookahead_spares (k : Nat) :
    Spares netlist calls marks room (onTokens (Cursor.lookahead k) : Run (Session σ) Token) :=
  onTokens_spares (Cursor.lookahead_frames (Lexer.troubled hσ) k)

theorem peekKind_spares : Spares netlist calls marks room (peekKind : Run (Session σ) Token.Kind) := by
  rw [peekKind_eq]
  exact (lookahead_spares hσ 0).bind fun token => .pure token.kind

theorem consume_spares : Spares netlist calls marks room (consume : Run (Session σ) Token) :=
  onTokens_spares (Cursor.consume_frames (Lexer.troubled hσ))

theorem accept_spares (kind : Token.Kind) : Spares netlist calls marks room (accept kind : Run (Session σ) Bool) := by
  rw [accept_eq]
  exact (lookahead_spares hσ 0).bind fun token => .ite ((consume_spares hσ).bind fun _ => .pure true) (.pure false)

end Session

namespace Parser

open Session

variable {σ : Type} [Source σ Char] {netlist : Netlist} {calls : List Call} {marks : Marks} {room : Option Nat}
  (hσ : Source.Troubled σ)

include hσ

theorem tryTargets_spares :
    Spares netlist calls marks room (tryTargets : Run (Session σ) (Option (List String))) := by
  refine Run.Leads.iterate _ _ (fun names => (peekKind_spares hσ).bind fun kind => .ite ?_ (.pure _))
    fun _ => Failure.ofReading_stalled
  refine (consume_spares hσ).bind fun token => (accept_spares hσ _).bind fun more => .ite (.pure _) ?_
  exact (accept_spares hσ _).bind fun ended => .ite (.pure _) (.pure _)

/-- **The mark for the targets** is there when it is given up, and when it is gone back to. -/
theorem assignmentTargets_spares :
    Spares netlist calls marks room (assignmentTargets : Run (Session σ) (Option (List String))) := by
  rintro s ⟨hnetlist, hcalls, htokens⟩
  obtain ⟨m, c, hmark, hc⟩ := Cursor.mark_frames htokens
  unfold assignmentTargets
  rw [Run.bind_apply, onTokens_ok hmark]
  dsimp only
  refine (tryTargets_spares hσ { s with tokens := c } ⟨hnetlist, hcalls, hc⟩).bind ?_ fun _ _ he => he
  rintro found t ⟨hnetlist', hcalls', htokens'⟩
  cases found with
  | some names =>
    obtain ⟨c', hcommit, hc'⟩ := Cursor.commit_frames htokens'
    dsimp only
    rw [Run.bind_apply, onTokens_ok hcommit]
    exact ⟨hnetlist', hcalls', hc'⟩
  | none =>
    obtain ⟨c', hrollback, hc'⟩ := Cursor.rollback_frames htokens'
    dsimp only
    rw [Run.bind_apply, onTokens_ok hrollback]
    exact ⟨hnetlist', hcalls', hc'⟩

end Parser

/-! ### Sessions without marks -/

namespace Session

variable {σ β : Type} [Source σ Char]

/-- No mark is outstanding. -/
def Unmarked (s : Session σ) : Prop := s.tokens.marks = []

/-- A failure for which a mark may be left, or that leaves none. -/
def Excusable (e : Failure) (s : Session σ) : Prop := e.OfReading ∨ s.Unmarked

/-- A computation leaves a session unmarked, unless it fails for an error of reading. -/
abbrev StaysUnmarked (x : Run (Session σ) β) : Prop := Run.Leads Excusable Unmarked (fun _ => Unmarked) x

omit [Source σ Char] in
theorem Spares.unmarked {x : Run (Session σ) β}
    (hx : ∀ netlist calls room, Spares netlist calls [] room x) : StaysUnmarked x :=
  fun s h => (hx s.netlist s.calls s.tokens.narrow s ⟨rfl, rfl, h, rfl⟩).mono (fun _ _ h => h.2.2.1)
    fun _ _ he => .inl he

omit [Source σ Char] in
theorem tell_unmarked (call : Call) : StaysUnmarked (tell call : Run (Session σ) call.Reply) := by
  intro s h
  unfold tell
  dsimp only
  cases Netlist.perform call s.netlist with
  | ok reply netlist => exact h
  | error e netlist => exact .inr h

/-- A session has the bounds that it has alongside itself. -/
theorem stalled_unmarked {s t : Session σ} (h : Run.Both Unmarked s t) :
    t.remaining = s.remaining ∧ (Run.Tolerance.alone Excusable).alike .stalled .stalled s t :=
  ⟨by rw [h.1], rfl, h.1, .inr h.2⟩

variable (hσ : Source.Troubled σ)

include hσ

theorem compose_unmarked (make : String → Option Text.Span → String → Error)
    (Q : β → Session σ → Session σ → Prop) :
    Run.Matches (.alone Excusable) (Run.Both Unmarked) Q (onTokens (Cursor.compose make) >>= fun e => Run.fail e)
      (onTokens (Cursor.compose make) >>= fun e => Run.fail e) := by
  rintro s t ⟨rfl, h⟩
  obtain ⟨e, c, hcompose, hmarks⟩ := Cursor.compose_marks (Lexer.troubled hσ) make h
  rw [Run.bind_apply, onTokens_ok hcompose]
  exact .failure ⟨rfl, rfl, .inr hmarks⟩

/-- **The steps of a parser** leave a session unmarked, which goes alongside itself here. -/
theorem compared_unmarked : Parser.Compared (σ := σ) (Run.Tolerance.alone Excusable).comparison
    (Run.Both Unmarked) (Run.Both Unmarked) where
  tokens := {
    loosen := id
    peek := .of_leads (Spares.unmarked fun _ _ _ => lookahead_spares hσ 0)
    second := by
      rw [kindAt_eq]
      exact .of_leads <| (Spares.unmarked fun _ _ _ => lookahead_spares hσ 1).bind fun token => .pure token.kind
    consume := .of_leads (Spares.unmarked fun _ _ _ => consume_spares hσ)
    mismatch := fun Q expected => compose_unmarked hσ (fun found span context => .mismatch expected found context span) Q
    unexpectedOperand := fun Q =>
      compose_unmarked hσ (fun found span context => .unexpectedOperand found context span) Q
    violate := fun Q violation s t h => .failure ⟨rfl, h.1, .inl (Failure.ofReading_violation violation)⟩
    table := fun s t h => by rw [h.1]
    iterate := fun a hstep => Run.Matches.iterate (.inr fun _ _ => stalled_unmarked) a hstep
    descend := Parser.Kept.descend (fun _ _ h => (stalled_unmarked h).1) fun _ _ h => (stalled_unmarked h).2 }
  tell call _ := .of_leads (tell_unmarked call)
  targets := .of_leads (Spares.unmarked fun _ _ _ => Parser.assignmentTargets_spares hσ)
  define e := .of_leads <| (tell_unmarked (.defineEntity e)).bind fun _ _ h => h

/-- **A statement** leaves a session unmarked, unless it fails for an error of reading. -/
theorem parseStatement_unmarked : StaysUnmarked (Parser.parseStatement : Run (Session σ) (Option Statement)) :=
  Run.Matches.leads (Parser.parseStatement_keptBy (compared_unmarked hσ).rules)

end Session

/-! ### Undisturbed sessions -/

namespace Parser

open Session

variable {σ : Type} [Source σ Char] {I : Nat → σ → Prop} {d : Lexer.Dialect} {s t : Session σ}

/-- A session with the dialect `d` in which source, buffers and lexer have reported no error since it began, or
began again. It may stand between two statements or inside one, where tokens have been scanned and taken and
operators registered since. -/
inductive Undisturbed (I : Nat → σ → Prop) (d : Lexer.Dialect) : Session σ → Prop
  | start {k : Nat} {source : σ} (h : I k source) (table : Operator.Table) :
    Undisturbed I d (Session.ofSource source d table)
  | restarted {s : Session σ} {k : Nat} {source : σ} (hs : Reached s) (hd : s.lexer.dialect = d) (h : I k source)
    (table : Operator.Table) : Undisturbed I d (s.reset source table)
  | parsed {s t : Session σ} {reply : Option Statement} (h : Undisturbed I d s)
    (hparse : parseStatement s = .ok reply t) : Undisturbed I d t
  | failed {s t : Session σ} {e : Error} (h : Undisturbed I d s) (hparse : parseStatement s = .error (.error e) t)
    (he : e.ofReading = false) : Undisturbed I d t
  | inside {s t : Session σ} {v w : Sight σ} {es : List Event} (h : Undisturbed I d s) (hs : s.Sees v)
    (hes : v.Becomes es w) (ht : t.Sees w) : Undisturbed I d t
  | told {s : Session σ} (h : Undisturbed I d s) (netlist : Netlist) : Undisturbed I d { s with netlist }
  | inserted {s : Session σ} (h : Undisturbed I d s) (op : Operator) : Undisturbed I d (s.insertOperator op)

/-- **An undisturbed session has no marks**, and its lexer has its footing. -/
theorem Undisturbed.exists_sight (hI : Ebbs I) (hσ : Source.Troubled σ) (h : Undisturbed I d s) :
    ∃ v, s.Sees v ∧ v.marked = [] ∧ v.Secure I d := by
  induction h with
  | start h table => exact ⟨_, Cursor.sees_ofSource _ _, rfl, _, _, Lexer.within_ofSource h d table⟩
  | @restarted s k source hs hd h table =>
    obtain ⟨v, hv⟩ := hs.exists_sees
    refine ⟨_, Cursor.Sees.reset hv _, rfl, ⟨k, {}⟩, [], ?_⟩
    rw [hd]
    exact Lexer.within_ofSource h d table
  | parsed h hparse ih =>
    obtain ⟨v, hv, hm, hsecure⟩ := ih
    obtain ⟨es, w, hes, hw, -⟩ := (parseStatement_logs hv).of_ok hparse
    refine ⟨w, hw, ?_, hes.secure hI hsecure⟩
    rw [hes.marked, hm]
    rfl
  | failed h hparse he ih =>
    obtain ⟨v, hv, hm, hsecure⟩ := ih
    obtain ⟨-, w, hw, hsecure'⟩ := (parseStatement_survives hI hv hsecure).of_error hparse
    refine ⟨w, hw, ?_, hsecure'⟩
    rcases (parseStatement_unmarked hσ _ (hv.marks_eq_nil.2 hm)).of_error hparse with hreading | hunmarked
    · have htrue := hreading _ rfl
      rw [he] at htrue
      cases htrue
    · exact hw.marks_eq_nil.1 hunmarked
  | inside h hs hes ht ih =>
    obtain ⟨v, hv, hm, hsecure⟩ := ih
    obtain rfl := Cursor.Sees.unique hs hv
    refine ⟨_, ht, ?_, hes.secure hI hsecure⟩
    rw [hes.marked, hm]
    rfl
  | told h netlist ih => exact ih
  | inserted h op ih =>
    obtain ⟨v, hv, hm, p, ps, hwithin⟩ := ih
    exact ⟨_, Cursor.Sees.register hv op, hm, p, ps, hwithin.register op⟩

end Parser

end Dataflow
