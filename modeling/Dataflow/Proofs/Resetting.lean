import Dataflow.Proofs.Assertions
import Dataflow.Proofs.LexerMatching
import Dataflow.Proofs.Mirroring
import Dataflow.Proofs.SessionMatching

/-!
# Dataflow.Proofs.Resetting

**After a reset, everything is as at a fresh start** (`reset_eq_fresh`). A cursor, a lexer or a parser has
been asked anything before, and may have failed at it, in the middle of a token or with marks left. When it
is reset and asked further, its replies are those of a new one over the same source, up to the first
failure, as long as neither meets the limit of its buffer.

What a reset does not restore is the capacity of the window, and it is not seen, since a reset cursor
`Mirrors` a new one and mirrored cursors stay mirrored. There is one exception. The context of a message is
collected as far as the window can grow, and what ends it is not told. With more elements behind the cursor
the limit is met sooner; then the source is read less far, and if it fails there, the failure is still to
come (`reset_ne_fresh_of_cut_context`). A lexer composes no messages, and a parser none but its last one.

* `Cursor.Request`, `Lexer.Request`, `Parser.Request` — what each of them can be asked, with the replies;
* `Lexer.Mirrors`, `Session.Mirrors` — lexers and sessions over mirrored cursors. The first goes through all
  rules of the lexer by `Lexer.Respected`, the second through the parser by `Parser.Respected`.
-/

namespace Dataflow

open Reading Text Circuit

/-! ### Cursors -/

namespace Reading.Cursor

variable {σ α κ : Type}

/-- What a cursor can be asked. -/
inductive Request (σ κ : Type) where
  /-- The element so many places ahead. -/
  | lookahead (k : Nat)
  /-- The next element. -/
  | consume
  /-- The next element, if it is of the kind. -/
  | accept (kind : κ)
  /-- The next element, which has to be of the kind. -/
  | expect (kind : κ)
  /-- To mark the place, to give up a mark, to go back to one. -/
  | mark | commit | rollback
  /-- What is around the cursor. -/
  | context
  /-- The errors for the next element. -/
  | mismatch (expected : String) | unexpectedOperand
  /-- To change the source under the window. -/
  | change (f : σ → σ)
  /-- To go on with another source. -/
  | reset (source : σ)

/-- What a cursor replies. -/
inductive Reply (α : Type) where
  | element (a : α)
  | found (a : Option α)
  | composed (e : Error)
  | done

variable [Source σ α] [Element α κ] [DecidableEq κ]

namespace Request

/-- The reply to a request. What a context shows depends on what stands behind the cursor, and is left
out. -/
def perform : Request σ κ → Run (Cursor σ α) (Reply α)
  | lookahead k => .element <$> Cursor.lookahead k
  | consume => .element <$> Cursor.consume
  | accept kind => .found <$> Cursor.accept kind
  | expect kind => .element <$> Cursor.expect kind
  | mark => (fun _ => .done) <$> Cursor.mark
  | commit => (fun _ => .done) <$> Cursor.commit
  | rollback => (fun _ => .done) <$> Cursor.rollback
  | context => (fun _ => .done) <$> Cursor.context
  | mismatch expected => (fun e => .composed e.bare) <$> Cursor.mismatch expected
  | unexpectedOperand => (fun e => .composed e.bare) <$> Cursor.unexpectedOperand
  | change f => (fun _ => .done) <$> modify (Cursor.mapSource · f)
  | reset source => (fun _ => .done) <$> modify (Cursor.reset · source)

/-- The failures that a request keeps to itself. -/
def hidden : Request σ κ → Cursor σ α → List Failure
  | context, c => c.contextCut
  | mismatch _, c | unexpectedOperand, c => c.messageCut
  | _, _ => []

end Request

/-- The cursor behind a number of requests, whether or not they could be fulfilled. -/
def performAll (requests : List (Request σ κ)) (c : Cursor σ α) : Cursor σ α :=
  requests.foldl (fun c r => Run.leaves (r.perform c)) c

/-- The replies to requests in turn, up to the first failure, and how many marks there are and where the
source is behind each. -/
def replies (requests : List (Request σ κ)) (c : Cursor σ α) :
    List (Except Failure (Reply α × Nat × σ)) :=
  Run.replies Request.perform (fun c => (c.marks.length, c.source)) requests c

/-- The failures that requests meet, those included that they keep to themselves. -/
def failures (requests : List (Request σ κ)) (c : Cursor σ α) : List Failure :=
  Run.failures Request.perform Request.hidden requests c

variable [Source.Modest σ α] {l : Limits} {c c' : Cursor σ α}

/-- No request takes the outlook from a cursor, even if it fails. -/
theorem Request.keeps (r : Request σ κ) : Viewed (α := α) l (fun _ => True) r.perform := by
  have hJ := Source.keeps_true (σ := σ)
  cases r with
  | lookahead k => exact (lookahead_viewed hJ k).map _
  | consume => exact (consume_viewed hJ).map _
  | accept kind => exact (accept_viewed hJ kind).map _
  | expect kind => exact (expect_viewed hJ kind).map _
  | mark => exact mark_viewed.map _
  | commit => exact commit_viewed.map _
  | rollback => exact rollback_viewed.map _
  | context => exact (context_viewed hJ).map _
  | mismatch expected => exact (mismatch_viewed hJ expected).map _
  | unexpectedOperand => exact (unexpectedOperand_viewed hJ).map _
  | change f =>
    rintro c ⟨o, h, -⟩
    exact ⟨_, h.mapSource f, trivial⟩
  | reset source => exact fun c h => h.reset trivial

theorem performAll_keeps (requests : List (Request σ κ)) (h : Showing l (fun _ => True) c) :
    Showing l (fun _ => True) (performAll requests c) := by
  induction requests generalizing c with
  | nil => exact h
  | cons r rest ih => exact ih (r.keeps.of_leaves h)

theorem accept_mirrored (kind : κ) : Run.Matches (mirrored l) (Mirrors l)
    (fun found c c' => if found.isSome then Mirrors l c c' else MirrorsNext l c c')
    (Cursor.accept kind : Run (Cursor σ α) (Option α)) (Cursor.accept kind) := by
  refine peek_mirrored.bind fun a => .ite ?_ fun _ _ h => .answer h
  exact (consume_mirrored.of fun _ _ => MirrorsNext.mirrors).bind fun _ _ _ h => .answer h

theorem expect_meets (kind : κ) : Run.Matches .bare (Mirrors l) (fun _ => Mirrors l)
    (Cursor.expect kind : Run (Cursor σ α) α) (Cursor.expect kind) := by
  intro c c' h
  have hmeet := accept_mirrored kind c c' h
  unfold Cursor.expect
  rw [Run.bind_apply, Run.bind_apply]
  generalize Cursor.accept kind c = r at hmeet
  generalize Cursor.accept kind c' = r' at hmeet
  cases hmeet with
  | failure halike => exact .failure (congrArg Failure.bare halike.1)
  | first he => exact .first he
  | second he => exact .second he
  | @answer found d d' hd =>
    cases found with
    | some a => exact .answer hd
    | none =>
      have hnext : MirrorsNext l d d' := hd
      obtain ⟨found, span, text, text', e, e', he, he'⟩ := hnext.compose
        fun found span context => .mismatch (Element.kindName α kind) found context span
      rw [← mismatch_eq] at he he'
      dsimp only
      rw [Run.bind_apply, Run.bind_apply, he, he']
      exact .failure rfl

/-- **Mirrored cursors** stay mirrored and reply alike. -/
theorem Request.meets (r : Request σ κ) (h : Mirrors l c c') (hcut : ∀ e ∈ r.hidden c, ¬ e.Exceeded)
    (hcut' : ∀ e ∈ r.hidden c', ¬ e.Exceeded) :
    Run.Meet .bare (fun _ => Mirrors l) (r.perform c : EStateM.Result Failure (Cursor σ α) (Reply α))
      (r.perform c') := by
  have hweaken {β : Type} {x : Run (Cursor σ α) β} (hx : Mirrored l x) (f : β → Reply α) :
      Run.Meet .bare (fun _ => Mirrors l) ((f <$> x) c) ((f <$> x) c') :=
    (hx.map f c c' h).mono (fun e e' _ _ he => congrArg Failure.bare he.1) (fun _ he => he)
      fun _ _ _ hd => hd
  cases r with
  | lookahead k => exact hweaken (lookahead_mirrored k) _
  | consume => exact hweaken consume_mirrored _
  | accept kind =>
    refine hweaken ?_ _
    exact (lookahead_mirrored 0).bind fun _ => .ite (consume_mirrored.bind fun _ => .pure _) (.pure _)
  | expect kind => exact (expect_meets kind).map _ c c' h
  | mark => exact hweaken mark_mirrored _
  | commit => exact hweaken commit_mirrored _
  | rollback => exact hweaken rollback_mirrored _
  | context =>
    obtain ⟨text, text', d, d', hd, hd', hmirrors⟩ := h.context hcut hcut'
    simp only [perform, Run.map_ok hd, Run.map_ok hd']
    exact .answer hmirrors
  | mismatch expected =>
    obtain ⟨found, span, text, text', d, d', hd, hd', hmirrors⟩ := h.compose hcut hcut'
      fun found span context => .mismatch expected found context span
    rw [← mismatch_eq] at hd hd'
    simp only [perform, Run.map_ok hd, Run.map_ok hd']
    exact .answer hmirrors
  | unexpectedOperand =>
    obtain ⟨found, span, text, text', d, d', hd, hd', hmirrors⟩ := h.compose hcut hcut'
      fun found span context => .unexpectedOperand found context span
    rw [← unexpectedOperand_eq] at hd hd'
    simp only [perform, Run.map_ok hd, Run.map_ok hd']
    exact .answer hmirrors
  | change f => exact .answer (h.mapSource f)
  | reset source => exact .answer (h.reset source)

end Reading.Cursor

/-! ### Lexers -/

namespace Lexer

variable {σ β : Type} [Source σ Char] {d : Dialect}

/-- The lexers differ in no more than how their cursors hold what is in view. -/
def Mirrors (d : Dialect) (l l' : Lexer σ) : Prop :=
  l' = { l with input := l'.input } ∧ l.dialect = d ∧ l.input.Mirrors d.limits l'.input

omit [Source σ Char] in
theorem onInput_mirrored {x : Run (Cursor σ Char) β} (hx : Cursor.Mirrored d.limits x) :
    Run.Matches .bare (Mirrors d) (fun _ => Mirrors d) (onInput x) (onInput x) := by
  rintro ⟨input, _, _, _, _, _⟩ ⟨input', _, _, _, _, _⟩ ⟨hl, hd, hinput⟩
  cases hl
  have hx := hx input input' hinput
  unfold onInput
  dsimp only
  generalize x input = r at hx
  generalize x input' = r' at hx
  cases hx with
  | answer hc => exact .answer ⟨rfl, hd, hc⟩
  | failure halike => exact .failure (congrArg Failure.bare halike.1)
  | first he => exact .first he
  | second he => exact .second he

/-- Scanning keeps the dialect. -/
theorem keeps_dialect : Source.Keeps (σ := Lexer σ) fun l => l.dialect = d := by
  intro n
  have htrue {β : Type} (x : Run (Cursor σ Char) β) :
      Run.Leads (fun _ _ => True) (fun _ => True) (fun _ _ => True) x := fun c _ => .of_true (x c)
  have hkept := respected_has (d := d) (fun n => htrue _) (htrue _) (htrue _) (htrue _) (htrue _)
  intro l hl
  exact ((nexts_kept hkept n).keeps l ⟨hl, trivial⟩).mono (fun _ _ h => h.1) fun _ _ h => h.1

variable [Source.Modest σ Char]

/-- **Mirrored lexers.** -/
theorem respected_mirrors : Respected (σ := σ) .bare fun _ => Mirrors d where
  peek _ n := onInput_mirrored (Cursor.lookahead_mirrored n)
  bump _ := by
    refine (onInput_mirrored Cursor.consume_mirrored).bind fun c => ?_
    rintro l l' ⟨hl, hd, hinput⟩
    rw [hl]
    by_cases hc : c ≠ endOfInput
    · rw [if_pos hc]
      exact .answer ⟨rfl, hd, hinput⟩
    · rw [if_neg hc]
      exact .answer ⟨rfl, hd, hinput⟩
  mark _ := (onInput_mirrored Cursor.mark_mirrored).bind fun _ l l' ⟨hl, hd, hinput⟩ => by
    rw [hl]
    exact .answer ⟨rfl, hd, hinput⟩
  commit _ := (onInput_mirrored Cursor.commit_mirrored).bind fun _ l l' ⟨hl, hd, hinput⟩ => by
    rw [hl]
    exact .answer ⟨rfl, hd, hinput⟩
  rollback _ := (onInput_mirrored Cursor.rollback_mirrored).bind fun _ l l' ⟨hl, hd, hinput⟩ => by
    rw [hl]
    exact .answer ⟨rfl, hd, hinput⟩
  tally := by
    rintro l l' ⟨hl, hd, hinput⟩
    rw [hl]
    exact ⟨rfl, hd, hinput⟩
  dialect := by
    rintro _ l l' ⟨hl, -, -⟩
    rw [hl]
  table := by
    rintro _ l l' ⟨hl, -, -⟩
    rw [hl]
  position := by
    rintro _ l l' ⟨hl, -, -⟩
    rw [hl]
  rounds _ := .inr fun l l' h => ⟨h.2.2.remaining_eq, rfl⟩
  failed _ _ _ := rfl

/-- The lexer has the dialect, and its cursor has something in view. -/
abbrev Showing (d : Dialect) : Lexer σ → Prop := Has d (Cursor.Showing d.limits fun _ => True)

theorem respected_showing : Respected (σ := σ) (.both (Showing d)) fun _ => Run.Both (Showing d) :=
  respected_has (Cursor.lookahead_viewed Source.keeps_true) (Cursor.consume_viewed Source.keeps_true)
    Cursor.mark_viewed Cursor.commit_viewed Cursor.rollback_viewed

/-! ### Requests to lexers -/

namespace Request

/-- What a lexer replies: tokens, or the operator that a further one replaces. -/
def reply : Request σ → Run (Lexer σ) (List Token × Option Operator)
  | next => (fun token => ([token], none)) <$> Lexer.next
  | read n => (fun tokens => (tokens, none)) <$> nexts n
  | register op => fun l => .ok ([], (l.register op).1) (l.register op).2
  | reset source table => fun l => .ok ([], none) (l.reset source table)

theorem keeps_showing (r : Request σ) {l : Lexer σ} (h : Showing d l) : Showing d (r.perform l) := by
  cases r with
  | next => exact (next_kept respected_showing).keeps.of_leaves h
  | read n => exact (nexts_kept respected_showing n).keeps.of_leaves h
  | register op => exact h
  | reset source table => exact ⟨h.1, h.2.reset trivial⟩

theorem meets (r : Request σ) :
    Run.Matches .bare (Mirrors d) (fun _ => Mirrors d) r.reply r.reply := by
  cases r with
  | next => exact (next_kept respected_mirrors).map _
  | read n => exact (nexts_kept respected_mirrors n).map _
  | register op =>
    rintro l l' ⟨hl, hd, hinput⟩
    rw [hl]
    exact .answer ⟨rfl, hd, hinput⟩
  | reset source table =>
    rintro l l' ⟨hl, hd, hinput⟩
    rw [hl]
    exact .answer ⟨rfl, hd, hinput.reset source⟩

end Request

theorem performAll_showing (requests : List (Request σ)) {l : Lexer σ} (h : Showing d l) :
    Showing d (performAll requests l) := by
  induction requests generalizing l with
  | nil => exact h
  | cons r rest ih => exact ih (r.keeps_showing h)

/-- The replies to requests in turn, up to the first failure, and where the lexer is behind each, what it
has counted and which operators it knows. -/
def replies (requests : List (Request σ)) (l : Lexer σ) :
    List (Except Failure ((List Token × Option Operator) × Position × Statistics × Operator.Table)) :=
  Run.replies Request.reply (fun l => (l.position, l.statistics, l.table)) requests l

/-- The failure that requests meet, if there is one. -/
def failures (requests : List (Request σ)) (l : Lexer σ) : List Failure :=
  Run.failures Request.reply (fun _ _ => []) requests l

end Lexer

/-! ### Parsers -/

namespace Session

variable {σ β : Type} [Source σ Char] {d : Lexer.Dialect}

/-- The sessions have the same tokens and characters in view, and tell the same netlist. -/
def Mirrors (d : Lexer.Dialect) (s t : Session σ) : Prop :=
  s.tokens.Mirrors d.limits t.tokens ∧ t.netlist = s.netlist ∧ t.calls = s.calls

/-- The sessions mirror each other, and the token at the cursor has been looked at. -/
def MirrorsNext (d : Lexer.Dialect) (s t : Session σ) : Prop :=
  s.tokens.MirrorsNext d.limits t.tokens ∧ t.netlist = s.netlist ∧ t.calls = s.calls

/-- The session has the dialect, and its cursor an outlook. -/
def Showing (d : Lexer.Dialect) (s : Session σ) : Prop :=
  s.tokens.Showing d.limits fun l => l.dialect = d

section Tokens

omit [Source σ Char] in
theorem onTokens_mirrored {P Q : Cursor (Lexer σ) Token → Cursor (Lexer σ) Token → Prop}
    {x : Run (Cursor (Lexer σ) Token) β}
    (hx : Run.Matches (Cursor.mirrored d.limits) P (fun _ => Q) x x) :
    Run.Matches .bare (fun s t => P s.tokens t.tokens ∧ t.netlist = s.netlist ∧ t.calls = s.calls)
      (fun _ s t => Q s.tokens t.tokens ∧ t.netlist = s.netlist ∧ t.calls = s.calls)
      (onTokens x) (onTokens x) := by
  rintro ⟨tokens, netlist, calls⟩ ⟨tokens', netlist', calls'⟩ ⟨htokens, rfl, rfl⟩
  have hx := hx tokens tokens' htokens
  unfold onTokens
  dsimp only
  generalize x tokens = r at hx
  generalize x tokens' = r' at hx
  cases hx with
  | answer hc => exact .answer ⟨hc, rfl, rfl⟩
  | failure halike => exact .failure (congrArg Failure.bare halike.1)
  | first he => exact .first he
  | second he => exact .second he

omit [Source σ Char] in
theorem onTokens_showing {x : Run (Cursor (Lexer σ) Token) β}
    (hx : Cursor.Viewed d.limits (fun l => l.dialect = d) x) :
    Run.Leads (fun _ => Showing d) (Showing d) (fun _ => Showing d) (onTokens x) := by
  rintro ⟨tokens, netlist, calls⟩ h
  have hx := hx tokens h
  unfold onTokens
  dsimp only
  generalize x tokens = r at hx
  cases r with
  | ok b c => exact hx
  | error e c => exact hx

end Tokens

/-- A lexer hands out as many tokens as it is asked for. -/
instance : Source.Modest (Lexer σ) Token where
  read_le {_ l _ _} h := Nat.le_of_eq (Sight.Becomes.of_nexts (v := { lexer := l }) h).2

theorem steps_mirrors : Parser.Steps (σ := σ) .bare (Mirrors d) (MirrorsNext d) where
  loosen h := ⟨h.1.mirrors, h.2⟩
  peek := onTokens_mirrored Cursor.peek_mirrored
  second := by
    rw [kindAt_eq]
    exact (onTokens_mirrored (Cursor.second_mirrored 1)).bind fun _ => .pure _
  consume := onTokens_mirrored Cursor.consume_mirrored
  mark := onTokens_mirrored Cursor.mark_mirrored
  commit := onTokens_mirrored Cursor.commit_mirrored
  rollback := onTokens_mirrored Cursor.rollback_mirrored
  mismatch Q expected := by
    rintro s t ⟨h, hnetlist, hcalls⟩
    obtain ⟨found, span, text, text', c, c', hc, hc'⟩ := h.compose
      fun found span context => .mismatch expected found context span
    rw [← Cursor.mismatch_eq] at hc hc'
    unfold mismatch
    rw [Run.bind_apply, Run.bind_apply, onTokens_ok hc, onTokens_ok hc']
    exact .failure rfl
  unexpectedOperand Q := by
    rintro s t ⟨h, hnetlist, hcalls⟩
    obtain ⟨found, span, text, text', c, c', hc, hc'⟩ := h.compose
      fun found span context => .unexpectedOperand found context span
    rw [← Cursor.unexpectedOperand_eq] at hc hc'
    unfold unexpectedOperand
    rw [Run.bind_apply, Run.bind_apply, onTokens_ok hc, onTokens_ok hc']
    exact .failure rfl
  table h := congrArg Lexer.table h.1.source_eq
  remaining h := h.1.remaining_eq
  failed _ _ _ := rfl

/-- **Mirrored sessions.** -/
theorem respected_mirrors : Parser.Respected (σ := σ) .bare (Mirrors d) (MirrorsNext d) where
  tokens := steps_mirrors
  tell call _ := by
    rintro ⟨tokens, _, _⟩ ⟨tokens', netlist, calls⟩ ⟨h, rfl, rfl⟩
    unfold tell
    dsimp only
    cases Netlist.perform call netlist with
    | ok reply n => exact .answer ⟨h, rfl, rfl⟩
    | error e n => exact .failure rfl
  define e := by
    rintro ⟨tokens, _, _⟩ ⟨tokens', netlist, calls⟩ ⟨h, rfl, rfl⟩
    unfold Parser.define
    rw [Run.bind_apply, Run.bind_apply]
    unfold tell
    dsimp only
    cases Netlist.perform (.defineEntity e) netlist with
    | ok reply n => exact .answer ⟨h.mapSource fun l => (l.register e.operator).2, rfl, rfl⟩
    | error e n => exact .failure rfl

theorem mismatch_showing (expected : String) : Run.Leads (fun _ => Showing d) (Showing d)
    (fun _ _ => False) (mismatch expected : Run (Session σ) β) :=
  (onTokens_showing (Cursor.mismatch_viewed Lexer.keeps_dialect expected)).bind fun _ _ h => h

theorem unexpectedOperand_showing : Run.Leads (fun _ => Showing d) (Showing d) (fun _ _ => False)
    (unexpectedOperand : Run (Session σ) β) :=
  (onTokens_showing (Cursor.unexpectedOperand_viewed Lexer.keeps_dialect)).bind fun _ _ h => h

open Run (Both)

theorem steps_showing : Parser.Steps (σ := σ) (.both (Showing d)) (Both (Showing d)) (Both (Showing d)) where
  loosen := id
  peek := .of_leads (onTokens_showing (Cursor.lookahead_viewed Lexer.keeps_dialect 0))
  second := by
    rw [kindAt_eq]
    exact (Run.Matches.of_leads (onTokens_showing
      (Cursor.lookahead_viewed Lexer.keeps_dialect 1))).bind fun _ => .pure _
  consume := .of_leads (onTokens_showing (Cursor.consume_viewed Lexer.keeps_dialect))
  mark := .of_leads (onTokens_showing Cursor.mark_viewed)
  commit := .of_leads (onTokens_showing Cursor.commit_viewed)
  rollback := .of_leads (onTokens_showing Cursor.rollback_viewed)
  mismatch _ expected :=
    (Run.Matches.of_leads (mismatch_showing expected)).mono (fun _ _ h => h) fun _ _ _ h => h.2.elim
  unexpectedOperand _ :=
    (Run.Matches.of_leads unexpectedOperand_showing).mono (fun _ _ h => h) fun _ _ _ h => h.2.elim
  table h := by rw [h.1]
  remaining h := by rw [h.1]
  failed h e _ := ⟨rfl, h⟩

theorem showing_ofSource (source : σ) (d : Lexer.Dialect) (table : Operator.Table) :
    Showing d (ofSource source d table) :=
  ⟨_, Cursor.shows_ofSource _ _, rfl⟩

omit [Source σ Char] in
theorem Showing.dialect_eq {s : Session σ} (h : Showing d s) : s.lexer.dialect = d := by
  obtain ⟨o, ho, hd⟩ := h
  show s.tokens.buffer.source.dialect = d
  rw [ho.source]
  exact hd

omit [Source σ Char] in
theorem tell_showing (call : Call) :
    Run.Leads (fun _ => Showing d) (Showing d) (fun _ => Showing d) (tell call : Run (Session σ) _) := by
  rintro ⟨tokens, netlist, calls⟩ h
  unfold tell
  dsimp only
  cases Netlist.perform call netlist with
  | ok reply n => exact h
  | error e n => exact h

omit [Source σ Char] in
theorem Showing.insertOperator {s : Session σ} (h : Showing d s) (op : Operator) :
    Showing d (s.insertOperator op) := by
  obtain ⟨o, ho, hd⟩ := h
  exact ⟨_, ho.mapSource fun l => (l.register op).2, hd⟩

/-- **One session.** Whatever comes of it, it keeps its dialect and has something in view. -/
theorem respected_showing :
    Parser.Respected (σ := σ) (.both (Showing d)) (Both (Showing d)) (Both (Showing d)) where
  tokens := steps_showing
  tell call _ := .of_leads (tell_showing call)
  define e := .of_leads <| (tell_showing (.defineEntity e)).bind fun _ _ h => h.insertOperator _

end Session

/-! ### Requests to parsers -/

namespace Parser

open Session

variable {σ : Type} [Source σ Char] {d : Lexer.Dialect} {s t : Session σ}

/-- What a parser answers to a request. -/
inductive Answer where
  | statement (next : Option Statement)
  | all (statements : List Statement)
  | registered (replaced : Option Operator)
  | done

namespace Request

/-- The answer to a request. -/
def reply : Request σ → Run (Session σ) Answer
  | statement => .statement <$> parseStatement
  | all => .all <$> parseAll
  | register op => fun s => .ok (.registered (s.lexer.register op).1) (s.insertOperator op)
  | tell netlist => fun s => .ok .done { s with netlist }
  | reset source table => fun s => .ok .done (s.reset source table)

theorem keeps_showing (r : Request σ) (h : Session.Showing d s) : Session.Showing d (r.perform s) := by
  cases r with
  | statement => exact (parseStatement_kept respected_showing).keeps.of_leaves h
  | all => exact (parseAll_kept respected_showing).keeps.of_leaves h
  | register op => exact h.insertOperator op
  | tell netlist => exact h
  | reset source table => exact Cursor.Showing.reset h h.dialect_eq

theorem meets (r : Request σ) :
    Run.Matches .bare (Session.Mirrors d) (fun _ => Session.Mirrors d) r.reply r.reply := by
  cases r with
  | statement => exact (parseStatement_kept respected_mirrors).map _
  | all => exact (parseAll_kept respected_mirrors).map _
  | register op =>
    rintro s t ⟨h, hnetlist, hcalls⟩
    have hlexer : t.lexer = s.lexer := h.source_eq
    unfold reply
    dsimp only
    rw [hlexer]
    exact .answer ⟨h.mapSource fun l => (l.register op).2, hnetlist, hcalls⟩
  | tell netlist =>
    rintro s t ⟨h, hnetlist, hcalls⟩
    exact .answer ⟨h, rfl, hcalls⟩
  | reset source table =>
    rintro s t ⟨h, hnetlist, hcalls⟩
    have hlexer : t.lexer = s.lexer := h.source_eq
    unfold reply Session.reset
    dsimp only
    rw [hlexer]
    exact .answer ⟨h.reset _, hnetlist, hcalls⟩

end Request

theorem performAll_showing (requests : List (Request σ)) (h : Session.Showing d s) :
    Session.Showing d (performAll requests s) := by
  induction requests generalizing s with
  | nil => exact h
  | cons r rest ih => exact ih (r.keeps_showing h)

/-- The replies to requests in turn, up to the first failure, and behind each what the lexer has counted,
which operators are known, and what the netlist is and has been told. -/
def replies (requests : List (Request σ)) (s : Session σ) :
    List (Except Failure (Answer × Lexer.Statistics × Operator.Table × Netlist × List Call)) :=
  Run.replies Request.reply
    (fun s => (s.lexer.statistics, s.table, s.netlist, s.trace)) requests s

/-- The failure that requests meet, if there is one. -/
def failures (requests : List (Request σ)) (s : Session σ) : List Failure :=
  Run.failures Request.reply (fun _ _ => []) requests s

end Parser

/-! ### A fresh start -/

section

variable {σ : Type} [Source σ Char] {d : Lexer.Dialect}

theorem Reading.Cursor.replies_reset {σ α κ : Type} [Source σ α] [Source.Modest σ α] [Element α κ]
    [DecidableEq κ] {l : Limits} {c : Cursor σ α} (h : Showing l (fun _ => True) c) (source : σ)
    {requests : List (Request σ κ)}
    (hfailures : ∀ e ∈ failures requests (c.reset source), ¬ e.Exceeded)
    (hfailures' : ∀ e ∈ failures requests (ofSource source l), ¬ e.Exceeded) :
    replies requests (c.reset source) = replies requests (ofSource source l) :=
  Run.replies_eq (R := Mirrors l) (fun r _ _ => r.meets)
    (fun _ _ h => Prod.ext h.marks_length_eq h.source_eq) (h.mirrors_reset source) hfailures hfailures'

theorem Lexer.replies_reset [Source.Modest σ Char] {l : Lexer σ} (h : Showing d l) (source : σ)
    (table : Operator.Table) {requests : List (Request σ)}
    (hfailures : ∀ e ∈ failures requests (l.reset source table), ¬ e.Exceeded)
    (hfailures' : ∀ e ∈ failures requests (ofSource source d table), ¬ e.Exceeded) :
    replies requests (l.reset source table) = replies requests (ofSource source d table) := by
  refine Run.replies_eq (R := Mirrors d) (fun r _ _ h _ _ => r.meets _ _ h) ?_ ?_ hfailures hfailures'
  · rintro l l' ⟨hl, -, -⟩
    rw [hl]
  · obtain ⟨rfl, hinput⟩ := h
    exact ⟨rfl, rfl, hinput.mirrors_reset source⟩

theorem Parser.replies_reset {s : Session σ} (h : s.Showing d) (source : σ) (table : Operator.Table)
    (netlist : Netlist) (calls : List Call) {requests : List (Request σ)}
    (hfailures : ∀ e ∈ failures requests { s.reset source table with netlist, calls }, ¬ e.Exceeded)
    (hfailures' : ∀ e ∈ failures requests
      { Session.ofSource source d table with netlist, calls }, ¬ e.Exceeded) :
    replies requests { s.reset source table with netlist, calls } =
      replies requests { Session.ofSource source d table with netlist, calls } := by
  refine Run.replies_eq (R := Session.Mirrors d) (fun r _ _ h _ _ => r.meets _ _ h) ?_ ?_ hfailures
    hfailures'
  · rintro s t ⟨h, hnetlist, hcalls⟩
    have hlexer : t.lexer = s.lexer := h.source_eq
    unfold Session.table Session.trace
    rw [hlexer, hnetlist, hcalls]
  · refine ⟨?_, rfl, rfl⟩
    show Cursor.Mirrors d.limits (s.tokens.reset (Lexer.ofSource source s.lexer.dialect table)) _
    rw [h.dialect_eq]
    exact Cursor.Showing.mirrors_reset h _

end

/-- **After a reset, everything is as at a fresh start.** Whatever a cursor, a lexer or a parser has been
asked before, whether or not that could be fulfilled: when it is reset it counts from zero, and from then on
it replies as a new one over the same source, up to the first failure, as long as neither of them meets the
limit of a buffer. Nobody meets it unseen but a cursor that composes a message. -/
theorem reset_eq_fresh {σ α κ τ : Type} [Source σ α] [Source.Modest σ α] [Element α κ] [DecidableEq κ]
    [Source τ Char] [Source.Modest τ Char] :
    (∀ (start source : σ) (limits : Limits) (history requests : List (Cursor.Request σ κ))
        (c : Cursor σ α), c = Cursor.performAll history (Cursor.ofSource start limits) →
      (c.reset source).marks = [] ∧
      ((∀ e ∈ Cursor.failures requests (c.reset source), ¬ e.Exceeded) →
        (∀ e ∈ Cursor.failures requests (Cursor.ofSource source limits : Cursor σ α), ¬ e.Exceeded) →
        Cursor.replies requests (c.reset source) =
          Cursor.replies requests (Cursor.ofSource source limits))) ∧
    (∀ (start source : τ) (d : Lexer.Dialect) (operators table : Operator.Table)
        (history requests : List (Lexer.Request τ)) (l : Lexer τ),
      l = Lexer.performAll history (Lexer.ofSource start d operators) →
      (l.reset source table).position = {} ∧ (l.reset source table).statistics = {} ∧
      ((∀ e ∈ Lexer.failures requests (l.reset source table), ¬ e.Exceeded) →
        (∀ e ∈ Lexer.failures requests (Lexer.ofSource source d table), ¬ e.Exceeded) →
        Lexer.replies requests (l.reset source table) =
          Lexer.replies requests (Lexer.ofSource source d table))) ∧
    ∀ (start source : τ) (d : Lexer.Dialect) (operators table : Operator.Table)
        (history requests : List (Parser.Request τ)) (netlist : Netlist) (calls : List Call)
        (s : Session τ), s = Parser.performAll history (Session.ofSource start d operators) →
      (s.reset source table).lexer.position = {} ∧ (s.reset source table).lexer.statistics = {} ∧
      ((∀ e ∈ Parser.failures requests { s.reset source table with netlist, calls }, ¬ e.Exceeded) →
        (∀ e ∈ Parser.failures requests { Session.ofSource source d table with netlist, calls },
          ¬ e.Exceeded) →
        Parser.replies requests { s.reset source table with netlist, calls } =
          Parser.replies requests { Session.ofSource source d table with netlist, calls }) := by
  refine ⟨?_, ?_, ?_⟩
  · rintro start source limits history requests _ rfl
    exact ⟨rfl, Cursor.replies_reset
      (Cursor.performAll_keeps history (Cursor.showing_ofSource trivial limits)) source⟩
  · rintro start source d operators table history requests _ rfl
    exact ⟨rfl, rfl, Lexer.replies_reset
      (Lexer.performAll_showing history ⟨rfl, Cursor.showing_ofSource trivial d.limits⟩) source table⟩
  · rintro start source d operators table history requests netlist calls _ rfl
    have hshowing : Session.Showing d
        (Parser.performAll history (Session.ofSource start d operators)) :=
      Parser.performAll_showing history (Session.showing_ofSource start d operators)
    exact ⟨rfl, rfl, Parser.replies_reset hshowing source table netlist calls⟩

/-- A cursor with a mark, whose window has grown, and which goes on with a reader that fails; a lexer that
has failed in a literal without an end; and a parser that has failed while it tried what follows as targets,
with a mark left. -/
theorem reset_eq_fresh_of_unfinished_work :
    (∃ c : Cursor ByteReader Char, c.marks.length = 1 ∧ c.buffer.capacity = 8 ∧
      Cursor.replies [.lookahead 2, .mismatch "x", .consume, .context, .consume, .consume]
          (c.reset { arrivals := [.bytes [97, 98], .failed "gone", .bytes [99]] }) =
        Cursor.replies [.lookahead 2, .mismatch "x", .consume, .context, .consume, .consume]
          (Cursor.ofSource { arrivals := [.bytes [97, 98], .failed "gone", .bytes [99]] } ⟨2, 8⟩)) ∧
    (∃ l : Lexer (Items Char), l.position = ⟨0, 3⟩ ∧
      Lexer.replies [.next, .read 2] (l.reset (Items.ofText "a b") .standard) =
        Lexer.replies [.next, .read 2] (Lexer.ofSource (Items.ofText "a b") (.standard {}) .standard)) ∧
    ∃ s : Session (Items Char), s.tokens.marks.length = 1 ∧
      Parser.replies [.statement, .all]
          { s.reset (Items.ofText "a <- b; c, \x22") .standard with netlist := {}, calls := [] } =
        Parser.replies [.statement, .all]
          (Session.ofSource (Items.ofText "a <- b; c, \x22") (.standard {}) .standard) := by
  have h := reset_eq_fresh (σ := ByteReader) (α := Char) (κ := Char) (τ := Items Char)
  refine ⟨⟨_, ?_, ?_, (h.1 { arrivals := [.bytes [97, 98, 99, 100, 101]] } _ ⟨2, 8⟩
      [.mark, .lookahead 5] _ _ rfl).2 ?_ ?_⟩,
    ⟨_, ?_, (h.2.1 (Items.ofText "a \x22") _ (.standard {}) .standard .standard
      [.next, .next] _ _ rfl).2.2 ?_ ?_⟩,
    ⟨_, ?_, (h.2.2 (Items.ofText "a, \x22") _ (.standard {}) .standard .standard
      [.statement] _ _ _ _ rfl).2.2 ?_ ?_⟩⟩
  all_goals decide +kernel

/-- Eight letters, a failure, and two letters more. -/
def failingReader : ByteReader where
  arrivals := [.bytes [97, 98, 99, 100, 101, 102, 103, 104], .failed "gone", .bytes [105, 106]]

/-- Five letters, what is around the sixth, and four letters more. -/
def aroundTheSixth : List (Cursor.Request ByteReader Char) :=
  [.consume, .consume, .consume, .consume, .consume, .context, .consume, .consume, .consume, .consume]

/-- The window of a cursor has grown to eight elements before it is reset. For the context of the sixth
letter, it would have to grow further, and so the failure is met later than by a new cursor, which has
dropped letters by then and met the failure while it collected the context. Neither of them reports that
the limit has been met. -/
theorem reset_ne_fresh_of_cut_context :
    ∃ c : Cursor ByteReader Char,
      c = Cursor.performAll (κ := Char) [.lookahead 7] (Cursor.ofSource failingReader ⟨2, 8⟩) ∧
      (∀ e ∈ Run.failures Cursor.Request.perform (fun _ _ => []) aroundTheSixth (c.reset failingReader),
        ¬ e.Exceeded) ∧
      (∀ e ∈ Run.failures Cursor.Request.perform (fun _ _ => []) aroundTheSixth
        (Cursor.ofSource failingReader ⟨2, 8⟩ : Cursor ByteReader Char), ¬ e.Exceeded) ∧
      Cursor.replies aroundTheSixth (c.reset failingReader) ≠
        Cursor.replies aroundTheSixth (Cursor.ofSource failingReader ⟨2, 8⟩) := by
  refine ⟨_, rfl, ?_, ?_, fun h => absurd (congrArg (List.map Except.isOk) h) ?_⟩
  all_goals decide +kernel

end Dataflow
