import Dataflow.Proofs.Constancy
import Dataflow.Proofs.Outlook
import Dataflow.Parser.Session

/-!
# Dataflow.Proofs.Events

**What happens to the tokens of a session.** A session scans tokens, takes them, and registers
operators, in an order that matters: an operator counts for the tokens that are scanned after it. A
`Sight` is what a session has before it, with the lexer as it is; the list of `Event`s that leads
from one sight to another (`Sight.Becomes`) says what has been scanned with which operators, and what
has been taken.

* `Sight.Becomes.ahead` — what was in view and what has been scanned is what has been taken and what
  is in view;
* `Sight.Becomes.table` — the operators are those from before and those that have been registered;
* `Sight.Becomes.untaken` — taking tokens back undoes nothing but the taking: the lexer does not go
  back;
* `Session.Sees` — the session has a sight before it. Sights, other than places in a text, are there
  for every source, whatever it hands out.
-/

namespace Dataflow

open Reading

/-- What can happen to the tokens of a session. -/
inductive Event where
  /-- The lexer has produced a token. -/
  | scanned (token : Token)
  /-- A token has been consumed, for good. -/
  | taken (token : Token)
  /-- An operator has been registered. -/
  | registered (op : Operator)
deriving DecidableEq

/-- The tokens that have been scanned. -/
def scannedIn : List Event → List Token
  | [] => []
  | .scanned token :: es => token :: scannedIn es
  | .taken _ :: es | .registered _ :: es => scannedIn es

/-- The tokens that have been taken. -/
def takenIn : List Event → List Token
  | [] => []
  | .taken token :: es => token :: takenIn es
  | .scanned _ :: es | .registered _ :: es => takenIn es

/-- The operators that have been registered. -/
def registeredIn : List Event → List Operator
  | [] => []
  | .registered op :: es => op :: registeredIn es
  | .scanned _ :: es | .taken _ :: es => registeredIn es

/-- The events without the taking of tokens. -/
def untaken : List Event → List Event
  | [] => []
  | .taken _ :: es => untaken es
  | .scanned token :: es => .scanned token :: untaken es
  | .registered op :: es => .registered op :: untaken es

section Projections

attribute [simp] scannedIn takenIn registeredIn untaken

@[simp] theorem scannedIn_append (es fs : List Event) :
    scannedIn (es ++ fs) = scannedIn es ++ scannedIn fs := by
  fun_induction scannedIn es <;> simp_all

@[simp] theorem takenIn_append (es fs : List Event) :
    takenIn (es ++ fs) = takenIn es ++ takenIn fs := by
  fun_induction takenIn es <;> simp_all

@[simp] theorem registeredIn_append (es fs : List Event) :
    registeredIn (es ++ fs) = registeredIn es ++ registeredIn fs := by
  fun_induction registeredIn es <;> simp_all

@[simp] theorem takenIn_scanned (tokens : List Token) : takenIn (tokens.map .scanned) = [] := by
  induction tokens <;> simp_all

@[simp] theorem registeredIn_scanned (tokens : List Token) :
    registeredIn (tokens.map .scanned) = [] := by
  induction tokens <;> simp_all

@[simp] theorem takenIn_untaken (es : List Event) : takenIn (untaken es) = [] := by
  fun_induction untaken es <;> simp_all

@[simp] theorem registeredIn_untaken (es : List Event) :
    registeredIn (untaken es) = registeredIn es := by
  fun_induction untaken es <;> simp_all

end Projections

/-- What a session has before it: the tokens in view, those from each mark on, innermost mark first,
and the lexer that goes on behind them. -/
structure Sight (σ : Type) where
  lexer : Lexer σ
  ahead : List Token := []
  marked : List (List Token) := []

namespace Sight

variable {σ : Type}

/-- The sight with further tokens in view. -/
def extend (v : Sight σ) (tokens : List Token) (lexer : Lexer σ) : Sight σ where
  lexer := lexer
  ahead := v.ahead ++ tokens
  marked := v.marked.map (· ++ tokens)

/-- The sight behind the token at the cursor. -/
def pass (v : Sight σ) : Sight σ := { v with ahead := v.ahead.tail }

variable [Source σ Char]

/-- The sight with an operator registered. What is in view stays as it is. -/
def register (v : Sight σ) (op : Operator) : Sight σ := { v with lexer := (v.lexer.register op).2 }

/-- One event. -/
inductive Step : Sight σ → Event → Sight σ → Prop
  | scan {v : Sight σ} {token : Token} {lexer : Lexer σ} (h : Lexer.next v.lexer = .ok token lexer) :
    Step v (.scanned token) (v.extend [token] lexer)
  | take {v : Sight σ} {token : Token} {rest : List Token} (h : v.ahead = token :: rest) :
    Step v (.taken token) v.pass
  | register {v : Sight σ} {op : Operator} : Step v (.registered op) (v.register op)

/-- A number of events, one after the other. -/
inductive Becomes : Sight σ → List Event → Sight σ → Prop
  | refl (v : Sight σ) : Becomes v [] v
  | step {v u w : Sight σ} {e : Event} {es : List Event} (h : Step v e u) (rest : Becomes u es w) :
    Becomes v (e :: es) w

namespace Becomes

variable {v u w : Sight σ} {es fs : List Event}

theorem single {e : Event} (h : Step v e w) : Becomes v [e] w := .step h (.refl w)

theorem trans (h : Becomes v es u) (h' : Becomes u fs w) : Becomes v (es ++ fs) w := by
  induction h with
  | refl v => exact h'
  | step hstep _ ih => exact .step hstep (ih h')

/-- Between any two events there is a sight. -/
theorem split (h : Becomes v (es ++ fs) w) : ∃ u, Becomes v es u ∧ Becomes u fs w := by
  induction es generalizing v with
  | nil => exact ⟨v, .refl v, h⟩
  | cons e es ih =>
    cases h with
    | step hstep rest =>
      obtain ⟨u, h₁, h₂⟩ := ih rest
      exact ⟨u, .step hstep h₁, h₂⟩

/-- **No token is lost.** -/
theorem ahead (h : Becomes v es w) : v.ahead ++ scannedIn es = takenIn es ++ w.ahead := by
  induction h with
  | refl v => exact List.append_nil _
  | step hstep _ ih =>
    cases hstep with
    | scan hnext => simpa [extend] using ih
    | take hahead => simpa [pass, hahead] using ih
    | register => exact ih

/-- **The operators** are those from before and those that have been registered. -/
theorem table (h : Becomes v es w) :
    w.lexer.table = v.lexer.table.insertAll (registeredIn es) := by
  induction h with
  | refl v => rfl
  | step hstep _ ih =>
    cases hstep with
    | scan hnext => exact ih.trans (congrArg (Operator.Table.insertAll · _) (Lexer.table_of_next hnext))
    | take _ => exact ih
    | register => exact ih

/-- Without registrations the operators stay as they are. -/
theorem table_eq (h : Becomes v es w) (hquiet : registeredIn es = []) :
    w.lexer.table = v.lexer.table := by
  rw [h.table, hquiet]
  rfl

/-- Tokens that are scanned one after the other. -/
theorem of_nexts {n : Nat} {tokens : List Token} {lexer : Lexer σ}
    (h : Lexer.nexts n v.lexer = .ok tokens lexer) :
    Becomes v (tokens.map .scanned) (v.extend tokens lexer) ∧ tokens.length = n := by
  induction n generalizing v tokens with
  | zero =>
    cases h
    have hsame : v.extend [] v.lexer = v := by simp [extend]
    rw [hsame]
    exact ⟨.refl v, rfl⟩
  | succ n ih =>
    unfold Lexer.nexts at h
    rw [Run.bind_apply] at h
    cases hnext : Lexer.next v.lexer with
    | error e l =>
      rw [hnext] at h
      cases h
    | ok token l =>
      simp only [hnext, Run.bind_apply] at h
      cases hrest : Lexer.nexts n l with
      | error e l' =>
        simp only [hrest] at h
        cases h
      | ok rest l' =>
        simp only [hrest] at h
        cases h
        obtain ⟨hbecomes, hlength⟩ := ih (v := v.extend [token] l) hrest
        refine ⟨?_, congrArg (· + 1) hlength⟩
        simpa [extend, Function.comp_def] using Becomes.step (.scan hnext) hbecomes

/-- **Taking back.** From a sight of the same lexer, without taking what has been taken: the tokens
that have been scanned come into view, and the operators are registered. -/
theorem untaken (h : Becomes v es w) (v' : Sight σ) (hlexer : v'.lexer = v.lexer) :
    Becomes v' (untaken es) (v'.extend (scannedIn es) w.lexer) := by
  induction h generalizing v' with
  | refl v =>
    have hsame : v'.extend [] v.lexer = v' := by simp [extend, ← hlexer]
    show Becomes v' [] (v'.extend [] v.lexer)
    rw [hsame]
    exact .refl v'
  | @step v u w e es hstep _ ih =>
    cases hstep with
    | @scan token lexer hnext =>
      have hrest := ih (v'.extend [token] lexer) rfl
      simp only [extend, List.append_assoc, List.map_map, Function.comp_def] at hrest
      exact .step (.scan (hlexer ▸ hnext)) hrest
    | take _ => exact ih v' hlexer
    | @register op =>
      refine .step .register (ih (v'.register op) ?_)
      simp only [Sight.register, hlexer]

/-- Marks make no difference to what happens. -/
theorem withMarked (h : Becomes v es w) (marked : List (List Token)) :
    Becomes { v with marked } es { w with marked := marked.map (· ++ scannedIn es) } := by
  induction h generalizing marked with
  | refl v =>
    simp only [scannedIn, List.append_nil, List.map_id']
    exact .refl _
  | @step v u w e es hstep _ ih =>
    cases hstep with
    | @scan token lexer hnext =>
      have hrest := ih (marked.map (· ++ [token]))
      simp only [List.map_map, Function.comp_def, List.append_assoc] at hrest
      exact .step (.scan (v := { v with marked }) hnext) hrest
    | take hahead => exact .step (.take (v := { v with marked }) hahead) (ih marked)
    | register => exact .step (.register (v := { v with marked })) (ih marked)

/-- The marks see what has been scanned. -/
theorem marked (h : Becomes v es w) : w.marked = v.marked.map (· ++ scannedIn es) := by
  induction h with
  | refl v => simp [scannedIn]
  | step hstep _ ih =>
    rw [ih]
    cases hstep with
    | scan hnext => simp [extend]
    | take hahead => rfl
    | register => rfl

end Becomes

end Sight

/-! ### Cursors and what they see -/

namespace Reading.Cursor

variable {σ : Type} [Source σ Char] {c : Cursor (Lexer σ) Token} {v : Sight σ}

/-- The cursor has `v` before it. A lexer never comes to an end: behind the last token there are
tokens for the end. -/
def Sees (c : Cursor (Lexer σ) Token) (v : Sight σ) : Prop :=
  ∃ limits o, c.Shows limits o ∧ o.source = v.lexer ∧ o.ahead = v.ahead ∧ o.marked = v.marked ∧
    o.ended = false

/-- The cursor has something before it, scanned with the operators of the table so far. -/
def SeesUnder (t : Operator.Table) (c : Cursor (Lexer σ) Token) : Prop :=
  ∃ w : Sight σ, c.Sees w ∧ w.lexer.table = t

theorem sees_ofSource (lexer : Lexer σ) (limits : Limits) :
    (ofSource lexer limits : Cursor (Lexer σ) Token).Sees { lexer } :=
  ⟨limits, _, shows_ofSource lexer limits, rfl, rfl, rfl, rfl⟩

/-- A lexer hands out as many tokens as it is asked for, at once. -/
theorem readFully_eq (n : Nat) (l : Lexer σ) : Source.readFully n l = Lexer.nexts n l := by
  unfold Source.readFully
  cases n with
  | zero => rfl
  | succ n =>
    have hread : (Source.read (n + 1) : Run (Lexer σ) (List Token)) l = Lexer.nexts (n + 1) l := rfl
    unfold Source.readPortions
    rw [if_neg (Nat.succ_ne_zero n), Run.bind_apply, hread]
    cases hnexts : Lexer.nexts (n + 1) l with
    | error e l' => rfl
    | ok tokens l' =>
      have hlength := (Sight.Becomes.of_nexts (v := { lexer := l }) hnexts).2
      have hsome : tokens.isEmpty = false := by
        cases tokens with
        | nil => cases hlength
        | cons token tokens => rfl
      have hrest : (Source.readPortions n 0 : Run (Lexer σ) (List Token)) = pure [] := by
        cases n <;> rfl
      simp only [hsome, Bool.false_eq_true, if_false, hlength, Nat.sub_self, hrest, Run.bind_apply,
        Run.pure_apply, List.append_nil]

namespace Sees

omit [Source σ Char] in
/-- Operators may be registered at any time. -/
theorem register (h : c.Sees v) (op : Operator) :
    (c.mapSource fun l => (l.register op).2).Sees (v.register op) := by
  obtain ⟨limits, o, hshows, hsource, hahead, hmarked, hended⟩ := h
  refine ⟨limits, { o with source := (o.source.register op).2 }, ?_, ?_, hahead, hmarked, hended⟩
  · exact ⟨congrArg (fun l => (Lexer.register l op).2) hshows.source, hshows.ahead, hshows.marked,
      hshows.ended, hshows.offset_le, hshows.marks_le, hshows.passed,
      ⟨hshows.grown.limit, hshows.grown.capacity⟩⟩
  · exact congrArg (fun l => (Lexer.register l op).2) hsource

omit [Source σ Char] in
theorem reset (h : c.Sees v) (lexer : Lexer σ) : (c.reset lexer).Sees { lexer } := by
  obtain ⟨limits, o, hshows, -⟩ := h
  exact ⟨limits, _, hshows.reset lexer, rfl, rfl, rfl, rfl⟩

omit [Source σ Char] in
/-- A mark sees what is in view. -/
theorem mark (h : c.Sees v) :
    ∃ c', mark c = .ok () c' ∧ c'.Sees { v with marked := v.ahead :: v.marked } := by
  obtain ⟨limits, o, hshows, hsource, hahead, hmarked, hended⟩ := h
  obtain ⟨c', hmark, hshows'⟩ := mark_ok hshows
  refine ⟨c', hmark, limits, _, hshows', hsource, hahead, ?_, hended⟩
  show o.ahead :: o.marked = _
  rw [hahead, hmarked]

omit [Source σ Char] in
theorem commit {held : List Token} {outer : List (List Token)} (h : c.Sees v)
    (hm : v.marked = held :: outer) :
    ∃ c', commit c = .ok () c' ∧ c'.Sees { v with marked := outer } := by
  obtain ⟨limits, o, hshows, hsource, hahead, hmarked, hended⟩ := h
  obtain ⟨c', hcommit, hshows'⟩ := commit_ok hshows (by rw [hmarked, hm]; exact List.cons_ne_nil _ _)
  refine ⟨c', hcommit, limits, _, hshows', hsource, hahead, ?_, hended⟩
  show o.marked.tail = outer
  rw [hmarked, hm]
  rfl

omit [Source σ Char] in
theorem rollback {held : List Token} {outer : List (List Token)} (h : c.Sees v)
    (hm : v.marked = held :: outer) :
    ∃ c', rollback c = .ok () c' ∧ c'.Sees { v with ahead := held, marked := outer } := by
  obtain ⟨limits, o, hshows, hsource, hahead, hmarked, hended⟩ := h
  obtain ⟨c', hrollback, hshows'⟩ := rollback_ok hshows (hmarked.trans hm)
  refine ⟨c', hrollback, limits, _, hshows', hsource, rfl, ?_, hended⟩
  show o.marked.tail = outer
  rw [hmarked, hm]
  rfl

/-- Looking at the outlook of a cursor scans what is not in view yet. Where that fails, either a buffer has
no room or the lexer has no token, and only the lexer has moved. -/
theorem scans_of_agrees (h : c.Sees v) (k : Nat)
    {x : Run (Cursor (Lexer σ) Token) Token}
    (hagrees : ∀ limits o, c.Shows limits o → o.Modest (k + 1 - o.ahead.length) →
      Agrees limits (o.passed + k + 1) o (x c) (o.look k)) :
    Run.Ends
      (fun token c' => ∃ (tokens : List Token) (w : Sight σ), v.Becomes (tokens.map .scanned) w ∧
        c'.Sees w ∧ w.ahead[k]? = some token ∧ w.ahead.length = max v.ahead.length (k + 1))
      (fun e c' => (∃ requested limit, e = .error (.capacityExceeded requested limit)) ∧ c'.Sees v ∨
        ∃ n lexer, Lexer.nexts n v.lexer = .error e lexer ∧ c'.Sees { v with lexer }) (x c) := by
  obtain ⟨limits, o, hshows, hsource, hahead, hmarked, hended⟩ := h
  have hportion : ∀ n, o.portion n = Lexer.nexts n v.lexer := by
    intro n
    rw [Outlook.portion, hended, if_neg Bool.false_ne_true, readFully_eq, hsource]
  have hmodest : o.Modest (k + 1 - o.ahead.length) := by
    intro tokens lexer hread
    rw [hportion] at hread
    exact Nat.le_of_eq (Sight.Becomes.of_nexts hread).2
  have hlook := hagrees limits o hshows hmodest
  unfold Outlook.look at hlook
  generalize x c = r at hlook
  -- Either the token is in view, or the lexer scans as many as are missing.
  cases hk : o.ahead[k]? with
  | some token =>
    simp only [hk] at hlook
    cases hlook with
    | exceeded h' => exact .inl ⟨⟨_, _, rfl⟩, limits, o, h', hsource, hahead, hmarked, hended⟩
    | answer h' =>
      rw [hahead] at hk
      refine ⟨[], v, .refl v, ⟨limits, o, h', hsource, hahead, hmarked, hended⟩, hk, ?_⟩
      have := (List.getElem?_eq_some_iff.1 hk).1
      omega
  | none =>
    simp only [hk, hportion] at hlook
    have hshort : o.ahead.length ≤ k := List.getElem?_eq_none_iff.1 hk
    cases hnexts : Lexer.nexts (k + 1 - o.ahead.length) v.lexer with
    | error e lexer =>
      simp only [hnexts] at hlook
      cases hlook with
      | exceeded h' => exact .inl ⟨⟨_, _, rfl⟩, limits, o, h', hsource, hahead, hmarked, hended⟩
      | failure h' => exact .inr ⟨_, lexer, hnexts, limits, _, h', rfl, hahead, hmarked, hended⟩
    | ok tokens lexer =>
      obtain ⟨hbecomes, hlength⟩ := Sight.Becomes.of_nexts hnexts
      have hpadded : Source.padded (k + 1 - o.ahead.length) (Source.endMarker lexer) tokens =
          tokens := by simp [Source.padded, hlength]
      simp only [hnexts] at hlook
      cases hlook with
      | exceeded h' => exact .inl ⟨⟨_, _, rfl⟩, limits, o, h', hsource, hahead, hmarked, hended⟩
      | answer h' =>
        have hview : (o.extend (k + 1 - o.ahead.length) tokens lexer).ahead =
            (v.extend tokens lexer).ahead := by
          rw [Outlook.extend, hpadded, hahead]
          rfl
        have hsize : (v.extend tokens lexer).ahead.length = max v.ahead.length (k + 1) := by
          rw [Sight.extend, List.length_append, hlength, hahead]
          rw [hahead] at hshort
          omega
        refine ⟨tokens, _, hbecomes, ⟨limits, _, h', rfl, hview, ?_, ?_⟩, ?_, hsize⟩
        · rw [Outlook.extend, hpadded, hmarked]
          rfl
        · simp [Outlook.extend, hended, hlength]
        · rw [hview, List.getD_eq_getElem?_getD, List.getElem?_eq_getElem (by omega)]
          rfl

theorem of_agrees (h : c.Sees v) (k : Nat)
    {x : Run (Cursor (Lexer σ) Token) Token}
    (hagrees : ∀ limits o, c.Shows limits o → o.Modest (k + 1 - o.ahead.length) →
      Agrees limits (o.passed + k + 1) o (x c) (o.look k)) :
    Run.Ends
      (fun token c' => ∃ (tokens : List Token) (w : Sight σ), v.Becomes (tokens.map .scanned) w ∧
        c'.Sees w ∧ w.ahead[k]? = some token ∧ w.ahead.length = max v.ahead.length (k + 1))
      (fun _ => SeesUnder v.lexer.table) (x c) := by
  refine (h.scans_of_agrees k hagrees).mono (fun _ _ hscans => hscans) ?_
  rintro e c' (⟨-, h'⟩ | ⟨n, lexer, hnexts, h'⟩)
  · exact ⟨v, h', rfl⟩
  · exact ⟨_, h', (Lexer.nexts_constant n v.lexer rfl).of_error hnexts⟩

theorem lookahead (h : c.Sees v) (k : Nat) :
    Run.Ends
      (fun token c' => ∃ (tokens : List Token) (w : Sight σ), v.Becomes (tokens.map .scanned) w ∧
        c'.Sees w ∧ w.ahead[k]? = some token ∧ w.ahead.length = max v.ahead.length (k + 1))
      (fun _ => SeesUnder v.lexer.table) (lookahead k c) :=
  h.of_agrees k fun _ _ hshows => lookahead_agrees hshows k

/-- Consuming is looking at the token at the cursor and passing it. -/
theorem consume (h : c.Sees v) :
    Run.Ends
      (fun token c' => ∃ (tokens : List Token) (w : Sight σ), v.Becomes (tokens.map .scanned) w ∧ c'.Sees w.pass ∧
        w.ahead.head? = some token ∧ w.ahead.length = max v.ahead.length 1)
      (fun _ => SeesUnder v.lexer.table) (consume c) := by
  have hlook := h.lookahead 0
  cases hr : Cursor.lookahead 0 c with
  | error e c' =>
    rw [consume_of_error hr]
    exact hlook.of_error hr
  | ok token c' =>
    obtain ⟨tokens, w, hbecomes, ⟨limits, o, hshows, hsource, hahead, hmarked, hended⟩, htoken, hlength⟩ :=
      hlook.of_ok hr
    rw [← List.head?_eq_getElem?] at htoken
    obtain ⟨rest, hrest⟩ := List.head?_eq_some_iff.1 htoken
    obtain ⟨c'', hconsume, hshows'⟩ := consume_of_ok hr hshows (hahead.trans hrest)
    rw [hconsume]
    refine ⟨tokens, w, hbecomes, ⟨limits, _, hshows', hsource, ?_, hmarked, hended⟩, htoken, hlength⟩
    show o.ahead.tail = w.ahead.tail
    rw [hahead]

end Sees

namespace SeesUnder

variable {t : Operator.Table}

/-- Looking at a token, which may fail. -/
theorem of_agrees (h : c.SeesUnder t) (k : Nat) {x : Run (Cursor (Lexer σ) Token) Token}
    (hagrees : ∀ limits o, c.Shows limits o → o.Modest (k + 1 - o.ahead.length) →
      Agrees limits (o.passed + k + 1) o (x c) (o.look k)) :
    Run.Ends (fun _ => SeesUnder t) (fun _ => SeesUnder t) (x c) := by
  obtain ⟨v, hv, rfl⟩ := h
  refine (hv.of_agrees k hagrees).mono ?_ fun _ _ he => he
  rintro token c' ⟨tokens, w, hbecomes, hw, -⟩
  exact ⟨w, hw, hbecomes.table_eq (by simp)⟩

/-- Messages show what is around the cursor, which changes nothing but what is in view. -/
theorem compose (h : c.SeesUnder t) (make : String → Option Text.Span → String → Error) :
    ∃ e c', (compose make : Run (Cursor (Lexer σ) Token) Error) c = .ok e c' ∧ c'.SeesUnder t := by
  obtain ⟨found, context, c', hcompose, h'⟩ := compose_ok
    (fun k _ h => h.of_agrees k fun _ _ hshows => elementAt_agrees hshows k)
    (h.of_agrees 0 fun _ _ hshows => lookahead_agrees hshows 0) make
  exact ⟨_, c', hcompose, h'⟩

theorem mismatch (h : c.SeesUnder t) (expected : String) :
    ∃ e c', (mismatch expected : Run (Cursor (Lexer σ) Token) Error) c = .ok e c' ∧ c'.SeesUnder t :=
  h.compose fun found span context => .mismatch expected found context span

theorem unexpectedOperand (h : c.SeesUnder t) :
    ∃ e c', (unexpectedOperand : Run (Cursor (Lexer σ) Token) Error) c = .ok e c' ∧ c'.SeesUnder t :=
  h.compose fun found span context => .unexpectedOperand found context span

end SeesUnder

end Reading.Cursor

end Dataflow
