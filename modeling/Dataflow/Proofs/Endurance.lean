import Dataflow.Proofs.Footing
import Dataflow.Proofs.Sentences

/-!
# Dataflow.Proofs.Endurance

**A parser outlives its errors.** Whatever a session goes through, its lexer has its footing
(`Sight.Secure`), its marks are its own, and it fails with nothing but an error. Where the end of the
input has no role in the dialect, no loop goes on for ever either: a token that is taken is one less to
come (`Sight.Bounded`), and every round of every loop takes one.

* `Sight.Becomes.secure`, `Sight.Becomes.bounded` — what any events keep;
* `Session.Survives` — how a computation ends that starts from a sight; it goes through sequences and
  loops, where what has been taken by then is known already (`Session.Reads`, `Session.Logs`);
* `Sight.Below` — few enough tokens are to come for so many levels of expressions or statements inside
  each other;
* `parseStatement_survives`, `parseAll_survives` — the calls of a parser.
-/

namespace Dataflow

open Reading Circuit

/-- The failure is an error; or a loop does not end, but then the end of the input has a role. -/
def Failure.Orderly (d : Lexer.Dialect) (e : Failure) : Prop :=
  (∃ error, e = .error error) ∨ e = .stalled ∧ ¬ d.Plain

/-- How many of the tokens are not for the end of the input. -/
def properTokens (tokens : List Token) : Nat := tokens.countP (·.kind ≠ .endOfFile)

section ProperTokens

@[simp] theorem properTokens_append (first second : List Token) :
    properTokens (first ++ second) = properTokens first + properTokens second := List.countP_append

theorem properTokens_pos {tokens : List Token} {token : Token} (h : token ∈ tokens)
    (hkind : token.kind ≠ .endOfFile) : 0 < properTokens tokens :=
  List.countP_pos_iff.2 ⟨token, h, decide_eq_true hkind⟩

theorem properTokens_le_length (tokens : List Token) : properTokens tokens ≤ tokens.length :=
  List.countP_le_length

theorem properTokens_of_ne {token : Token} (h : token.kind ≠ .endOfFile) : properTokens [token] = 1 := by
  simp [properTokens, h]

theorem properTokens_of_eq {token : Token} (h : token.kind = .endOfFile) : properTokens [token] = 0 := by
  simp [properTokens, h]

end ProperTokens

variable {σ α β : Type} [Source σ Char]

/-! ### Sights -/

namespace Sight

section

variable (I : Nat → σ → Prop) (d : Lexer.Dialect)

omit [Source σ Char] in
/-- The lexer behind what is in view has its footing. -/
def Secure (v : Sight σ) : Prop := ∃ p ps, Lexer.Within I d p ps [] v.lexer

omit [Source σ Char] in
/-- At most `n` tokens for something else than the end are to come. -/
def Bounded (n : Nat) (v : Sight σ) : Prop :=
  ∃ p ps, Lexer.Within I d p ps [] v.lexer ∧ properTokens v.ahead + p.left ≤ n

omit [Source σ Char] in
/-- Fewer than `n` tokens for something else than the end are to come, if the end has no role. -/
def Below (n : Nat) (v : Sight σ) : Prop := v.Secure I d ∧ (d.Plain → ∃ m < n, v.Bounded I d m)

end

variable {I : Nat → σ → Prop} {d : Lexer.Dialect} {v w : Sight σ} {es : List Event} {n : Nat}
  {tokens : List Token}

omit [Source σ Char] in
theorem Bounded.secure (h : v.Bounded I d n) : v.Secure I d := by
  obtain ⟨p, ps, hwithin, -⟩ := h
  exact ⟨p, ps, hwithin⟩

theorem Becomes.secure (hI : Ebbs I) (h : v.Becomes es w) (hv : v.Secure I d) : w.Secure I d := by
  induction h with
  | refl v => exact hv
  | step hstep _ ih =>
    refine ih ?_
    obtain ⟨p, ps, hwithin⟩ := hv
    cases hstep with
    | scan hnext =>
      obtain ⟨q, -, -, hwithin'⟩ := (Lexer.next_goes hI p ps _ hwithin).of_ok hnext
      exact ⟨q, ps, hwithin'⟩
    | take hahead => exact ⟨p, ps, hwithin⟩
    | register => exact ⟨p, ps, hwithin.register _⟩

/-- **A token that is taken is one less to come.** -/
theorem Becomes.bounded (hI : Ebbs I) (hplain : d.Plain) (h : v.Becomes es w) (hv : v.Bounded I d n) :
    ∃ m, m + properTokens (takenIn es) ≤ n ∧ w.Bounded I d m := by
  induction h generalizing n with
  | refl v => exact ⟨n, Nat.le_refl n, hv⟩
  | @step v u w e es hstep _ ih =>
    obtain ⟨p, ps, hwithin, hcount⟩ := hv
    cases hstep with
    | @scan token lexer hnext =>
      obtain ⟨q, hup, hbefore, hwithin'⟩ := (Lexer.next_goes hI p ps _ hwithin).of_ok hnext
      refine ih ⟨q, ps, hwithin', ?_⟩
      show properTokens (v.ahead ++ [token]) + q.left ≤ n
      rw [properTokens_append]
      by_cases hend : token.kind = .endOfFile
      · have := hup.1
        rw [properTokens_of_eq hend]
        omega
      · have := (hbefore ⟨hplain, hend⟩).1
        rw [properTokens_of_ne hend]
        omega
    | @take token rest hahead =>
      have hsplit : properTokens v.ahead = properTokens [token] + properTokens rest := by
        rw [hahead, ← properTokens_append]
        rfl
      have hpass : v.pass.ahead = rest := congrArg List.tail hahead
      obtain ⟨m, hm, hw⟩ := ih (n := n - properTokens [token]) ⟨p, ps, hwithin, by rw [hpass]; omega⟩
      refine ⟨m, ?_, hw⟩
      have : properTokens (token :: takenIn es) = properTokens [token] + properTokens (takenIn es) := properTokens_append [token] _
      show m + properTokens (token :: takenIn es) ≤ n
      omega
    | register => exact ih ⟨p, ps, hwithin.register _, hcount⟩

theorem Becomes.keeps_below (hI : Ebbs I) (h : v.Becomes es w) (hv : v.Below I d n) : w.Below I d n := by
  refine ⟨h.secure hI hv.1, fun hplain => ?_⟩
  obtain ⟨m, hm, hbounded⟩ := hv.2 hplain
  obtain ⟨m', hm', hbounded'⟩ := h.bounded hI hplain hbounded
  exact ⟨m', by omega, hbounded'⟩

/-- Behind a token that has been taken, one level less is needed. -/
theorem Becomes.below_taken (hI : Ebbs I) (h : v.Becomes es w) (htaken : 0 < properTokens (takenIn es))
    (hv : v.Below I d (n + 1)) : w.Below I d n := by
  refine ⟨h.secure hI hv.1, fun hplain => ?_⟩
  obtain ⟨m, hm, hbounded⟩ := hv.2 hplain
  obtain ⟨m', hm', hbounded'⟩ := h.bounded hI hplain hbounded
  exact ⟨m', by omega, hbounded'⟩

/-- These tokens are taken between the two sights. -/
def Reaches (v : Sight σ) (tokens : List Token) (w : Sight σ) : Prop :=
  ∃ es, v.Becomes es w ∧ takenIn es = tokens

namespace Reaches

variable {u : Sight σ} {more : List Token}

theorem refl (v : Sight σ) : v.Reaches [] v := ⟨[], .refl v, rfl⟩

theorem trans (h : v.Reaches tokens u) (h' : u.Reaches more w) : v.Reaches (tokens ++ more) w := by
  obtain ⟨es, hes, rfl⟩ := h
  obtain ⟨fs, hfs, rfl⟩ := h'
  exact ⟨es ++ fs, hes.trans hfs, takenIn_append es fs⟩

theorem secure (hI : Ebbs I) (h : v.Reaches tokens w) (hv : v.Secure I d) : w.Secure I d := by
  obtain ⟨es, hes, -⟩ := h
  exact hes.secure hI hv

theorem below (hI : Ebbs I) (h : v.Reaches tokens w) (hv : v.Below I d n) : w.Below I d n := by
  obtain ⟨es, hes, -⟩ := h
  exact hes.keeps_below hI hv

theorem below_taken (hI : Ebbs I) (h : v.Reaches tokens w) (htaken : 0 < properTokens tokens)
    (hv : v.Below I d (n + 1)) : w.Below I d n := by
  obtain ⟨es, hes, rfl⟩ := h
  exact hes.below_taken hI htaken hv

/-- Without taking anything, what is in view stays in view. -/
theorem head_eq {token : Token} {rest : List Token} (h : v.Reaches [] w) (hv : v.ahead = token :: rest) :
    ∃ rest', w.ahead = token :: rest' := by
  obtain ⟨es, hes, htaken⟩ := h
  have hahead := hes.ahead
  rw [htaken, hv, List.nil_append] at hahead
  exact ⟨_, hahead.symm⟩

end Reaches

end Sight

/-! ### Cursors -/

namespace Reading.Cursor

variable {c : Cursor (Lexer σ) Token} {I : Nat → σ → Prop} {d : Lexer.Dialect}

omit [Source σ Char] in
/-- The cursor has something before it, and a lexer with its footing. -/
def Firm (I : Nat → σ → Prop) (d : Lexer.Dialect) (c : Cursor (Lexer σ) Token) : Prop :=
  ∃ v : Sight σ, c.Sees v ∧ v.Secure I d

namespace Firm

/-- Looking at a token may fail with an error, and changes nothing in that. -/
theorem of_agrees (hI : Ebbs I) (h : c.Firm I d) (k : Nat) {x : Run (Cursor (Lexer σ) Token) Token}
    (hagrees : ∀ limits o, c.Shows limits o → o.Modest (k + 1 - o.ahead.length) →
      Agrees limits (o.passed + k + 1) o (x c) (o.look k)) :
    Run.Ends (fun _ c' => c'.Firm I d) (fun e c' => (∃ error, e = .error error) ∧ c'.Firm I d) (x c) := by
  obtain ⟨v, hv, hsecure⟩ := h
  refine (hv.scans_of_agrees k hagrees).mono ?_ ?_
  · rintro token c' ⟨tokens, w, hbecomes, hw, -⟩
    exact ⟨w, hw, hbecomes.secure hI hsecure⟩
  · rintro e c' (⟨⟨_, _, rfl⟩, h'⟩ | ⟨n, lexer, hnexts, h'⟩)
    · exact ⟨⟨_, rfl⟩, v, h', hsecure⟩
    · obtain ⟨p, ps, hwithin⟩ := hsecure
      obtain ⟨herror, q, qs, hwithin'⟩ := (Lexer.nexts_goes hI n p ps _ hwithin).of_error hnexts
      exact ⟨herror, _, h', q, qs, hwithin'⟩

theorem lookahead (hI : Ebbs I) (h : c.Firm I d) (k : Nat) :
    Run.Ends (fun _ c' => c'.Firm I d) (fun e c' => (∃ error, e = .error error) ∧ c'.Firm I d)
      (Cursor.lookahead k c) :=
  h.of_agrees hI k fun _ _ hshows => lookahead_agrees hshows k

theorem compose (hI : Ebbs I) (h : c.Firm I d) (make : String → Option Text.Span → String → Error) :
    ∃ e c', (compose make : Run (Cursor (Lexer σ) Token) Error) c = .ok e c' ∧ c'.Firm I d := by
  obtain ⟨found, context, c', hcompose, h'⟩ := compose_ok
    (fun k _ h => (h.of_agrees hI k fun _ _ hshows => elementAt_agrees hshows k).mono (fun _ _ h => h)
      fun _ _ h => h.2)
    ((h.lookahead hI 0).mono (fun _ _ h => h) fun _ _ h => h.2) make
  exact ⟨_, c', hcompose, h'⟩

theorem mismatch (hI : Ebbs I) (h : c.Firm I d) (expected : String) :
    ∃ e c', (mismatch expected : Run (Cursor (Lexer σ) Token) Error) c = .ok e c' ∧ c'.Firm I d :=
  h.compose hI fun found span context => .mismatch expected found context span

theorem unexpectedOperand (hI : Ebbs I) (h : c.Firm I d) :
    ∃ e c', (unexpectedOperand : Run (Cursor (Lexer σ) Token) Error) c = .ok e c' ∧ c'.Firm I d :=
  h.compose hI fun found span context => .unexpectedOperand found context span

theorem consume (hI : Ebbs I) (h : c.Firm I d) :
    Run.Ends (fun _ _ => True) (fun e c' => (∃ error, e = .error error) ∧ c'.Firm I d)
      (Cursor.consume c) := by
  have hlook := h.lookahead hI 0
  cases hr : Cursor.lookahead 0 c with
  | error e c' =>
    rw [consume_of_error hr]
    exact hlook.of_error hr
  | ok token c' =>
    obtain ⟨v, hv, -⟩ := h
    obtain ⟨tokens, w, -, ⟨limits, o, hshows, -, hahead, -⟩, htoken, -⟩ := (hv.lookahead 0).of_ok hr
    rw [← List.head?_eq_getElem?] at htoken
    obtain ⟨rest, hrest⟩ := List.head?_eq_some_iff.1 htoken
    obtain ⟨c'', hconsume, -⟩ := consume_of_ok hr hshows (hahead.trans hrest)
    rw [hconsume]
    exact trivial

end Firm

end Reading.Cursor

/-! ### Sessions -/

namespace Session

variable {I : Nat → σ → Prop} {d : Lexer.Dialect} {s : Session σ} {v : Sight σ}

/-- If the lexer of the sight has its footing, the run answers and `Q` holds of the tokens that it takes;
or it fails as it may, and there is still a lexer with its footing. -/
def Lasts (I : Nat → σ → Prop) (d : Lexer.Dialect) (v : Sight σ)
    (Q : β → List Token → Sight σ → Prop) (r : EStateM.Result Failure (Session σ) β) : Prop :=
  v.Secure I d → Run.Ends (fun b t => ∃ tokens w, v.Reaches tokens w ∧ t.Sees w ∧ Q b tokens w)
    (fun e t => e.Orderly d ∧ t.tokens.Firm I d) r

/-- The same, whatever is taken. -/
def Survives (I : Nat → σ → Prop) (d : Lexer.Dialect) (v : Sight σ) :
    EStateM.Result Failure (Session σ) β → Prop :=
  Lasts I d v fun _ _ _ => True

/-- No more tokens are to come than a session has remaining. -/
theorem Sees.bounded (hI : Ebbs I) (h : s.Sees v) (hv : v.Secure I d) :
    ∃ n ≤ s.remaining, v.Bounded I d n := by
  obtain ⟨p, ps, hwithin⟩ := hv
  obtain ⟨n, -, hremaining, hwithin'⟩ := hwithin.tighten hI
  obtain ⟨limits, o, hshows, hsource, hahead, -⟩ := h
  have hsize := hshows.size_eq
  have hlength := properTokens_le_length v.ahead
  refine ⟨properTokens v.ahead + n, ?_, _, ps, hwithin', Nat.le_refl _⟩
  show _ ≤ (s.tokens.buffer.ring.size - s.tokens.offset) + s.tokens.buffer.source.remaining
  rw [hshows.source, hsource]
  rw [hahead] at hsize
  omega

theorem Sees.below (hI : Ebbs I) (h : s.Sees v) (hv : v.Secure I d) :
    v.Below I d (s.remaining + 1) := by
  obtain ⟨n, hn, hbounded⟩ := h.bounded hI hv
  exact ⟨hv, fun _ => ⟨n, Nat.lt_succ_of_le hn, hbounded⟩⟩

namespace Lasts

variable {Q Q' : β → List Token → Sight σ → Prop} {r : EStateM.Result Failure (Session σ) β}

theorem mono (h : Lasts I d v Q r) (hQ : ∀ b tokens w, Q b tokens w → Q' b tokens w) :
    Lasts I d v Q' r := by
  intro hv
  refine (h hv).mono ?_ fun _ _ he => he
  intro b t ⟨tokens, w, hreaches, hsees, hq⟩
  exact ⟨tokens, w, hreaches, hsees, hQ b tokens w hq⟩

theorem survives (h : Lasts I d v Q r) : Survives I d v r := h.mono fun _ _ _ _ => trivial

/-- It is enough to know of what it takes by other means. -/
theorem reads (h : Survives I d v r) (hreads : Reads v Q r) : Lasts I d v Q r := by
  intro hv
  cases r with
  | error e t => exact h hv
  | ok b t =>
    obtain ⟨tokens, w, ⟨es, hes, -, htaken⟩, hsees, hq⟩ := hreads
    exact ⟨tokens, w, ⟨es, hes, htaken⟩, hsees, hq⟩

theorem logs {E : List Event → Prop} {R : β → List Event → Sight σ → Prop} (h : Survives I d v r)
    (hlogs : Logs v E R r) (hR : ∀ b es w, R b es w → Q b (takenIn es) w) : Lasts I d v Q r := by
  intro hv
  cases r with
  | error e t => exact h hv
  | ok b t =>
    obtain ⟨es, w, hes, hsees, hr⟩ := hlogs
    exact ⟨_, w, ⟨es, hes, rfl⟩, hsees, hR b es w hr⟩

theorem pure (h : s.Sees v) {b : β} (hq : Q b [] v) :
    Lasts I d v Q ((Pure.pure b : Run (Session σ) β) s) :=
  fun _ => ⟨[], v, .refl v, h, hq⟩

theorem bind (hI : Ebbs I) {Q : α → List Token → Sight σ → Prop} {R : β → List Token → Sight σ → Prop}
    {x : Run (Session σ) α} {f : α → Run (Session σ) β} (hx : Lasts I d v Q (x s))
    (hf : ∀ a t tokens w, v.Reaches tokens w → t.Sees w → Q a tokens w →
      Lasts I d w (fun b more => R b (tokens ++ more)) (f a t)) : Lasts I d v R ((x >>= f) s) := by
  intro hv
  refine Run.Ends.bind (hx hv) ?_ fun _ _ he => he
  intro a t ⟨tokens, w, hreaches, hsees, hq⟩
  refine (hf a t tokens w hreaches hsees hq (hreaches.secure hI hv)).mono ?_ fun _ _ he => he
  intro b t' ⟨more, u, hreaches', hsees', hr⟩
  exact ⟨tokens ++ more, u, hreaches.trans hreaches', hsees', hr⟩

/-- **A loop ends** where every round but the last takes a token that is not for the end: no more of
them are to come than there are rounds. Where the end has a role, the rounds may run out. -/
theorem iterate (hI : Ebbs I) {J : α → List Token → Sight σ → Prop} {R : β → List Token → Sight σ → Prop}
    {step : α → Run (Session σ) (Run.Round α β)} {a : α} (h : s.Sees v) (hJ : J a [] v)
    (hstep : ∀ a tokens w t, v.Reaches tokens w → t.Sees w → J a tokens w →
      Lasts I d w (fun round more u => match round with
        | .again a' => 0 < properTokens more ∧ J a' (tokens ++ more) u
        | .done b => R b (tokens ++ more) u) (step a t)) :
    Lasts I d v R (Run.iterate remaining a step s) := by
  intro hv
  by_cases hplain : d.Plain
  · obtain ⟨n, hn, hbounded⟩ := h.bounded hI hv
    refine Run.Ends.iterate_below (I := fun m a t => ∃ tokens w, v.Reaches tokens w ∧ t.Sees w ∧
      J a tokens w ∧ w.Bounded I d m) ?_ hn ⟨[], v, .refl v, h, hJ, hbounded⟩
    intro m a t ⟨tokens, w, hreaches, hsees, hj, hm⟩
    refine (hstep a tokens w t hreaches hsees hj hm.secure).mono ?_ fun _ _ he => he
    intro round t' ⟨more, u, hmore, hsees', hr⟩
    cases round with
    | done b => exact ⟨_, u, hreaches.trans hmore, hsees', hr⟩
    | again a' =>
      obtain ⟨es, hes, rfl⟩ := hmore
      obtain ⟨m', hm', hbounded'⟩ := hes.bounded hI hplain hm
      refine ⟨m', ?_, _, u, hreaches.trans ⟨es, hes, rfl⟩, hsees', hr.2, hbounded'⟩
      have := hr.1
      omega
  · refine Run.Ends.iterate_of (I := fun a t => ∃ tokens w, v.Reaches tokens w ∧ t.Sees w ∧ J a tokens w)
      ?_ ?_ ⟨[], v, .refl v, h, hJ⟩
    · intro a t ⟨tokens, w, hreaches, hsees, hj⟩
      refine (hstep a tokens w t hreaches hsees hj (hreaches.secure hI hv)).mono ?_ fun _ _ he => he
      intro round t' ⟨more, u, hmore, hsees', hr⟩
      cases round with
      | done b => exact ⟨_, u, hreaches.trans hmore, hsees', hr⟩
      | again a' => exact ⟨_, u, hreaches.trans hmore, hsees', hr.2⟩
    · intro a t ⟨tokens, w, hreaches, hsees, _⟩
      exact ⟨.inr ⟨rfl, hplain⟩, w, hsees, hreaches.secure hI hv⟩

end Lasts

namespace Survives

theorem pure (h : s.Sees v) (b : β) : Survives I d v ((Pure.pure b : Run (Session σ) β) s) :=
  Lasts.pure h trivial

/-- In a sequence, what the first part takes is known by other means. -/
theorem bind (hI : Ebbs I) {Q : α → List Token → Sight σ → Prop} {x : Run (Session σ) α}
    {f : α → Run (Session σ) β} (hx : Lasts I d v Q (x s))
    (hf : ∀ a t tokens w, v.Reaches tokens w → t.Sees w → Q a tokens w → Survives I d w (f a t)) :
    Survives I d v ((x >>= f) s) :=
  Lasts.bind hI hx hf

end Survives

/-! ### Steps on the tokens -/

/-- Looking at the tokens, which may fail with an error. -/
theorem onTokens_survives {x : Run (Cursor (Lexer σ) Token) β} {Q : β → List Token → Sight σ → Prop}
    (h : s.Sees v) (hreads : Reads v Q (onTokens x s))
    (hx : s.tokens.Firm I d → Run.Ends (fun _ _ => True)
      (fun e c => (∃ error, e = .error error) ∧ c.Firm I d) (x s.tokens)) :
    Lasts I d v Q (onTokens x s) := by
  refine .reads (fun hv => ?_) hreads
  have hends := hx ⟨v, h, hv⟩
  cases hr : x s.tokens with
  | error e c =>
    rw [onTokens_error hr]
    obtain ⟨herror, hfirm⟩ := hends.of_error hr
    exact ⟨.inl herror, hfirm⟩
  | ok b c =>
    rw [onTokens_ok hr] at hreads ⊢
    obtain ⟨tokens, w, ⟨es, hes, -, htaken⟩, hsees, -⟩ := hreads
    exact ⟨tokens, w, ⟨es, hes, htaken⟩, hsees, trivial⟩

variable (hI : Ebbs I)
include hI

theorem lookahead_lasts (h : s.Sees v) (k : Nat) :
    Lasts I d v (fun token tokens w => tokens = [] ∧ w.ahead[k]? = some token ∧
      w.ahead.length = max v.ahead.length (k + 1)) (onTokens (Cursor.lookahead k) s) :=
  onTokens_survives h (lookahead_reads h k) fun hfirm =>
    (hfirm.lookahead hI k).mono (fun _ _ _ => trivial) fun _ _ he => he

theorem kindAt_lasts (h : s.Sees v) (k : Nat) :
    Lasts I d v (fun kind tokens w => tokens = [] ∧ (∃ token, w.ahead[k]? = some token ∧ token.kind = kind) ∧
      w.ahead.length = max v.ahead.length (k + 1)) (kindAt k s) := by
  refine .reads ?_ (kindAt_reads h k)
  rw [kindAt_eq]
  exact .bind hI (lookahead_lasts hI h k) fun token t tokens w _ hsees _ => .pure hsees _

theorem peek_lasts (h : s.Sees v) :
    Lasts I d v (fun token tokens w => tokens = [] ∧ (∃ rest, w.ahead = token :: rest) ∧
      w.ahead.length = max v.ahead.length 1) (peek s) :=
  .reads (lookahead_lasts hI h 0).survives (peek_reads h)

theorem peekKind_lasts (h : s.Sees v) :
    Lasts I d v (fun kind tokens w => tokens = [] ∧
      (∃ token rest, w.ahead = token :: rest ∧ token.kind = kind) ∧
      w.ahead.length = max v.ahead.length 1) (peekKind s) :=
  .reads (kindAt_lasts hI h 0).survives (peekKind_reads h)

theorem consume_lasts (h : s.Sees v) :
    Lasts I d v (fun token tokens w => tokens = [token] ∧ w.ahead = v.ahead.tail ∧
      ∀ t ∈ v.ahead.head?, t = token) (consume s) :=
  onTokens_survives h (consume_reads h) fun hfirm => hfirm.consume hI

theorem consume_known_lasts (h : s.Sees v) {token : Token} {rest : List Token} (hrest : v.ahead = token :: rest) :
    Lasts I d v (fun token' tokens w => token = token' ∧ tokens = [token] ∧ w.ahead = v.ahead.tail) (consume s) :=
  onTokens_survives h (consume_known h hrest) fun hfirm => hfirm.consume hI

theorem acceptBy_survives (h : s.Sees v) (fits : Token → Prop) [DecidablePred fits] :
    Survives I d v ((do
      let token ← peek
      if fits token then
        let _ ← consume
        return true
      else
        return false : Run (Session σ) Bool) s) := by
  refine .bind hI (peek_lasts hI h) ?_
  intro token t tokens w _ hsees _
  split
  · exact .bind hI (consume_lasts hI hsees) fun _ _ _ _ _ hsees' _ => .pure hsees' _
  · exact .pure hsees _

theorem accept_lasts (h : s.Sees v) (kind : Token.Kind) :
    Lasts I d v (Matched v (·.kind = kind)) (accept kind s) := by
  refine .reads ?_ (accept_reads h kind)
  rw [accept_eq]
  exact acceptBy_survives hI h _

theorem acceptWord_lasts (h : s.Sees v) (word : String) :
    Lasts I d v (Matched v (·.isWord word = true)) (acceptWord word s) :=
  .reads (acceptBy_survives hI h _) (acceptWord_reads h word)

theorem mismatch_survives (h : s.Sees v) (expected : String) :
    Survives I d v ((mismatch expected : Run (Session σ) β) s) := by
  intro hv
  obtain ⟨e, c, hmismatch, hfirm⟩ := Cursor.Firm.mismatch hI ⟨v, h, hv⟩ expected
  unfold mismatch
  rw [Run.bind_apply, onTokens_ok hmismatch]
  exact ⟨.inl ⟨e, rfl⟩, hfirm⟩

theorem unexpectedOperand_survives (h : s.Sees v) :
    Survives I d v ((unexpectedOperand : Run (Session σ) β) s) := by
  intro hv
  obtain ⟨e, c, hunexpected, hfirm⟩ := Cursor.Firm.unexpectedOperand hI ⟨v, h, hv⟩
  unfold unexpectedOperand
  rw [Run.bind_apply, onTokens_ok hunexpected]
  exact ⟨.inl ⟨e, rfl⟩, hfirm⟩

theorem expect_lasts (h : s.Sees v) (kind : Token.Kind) :
    Lasts I d v (fun _ tokens w => ∃ token, tokens = [token] ∧ token.kind = kind ∧
      w.ahead = v.ahead.tail ∧ ∀ t ∈ v.ahead.head?, t = token) (expect kind s) := by
  refine .reads ?_ (expect_reads h kind)
  rw [expect_eq]
  refine .bind hI (accept_lasts hI h kind) ?_
  intro accepted t tokens w _ hsees _
  cases accepted with
  | false => exact mismatch_survives hI hsees _
  | true => exact .pure hsees _

/-- Skipping stops, at the latest where the input does. -/
theorem skip_lasts (h : s.Sees v) (kind : Token.Kind) (hkind : kind ≠ .endOfFile) :
    Lasts I d v (fun _ tokens w => (∀ token ∈ tokens, token.kind = kind) ∧
      (∃ token rest, w.ahead = token :: rest ∧ token.kind ≠ kind) ∧
      w.ahead.length ≤ max v.ahead.length 1) (skip kind s) := by
  refine .reads (Lasts.iterate hI (J := fun _ _ _ => True) h trivial ?_) (skip_reads h kind)
  intro _ tokens w t _ hsees _
  refine .bind hI (accept_lasts hI hsees kind) ?_
  intro accepted t' taken w' _ hsees' haccepted
  cases accepted with
  | false => exact .pure hsees' trivial
  | true =>
    obtain ⟨token, rfl, htoken, -⟩ := haccepted
    exact .pure hsees' ⟨properTokens_pos (List.mem_cons_self ..) (htoken ▸ hkind), trivial⟩

end Session

section Netlist

namespace Session

variable {I : Nat → σ → Prop} {d : Lexer.Dialect} {s : Session σ} {v : Sight σ}

/-- The netlist may refuse what it is told. -/
theorem tell_lasts (call : Call) (h : s.Sees v) :
    Lasts I d v (fun _ tokens w => tokens = [] ∧ w = v) (tell call s) := by
  refine .reads (fun hv => ?_) (tell_reads call h)
  unfold tell
  dsimp only
  cases Netlist.perform call s.netlist with
  | ok reply netlist => exact ⟨[], v, .refl v, h, trivial⟩
  | error e netlist => exact ⟨.inl ⟨.build e, rfl⟩, v, h, hv⟩

theorem tellAll_lasts (hI : Ebbs I) {f : String → Run (Session σ) β}
    (hf : ∀ name s, s.Sees v → Lasts I d v (fun _ tokens w => tokens = [] ∧ w = v) (f name s))
    (names : List String) (h : s.Sees v) :
    Lasts I d v (fun _ tokens w => tokens = [] ∧ w = v) (names.mapM f s) := by
  induction names generalizing s with
  | nil => exact .pure h ⟨rfl, rfl⟩
  | cons name names ih =>
    rw [List.mapM_cons]
    refine .bind hI (hf name s h) ?_
    rintro b t _ _ - hsees ⟨rfl, rfl⟩
    refine .bind hI (ih hsees) ?_
    rintro bs t' _ _ - hsees' ⟨rfl, rfl⟩
    exact .pure hsees' ⟨rfl, rfl⟩

end Session

end Netlist

end Dataflow
