import Dataflow.Proofs.Buffering
import Dataflow.Proofs.Mirroring
import Dataflow.Proofs.SessionComparing
import Dataflow.Proofs.Survival
import Dataflow.Proofs.Unmarked

/-!
# Dataflow.Proofs.Lagging

**A session that lags behind another one.** Two sessions have taken the same tokens and have no marks; the second
one has scanned further, as one has that tried something and went back (`Session.Lags`). Reading an expression,
they cannot be told apart: the first one scans what it needs when it needs it, with the same operators, and finds
what the second one found (`expression_lags`).

* `Sight.Scans` — more has been scanned in the second sight, and nothing else has happened;
* `Cursor.Lags`, `Cursor.Took` — how two cursors stand, and what they have taken when one of them fails;
* `Session.lagging` — failures differ in no more than the contexts of messages. A loop that does not end is
  excused, which happens only where the end of the input has a role.
-/

namespace Dataflow

open Reading Circuit

@[simp] theorem scannedIn_scanned (tokens : List Token) : scannedIn (tokens.map .scanned) = tokens := by
  induction tokens <;> simp_all

@[simp] theorem untaken_scanned (tokens : List Token) :
    untaken (tokens.map .scanned) = tokens.map .scanned := by
  induction tokens <;> simp_all

/-- What is made of two runs that end together. -/
theorem Run.Meet.carry {σ τ α : Type} {k : Tolerance σ τ} {Q : α → σ → τ → Prop} {P : Prop}
    {r : EStateM.Result Failure σ α} {r' : EStateM.Result Failure τ α} (h : Meet k Q r r')
    (hok : ∀ a s t, r = .ok a s → r' = .ok a t → Q a s t → P)
    (hfailure : ∀ e e' s t, r = .error e s → r' = .error e' t → k.alike e e' s t → P)
    (hfirst : ∀ e s, r = .error e s → k.excused e → P) (hsecond : ∀ e t, r' = .error e t → k.excused e → P) :
    P := by
  cases h with
  | answer h => exact hok _ _ _ rfl rfl h
  | failure h => exact hfailure _ _ _ _ rfl rfl h
  | first h => exact hfirst _ _ rfl h
  | second h => exact hsecond _ _ rfl h

/-! ### Sights -/

namespace Sight

variable {σ : Type} [Source σ Char] {v w x : Sight σ} {tokens : List Token} {es : List Event}

/-- What is scanned comes into view, and nothing else changes. -/
theorem Becomes.eq_extend (h : v.Becomes (tokens.map .scanned) w) : w = v.extend tokens w.lexer := by
  have hahead := h.ahead
  have hmarked := h.marked
  rw [scannedIn_scanned, takenIn_scanned, List.nil_append] at hahead
  rw [scannedIn_scanned] at hmarked
  obtain ⟨lexer, ahead, marked⟩ := w
  simp only [extend, Sight.mk.injEq, true_and]
  exact ⟨hahead.symm, hmarked⟩

/-- In the second sight more has been scanned, and nothing else has happened. -/
def Scans (v w : Sight σ) : Prop := ∃ tokens : List Token, v.Becomes (tokens.map .scanned) w

namespace Scans

theorem refl (v : Sight σ) : v.Scans v := ⟨[], .refl v⟩

theorem passes (h : v.Scans w) : v.Passes [] w := by
  obtain ⟨tokens, htokens⟩ := h
  exact ⟨_, htokens, registeredIn_scanned tokens, takenIn_scanned tokens⟩

theorem of_next {token : Token} {lexer : Lexer σ} (h : Lexer.next v.lexer = .ok token lexer) :
    v.Scans (v.extend [token] lexer) :=
  ⟨[token], .single (.scan h)⟩

theorem marked_eq_nil (h : v.Scans w) (hv : v.marked = []) : w.marked = [] := by
  obtain ⟨tokens, htokens⟩ := h
  rw [htokens.marked, hv]
  rfl

/-- What is in view stays in view. -/
theorem getElem?_eq (h : v.Scans w) {k : Nat} {token : Token} (hk : v.ahead[k]? = some token) :
    w.ahead[k]? = some token := by
  obtain ⟨tokens, htokens⟩ := h
  rw [htokens.eq_extend]
  exact (List.getElem?_append_left (List.getElem?_eq_some_iff.1 hk).1).trans hk

/-- Nothing has been scanned, or the next token and perhaps more. -/
theorem cases (h : v.Scans w) : w = v ∨ ∃ token lexer, Lexer.next v.lexer = .ok token lexer ∧
    (v.extend [token] lexer).Scans w ∧ w.ahead[v.ahead.length]? = some token := by
  obtain ⟨tokens, htokens⟩ := h
  have hextend := htokens.eq_extend
  cases htokens' : tokens with
  | nil =>
    rw [htokens'] at htokens
    cases htokens
    exact .inl rfl
  | cons token rest =>
    rw [htokens'] at htokens hextend
    cases htokens with
    | step hstep hrest =>
      cases hstep with
      | scan hnext =>
        refine .inr ⟨token, _, hnext, ⟨rest, hrest⟩, ?_⟩
        rw [hextend]
        show (v.ahead ++ token :: rest)[v.ahead.length]? = some token
        rw [List.getElem?_append_right (Nat.le_refl _), Nat.sub_self]
        rfl

/-- Both have passed the token at the cursor. -/
theorem pass (h : v.Scans w) (hv : v.ahead ≠ []) : v.pass.Scans w.pass := by
  obtain ⟨tokens, htokens⟩ := h
  have hpassed := htokens.untaken v.pass rfl
  rw [untaken_scanned, scannedIn_scanned] at hpassed
  refine ⟨tokens, ?_⟩
  have hpass : w.pass = v.pass.extend tokens w.lexer := by
    rw [htokens.eq_extend]
    simp only [Sight.pass, extend, List.tail_append_of_ne_nil hv]
  rw [hpass]
  exact hpassed

end Scans

end Sight

/-! ### Cursors -/

namespace Reading.Cursor

variable {σ β : Type} [Source σ Char] {c c' : Cursor (Lexer σ) Token} {v v' w : Sight σ} {n k : Nat}

/-- Since the sights `v` and `v'` the cursors have taken the same tokens, and the second one may have scanned
further. They have no marks, and both windows are narrow or neither is. At least `n` tokens are in view. -/
def Lags (v v' : Sight σ) (n : Nat) (c c' : Cursor (Lexer σ) Token) : Prop :=
  c'.narrow = c.narrow ∧ ∃ taken w w', v.Passes taken w ∧ v'.Passes taken w' ∧ c.Sees w ∧ c'.Sees w' ∧
    w.Scans w' ∧ w.marked = [] ∧ n ≤ w.ahead.length

/-- Since the sight `v` the cursor has taken these tokens. What is behind them may have been scanned. -/
def Took (v : Sight σ) (taken : List Token) (c : Cursor (Lexer σ) Token) : Prop :=
  ∃ w u : Sight σ, v.Passes taken w ∧ c.Sees u ∧ w.ahead <+: u.ahead

/-- The cursors have taken the same tokens, and fail alike. -/
def lagging (v v' : Sight σ) : Run.Tolerance (Cursor (Lexer σ) Token) (Cursor (Lexer σ) Token) where
  alike e e' c c' := e'.bare = e.bare ∧ ∃ taken, c.Took v taken ∧ c'.Took v' taken
  excused e := e = .stalled

theorem Sees.took {taken : List Token} (h : c.Sees w) (hpasses : v.Passes taken w) : c.Took v taken :=
  ⟨w, w, hpasses, h, List.prefix_refl _⟩

theorem Lags.mono {m : Nat} (h : Lags v v' n c c') (hm : m ≤ n) : Lags v v' m c c' := by
  obtain ⟨hnarrow, taken, w, w', hpasses, hpasses', hc, hc', hscans, hmarked, hn⟩ := h
  exact ⟨hnarrow, taken, w, w', hpasses, hpasses', hc, hc', hscans, hmarked, Nat.le_trans hm hn⟩

theorem Lags.exists_took (h : Lags v v' n c c') : ∃ taken, c.Took v taken ∧ c'.Took v' taken := by
  obtain ⟨-, taken, w, w', hpasses, hpasses', hc, hc', -⟩ := h
  exact ⟨taken, hc.took hpasses, hc'.took hpasses'⟩

theorem Lags.table_eq (h : Lags v v' n c c') : c'.source.table = c.source.table := by
  obtain ⟨-, taken, w, w', -, -, ⟨_, o, hshows, hsource, -⟩, ⟨_, o', hshows', hsource', -⟩, hscans, -⟩ := h
  show c'.buffer.source.table = c.buffer.source.table
  rw [hshows.source, hsource, hshows'.source, hsource']
  exact hscans.passes.table_eq

variable (hσ : Source.Troubled σ)

include hσ

/-- Both have looked at the token, which has changed neither marks nor room. -/
theorem meet_of_ok {token : Token} {d d' : Cursor (Lexer σ) Token} {taken : List Token} {w w' : Sight σ}
    (hnarrow : c'.narrow = c.narrow) (hmarks : c.marks = []) (hmarks' : c'.marks = [])
    (hd : lookahead k c = .ok token d) (hd' : lookahead k c' = .ok token d') (hpasses : v.Passes taken w)
    (hpasses' : v'.Passes taken w') (hsees : d.Sees w) (hsees' : d'.Sees w') (hscans : w.Scans w')
    (hn : n ≤ w.ahead.length) :
    Run.Meet (lagging v v') (fun _ => Lags v v' n) (lookahead k c) (lookahead k c') := by
  have hframed := (lookahead_frames (Lexer.troubled hσ) k c ⟨hmarks, rfl⟩).of_ok hd
  have hframed' := (lookahead_frames (Lexer.troubled hσ) k c' ⟨hmarks', rfl⟩).of_ok hd'
  rw [hd, hd']
  refine .answer ⟨?_, taken, w, w', hpasses, hpasses', hsees, hsees', hscans, hsees.marks_eq_nil.1 hframed.1, hn⟩
  rw [hframed.2, hframed'.2, hnarrow]

/-- Neither has the token in view. There is room for it in both windows, or in neither. -/
theorem lookahead_level {taken : List Token} (hnarrow : c'.narrow = c.narrow) (hpasses : v.Passes taken w)
    (hpasses' : v'.Passes taken w) (hc : c.Sees w) (hc' : c'.Sees w) (hmarked : w.marked = [])
    (hlength : w.ahead.length = k) (hk : k ≤ 1) :
    Run.Meet (lagging v v') (fun _ => Lags v v' (k + 1)) (lookahead k c) (lookahead k c') := by
  by_cases hroom : k = 0 ∨ k = 1 ∧ c.narrow = none
  · have hlook := hc.lookahead_next hmarked hlength hroom
    have hlook' := hc'.lookahead_next hmarked hlength (by rwa [hnarrow])
    cases hnext : Lexer.next w.lexer with
    | ok token lexer =>
      rw [hnext] at hlook hlook'
      obtain ⟨d, hd, hsees⟩ := hlook
      obtain ⟨d', hd', hsees'⟩ := hlook'
      have hscanned := (Sight.Scans.of_next hnext).passes
      refine meet_of_ok hσ hnarrow (hc.marks_eq_nil.2 hmarked) (hc'.marks_eq_nil.2 hmarked) hd hd'
        (hpasses.trans hscanned) (hpasses'.trans hscanned) hsees hsees' (.refl _) ?_
      show k + 1 ≤ (w.ahead ++ [token]).length
      rw [List.length_append, hlength]
      exact Nat.le_refl _
    | error e lexer =>
      rw [hnext] at hlook hlook'
      obtain ⟨d, hd, hsees⟩ := hlook
      obtain ⟨d', hd', hsees'⟩ := hlook'
      rw [hd, hd']
      exact .failure ⟨rfl, taken, ⟨w, _, hpasses, hsees, List.prefix_refl _⟩,
        w, _, hpasses', hsees', List.prefix_refl _⟩
  · have hone : k = 1 := by
      by_contra hne
      exact hroom (.inl (by omega))
    subst hone
    obtain ⟨limit, hlimit⟩ := Option.ne_none_iff_exists'.1 fun hnone => hroom (.inr ⟨rfl, hnone⟩)
    obtain ⟨d, hd, hsees⟩ := hc.lookahead_narrow hmarked hlength hlimit
    obtain ⟨d', hd', hsees'⟩ := hc'.lookahead_narrow hmarked hlength (hnarrow.trans hlimit)
    rw [hd, hd']
    exact .failure ⟨rfl, taken, hsees.took hpasses, hsees'.took hpasses'⟩

/-- **Looking at a token**, where those in front of it are in view. -/
theorem lookahead_lags (hkn : k ≤ n) (hk : k ≤ 1) : Run.Matches (lagging v v') (Lags v v' n)
    (fun _ => Lags v v' (max n (k + 1))) (lookahead k) (lookahead k) := by
  rintro c c' ⟨hnarrow, taken, w, w', hpasses, hpasses', hc, hc', hscans, hmarked, hn⟩
  have hmarks := hc.marks_eq_nil.2 hmarked
  have hmarks' := hc'.marks_eq_nil.2 (hscans.marked_eq_nil hmarked)
  by_cases hheld : k < w.ahead.length
  · -- both have it in view
    have htoken := List.getElem?_eq_getElem hheld
    obtain ⟨d, hd, hsees⟩ := hc.lookahead_held htoken
    obtain ⟨d', hd', hsees'⟩ := hc'.lookahead_held (hscans.getElem?_eq htoken)
    exact meet_of_ok hσ hnarrow hmarks hmarks' hd hd' hpasses hpasses' hsees hsees' hscans (by omega)
  have hlength : w.ahead.length = k := by omega
  have hmax : max n (k + 1) = k + 1 := by omega
  rw [hmax]
  rcases hscans.cases with rfl | ⟨token, lexer, hnext, hscans', htoken'⟩
  · exact lookahead_level hσ hnarrow hpasses hpasses' hc hc' hmarked hlength hk
  · -- the second one has it in view, and so the first one has room for it, too
    rw [hlength] at htoken'
    have hview := (List.getElem?_eq_some_iff.1 htoken').1
    have hroom : k = 0 ∨ k = 1 ∧ c.narrow = none := by
      rcases Nat.eq_zero_or_pos k with hzero | hpos
      · exact .inl hzero
      · exact .inr ⟨by omega, hnarrow ▸ hc'.narrow_eq_none (by omega)⟩
    have hlook := hc.lookahead_next hmarked hlength hroom
    rw [hnext] at hlook
    obtain ⟨d, hd, hsees⟩ := hlook
    obtain ⟨d', hd', hsees'⟩ := hc'.lookahead_held htoken'
    refine meet_of_ok hσ hnarrow hmarks hmarks' hd hd' ?_ hpasses' hsees hsees' hscans' ?_
    · rw [← List.append_nil taken]
      exact hpasses.trans (Sight.Scans.of_next hnext).passes
    · show k + 1 ≤ (w.ahead ++ [token]).length
      rw [List.length_append, hlength]
      exact Nat.le_refl _

/-- Consuming is looking at the token at the cursor and passing it. -/
theorem consume_lags : Run.Matches (lagging v v') (Lags v v' 0) (fun _ => Lags v v' 0) consume consume := by
  intro c c' h
  refine (lookahead_lags hσ (Nat.le_refl 0) (Nat.zero_le 1) c c' h).carry (fun token d d' hd hd' hlags => ?_)
    (fun e e' d d' hd hd' hfailed => ?_) (fun e d hd he => ?_) fun e d' hd' he => ?_
  rotate_left
  · rw [consume_of_error hd, consume_of_error hd']
    exact .failure hfailed
  · rw [consume_of_error hd]
    exact .first he
  · rw [consume_of_error hd']
    exact .second he
  obtain ⟨hnarrow₀, -, w₀, w₀', -, -, hc, hc', hscans₀, hmarked₀, -⟩ := h
  obtain ⟨-, taken, w, w', hpasses, hpasses', hsees, hsees', hscans, hmarked, -⟩ := hlags
  obtain ⟨tokens, u, -, hu, htoken, -⟩ := (hc.lookahead 0).of_ok hd
  obtain rfl := hsees.unique hu
  have htoken' := hscans.getElem?_eq htoken
  rw [← List.head?_eq_getElem?] at htoken htoken'
  obtain ⟨rest, hrest⟩ := List.head?_eq_some_iff.1 htoken
  obtain ⟨rest', hrest'⟩ := List.head?_eq_some_iff.1 htoken'
  obtain ⟨e, he, hpassed⟩ := Sees.consume_of_ok hd hsees hrest
  obtain ⟨e', he', hpassed'⟩ := Sees.consume_of_ok hd' hsees' hrest'
  have hframed := (consume_frames (Lexer.troubled hσ) c ⟨hc.marks_eq_nil.2 hmarked₀, rfl⟩).of_ok he
  have hframed' := (consume_frames (Lexer.troubled hσ) c'
    ⟨hc'.marks_eq_nil.2 (hscans₀.marked_eq_nil hmarked₀), rfl⟩).of_ok he'
  have htake : ∀ {x : Sight σ} {rest}, x.ahead = token :: rest → x.Passes [token] x.pass :=
    fun hx => ⟨_, .single (.take hx), rfl, rfl⟩
  rw [he, he']
  refine .answer ⟨?_, taken ++ [token], _, _, hpasses.trans (htake hrest), hpasses'.trans (htake hrest'), hpassed,
    hpassed', hscans.pass (by rw [hrest]; nofun), hmarked, Nat.zero_le _⟩
  rw [hframed.2, hframed'.2, hnarrow₀]

/-! ### Messages -/

omit hσ in
/-- Looking further ahead, whatever comes of it, takes nothing out of view. -/
theorem elementAt_took {taken : List Token} (k : Nat) (c : Cursor (Lexer σ) Token) (h : c.Took v taken) :
    Run.Ends (fun _ c' => c'.Took v taken) (fun _ c' => c'.Took v taken)
      (onBuffer (Buffer.elementAt (c.offset + k)) c) := by
  obtain ⟨w, u, hpasses, hu, hprefix⟩ := h
  have hlook := hu.of_agrees k fun _ _ hshows => elementAt_agrees hshows k
  have hfailed := hu.of_agrees_failed k fun _ _ hshows => elementAt_agrees hshows k
  cases hr : (onBuffer (Buffer.elementAt (c.offset + k)) c : EStateM.Result Failure _ Token) with
  | ok token c' =>
    obtain ⟨tokens, u', hscanned, hu', -⟩ := hlook.of_ok hr
    refine ⟨w, u', hpasses, hu', ?_⟩
    rw [hscanned.eq_extend]
    exact hprefix.trans (List.prefix_append _ _)
  | error e c' =>
    obtain ⟨lexer, hu'⟩ := hfailed.of_error hr
    exact ⟨w, _, hpasses, hu', hprefix⟩

omit hσ in
/-- Messages for a token that has been looked at differ in no more than their contexts. -/
theorem compose_lags (make : String → Option Text.Span → String → Error) (h : Lags v v' 1 c c') :
    ∃ found span text text' d d' taken, (compose make : Run (Cursor (Lexer σ) Token) Error) c =
        .ok (make found span text) d ∧
      (compose make : Run (Cursor (Lexer σ) Token) Error) c' = .ok (make found span text') d' ∧
      d.Took v taken ∧ d'.Took v' taken := by
  obtain ⟨-, taken, w, w', hpasses, hpasses', hc, hc', hscans, -, hone⟩ := h
  have htoken := List.getElem?_eq_getElem hone
  obtain ⟨c₁, hlook, h₁⟩ := hc.lookahead_held htoken
  obtain ⟨c₁', hlook', h₁'⟩ := hc'.lookahead_held (hscans.getElem?_eq htoken)
  obtain ⟨text, d, hd, htook⟩ := context_ok elementAt_took (h₁.took hpasses)
  obtain ⟨text', d', hd', htook'⟩ := context_ok elementAt_took (h₁'.took hpasses')
  refine ⟨Element.describe w.ahead[0], Element.span w.ahead[0], text, text', d, d', taken, ?_, ?_, htook, htook'⟩
  · unfold compose
    simp only [Run.bind_apply, current_of_ok hlook, hd, Run.pure_apply]
  · unfold compose
    simp only [Run.bind_apply, current_of_ok hlook', hd', Run.pure_apply]

end Reading.Cursor

/-! ### Sessions -/

namespace Session

variable {σ β : Type} [Source σ Char] {s t : Session σ} {v v' : Sight σ} {n k : Nat}

/-- The sessions have told the same, and the second one has scanned further. -/
structure Lags (v v' : Sight σ) (n : Nat) (s t : Session σ) : Prop where
  netlist : t.netlist = s.netlist
  calls : t.calls = s.calls
  tokens : Cursor.Lags v v' n s.tokens t.tokens

/-- The sessions have told the same and taken the same tokens, and fail alike. -/
def lagging (excused : Failure → Prop) (v v' : Sight σ) : Run.Tolerance (Session σ) (Session σ) where
  alike e e' s t := e'.bare = e.bare ∧ t.netlist = s.netlist ∧ t.calls = s.calls ∧
    ∃ taken, s.tokens.Took v taken ∧ t.tokens.Took v' taken
  excused := excused

theorem onTokens_lags {m n : Nat} {x : Run (Cursor (Lexer σ) Token) β}
    (hx : Run.Matches (Cursor.lagging v v') (Cursor.Lags v v' m) (fun _ => Cursor.Lags v v' n) x x) :
    Run.Matches (lagging (· = .stalled) v v') (Lags v v' m) (fun _ => Lags v v' n) (onTokens x) (onTokens x) := by
  intro s t h
  refine (hx _ _ h.tokens).carry (fun b c c' hc hc' hlags => ?_) (fun e e' c c' hc hc' hfailed => ?_)
    (fun e c hc he => ?_) fun e c' hc' he => ?_
  · rw [onTokens_ok hc, onTokens_ok hc']
    exact .answer ⟨h.netlist, h.calls, hlags⟩
  · rw [onTokens_error hc, onTokens_error hc']
    exact .failure ⟨hfailed.1, h.netlist, h.calls, hfailed.2⟩
  · rw [onTokens_error hc]
    exact .first he
  · rw [onTokens_error hc']
    exact .second he

theorem tell_lags (call : Call) : Run.Matches (lagging (· = .stalled) v v') (Lags v v' 0) (fun _ => Lags v v' 0)
    (tell call) (tell call) := by
  rintro ⟨tokens, netlist, calls⟩ ⟨tokens', netlist', calls'⟩ ⟨hnetlist, hcalls, htokens⟩
  cases hnetlist
  cases hcalls
  unfold tell
  dsimp only
  cases Netlist.perform call netlist with
  | ok reply netlist => exact .answer ⟨rfl, rfl, htokens⟩
  | error e netlist => exact .failure ⟨rfl, rfl, rfl, htokens.exists_took⟩

theorem Lags.mono {m : Nat} (h : Lags v v' n s t) (hm : m ≤ n) : Lags v v' m s t :=
  ⟨h.netlist, h.calls, h.tokens.mono hm⟩

/-- Both fail with a message for the token at the cursor. -/
theorem compose_lags (make : String → Option Text.Span → String → Error)
    (hmake : ∀ found span text text', (make found span text).bare = (make found span text').bare)
    (Q : β → Session σ → Session σ → Prop) :
    Run.Matches (lagging (· = .stalled) v v') (Lags v v' 1) Q (onTokens (Cursor.compose make) >>= fun e => Run.fail e)
      (onTokens (Cursor.compose make) >>= fun e => Run.fail e) := by
  intro s t h
  obtain ⟨found, span, text, text', d, d', taken, hd, hd', htook, htook'⟩ := Cursor.compose_lags make h.tokens
  rw [Run.bind_apply, Run.bind_apply, onTokens_ok hd, onTokens_ok hd']
  exact .failure ⟨congrArg Failure.error (hmake found span text' text), h.netlist, h.calls, taken, htook, htook'⟩

/-- **The steps of a parser in an expression**, where the second session has scanned further. -/
theorem terms_lag (hσ : Source.Troubled σ) :
    Parser.ComparedTerms (lagging (· = .stalled) v v').comparison (Lags v v' 0) (Lags v v' 1) where
  tokens := {
    loosen := fun h => h.mono (Nat.zero_le 1)
    peek := onTokens_lags (Cursor.lookahead_lags hσ (Nat.le_refl 0) (Nat.zero_le 1))
    second := by
      rw [kindAt_eq]
      refine Run.Matches.bind (Q := fun _ => Lags v v' 2) (onTokens_lags
        (Cursor.lookahead_lags hσ (Nat.le_refl 1) (Nat.le_refl 1))) fun token => ?_
      exact (Run.Matches.pure _).mono (fun _ _ h => h) fun _ _ _ h => h.mono (Nat.le_succ 1)
    consume := onTokens_lags (Cursor.consume_lags hσ)
    mismatch := fun Q expected => compose_lags (fun found span context => .mismatch expected found context span)
      (fun _ _ _ _ => rfl) Q
    unexpectedOperand := fun Q => compose_lags (fun found span context => .unexpectedOperand found context span)
      (fun _ _ _ _ => rfl) Q
    violate := fun Q violation s t h => .failure ⟨rfl, h.netlist, h.calls, h.tokens.exists_took⟩
    table := fun s t h => h.tokens.table_eq.symm
    iterate := fun a hstep => Run.Matches.iterate (.inl rfl) a hstep
    descend := fun {ι β f g} hzero hzero' hsucc i s t h => by
      -- the sessions may have different bounds, and meeting one of them is excused
      have hdepth : ∀ d d' i, Run.Matches (lagging (· = .stalled) v v') (Lags v v' 0) (fun _ => Lags v v' 0)
          (f d i) (g d' i) := by
        intro d
        induction d with
        | zero =>
          intro d' i s t _
          rw [hzero]
          exact .first rfl
        | succ d ih =>
          intro d' i
          cases d' with
          | zero =>
            intro s t _
            rw [hzero']
            exact .second rfl
          | succ d' => exact hsucc d d' (ih d') i
      exact hdepth _ _ i s t h }
  tell call _ := tell_lags call

end Session

/-- **An expression** is read alike by a session that has scanned further. -/
theorem Parser.expression_lags {σ : Type} [Source σ Char] (hσ : Source.Troubled σ) (v v' : Sight σ) :
    Run.Matches (Session.lagging (· = .stalled) v v') (Session.Lags v v' 0) (fun _ => Session.Lags v v' 0)
      expression expression :=
  expression_keptBy (Session.terms_lag hσ)

end Dataflow
