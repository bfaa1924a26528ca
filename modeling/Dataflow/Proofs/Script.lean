import Dataflow.Proofs.Effects
import Dataflow.Proofs.Layout
import Dataflow.Proofs.Standing

/-!
# Dataflow.Proofs.Script

**A session goes by the words before it.** Where a text is laid out as a list of words, what a parser
does next depends on these words, on the operators and on the netlist, and on nothing else. A `Script`
says all that, and `Enacts` leads a computation from one script to the next. There is one lemma for each
step on the tokens, so that the rules of the parser can be followed word by word, and no place in the
text and no buffer has to be mentioned.

* `Says` — tokens in view, and the text behind them, that say a list of words;
* `Script`, `Session.Follows` — what a session has before it and what it knows;
* `Stage` — what stays as it is meanwhile, and `Stage.Bars` — the only way in which a computation may
  fall short;
* `Enacts`, `Loops` — computations and loops that lead from one script to another one.

That loops do not run out of rounds is not shown here.
-/

namespace Dataflow

open Reading Lexer Circuit
open Token (Word)

/-! ### Words in view -/

/-- The token says the word; where there is no word, it is for the end. -/
def Token.Tells (token : Token) : Option Word → Prop
  | some w => token.word = w ∧ token.kind ≠ .endOfFile
  | none => token.kind = .endOfFile

/-- The tokens in view, and the text from the place on, say the words. Behind the last word there may
be tokens for the end in view. -/
inductive Says (d : Dialect) (T : Operator.Table → Prop) (p : Place) : List Token → List Word → Prop
  | behind {words : List Word} (h : Laid d T p.text words) : Says d T p [] words
  | word {token : Token} {ahead : List Token} {words : List Word} (hkind : token.kind ≠ .endOfFile)
    (h : Says d T p ahead words) : Says d T p (token :: ahead) (token.word :: words)
  | ended {token : Token} {ahead : List Token} (hkind : token.kind = .endOfFile)
    (h : Says d T p ahead []) : Says d T p (token :: ahead) []

namespace Says

variable {d : Dialect} {T : Operator.Table → Prop} {t : Operator.Table} {p q : Place} {token : Token}
  {ahead : List Token} {words : List Word}

/-- There always is a next token. -/
theorem exists_next (h : Says d T p ahead words) (hd : d.Plain) (ht : T t) :
    ∃ token q, p.next d t = .ok (token, q) := by
  induction h with
  | @behind words h =>
    cases words with
    | nil =>
      obtain ⟨token, q, hnext, -⟩ := h.next_end (t := t) hd
      exact ⟨token, q, hnext⟩
    | cons w words =>
      obtain ⟨token, q, hnext, -⟩ := h.next ht
      exact ⟨token, q, hnext⟩
  | word hkind h ih => exact ih
  | ended hkind h ih => exact ih

/-- A token that is scanned is one more token in view. -/
theorem scan (h : Says d T p ahead words) (hd : d.Plain) (ht : T t)
    (hnext : p.next d t = .ok (token, q)) : Says d T q (ahead ++ [token]) words := by
  induction h with
  | @behind words h =>
    cases words with
    | nil =>
      obtain ⟨token', q', hnext', hkind, hlaid⟩ := h.next_end (t := t) hd
      rw [hnext] at hnext'
      cases hnext'
      exact .ended hkind (.behind hlaid)
    | cons w words =>
      obtain ⟨token', q', hnext', hkind, rfl, hlaid⟩ := h.next ht
      rw [hnext] at hnext'
      cases hnext'
      exact .word hkind (.behind hlaid)
  | word hkind h ih => exact .word hkind ih
  | ended hkind h ih => exact .ended hkind ih

/-- What a token in view says. -/
theorem tells (h : Says d T p ahead words) {i : Nat} (hi : ahead[i]? = some token) :
    token.Tells words[i]? := by
  induction h generalizing i with
  | behind h => simp at hi
  | @word first ahead words hkind h ih =>
    cases i with
    | zero =>
      obtain rfl : first = token := by simpa using hi
      exact ⟨rfl, hkind⟩
    | succ i => exact ih (by simpa using hi)
  | @ended first ahead hkind h ih =>
    cases i with
    | zero =>
      obtain rfl : first = token := by simpa using hi
      exact hkind
    | succ i => exact ih (i := i) (by simpa using hi)

/-- Behind the first word. -/
theorem tail {w : Word} (h : Says d T p (token :: ahead) (w :: words)) : Says d T p ahead words := by
  cases h with
  | word hkind h => exact h

end Says

/-! ### Scripts -/

/-- What a session goes by. -/
structure Script where
  /-- The words that are to come. Behind them the input ends. -/
  words : List Word
  /-- The words that were to come at each mark, innermost mark first. -/
  saved : List (List Word) := []
  /-- Whether the next token has been looked at. -/
  viewed : Bool := false
  table : Operator.Table
  netlist : Netlist := {}
  /-- The calls to the netlist, last one first. -/
  calls : List Call := []

/-- The kind of the word `i` places ahead. -/
def Script.kindAt (k : Script) (i : Nat) : Token.Kind :=
  (k.words[i]?.map Word.kind).getD .endOfFile

theorem Script.kind_of_tells {k : Script} {i : Nat} {token : Token} (h : token.Tells k.words[i]?) :
    token.kind = k.kindAt i := by
  unfold kindAt
  cases hw : k.words[i]? with
  | some w =>
    rw [hw] at h
    exact congrArg Word.kind h.1
  | none =>
    rw [hw] at h
    exact h

/-- What stays as it is while a session follows a script: a bound on the length of the text, the
dialect, and under which operators the text is laid out as it is. -/
structure Stage where
  total : Nat
  dialect : Dialect
  plain : dialect.Plain
  tables : Operator.Table → Prop

/-- A loop has run out of rounds, or a buffer is too small, which takes a text of a certain length. -/
def Stage.Bars (g : Stage) (e : Failure) : Prop :=
  e = .stalled ∨ e.Exceeded ∧ g.dialect.limits.Exceeded (g.total + 2)

variable {σ α β γ : Type} [Supply σ Char] {g : Stage} {k k' k'' : Script}

/-- The cursor has the words of the script before it. -/
structure Script.Views (g : Stage) (k : Script) (c : Cursor (Lexer σ) Token) (v : Prospect) : Prop where
  faces : c.Faces ⟨g.total, g.dialect, k.table⟩ v
  shown : Says g.dialect g.tables v.place v.ahead k.words
  saved : List.Forall₂ (fun words ahead => Says g.dialect g.tables v.place ahead words) k.saved v.marked
  table : g.tables k.table

/-- The session has the words before it, and knows what the script says. -/
structure Session.Follows (g : Stage) (k : Script) (s : Session σ) : Prop where
  views : ∃ v, k.Views g s.tokens v ∧ (k.viewed = true → v.ahead ≠ [])
  netlist : s.netlist = k.netlist
  calls : s.calls = k.calls

/-- The computation leads from one script to another one, with an answer of which `Q` holds, unless
there is a bar to it. -/
def Enacts (g : Stage) (k : Script) (Q : β → Prop) (k' : Script) (x : Run (Session σ) β) : Prop :=
  Run.Leads (fun e _ => g.Bars e) (Session.Follows g k) (fun b t => Q b ∧ t.Follows g k') x

/-- The loop leads from one script to another one, however many rounds it is given. -/
def Loops (g : Stage) (k : Script) (Q : β → Prop) (k' : Script)
    (step : α → Run (Session σ) (Run.Round α β)) (a : α) : Prop :=
  ∀ rounds, Enacts g k Q k' (Run.iterateFor step rounds a)

namespace Session.Follows

variable {s : Session σ}

theorem table_eq (h : s.Follows g k) : s.table = k.table := by
  obtain ⟨v, hviews, -⟩ := h.views
  exact hviews.faces.table_eq

/-- Nobody has to know that a token has been looked at. -/
theorem forget (h : s.Follows g k) : s.Follows g { k with viewed := false } := by
  obtain ⟨v, ⟨hfaces, hshown, hsaved, htable⟩, -⟩ := h.views
  exact ⟨⟨v, ⟨hfaces, hshown, hsaved, htable⟩, nofun⟩, h.netlist, h.calls⟩

end Session.Follows

/-- A session at the start of a text. -/
theorem Session.follows_ofSource {source : σ} {text : List Char} {words : List Word} {t : Operator.Table}
    (hsource : Supply.Delivers source text) (hmarker : Source.endMarker source = endOfInput)
    (hne : ∀ c ∈ text, c ≠ endOfInput) (hg : g.total = text.length) (ht : g.tables t)
    (hlaid : Laid g.dialect g.tables text words) :
    (Session.ofSource source g.dialect t).Follows g { words, table := t } := by
  have hfaces := Cursor.faces_ofSource (d := g.dialect) (t := t) hsource hmarker hne
  rw [← hg] at hfaces
  exact ⟨⟨_, ⟨hfaces, .behind hlaid, .nil, ht⟩, nofun⟩, rfl, rfl⟩

/-! ### Composition -/

namespace Enacts

variable {Q Q' : β → Prop} {R : γ → Prop}

theorem mono {x : Run (Session σ) β} (h : Enacts g k Q k' x) (hQ : ∀ b, Q b → Q' b) :
    Enacts g k Q' k' x := by
  refine Run.Leads.mono h (fun _ hs => hs) ?_
  intro b t ⟨hb, ht⟩
  exact ⟨hQ b hb, ht⟩

theorem forget {x : Run (Session σ) β} (h : Enacts g k Q k' x) :
    Enacts g k Q { k' with viewed := false } x := by
  refine Run.Leads.mono h (fun _ hs => hs) ?_
  intro b t ⟨hb, ht⟩
  exact ⟨hb, ht.forget⟩

theorem pure {b : β} (hb : Q b) : Enacts g k Q k (Pure.pure b : Run (Session σ) β) :=
  fun _ hs => ⟨hb, hs⟩

theorem bind {x : Run (Session σ) β} {f : β → Run (Session σ) γ} (hx : Enacts g k Q k' x)
    (hf : ∀ b, Q b → Enacts g k' R k'' (f b)) : Enacts g k R k'' (x >>= f) := by
  intro s hs
  refine Run.Ends.bind (hx s hs) ?_ (fun _ _ he => he)
  intro b t ⟨hb, ht⟩
  exact hf b hb t ht

/-- A sequence whose first part has a single answer. -/
theorem then_ {b : β} {x : Run (Session σ) β} {f : β → Run (Session σ) γ}
    (hx : Enacts g k (· = b) k' x) (hf : Enacts g k' R k'' (f b)) : Enacts g k R k'' (x >>= f) := by
  refine hx.bind ?_
  intro b' hb
  rw [hb]
  exact hf

/-- A computation may ask for the operators. -/
theorem get {f : Session σ → Run (Session σ) γ}
    (hf : ∀ s : Session σ, s.table = k.table → Enacts g k R k'' (f s)) :
    Enacts g k R k'' (MonadState.get >>= f) :=
  fun s hs => hf s hs.table_eq s hs

theorem iterate {step : α → Run (Session σ) (Run.Round α β)} {a : α} {bound : Session σ → Nat}
    (h : Loops g k Q k' step a) : Enacts g k Q k' (Run.iterate bound a step) :=
  fun s hs => h _ s hs

end Enacts

namespace Loops

variable {Q : β → Prop} {step : α → Run (Session σ) (Run.Round α β)} {a a' : α}

theorem stalled : Enacts g k Q k' (Run.iterateFor step 0 a) := fun _ _ => .inl rfl

/-- A round that is not the last. -/
theorem again (hstep : Enacts g k (· = .again a') k' (step a)) (hrest : Loops g k' Q k'' step a') :
    Loops g k Q k'' step a := by
  intro rounds
  cases rounds with
  | zero => exact stalled
  | succ rounds => exact hstep.then_ (hrest rounds)

/-- The last round. -/
theorem done {b : β} (hstep : Enacts g k (· = .done b) k' (step a)) (hb : Q b) :
    Loops g k Q k' step a := by
  intro rounds
  cases rounds with
  | zero => exact stalled
  | succ rounds => exact hstep.then_ (.pure hb)

end Loops

/-! ### Steps on the tokens -/

theorem Stage.bars_of_refuses {p q : Place} {token : Token} {e : Failure}
    (h : Refuses ⟨g.total, g.dialect, k.table⟩ p e) (hq : p.next g.dialect k.table = .ok (token, q)) :
    g.Bars e := by
  obtain ⟨hexceeded, hlong⟩ := h.excused hq
  exact .inr ⟨hexceeded, hlong g.plain⟩

namespace Script.Views

variable {c : Cursor (Lexer σ) Token} {v : Prospect}

/-- A token is looked at that is in view, or the next one behind what is in view. -/
theorem lookahead (h : k.Views g c v) {i : Nat} (hi : i ≤ 1) (hview : i ≤ v.ahead.length) :
    Run.Ends (fun token c' => ∃ v', k.Views g c' v' ∧ v'.ahead[i]? = some token)
      (fun e _ => g.Bars e) (Cursor.lookahead i c) := by
  cases hahead : v.ahead[i]? with
  | some token =>
    obtain ⟨c', hlook, hfaces⟩ := h.faces.lookahead_held hahead
    rw [hlook]
    exact ⟨v, ⟨hfaces, h.shown, h.saved, h.table⟩, hahead⟩
  | none =>
    have hlength : v.ahead.length = i := Nat.le_antisymm (List.getElem?_eq_none_iff.1 hahead) hview
    obtain ⟨token, q, hnext⟩ := h.shown.exists_next g.plain h.table
    refine (h.faces.lookahead_next hlength hi).mono ?_ fun e _ he => Stage.bars_of_refuses he hnext
    intro token c' ⟨q, hq, hfaces⟩
    refine ⟨v.scan token q, ⟨hfaces, h.shown.scan g.plain h.table hq, ?_, h.table⟩, ?_⟩
    · show List.Forall₂ _ k.saved (v.marked.map (· ++ [token]))
      rw [List.forall₂_map_right_iff]
      exact h.saved.imp fun _ _ hm => hm.scan g.plain h.table hq
    · rw [← hlength]
      exact List.getElem?_concat_length

/-- The first word is consumed. -/
theorem consume (h : k.Views g c v) {w : Word} {words : List Word} (hwords : k.words = w :: words) :
    Run.Ends (fun token c' => token.word = w ∧ ∃ v', Views g { k with words, viewed := false } c' v')
      (fun e _ => g.Bars e) (Cursor.consume c) := by
  have hlookahead := h.lookahead (Nat.zero_le 1) (Nat.zero_le _)
  cases hlook : (Cursor.lookahead 0 : Run (Cursor (Lexer σ) Token) Token) c with
  | error e c' =>
    rw [Cursor.consume_of_error hlook]
    exact hlookahead.of_error hlook
  | ok token c' =>
    obtain ⟨v', ⟨hfaces, hshown, hsaved, htable⟩, hfirst⟩ := hlookahead.of_ok hlook
    obtain ⟨rest, hahead⟩ := List.head?_eq_some_iff.1 (List.head?_eq_getElem?.trans hfirst)
    have htells := hshown.tells hfirst
    rw [hwords] at htells hshown
    obtain ⟨hword, hkind⟩ : token.word = w ∧ token.kind ≠ .endOfFile := htells
    rw [hahead] at hshown
    -- Only a token for the end covers nothing.
    have hcovers : g.dialect.Plain → token.span.isEmpty = false := by
      intro hplain
      refine (Bool.not_eq_true _).mp fun hempty => hkind ?_
      have hspent := hfaces.spent.2 token (by rw [hahead]; exact List.mem_cons_self) hempty
      exact hspent.1.1.trans hplain.endKind
    obtain ⟨c'', hconsume, hfaces'⟩ := hfaces.consume_of_lookahead hlook hahead hcovers
    rw [hconsume]
    exact ⟨hword, _, hfaces', hshown.tail, hsaved, htable⟩

end Script.Views

namespace Session

variable {w : Word} {words : List Word}

theorem lookahead_enacts {i : Nat} (hi : i ≤ 1) (hviewed : i = 1 → k.viewed = true) :
    Enacts g k (fun token => token.Tells k.words[i]?) { k with viewed := true }
      (onTokens (Cursor.lookahead i) : Run (Session σ) Token) := by
  rintro s ⟨⟨v, hviews, hview⟩, hnetlist, hcalls⟩
  have hlength : i ≤ v.ahead.length := by
    rcases Nat.le_one_iff_eq_zero_or_eq_one.1 hi with rfl | rfl
    · exact Nat.zero_le _
    · exact List.length_pos_iff.2 (hview (hviewed rfl))
  refine (onTokens_ends (hviews.lookahead hi hlength)).mono ?_ ?_
  · rintro token t ⟨c, ⟨v', hviews', htoken⟩, rfl⟩
    refine ⟨hviews'.shown.tells htoken, ⟨v', ⟨hviews'.faces, hviews'.shown, hviews'.saved, hviews'.table⟩, ?_⟩,
      hnetlist, hcalls⟩
    intro _ hnil
    simp [hnil] at htoken
  · rintro e t ⟨c, he, rfl⟩
    exact he

theorem peek_enacts :
    Enacts g k (fun token => token.Tells k.words[0]?) { k with viewed := true }
      (peek : Run (Session σ) Token) :=
  lookahead_enacts (Nat.zero_le 1) nofun

theorem peekKind_enacts :
    Enacts g k (· = k.kindAt 0) { k with viewed := true } (peekKind : Run (Session σ) Token.Kind) := by
  rw [peekKind_eq]
  exact peek_enacts.bind fun token htoken => .pure (Script.kind_of_tells htoken)

/-- The kind of the second word, where the first one has been looked at. -/
theorem secondKind_enacts (hviewed : k.viewed = true) :
    Enacts g k (· = k.kindAt 1) { k with viewed := true } (kindAt 1 : Run (Session σ) Token.Kind) := by
  rw [kindAt_eq]
  exact (lookahead_enacts (Nat.le_refl 1) fun _ => hviewed).bind
    fun token htoken => .pure (Script.kind_of_tells htoken)

/-- The first word is consumed. -/
theorem consume_enacts (hwords : k.words = w :: words) :
    Enacts g k (fun token => token.word = w) { k with words, viewed := false }
      (consume : Run (Session σ) Token) := by
  rintro s ⟨⟨v, hviews, -⟩, hnetlist, hcalls⟩
  refine (onTokens_ends (hviews.consume hwords)).mono ?_ ?_
  · rintro token t ⟨c, ⟨hword, v', hviews'⟩, rfl⟩
    exact ⟨hword, ⟨v', hviews', nofun⟩, hnetlist, hcalls⟩
  · rintro e t ⟨c, he, rfl⟩
    exact he

/-- The first word is of the kind. -/
theorem accept_enacts (hwords : k.words = w :: words) {kind : Token.Kind} (hkind : w.kind = kind) :
    Enacts g k (· = true) { k with words, viewed := false } (accept kind : Run (Session σ) Bool) := by
  rw [accept_eq]
  refine peek_enacts.bind fun token htoken => ?_
  rw [hwords] at htoken
  have hfits : token.kind = kind := (congrArg Word.kind htoken.1).trans hkind
  rw [if_pos hfits]
  exact (consume_enacts (k := { k with viewed := true }) hwords).bind fun _ _ => .pure rfl

/-- The first word is of another kind. -/
theorem accept_refused {kind : Token.Kind} (hkind : k.kindAt 0 ≠ kind) :
    Enacts g k (· = false) { k with viewed := true } (accept kind : Run (Session σ) Bool) := by
  rw [accept_eq]
  refine peek_enacts.bind fun token htoken => ?_
  rw [if_neg (Script.kind_of_tells htoken ▸ hkind)]
  exact .pure rfl

theorem expect_enacts (hwords : k.words = w :: words) {kind : Token.Kind} (hkind : w.kind = kind) :
    Enacts g k (fun _ => True) { k with words, viewed := false } (expect kind : Run (Session σ) Unit) := by
  rw [expect_eq]
  exact (accept_enacts hwords hkind).then_ (.pure trivial)

/-- The first word is the one that is looked for. -/
theorem acceptWord_enacts {word : String} (hwords : k.words = ⟨.identifier, word, none⟩ :: words) :
    Enacts g k (· = true) { k with words, viewed := false } (acceptWord word : Run (Session σ) Bool) := by
  unfold acceptWord
  refine peek_enacts.bind fun token htoken => ?_
  rw [hwords] at htoken
  have hword : token.isWord word = true :=
    decide_eq_true ⟨congrArg Word.kind htoken.1, congrArg Word.text htoken.1⟩
  rw [if_pos hword]
  exact (consume_enacts (k := { k with viewed := true }) hwords).bind fun _ _ => .pure rfl

/-- The first word is another one. -/
theorem acceptWord_refused {word : String}
    (hother : ∀ w ∈ k.words.head?, w.kind = .identifier → w.text ≠ word) :
    Enacts g k (· = false) { k with viewed := true } (acceptWord word : Run (Session σ) Bool) := by
  unfold acceptWord
  refine peek_enacts.bind fun token htoken => ?_
  rw [if_neg ?_]
  · exact .pure rfl
  intro hword
  obtain ⟨hkind, htext⟩ := of_decide_eq_true hword
  cases hfirst : k.words[0]? with
  | some w =>
    rw [hfirst] at htoken
    refine hother w (List.head?_eq_getElem?.trans hfirst) ?_ ?_
    · rw [← htoken.1]
      exact hkind
    · rw [← htoken.1]
      exact htext
  | none =>
    rw [hfirst] at htoken
    exact absurd (hkind.symm.trans htoken) nofun

/-- There is nothing to skip. -/
theorem skip_enacts {kind : Token.Kind} (hkind : k.kindAt 0 ≠ kind) :
    Enacts g k (fun _ => True) { k with viewed := true } (skip kind : Run (Session σ) Unit) :=
  .iterate (.done ((accept_refused hkind).then_ (.pure rfl)) trivial)

/-! ### Going back -/

theorem mark_enacts :
    Enacts g k (fun _ => True) { k with saved := k.words :: k.saved, viewed := false }
      (onTokens Cursor.mark : Run (Session σ) Unit) := by
  rintro s ⟨⟨v, ⟨hfaces, hshown, hsaved, htable⟩, -⟩, hnetlist, hcalls⟩
  obtain ⟨c, hmark, hfaces'⟩ := hfaces.mark_ok
  rw [onTokens_ok hmark]
  exact ⟨trivial, ⟨_, ⟨hfaces', hshown, .cons hshown hsaved, htable⟩, nofun⟩, hnetlist, hcalls⟩

theorem commit_enacts {words : List Word} {saved : List (List Word)} (hk : k.saved = words :: saved) :
    Enacts g k (fun _ => True) { k with saved, viewed := false }
      (onTokens Cursor.commit : Run (Session σ) Unit) := by
  rintro s ⟨⟨v, ⟨hfaces, hshown, hsaved, htable⟩, -⟩, hnetlist, hcalls⟩
  rw [hk] at hsaved
  obtain ⟨m, outer, -, houter, hm⟩ := List.forall₂_cons_left_iff.1 hsaved
  obtain ⟨c, hcommit, hfaces'⟩ := hfaces.commit_ok hm
  rw [onTokens_ok hcommit]
  exact ⟨trivial, ⟨_, ⟨hfaces', hshown, houter, htable⟩, nofun⟩, hnetlist, hcalls⟩

/-- The words are before the session again that were to come at the mark. -/
theorem rollback_enacts {words : List Word} {saved : List (List Word)} (hk : k.saved = words :: saved) :
    Enacts g k (fun _ => True) { k with words, saved, viewed := false }
      (onTokens Cursor.rollback : Run (Session σ) Unit) := by
  rintro s ⟨⟨v, ⟨hfaces, hshown, hsaved, htable⟩, -⟩, hnetlist, hcalls⟩
  rw [hk] at hsaved
  obtain ⟨m, outer, hshown', houter, hm⟩ := List.forall₂_cons_left_iff.1 hsaved
  obtain ⟨c, hrollback, hfaces'⟩ := hfaces.rollback_ok hm
  rw [onTokens_ok hrollback]
  exact ⟨trivial, ⟨_, ⟨hfaces', hshown', houter, htable⟩, nofun⟩, hnetlist, hcalls⟩

/-! ### The netlist and the operators -/

theorem tell_enacts {call : Call} {reply : call.Reply} {m : Netlist}
    (h : Netlist.perform call k.netlist = .ok reply m) :
    Enacts g k (· = reply) { k with netlist := m, calls := call :: k.calls }
      (tell call : Run (Session σ) call.Reply) := by
  rintro s ⟨hviews, hnetlist, hcalls⟩
  rw [tell_ok call (hnetlist ▸ h), hcalls]
  obtain ⟨v, ⟨hfaces, hshown, hsaved, htable⟩, hview⟩ := hviews
  exact ⟨rfl, ⟨v, ⟨hfaces, hshown, hsaved, htable⟩, hview⟩, rfl, rfl⟩

/-- An operator is registered. The words stay as they are, if they are laid out under it too. -/
theorem insertOperator_enacts {op : Operator} (ht : g.tables (k.table.insert op)) :
    Enacts g k (fun _ => True) { k with table := k.table.insert op }
      (modify fun s => s.insertOperator op : Run (Session σ) PUnit) := by
  rintro s ⟨⟨v, ⟨hfaces, hshown, hsaved, -⟩, hview⟩, hnetlist, hcalls⟩
  exact ⟨trivial, ⟨v, ⟨hfaces.mapSource op, hshown, hsaved, ht⟩, hview⟩, hnetlist, hcalls⟩

end Session

end Dataflow
