import Dataflow.Parser.Session
import Dataflow.Proofs.Scanning
import Mathlib.Data.List.Forall2

/-!
# Dataflow.Proofs.Prospect

**What a session has before it.** The tokens of a session come out of a cursor over a lexer over a
cursor over a text. A `Prospect` is what is left when the windows are taken away: the tokens that
have been scanned and are still to be consumed, the same for every mark, and the place in the text
where the lexer goes on.

* `Cursor.Faces` — a cursor over a lexer has a prospect before it;
* a token that is in view is looked at and consumed as it is, and nothing can go wrong
  (`peek_held`, `consume_held`);
* a token that is not in view is the next one of the place (`peek_next`), with the operators that
  are known when it is scanned: whatever is registered later leaves it as it is;
* `Cursor.Stands` — as long as no operator is registered, tokens in view are no different from
  tokens that are still to be scanned, and a session simply stands at a place in the text.

Every token but the end takes characters of the text. So there are never more tokens to come than
`Prospect.pending`, which is what the bounds on the loops of a parser rest on.
-/

namespace Dataflow

open Reading Lexer

/-- How many of the tokens cover something. -/
def covering (tokens : List Token) : Nat := tokens.countP fun t => !t.span.isEmpty

@[simp] theorem covering_nil : covering [] = 0 := rfl

@[simp] theorem covering_append (first second : List Token) :
    covering (first ++ second) = covering first + covering second := List.countP_append

theorem covering_cons (t : Token) (tokens : List Token) :
    covering (t :: tokens) = covering [t] + covering tokens :=
  covering_append [t] tokens

theorem covering_of_covers {t : Token} (h : t.span.isEmpty = false) : covering [t] = 1 := by
  simp [covering, h]

theorem covering_le (tokens : List Token) : covering tokens ≤ tokens.length :=
  List.countP_le_length

/-- What a session has before it. -/
structure Prospect where
  /-- The tokens that have been scanned and not consumed. -/
  ahead : List Token := []
  /-- The tokens that have been scanned from each mark on, innermost mark first. -/
  marked : List (List Token) := []
  /-- Where the lexer goes on. -/
  place : Place

namespace Prospect

/-- What is before a session when another token has been scanned. -/
def scan (v : Prospect) (token : Token) (place : Place) : Prospect where
  ahead := v.ahead ++ [token]
  marked := v.marked.map (· ++ [token])
  place := place

/-- No more tokens that cover something are still to come. -/
def pending (v : Prospect) : Nat := covering v.ahead + v.place.text.length

/-- A token that is scanned was among those to come. -/
theorem covering_scan {g : Setting} {p q : Place} {token : Token}
    (h : p.next g.dialect g.table = .ok (token, q)) :
    covering [token] + q.text.length ≤ p.text.length := by
  cases hcovers : token.span.isEmpty with
  | false =>
    have := Place.length_lt_of_next h hcovers
    rw [covering_of_covers hcovers]
    omega
  | true =>
    have := Place.length_le_of_next h
    have hzero : covering [token] = 0 := by simp [covering, hcovers]
    omega

end Prospect

/-- A token that covers nothing is the end marker, in whatever role, and behind it there is nothing
else. -/
def Spent (d : Dialect) (p : Place) (tokens : List Token) : Prop :=
  tokens.Pairwise (fun t u => t.span.isEmpty = true → u.span.isEmpty = true) ∧
    ∀ t ∈ tokens, t.span.isEmpty = true →
      (t.kind = d.endKind ∧ d.quote ≠ endOfInput) ∧ p.text = []

theorem Spent.nil (d : Dialect) (p : Place) : Spent d p [] := ⟨.nil, by simp⟩

theorem Spent.tail {d : Dialect} {p : Place} {t : Token} {tokens : List Token}
    (h : Spent d p (t :: tokens)) : Spent d p tokens :=
  ⟨(List.pairwise_cons.1 h.1).2, fun u hu => h.2 u (List.mem_cons_of_mem t hu)⟩

theorem Spent.scan {g : Setting} {p q : Place} {token : Token} {tokens : List Token}
    (h : Spent g.dialect p tokens) (hq : p.next g.dialect g.table = .ok (token, q))
    (hne : ∀ c ∈ p.text, c ≠ endOfInput) : Spent g.dialect q (tokens ++ [token]) := by
  constructor
  · refine List.pairwise_append.2 ⟨h.1, List.pairwise_singleton _ _, fun t ht u hu hempty => ?_⟩
    rw [List.mem_singleton.1 hu]
    exact (Place.next_of_nil hq (h.2 t ht hempty).2).2.2
  · intro t ht hempty
    rcases List.mem_append.1 ht with ht | ht
    · obtain ⟨hkind, htext⟩ := h.2 t ht hempty
      exact ⟨hkind, (Place.next_of_nil hq htext).2.1⟩
    · rw [List.mem_singleton.1 ht] at hempty ⊢
      exact Place.nil_of_isEmpty hq hempty hne

/-- Why there is no next token: there is none at the place, or it would take too large a
buffer. -/
def Refuses (g : Setting) (p : Place) (e : Failure) : Prop :=
  Lexer.Excused g e ∨ ∃ cause, p.next g.dialect g.table = .error cause ∧ e = .error cause

/-- Where there is a next token, only the buffer can stand in the way. -/
theorem Refuses.excused {g : Setting} {p q : Place} {e : Failure} {token : Token}
    (h : Refuses g p e) (hq : p.next g.dialect g.table = .ok (token, q)) :
    Lexer.Excused g e := by
  rcases h with h | ⟨cause, hcause, -⟩
  · exact h
  · rw [hq] at hcause
    cases hcause

namespace Reading.Cursor

variable {σ : Type} [Supply σ Char] {g : Setting} {c : Cursor (Lexer σ) Token} {v : Prospect}

/-- The cursor has `v` before it. Where the end marker has no role, the tokens that have been
passed and those to come all have characters of their own in the text. Where it has one, it is
met again and again once nothing else is left. -/
def Faces (g : Setting) (c : Cursor (Lexer σ) Token) (v : Prospect) : Prop :=
  ∃ o : Outlook (Lexer σ) Token, c.Shows g.dialect.limits o ∧ o.ahead = v.ahead ∧
    o.marked = v.marked ∧ o.ended = false ∧ Reads g o.source v.place [] ∧
    (g.dialect.Plain → ∀ m ∈ v.ahead :: v.marked,
      o.passed + v.ahead.length + covering m + v.place.text.length ≤ g.total + m.length) ∧
    ∀ m ∈ v.ahead :: v.marked, Spent g.dialect v.place m

/-- A cursor at the start of a text. -/
theorem faces_ofSource {source : σ} {text : List Char} {d : Dialect} {t : Operator.Table}
    (hsource : Supply.Delivers source text) (hmarker : Source.endMarker source = endOfInput)
    (hne : ∀ c ∈ text, c ≠ endOfInput) :
    (ofSource (Lexer.ofSource source d t) d.limits : Cursor (Lexer σ) Token).Faces
      ⟨text.length, d, t⟩ { place := ⟨text, {}⟩ } := by
  refine ⟨_, shows_ofSource _ d.limits, rfl, rfl, rfl, reads_ofSource hsource hmarker hne, ?_, ?_⟩
  · intro _ m hm
    rw [List.mem_singleton] at hm
    subst hm
    simp
  · intro m hm
    rw [List.mem_singleton] at hm
    subst hm
    exact .nil _ _

namespace Faces

/-- No more tokens than this are still to come. -/
theorem pending_le (h : c.Faces g v) : v.pending ≤ c.remaining := by
  obtain ⟨o, hshows, hahead, -, -, hreads, -⟩ := h
  have hsize := hshows.size_eq
  have hlexer := hreads.length_le
  have hcovering := covering_le v.ahead
  rw [hahead] at hsize
  show covering v.ahead + v.place.text.length ≤
    (c.buffer.ring.size - c.offset) + Source.remaining c.buffer.source
  rw [hshows.source]
  have hsame : Source.remaining o.source = o.source.remaining := rfl
  omega

theorem spent (h : c.Faces g v) : Spent g.dialect v.place v.ahead := by
  obtain ⟨o, -, -, -, -, -, -, hspent⟩ := h
  exact hspent v.ahead List.mem_cons_self

theorem text_ne (h : c.Faces g v) : ∀ a ∈ v.place.text, a ≠ endOfInput := by
  obtain ⟨o, -, -, -, -, hreads, -⟩ := h
  exact hreads.text_ne

theorem table_eq (h : c.Faces g v) : c.source.table = g.table := by
  obtain ⟨o, hshows, -, -, -, hreads, -⟩ := h
  show c.buffer.source.table = g.table
  rw [hshows.source]
  exact hreads.table

/-- The operators may change at any time. What is in view stays as it is. -/
theorem mapSource (h : c.Faces g v) (op : Operator) :
    (c.mapSource fun l => (l.register op).2).Faces { g with table := g.table.insert op } v := by
  obtain ⟨o, hshows, hahead, hmarked, hended, hreads, hbound, hspent⟩ := h
  refine ⟨{ o with source := (o.source.register op).2 }, ?_, hahead, hmarked, hended, ?_, hbound, hspent⟩
  · exact ⟨congrArg (fun l => (Lexer.register l op).2) hshows.source, hshows.ahead, hshows.marked,
      hshows.ended, hshows.offset_le, hshows.marks_le, hshows.passed,
      ⟨hshows.grown.limit, hshows.grown.capacity⟩⟩
  · refine ⟨hreads.dialect, ?_, hreads.position, hreads.positions, hreads.walk⟩
    show o.source.table.insert op = g.table.insert op
    rw [hreads.table]

/-! ### Tokens in view -/

theorem lookahead_held (h : c.Faces g v) {k : Nat} {t : Token}
    (hk : v.ahead[k]? = some t) :
    ∃ c', lookahead k c = .ok t c' ∧ c'.Faces g v := by
  obtain ⟨o, hshows, hahead, hrest⟩ := h
  obtain ⟨c', hlook, hshows'⟩ := Cursor.lookahead_held hshows (by rw [hahead]; exact hk)
  exact ⟨c', hlook, o, hshows', hahead, hrest⟩

/-! ### Tokens that are still to be scanned -/

/-- Reading one token fully is scanning it. -/
theorem readFully_one (l : Lexer σ) : Source.readFully 1 l =
    match Lexer.next l with
    | .ok token l' => .ok [token] l'
    | .error e l' => .error e l' := by
  have hread : (Source.read 1 : Run (Lexer σ) (List Token)) l = Lexer.nexts 1 l := rfl
  unfold Source.readFully Source.readPortions Source.readPortions
  rw [if_neg Nat.one_ne_zero, Run.bind_apply, hread]
  unfold Lexer.nexts Lexer.nexts
  rw [Run.bind_apply]
  cases Lexer.next l with
  | error e l' => rfl
  | ok token l' => rfl

/-- What is not in view yet is the next token of the place. -/
theorem lookahead_next (h : c.Faces g v) {k : Nat} (hk : v.ahead.length = k) (hk1 : k ≤ 1) :
    Run.Ends
      (fun token c' => ∃ q, v.place.next g.dialect g.table = .ok (token, q) ∧
        c'.Faces g (v.scan token q))
      (fun e _ => Refuses g v.place e) (lookahead k c) := by
  obtain ⟨o, hshows, hahead, hmarked, hended, hreads, hbound, hspent⟩ := h
  have hone : k + 1 - o.ahead.length = 1 := by
    rw [hahead]
    omega
  have hportion : o.portion 1 = Source.readFully 1 o.source := by simp [Outlook.portion, hended]
  have hnext := next_reads hreads
  rw [readFully_one] at hportion
  -- One token is missing, and the lexer hands out no more than that one.
  have hmodest : o.Modest (k + 1 - o.ahead.length) := by
    rw [hone]
    intro elements source hread
    rw [hportion] at hread
    cases hl : Lexer.next o.source with
    | error e l' =>
      rw [hl] at hread
      cases hread
    | ok token l' =>
      rw [hl] at hread
      cases hread
      exact Nat.le_refl 1
  have hlook := lookahead_agrees hshows k hmodest
  unfold Outlook.look at hlook
  rw [List.getElem?_eq_none (by rw [hahead]; omega), hone, hportion] at hlook
  generalize lookahead k c = r at hlook
  cases hl : Lexer.next o.source with
  | error e l' =>
    rw [hl] at hlook hnext
    cases hlook with
    | failure h' => exact hnext
    | exceeded h' hneeded =>
      refine .inl ⟨⟨_, _, rfl⟩, fun hplain => hneeded.mono ?_⟩
      have := hbound hplain v.ahead List.mem_cons_self
      omega
  | ok token l' =>
    rw [hl] at hlook hnext
    obtain ⟨q, hq, hreads'⟩ := hnext
    dsimp only at hlook
    cases hlook with
    | exceeded h' hneeded =>
      refine .inl ⟨⟨_, _, rfl⟩, fun hplain => hneeded.mono ?_⟩
      have := hbound hplain v.ahead List.mem_cons_self
      omega
    | answer h' =>
      have hpadded : Source.padded 1 (Source.endMarker l') [token] = [token] := rfl
      have hanswer : (o.extend 1 [token] l').ahead.getD k (Source.endMarker l') = token := by
        show (o.ahead ++ Source.padded 1 (Source.endMarker l') [token]).getD k _ = token
        rw [hpadded, hahead, List.getD_eq_getElem?_getD, List.getElem?_append_right (by omega), hk,
          Nat.sub_self]
        rfl
      have hviews : (v.scan token q).ahead :: (v.scan token q).marked =
          (v.ahead :: v.marked).map (· ++ [token]) := rfl
      rw [hanswer]
      refine ⟨q, hq, _, h', ?_, ?_, ?_, hreads', ?_, ?_⟩
      · show o.ahead ++ _ = v.ahead ++ [token]
        rw [hpadded, hahead]
      · show o.marked.map _ = v.marked.map _
        rw [hpadded, hmarked]
      · show (o.ended || _) = false
        rw [hended]
        rfl
      · intro hplain m hm
        have hscan := Prospect.covering_scan hq
        obtain ⟨m', hm', rfl⟩ := List.mem_map.1 (hviews ▸ hm)
        have := hbound hplain m' hm'
        show o.passed + (v.ahead ++ [token]).length + covering (m' ++ [token]) + q.text.length ≤
          g.total + (m' ++ [token]).length
        rw [covering_append, List.length_append, List.length_append, List.length_singleton]
        omega
      · intro m hm
        obtain ⟨m', hm', rfl⟩ := List.mem_map.1 (hviews ▸ hm)
        exact (hspent m' hm').scan hq hreads.text_ne

/-- What comes of looking at a token comes of consuming it. -/
theorem consume_of_lookahead {token : Token} {rest : List Token} {c' : Cursor (Lexer σ) Token}
    (hlook : lookahead 0 c = .ok token c') (h : c'.Faces g v) (hahead : v.ahead = token :: rest)
    (hcovers : g.dialect.Plain → token.span.isEmpty = false) :
    ∃ c'', consume c = .ok token c'' ∧ c''.Faces g { v with ahead := rest } := by
  obtain ⟨o, hshows, ho, hmarked, hended, hreads, hbound, hspent⟩ := h
  obtain ⟨c'', hconsume, hshows'⟩ := consume_of_ok hlook hshows (ho.trans hahead)
  refine ⟨c'', hconsume, o.pass, hshows', ?_, hmarked, hended, hreads, ?_, ?_⟩
  · show o.ahead.tail = rest
    rw [ho, hahead]
    rfl
  · intro hplain m hm
    have hcover := covering_of_covers (hcovers hplain)
    show o.passed + 1 + rest.length + covering m + v.place.text.length ≤ g.total + m.length
    rcases List.mem_cons.1 hm with rfl | hm
    · have := hbound hplain v.ahead List.mem_cons_self
      rw [hahead, covering_cons, List.length_cons] at this
      omega
    · have := hbound hplain m (List.mem_cons_of_mem _ hm)
      rw [hahead, List.length_cons] at this
      omega
  · intro m hm
    rcases List.mem_cons.1 hm with rfl | hm
    · exact (hahead ▸ hspent v.ahead List.mem_cons_self).tail
    · exact hspent m (List.mem_cons_of_mem _ hm)

theorem consume_held (h : c.Faces g v) {token : Token} {rest : List Token}
    (hahead : v.ahead = token :: rest)
    (hcovers : g.dialect.Plain → token.span.isEmpty = false) :
    ∃ c', consume c = .ok token c' ∧ c'.Faces g { v with ahead := rest } := by
  obtain ⟨c₁, hlook, h₁⟩ := h.lookahead_held
      (show v.ahead[0]? = some token by rw [hahead]; rfl)
  exact consume_of_lookahead hlook h₁ hahead hcovers

/-! ### Marks -/

theorem mark_ok (h : c.Faces g v) :
    ∃ c', mark c = .ok () c' ∧ c'.Faces g { v with marked := v.ahead :: v.marked } := by
  obtain ⟨o, hshows, hahead, hmarked, hended, hreads, hbound, hspent⟩ := h
  obtain ⟨c', hmark, hshows'⟩ := Cursor.mark_ok hshows
  have hviews : ∀ m ∈ v.ahead :: v.ahead :: v.marked, m ∈ v.ahead :: v.marked := by
    intro m hm
    rcases List.mem_cons.1 hm with rfl | hm
    · exact List.mem_cons_self
    · exact hm
  refine ⟨c', hmark, o.mark, hshows', hahead, ?_, hended, hreads,
    fun hplain m hm => hbound hplain m (hviews m hm), fun m hm => hspent m (hviews m hm)⟩
  show o.ahead :: o.marked = _
  rw [hahead, hmarked]

theorem commit_ok (h : c.Faces g v) {m : List Token} {outer : List (List Token)}
    (hm : v.marked = m :: outer) :
    ∃ c', commit c = .ok () c' ∧ c'.Faces g { v with marked := outer } := by
  obtain ⟨o, hshows, hahead, hmarked, hended, hreads, hbound, hspent⟩ := h
  obtain ⟨c', hcommit, hshows'⟩ := Cursor.commit_ok hshows (by rw [hmarked, hm]; simp)
  have hviews : ∀ k ∈ v.ahead :: outer, k ∈ v.ahead :: v.marked := by
    intro k hk
    rw [hm]
    rcases List.mem_cons.1 hk with rfl | hk
    · exact List.mem_cons_self
    · exact List.mem_cons_of_mem _ (List.mem_cons_of_mem _ hk)
  refine ⟨c', hcommit, o.commit, hshows', hahead, ?_, hended, hreads,
    fun hplain k hk => hbound hplain k (hviews k hk), fun k hk => hspent k (hviews k hk)⟩
  show o.marked.tail = outer
  rw [hmarked, hm]
  rfl

theorem rollback_ok (h : c.Faces g v) {m : List Token} {outer : List (List Token)}
    (hm : v.marked = m :: outer) :
    ∃ c', rollback c = .ok () c' ∧ c'.Faces g { v with ahead := m, marked := outer } := by
  obtain ⟨o, hshows, hahead, hmarked, hended, hreads, hbound, hspent⟩ := h
  obtain ⟨c', hrollback, hshows'⟩ := Cursor.rollback_ok hshows (hmarked.trans hm)
  have hviews : ∀ k ∈ m :: outer, k ∈ v.ahead :: v.marked := by
    intro k hk
    rw [hm]
    exact List.mem_cons_of_mem _ hk
  refine ⟨c', hrollback, o.rollback m, hshows', rfl, ?_, hended, hreads, ?_,
    fun k hk => hspent k (hviews k hk)⟩
  · show o.marked.tail = outer
    rw [hmarked, hm]
    rfl
  · intro hplain k hk
    have hk := hbound hplain k (hviews k hk)
    have hle := hshows.marked_le m (by rw [hmarked, hm]; exact List.mem_cons_self)
    rw [hahead] at hle
    show o.passed + o.ahead.length - m.length + m.length + covering k + v.place.text.length ≤
      g.total + k.length
    rw [hahead]
    omega

end Faces

end Reading.Cursor

/-! ### Standing at a place -/

/-- From the first place on, the lexer scans these tokens, up to the second place. -/
inductive Scans (g : Setting) : Place → List Token → Place → Prop
  | nil (p : Place) : Scans g p [] p
  | cons {p q r : Place} {token : Token} {tokens : List Token}
    (first : p.next g.dialect g.table = .ok (token, q)) (rest : Scans g q tokens r) :
    Scans g p (token :: tokens) r

theorem Scans.append_one {g : Setting} {p q r : Place} {tokens : List Token} {token : Token}
    (h : Scans g p tokens q) (hnext : q.next g.dialect g.table = .ok (token, r)) :
    Scans g p (tokens ++ [token]) r := by
  induction h with
  | nil p => exact .cons hnext (.nil r)
  | cons first _ ih => exact .cons first (ih hnext)

theorem Scans.uncons {g : Setting} {p r : Place} {token : Token} {tokens : List Token}
    (h : Scans g p (token :: tokens) r) :
    ∃ q, p.next g.dialect g.table = .ok (token, q) ∧ Scans g q tokens r := by
  cases h with
  | cons first rest => exact ⟨_, first, rest⟩

/-- The next `n` tokens, and the place behind them. -/
def Lexer.Place.nexts (d : Dialect) (t : Operator.Table) : Nat → Place → Option (List Token × Place)
  | 0, p => some ([], p)
  | n + 1, p =>
    match p.next d t with
    | .ok (token, q) => (nexts d t n q).map (Prod.map (token :: ·) id)
    | .error _ => none

theorem scans_of_nexts {g : Setting} {n : Nat} {p q : Place} {tokens : List Token}
    (h : Place.nexts g.dialect g.table n p = some (tokens, q)) : Scans g p tokens q := by
  induction n generalizing p tokens with
  | zero =>
    cases h
    exact .nil _
  | succ n ih =>
    unfold Place.nexts at h
    cases hfirst : p.next g.dialect g.table with
    | error e => simp [hfirst] at h
    | ok reply =>
      rw [hfirst] at h
      obtain ⟨⟨others, r⟩, hrest, hreply⟩ := Option.map_eq_some_iff.1 h
      cases hreply
      exact .cons hfirst (ih hrest)

/-- Where a session stands. -/
structure Footing where
  place : Place
  /-- The places that it can go back to, innermost first. -/
  saved : List Place := []
  /-- No more tokens that cover something are to come. -/
  pending : Nat
  /-- So many tokens are in view. -/
  viewed : Nat := 0

namespace Reading.Cursor

variable {σ : Type} [Supply σ Char] {g : Setting} {c : Cursor (Lexer σ) Token} {f : Footing}

/-- The cursor stands at a place: all that it has before it is what the lexer scans from
there. -/
def Stands (g : Setting) (c : Cursor (Lexer σ) Token) (f : Footing) : Prop :=
  ∃ v : Prospect, c.Faces g v ∧ Scans g f.place v.ahead v.place ∧
    List.Forall₂ (fun q m => Scans g q m v.place) f.saved v.marked ∧ v.pending ≤ f.pending ∧
    f.viewed ≤ v.ahead.length

/-- A cursor at the start of a text. -/
theorem stands_ofSource {source : σ} {text : List Char} {d : Dialect} {t : Operator.Table}
    (hsource : Supply.Delivers source text) (hmarker : Source.endMarker source = endOfInput)
    (hne : ∀ c ∈ text, c ≠ endOfInput) :
    (ofSource (Lexer.ofSource source d t) d.limits : Cursor (Lexer σ) Token).Stands
      ⟨text.length, d, t⟩ { place := ⟨text, {}⟩, pending := text.length } :=
  ⟨_, faces_ofSource hsource hmarker hne, .nil _, .nil, by simp [Prospect.pending], Nat.le_refl 0⟩

theorem ne_endOfInput_of_text {text : String} :
    ∀ c ∈ text.toList.map admitted, c ≠ endOfInput := by
  intro c hc
  obtain ⟨a, -, rfl⟩ := List.mem_map.1 hc
  exact admitted_ne_endOfInput a

/-- A cursor at the start of a string. -/
theorem stands_ofText (text : String) (d : Dialect) (t : Operator.Table) :
    (ofSource (Lexer.ofSource (Items.ofText text) d t) d.limits :
      Cursor (Lexer (Items Char)) Token).Stands
      ⟨(text.toList.map admitted).length, d, t⟩
      { place := ⟨text.toList.map admitted, {}⟩, pending := (text.toList.map admitted).length } :=
  stands_ofSource rfl rfl ne_endOfInput_of_text

namespace Stands

theorem table_eq (h : c.Stands g f) : c.source.table = g.table := by
  obtain ⟨v, hfaces, -⟩ := h
  exact hfaces.table_eq

/-- Nobody has to know how many tokens are in view, or all that may be to come. -/
theorem weaken (h : c.Stands g f) {pending viewed : Nat} (hpending : f.pending ≤ pending)
    (hviewed : viewed ≤ f.viewed) : c.Stands g { f with pending, viewed } := by
  obtain ⟨v, hfaces, hscans, hsaved, hp, hv⟩ := h
  exact ⟨v, hfaces, hscans, hsaved, Nat.le_trans hp hpending, Nat.le_trans hviewed hv⟩

/-- The cursor itself knows a bound on what is to come. -/
theorem tight (h : c.Stands g f) :
    ∃ n, n ≤ f.pending ∧ n ≤ c.remaining ∧ c.Stands g { f with pending := n } := by
  obtain ⟨v, hfaces, hscans, hsaved, hp, hv⟩ := h
  exact ⟨v.pending, hp, hfaces.pending_le, v, hfaces, hscans, hsaved, Nat.le_refl _, hv⟩

/-- What is not in view has to be scanned, and the saved places see it too. -/
theorem scan {v : Prospect} (hscans : Scans g f.place v.ahead v.place)
    (hsaved : List.Forall₂ (fun q m => Scans g q m v.place) f.saved v.marked)
    (hp : v.pending ≤ f.pending) {token : Token} {q : Place}
    (hq : v.place.next g.dialect g.table = .ok (token, q)) {c' : Cursor (Lexer σ) Token}
    (hfaces : c'.Faces g (v.scan token q)) :
    c'.Stands g { f with viewed := v.ahead.length + 1 } := by
  have hcovering := Prospect.covering_scan hq
  refine ⟨v.scan token q, hfaces, hscans.append_one hq, ?_, ?_, ?_⟩
  · show List.Forall₂ _ f.saved (v.marked.map (· ++ [token]))
    rw [List.forall₂_map_right_iff]
    exact hsaved.imp fun _ _ h => h.append_one hq
  · show covering (v.ahead ++ [token]) + q.text.length ≤ f.pending
    rw [covering_append]
    unfold Prospect.pending at hp
    omega
  · have hlength : (v.ahead ++ [token]).length = v.ahead.length + 1 := List.length_append
    exact Nat.le_of_eq hlength.symm

/-- Looking at the next token. -/
theorem peek (h : c.Stands g f) :
    Run.Ends
      (fun token c' => ∃ q, f.place.next g.dialect g.table = .ok (token, q) ∧
        c'.Stands g { f with viewed := max 1 f.viewed })
      (fun e _ => Refuses g f.place e) (lookahead 0 c) := by
  obtain ⟨v, hfaces, hscans, hsaved, hp, hv⟩ := h
  have hscans' := hscans
  generalize hahead : v.ahead = ahead at hscans'
  generalize hend : v.place = last at hscans'
  cases hscans' with
  | cons first _ =>
    rename_i token rest _
    obtain ⟨c', hlook, hfaces'⟩ := hfaces.lookahead_held
      (show v.ahead[0]? = some token by rw [hahead]; rfl)
    rw [hlook]
    refine ⟨_, first, v, hfaces', hscans, hsaved, hp, ?_⟩
    rw [hahead, List.length_cons] at hv ⊢
    show max 1 f.viewed ≤ _
    omega
  | nil =>
    refine (hfaces.lookahead_next (by rw [hahead]; rfl) (Nat.zero_le 1)).mono ?_ ?_
    · rintro token c' ⟨q, hq, hfaces'⟩
      refine ⟨q, hend ▸ hq, (scan hscans hsaved hp hq hfaces').weaken (Nat.le_refl _) ?_⟩
      rw [hahead] at hv ⊢
      simp at hv ⊢
      omega
    · intro e _ he
      rw [← hend]
      exact he

/-- A token in view is looked at as it is. -/
theorem peek_viewed (h : c.Stands g f) (hviewed : 1 ≤ f.viewed) :
    ∃ token q c', f.place.next g.dialect g.table = .ok (token, q) ∧
      lookahead 0 c = .ok token c' ∧ c'.Stands g f ∧ covering [token] ≤ f.pending := by
  obtain ⟨v, hfaces, hscans, hsaved, hp, hv⟩ := h
  cases hahead : v.ahead with
  | nil =>
    rw [hahead] at hv
    exact absurd (Nat.le_trans hviewed hv) (Nat.not_succ_le_zero 0)
  | cons token rest =>
    have hfirst := hscans
    rw [hahead] at hfirst
    obtain ⟨q, hq, -⟩ := hfirst.uncons
    obtain ⟨c', hlook, hfaces'⟩ := hfaces.lookahead_held
      (show v.ahead[0]? = some token by rw [hahead]; rfl)
    refine ⟨token, q, c', hq, hlook, ⟨v, hfaces', hscans, hsaved, hp, hv⟩, ?_⟩
    have hp : covering v.ahead + v.place.text.length ≤ f.pending := hp
    rw [hahead, covering_cons] at hp
    omega

/-- Looking at the token behind the next one, which is in view. -/
theorem second (h : c.Stands g f) (hviewed : 1 ≤ f.viewed) {token : Token} {q : Place}
    (hq : f.place.next g.dialect g.table = .ok (token, q)) :
    Run.Ends
      (fun token c' => ∃ r, q.next g.dialect g.table = .ok (token, r) ∧
        c'.Stands g { f with viewed := max 2 f.viewed })
      (fun e _ => Refuses g q e) (lookahead 1 c) := by
  obtain ⟨v, hfaces, hscans, hsaved, hp, hv⟩ := h
  have hscans' := hscans
  generalize hahead : v.ahead = ahead at hscans'
  generalize hend : v.place = last at hscans'
  cases hscans' with
  | nil =>
    rw [hahead] at hv
    simp at hv
    omega
  | cons first rest =>
    rw [hq] at first
    cases first
    cases rest with
    | cons second _ =>
      rename_i token' rest _
      obtain ⟨c', hlook, hfaces'⟩ := hfaces.lookahead_held
        (show v.ahead[1]? = some token' by rw [hahead]; rfl)
      rw [hlook]
      refine ⟨_, second, v, hfaces', hscans, hsaved, hp, ?_⟩
      rw [hahead, List.length_cons, List.length_cons] at hv ⊢
      show max 2 f.viewed ≤ _
      omega
    | nil =>
      refine (hfaces.lookahead_next (by rw [hahead]; rfl) (Nat.le_refl 1)).mono ?_ ?_
      · rintro token' c' ⟨r, hr, hfaces'⟩
        refine ⟨r, hend ▸ hr, (scan hscans hsaved hp hr hfaces').weaken (Nat.le_refl _) ?_⟩
        rw [hahead] at hv ⊢
        simp at hv ⊢
        omega
      · intro e _ he
        rw [← hend]
        exact he

/-- Consuming the next token, which is known. -/
theorem take (h : c.Stands g f) {token : Token} {q : Place}
    (hq : f.place.next g.dialect g.table = .ok (token, q)) (hkind : token.kind ≠ .endOfFile) :
    Run.Ends
      (fun t c' => t = token ∧ c'.Stands g { f with
        place := q
        pending := f.pending - covering [token]
        viewed := f.viewed - 1 })
      (fun e _ => Lexer.Excused g e) (consume c) := by
  have hpeek := h.peek
  cases hlook : lookahead 0 c with
  | error e c' =>
    rw [consume_of_error hlook]
    exact (hpeek.of_error hlook).excused hq
  | ok t c' =>
    obtain ⟨q', hq', v, hfaces, hscans, hsaved, hp, hv⟩ := hpeek.of_ok hlook
    rw [hq] at hq'
    cases hq'
    have hone : 1 ≤ v.ahead.length := Nat.le_trans (Nat.le_max_left 1 f.viewed) hv
    cases hahead : v.ahead with
    | nil =>
      rw [hahead] at hone
      exact absurd hone (Nat.not_succ_le_zero 0)
    | cons t' rest =>
      rw [hahead] at hscans hv
      obtain ⟨q', hq', hrest⟩ := hscans.uncons
      rw [hq] at hq'
      cases hq'
      obtain ⟨c'', hconsume, hfaces'⟩ := hfaces.consume_of_lookahead hlook hahead
        fun hplain => Place.covers_of_plain hq hplain hkind
      rw [hconsume]
      refine ⟨rfl, _, hfaces', hrest, hsaved, ?_, ?_⟩
      · have hp : covering v.ahead + v.place.text.length ≤ f.pending := hp
        rw [hahead, covering_cons] at hp
        show covering rest + v.place.text.length ≤ f.pending - covering [token]
        omega
      · show f.viewed - 1 ≤ rest.length
        rw [List.length_cons] at hv
        have := Nat.le_trans (Nat.le_max_right 1 f.viewed) hv
        omega

/-! ### Going back -/

end Stands

end Reading.Cursor

end Dataflow
