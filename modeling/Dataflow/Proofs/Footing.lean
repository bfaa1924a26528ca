import Dataflow.Lexer.Scan
import Dataflow.Proofs.Ebbing
import Dataflow.Proofs.Lexeme
import Dataflow.Proofs.Outlook
import Dataflow.Proofs.Scanning
import Dataflow.Proofs.Tiling
import Mathlib.Data.List.Forall2

/-!
# Dataflow.Proofs.Footing

**A lexer never loses its footing.** Wherever a lexer is, also behind an error that has left marks
behind, it knows how to go on: its buffer holds all that its marks may go back to, and at most so many
characters are still to come from here and from every mark (`Footing`). Every rule keeps that, and fails
with nothing but an error (`Upset`).

* `Outlook.Bounded` — how much is to come, of what a cursor has in view and of its source;
* `Lexer.Within` — the same of a lexer, with the positions that go with its marks, and with what has
  been looked at already;
* `Lexer.Goes` — a computation that keeps a lexer within its bounds and never takes it back; where it
  goes on, less is to come and the position is a later one. It goes through sequences
  (`Goes.bind`), and a loop that goes on in every round comes to an end (`Goes.iterate`);
* `next_leads` — a token for something else than the end takes the lexer on, if the end has no role in
  the dialect.
-/

namespace Dataflow

open Reading Text

/-! ### What is to come -/

/-- How many of the characters are not the end. -/
def proper (cs : List Char) : Nat := cs.countP (· ≠ endOfInput)

section Proper

@[simp] theorem proper_append (first second : List Char) :
    proper (first ++ second) = proper first + proper second := List.countP_append

theorem proper_le_length (cs : List Char) : proper cs ≤ cs.length := List.countP_le_length

theorem proper_of_forall {cs : List Char} (h : ∀ c ∈ cs, c ≠ endOfInput) : proper cs = cs.length :=
  List.countP_eq_length.2 fun c hc => decide_eq_true (h c hc)

theorem proper_padded (n : Nat) (cs : List Char) :
    proper (Source.padded n endOfInput cs) = proper cs := by
  simp [proper, Source.padded, List.countP_replicate]

theorem proper_prefix {first second : List Char} (h : first <+: second) :
    proper first ≤ proper second :=
  h.sublist.countP_le

end Proper

namespace Reading.Outlook

variable {σ : Type} [Source σ Char] {I : Nat → σ → Prop} {o o' : Outlook σ Char} {left : Nat}
  {behind : List Nat}

omit [Source σ Char] in
/-- At most so many characters are to come from the cursor on, and from each mark on. -/
structure Bounded (I : Nat → σ → Prop) (left : Nat) (behind : List Nat) (o : Outlook σ Char) : Prop where
  source : ∃ k, I k o.source ∧ proper o.ahead + k ≤ left ∧
    List.Forall₂ (fun held n => proper held + k ≤ n) o.marked behind

theorem Bounded.modest (hI : Ebbs I) (h : o.Bounded I left behind) (n : Nat) : o.Modest n := by
  obtain ⟨k, hk, -⟩ := h.source
  intro cs source hread
  unfold portion at hread
  split at hread
  · cases hread
    exact Nat.zero_le n
  · exact ((hI.read hk n).of_ok hread).1

/-- Reading further keeps the bounds. -/
theorem Bounded.extend {n : Nat} {cs : List Char} {source : σ} (hI : Ebbs I)
    (h : o.Bounded I left behind) (hread : o.portion n = .ok cs source) :
    (o.extend n cs source).Bounded I left behind := by
  obtain ⟨k, hk, hahead, hmarked⟩ := h.source
  obtain ⟨k', hcs, hk'⟩ : ∃ k', proper cs + k' ≤ k ∧ I k' source := by
    unfold portion at hread
    split at hread
    · cases hread
      exact ⟨k, Nat.le_of_eq (Nat.zero_add k), hk⟩
    · obtain ⟨-, k', hcount, hk'⟩ := (hI.read hk n).of_ok hread
      exact ⟨k', Nat.le_trans (Nat.add_le_add_right (proper_le_length cs) k') hcount, hk'⟩
  refine ⟨k', hk', ?_, ?_⟩
  · rw [Outlook.extend, hI.endMarker hk', proper_append, proper_padded]
    omega
  · rw [Outlook.extend, hI.endMarker hk', List.forall₂_map_left_iff]
    refine hmarked.imp fun held n hheld => ?_
    rw [proper_append, proper_padded]
    omega

/-- Looking ahead keeps the bounds, and what is in view. -/
theorem Bounded.look (hI : Ebbs I) (h : o.Bounded I left behind) (k : Nat) :
    Run.Ends
      (fun c o' => o'.Bounded I left behind ∧ o.ahead <+: o'.ahead ∧ o'.ahead[k]? = some c)
      (fun e o' => (∃ error, e = .error error) ∧ o'.Bounded I left behind) (o.look k) := by
  unfold Outlook.look
  cases hk : o.ahead[k]? with
  | some c => exact ⟨h, List.prefix_rfl, hk⟩
  | none =>
    have hlength : o.ahead.length ≤ k := List.getElem?_eq_none_iff.1 hk
    dsimp only
    cases hread : o.portion (k + 1 - o.ahead.length) with
    | error e source =>
      obtain ⟨n, hn, hahead, hmarked⟩ := h.source
      unfold portion at hread
      split at hread
      · cases hread
      · obtain ⟨herror, hn'⟩ := (hI.read hn _).of_error hread
        exact ⟨herror, n, hn', hahead, hmarked⟩
    | ok cs source =>
      have hshort := h.modest hI _ hread
      refine ⟨h.extend hI hread, List.prefix_append _ _, ?_⟩
      have hsize : (o.extend (k + 1 - o.ahead.length) cs source).ahead.length = k + 1 := by
        rw [Outlook.extend, List.length_append, Source.length_padded hshort]
        omega
      rw [List.getD_eq_getElem?_getD, List.getElem?_eq_getElem (by omega)]
      rfl

omit [Source σ Char] in
/-- Behind a character that is not the end, one less is to come. -/
theorem Bounded.pass (h : o.Bounded I left behind) {c : Char} {rest : List Char}
    (hahead : o.ahead = c :: rest) :
    ∃ left' ≤ left, (c ≠ endOfInput → left' < left) ∧ o.pass.Bounded I left' behind := by
  obtain ⟨k, hk, hleft, hmarked⟩ := h.source
  have hpass : o.pass.ahead = rest := congrArg List.tail hahead
  have hcount : proper o.ahead = proper [c] + proper rest := by
    rw [hahead, ← proper_append]
    rfl
  refine ⟨proper rest + k, by omega, fun hc => ?_, k, hk, Nat.le_of_eq (by rw [hpass]), hmarked⟩
  have hone : proper [c] = 1 := proper_of_forall (by simpa using hc)
  omega

omit [Source σ Char] in
theorem Bounded.mark (h : o.Bounded I left behind) : o.mark.Bounded I left (left :: behind) := by
  obtain ⟨k, hk, hleft, hmarked⟩ := h.source
  exact ⟨k, hk, hleft, .cons hleft hmarked⟩

omit [Source σ Char] in
theorem Bounded.commit {n : Nat} (h : o.Bounded I left (n :: behind)) :
    o.marked ≠ [] ∧ o.commit.Bounded I left behind := by
  obtain ⟨k, hk, hleft, hmarked⟩ := h.source
  generalize hm : o.marked = marked at hmarked
  cases hmarked with
  | @cons held _ outer _ hheld houter =>
    refine ⟨List.cons_ne_nil _ _, k, hk, hleft, ?_⟩
    rw [Outlook.commit, hm]
    exact houter

omit [Source σ Char] in
theorem Bounded.rollback {n : Nat} (h : o.Bounded I left (n :: behind)) :
    ∃ held outer, o.marked = held :: outer ∧ (o.rollback held).Bounded I n behind := by
  obtain ⟨k, hk, hleft, hmarked⟩ := h.source
  generalize hm : o.marked = marked at hmarked
  cases hmarked with
  | @cons held _ outer _ hheld houter =>
    refine ⟨held, outer, rfl, k, hk, hheld, ?_⟩
    rw [Outlook.rollback, hm]
    exact houter

omit [Source σ Char] in
theorem Bounded.loosen {left' : Nat} (h : o.Bounded I left behind) (hle : left ≤ left') :
    o.Bounded I left' behind := by
  obtain ⟨k, hk, hleft, hmarked⟩ := h.source
  exact ⟨k, hk, Nat.le_trans hleft hle, hmarked⟩

/-- No more is to come than the window holds and the source says. -/
theorem Bounded.tighten (hI : Ebbs I) (h : o.Bounded I left behind) :
    ∃ left' ≤ left, left' ≤ o.ahead.length + Source.remaining o.source ∧
      o.Bounded I left' behind := by
  obtain ⟨k, hk, hleft, hmarked⟩ := h.source
  obtain ⟨k', hle, hremaining, hk'⟩ := hI.known hk
  have hlength := proper_le_length o.ahead
  refine ⟨proper o.ahead + k', by omega, by omega, k', hk', Nat.le_refl _, ?_⟩
  exact hmarked.imp fun held n hheld => by omega

end Reading.Outlook

/-! ### Lexers -/

namespace Lexer

/-- Where a lexer is: at most so many characters are to come, and the next one has this position. -/
structure Footing where
  left : Nat
  place : Position

namespace Footing

/-- Less is to come from the second footing, and its position is a later one. -/
def Before (p q : Footing) : Prop := q.left < p.left ∧ p.place < q.place

/-- The second footing is not behind the first. -/
def Upto (p q : Footing) : Prop := q.left ≤ p.left ∧ (q.place = p.place ∨ p.place < q.place)

variable {p q r : Footing}

theorem Upto.refl (p : Footing) : p.Upto p := ⟨Nat.le_refl _, .inl rfl⟩

theorem Before.upto (h : p.Before q) : p.Upto q := ⟨Nat.le_of_lt h.1, .inr h.2⟩

theorem Upto.trans (h : p.Upto q) (h' : q.Upto r) : p.Upto r := by
  refine ⟨Nat.le_trans h'.1 h.1, ?_⟩
  rcases h.2 with heq | hlt
  · rw [← heq]
    exact h'.2
  · rcases h'.2 with heq' | hlt'
    · exact .inr (heq' ▸ hlt)
    · exact .inr (Position.lt_trans hlt hlt')

theorem Before.trans_upto (h : p.Before q) (h' : q.Upto r) : p.Before r := by
  refine ⟨Nat.lt_of_le_of_lt h'.1 h.1, ?_⟩
  rcases h'.2 with heq | hlt
  · exact heq ▸ h.2
  · exact Position.lt_trans h.2 hlt

theorem Upto.trans_before (h : p.Upto q) (h' : q.Before r) : p.Before r := by
  refine ⟨Nat.lt_of_lt_of_le h'.1 h.1, ?_⟩
  rcases h.2 with heq | hlt
  · exact heq ▸ h'.2
  · exact Position.lt_trans hlt h'.2

end Footing

variable {σ α β : Type} [Source σ Char]

section

variable (I : Nat → σ → Prop) (d : Dialect)

omit [Source σ Char] in
/-- The lexer has this footing, and its marks have these, innermost first. The characters at the cursor
are known already. -/
structure Within (p : Footing) (ps : List Footing) (known : List Char) (l : Lexer σ) : Prop where
  dialect : l.dialect = d
  place : l.position = p.place
  saved : l.saved = ps.map Footing.place
  view : ∃ limits o, l.input.Shows limits o ∧ o.Bounded I p.left (ps.map Footing.left) ∧
    known <+: o.ahead

omit [Source σ Char] in
/-- The failure is an error, and the lexer has a footing still. -/
def Upset (e : Failure) (l : Lexer σ) : Prop :=
  (∃ error, e = .error error) ∧ ∃ p ps, Within I d p ps [] l

omit [Source σ Char] in
/-- The lexer has not gone back. If `S` holds, it has gone on. -/
def Moved (S : Prop) (p : Footing) (ps : List Footing) (l : Lexer σ) : Prop :=
  ∃ q, p.Upto q ∧ (S → p.Before q) ∧ Within I d q ps [] l

omit [Source σ Char] in
/-- The computation does not take a lexer back, whatever its marks are. If `S` holds of the answer, it
takes it on. -/
def Goes (known : List Char) (x : Run (Lexer σ) β) (S : β → Prop) : Prop :=
  ∀ p ps, Run.Leads (Upset I d) (Within I d p ps known) (fun b => Moved I d (S b) p ps) x

end

variable {I : Nat → σ → Prop} {d : Dialect} {p q : Footing} {ps : List Footing} {known : List Char}
  {l : Lexer σ} {c : Char}

omit [Source σ Char] in
theorem Within.weaken {known' : List Char} (h : Within I d p ps known l) (hknown : known' <+: known) :
    Within I d p ps known' l := by
  obtain ⟨limits, o, hshows, hbounded, hprefix⟩ := h.view
  exact ⟨h.dialect, h.place, h.saved, limits, o, hshows, hbounded, hknown.trans hprefix⟩

omit [Source σ Char] in
theorem Within.forget (h : Within I d p ps known l) : Within I d p ps [] l := h.weaken List.nil_prefix

omit [Source σ Char] in
theorem Within.loosen {n : Nat} (h : Within I d ⟨n, p.place⟩ ps known l) (hn : n ≤ p.left) :
    Within I d p ps known l := by
  obtain ⟨limits, o, hshows, hbounded, hprefix⟩ := h.view
  exact ⟨h.dialect, h.place, h.saved, limits, o, hshows, hbounded.loosen hn, hprefix⟩

theorem Within.tighten (hI : Ebbs I) (h : Within I d p ps known l) :
    ∃ n ≤ p.left, n ≤ l.remaining ∧ Within I d ⟨n, p.place⟩ ps known l := by
  obtain ⟨limits, o, hshows, hbounded, hprefix⟩ := h.view
  obtain ⟨n, hn, hremaining, hbounded'⟩ := hbounded.tighten hI
  refine ⟨n, hn, ?_, h.dialect, h.place, h.saved, limits, o, hshows, hbounded', hprefix⟩
  have hsize := hshows.size_eq
  have hsource := hshows.source
  show n ≤ (l.input.buffer.ring.size - l.input.offset) + Source.remaining l.input.buffer.source
  rw [hsource]
  omega

omit [Source σ Char] in
/-- Known characters that are not the end are still to come. -/
theorem Within.length_le (h : Within I d p ps known l)
    (hknown : ∀ c ∈ known, c ≠ endOfInput) : known.length ≤ p.left := by
  obtain ⟨limits, o, -, hbounded, hprefix⟩ := h.view
  obtain ⟨k, -, hleft, -⟩ := hbounded.source
  have := proper_prefix hprefix
  rw [proper_of_forall hknown] at this
  omega

omit [Source σ Char] in
theorem Within.moved {S : Prop} (hS : ¬ S) (h : Within I d p ps known l) : Moved I d S p ps l :=
  ⟨p, .refl p, fun hs => absurd hs hS, h.forget⟩

omit [Source σ Char] in
theorem Within.upset (h : Within I d p ps known l) (error : Error) : Upset I d (.error error) l :=
  ⟨⟨error, rfl⟩, p, ps, h.forget⟩

omit [Source σ Char] in
theorem Moved.of_upto {S T : Prop} (h : Moved I d S q ps l) (hpq : p.Upto q) (hT : T → S ∨ p.Before q) :
    Moved I d T p ps l := by
  obtain ⟨r, hqr, hstrict, hwithin⟩ := h
  refine ⟨r, hpq.trans hqr, fun ht => ?_, hwithin⟩
  rcases hT ht with hs | hbefore
  · exact hpq.trans_before (hstrict hs)
  · exact hbefore.trans_upto hqr

/-! ### Beginnings -/

theorem within_ofSource {k : Nat} {source : σ} (h : I k source) (d : Dialect) (t : Operator.Table) :
    Within I d ⟨k, {}⟩ [] [] (ofSource source d t) where
  dialect := rfl
  place := rfl
  saved := rfl
  view := ⟨_, _, Cursor.shows_ofSource source d.limits, ⟨k, h, Nat.le_of_eq (Nat.zero_add k), .nil⟩,
    List.nil_prefix⟩

omit [Source σ Char] in
theorem Within.reset (h : Within I d p ps known l) {k : Nat} {source : σ} (hsource : I k source)
    (t : Operator.Table) : Within I d ⟨k, {}⟩ [] [] (l.reset source t) := by
  obtain ⟨limits, o, hshows, -⟩ := h.view
  exact ⟨h.dialect, rfl, rfl, limits, _, hshows.reset source,
    ⟨k, hsource, Nat.le_of_eq (Nat.zero_add k), .nil⟩, List.nil_prefix⟩

omit [Source σ Char] in
theorem Within.register (h : Within I d p ps known l) (op : Operator) :
    Within I d p ps known (l.register op).2 :=
  ⟨h.dialect, h.place, h.saved, h.view⟩

/-! ### Single steps -/

/-- Looking at a character tells what it is. -/
theorem peek_within (hI : Ebbs I) (k : Nat) :
    Run.Leads (Upset I d) (Within I d p ps known)
      (fun c l => Within I d p ps known l ∧ (known.length = k → Within I d p ps (known ++ [c]) l) ∧
        ∀ a, known[k]? = some a → c = a) (peek k : Run (Lexer σ) Char) := by
  intro l h
  obtain ⟨limits, o, hshows, hbounded, hprefix⟩ := h.view
  have hlook := hbounded.look hI k
  have hagrees := Cursor.lookahead_agrees hshows k (hbounded.modest hI _)
  unfold peek
  generalize hs : o.look k = s at hlook hagrees
  generalize hr : Cursor.lookahead k l.input = r at hagrees
  cases hagrees with
  | @answer c input o' hshows' =>
    obtain ⟨hbounded', hahead, hc⟩ := hlook
    rw [onInput_ok hr]
    have hknown := hprefix.trans hahead
    refine ⟨⟨h.dialect, h.place, h.saved, limits, o', hshows', hbounded', hknown⟩, fun hk => ?_,
      fun a ha => ?_⟩
    · refine ⟨h.dialect, h.place, h.saved, limits, o', hshows', hbounded', ?_⟩
      obtain ⟨rest, hrest⟩ := hknown
      rw [← hrest, ← hk, List.getElem?_append_right (Nat.le_refl _), Nat.sub_self] at hc
      cases rest with
      | nil => cases hc
      | cons first rest =>
        obtain rfl : first = c := by simpa using hc
        exact ⟨rest, by rw [← hrest, List.append_assoc]; rfl⟩
    · obtain ⟨rest, hrest⟩ := hknown
      rw [← hrest, List.getElem?_append_left (List.getElem?_eq_some_iff.1 ha).1, ha] at hc
      exact (Option.some.inj hc).symm
  | failure hshows' =>
    obtain ⟨herror, hbounded'⟩ := hlook
    rw [onInput_error hr]
    exact ⟨herror, p, ps, h.dialect, h.place, h.saved, limits, _, hshows', hbounded', List.nil_prefix⟩
  | exceeded hshows' =>
    rw [onInput_error hr]
    exact ⟨⟨_, rfl⟩, p, ps, h.dialect, h.place, h.saved, limits, o, hshows', hbounded, List.nil_prefix⟩

/-- A character that is not the end takes the lexer on. -/
theorem bump_within (hI : Ebbs I) :
    Run.Leads (Upset I d) (Within I d p ps known)
      (fun c l => (∃ q, p.Upto q ∧ (c ≠ endOfInput → p.Before q) ∧ Within I d q ps known.tail l) ∧
        ∀ a ∈ known.head?, c = a) (bump : Run (Lexer σ) Char) := by
  intro l h
  have hpeek := peek_within hI 0 l h
  unfold peek at hpeek
  unfold bump
  rw [Run.bind_apply]
  cases hr : (Cursor.lookahead 0 : Run (Cursor σ Char) Char) l.input with
  | error e input =>
    rw [onInput_error hr] at hpeek
    rw [onInput_error (Cursor.consume_of_error hr)]
    exact hpeek
  | ok c input =>
    rw [onInput_ok hr] at hpeek
    obtain ⟨hwithin, hnext, hhead⟩ := hpeek
    -- What is known, and at least the character at the cursor.
    obtain ⟨rest, hknown, hview⟩ : ∃ rest, known.tail <+: rest ∧
        Within I d p ps (c :: rest) { l with input } := by
      cases known with
      | nil => exact ⟨[], List.nil_prefix, hnext rfl⟩
      | cons a known =>
        obtain rfl := hhead a rfl
        exact ⟨known, List.prefix_rfl, hwithin⟩
    obtain ⟨limits, o, hshows, hbounded, behind, hbehind⟩ := hview.view
    obtain ⟨input', hconsume, hshows'⟩ := Cursor.consume_of_ok hr hshows hbehind.symm
    obtain ⟨left, hleft, hless, hpass⟩ := hbounded.pass hbehind.symm
    have hahead : o.pass.ahead = rest ++ behind := congrArg List.tail hbehind.symm
    have hrest : known.tail <+: o.pass.ahead := by
      rw [hahead]
      exact hknown.trans (List.prefix_append rest behind)
    have hsame : ∀ a ∈ known.head?, c = a := by
      intro a ha
      refine hhead a ?_
      rw [← List.head?_eq_getElem?]
      exact ha
    rw [onInput_ok hconsume]
    dsimp only
    by_cases hc : c = endOfInput
    · rw [if_neg (not_not_intro hc)]
      refine ⟨⟨⟨left, p.place⟩, ⟨hleft, .inl rfl⟩, fun hne => absurd hc hne, ?_⟩, hsame⟩
      exact ⟨h.dialect, h.place, h.saved, limits, _, hshows', hpass, hrest⟩
    · rw [if_pos hc]
      have hbefore : p.Before ⟨left, p.place.advance c⟩ := ⟨hless hc, Position.lt_advance _ _⟩
      refine ⟨⟨⟨left, p.place.advance c⟩, hbefore.upto, fun _ => hbefore, ?_⟩, hsame⟩
      exact ⟨h.dialect, congrArg (Position.advance · c) h.place, h.saved, limits, _, hshows', hpass, hrest⟩

omit [Source σ Char] in
theorem mark_within :
    Run.Leads (Upset I d) (Within I d p ps known) (fun _ => Within I d p (p :: ps) known)
      (mark : Run (Lexer σ) Unit) := by
  intro l h
  obtain ⟨limits, o, hshows, hbounded, hprefix⟩ := h.view
  obtain ⟨input, hmark, hshows'⟩ := Cursor.mark_ok hshows
  unfold mark
  rw [Run.bind_apply, onInput_ok hmark]
  refine ⟨h.dialect, h.place, ?_, limits, _, hshows', hbounded.mark, hprefix⟩
  show l.position :: l.saved = p.place :: ps.map Footing.place
  rw [h.place, h.saved]

omit [Source σ Char] in
theorem commit_within :
    Run.Leads (Upset I d) (Within I d p (q :: ps) known) (fun _ => Within I d p ps known)
      (commit : Run (Lexer σ) Unit) := by
  intro l h
  obtain ⟨limits, o, hshows, hbounded, hprefix⟩ := h.view
  obtain ⟨hmarked, hbounded'⟩ := hbounded.commit
  obtain ⟨input, hcommit, hshows'⟩ := Cursor.commit_ok hshows hmarked
  unfold commit
  rw [Run.bind_apply, onInput_ok hcommit]
  exact ⟨h.dialect, h.place, congrArg List.tail h.saved, limits, _, hshows', hbounded', hprefix⟩

omit [Source σ Char] in
theorem rollback_within :
    Run.Leads (Upset I d) (Within I d p (q :: ps) known) (fun _ => Within I d q ps [])
      (rollback : Run (Lexer σ) Unit) := by
  intro l h
  obtain ⟨limits, o, hshows, hbounded, -⟩ := h.view
  obtain ⟨held, outer, hmarked, hbounded'⟩ := hbounded.rollback
  obtain ⟨input, hrollback, hshows'⟩ := Cursor.rollback_ok hshows hmarked
  unfold rollback
  rw [Run.bind_apply, onInput_ok hrollback]
  refine ⟨h.dialect, ?_, congrArg List.tail h.saved, limits, _, hshows', hbounded', List.nil_prefix⟩
  show l.saved.head?.getD l.position = q.place
  rw [h.saved]
  rfl

/-! ### Computations -/

namespace Goes

variable {S : β → Prop}

omit [Source σ Char] in
theorem pure {b : β} (hb : ¬ S b) : Goes I d known (Pure.pure b : Run (Lexer σ) β) S :=
  fun _ _ _ h => h.moved hb

omit [Source σ Char] in
theorem fail (e : Error) : Goes I d known (Run.fail e : Run (Lexer σ) β) S :=
  fun _ _ _ h => h.upset e

omit [Source σ Char] in
theorem mono {R : β → Prop} {x : Run (Lexer σ) β} (hx : Goes I d known x S) (hR : ∀ b, R b → S b) :
    Goes I d known x R :=
  fun p ps l h => (hx p ps l h).mono (fun b _ hb => hb.of_upto (.refl p) fun hr => .inl (hR b hr))
    fun _ _ he => he

omit [Source σ Char] in
theorem forget {x : Run (Lexer σ) β} (hx : Goes I d [] x S) : Goes I d known x S :=
  fun p ps l h => hx p ps l h.forget

omit [Source σ Char] in
/-- A sequence goes on if one of its parts does. -/
theorem bind {A : α → Prop} {T : α → β → Prop} {x : Run (Lexer σ) α} {f : α → Run (Lexer σ) β}
    (hx : Goes I d known x A) (hf : ∀ a, Goes I d [] (f a) (T a)) (hS : ∀ a b, S b → A a ∨ T a b) :
    Goes I d known (x >>= f) S := by
  intro p ps
  refine (hx p ps).bind fun a => ?_
  intro l ⟨q, hpq, hbefore, hwithin⟩
  refine (hf a q ps l hwithin).mono ?_ fun _ _ he => he
  intro b l' hmoved
  refine hmoved.of_upto hpq fun hb => ?_
  exact (hS a b hb).symm.imp_right hbefore

omit [Source σ Char] in
/-- What stands behind a computation does not take the lexer back. -/
theorem andThen {P : Prop} {x : Run (Lexer σ) α} {f : α → Run (Lexer σ) β}
    (hx : Goes I d known x fun _ => P) (hf : ∀ a, Goes I d [] (f a) fun _ => False) :
    Goes I d known (x >>= f) fun _ => P :=
  hx.bind hf fun _ _ => .inl

omit [Source σ Char] in
theorem seq {A : α → Prop} {x : Run (Lexer σ) α} {f : α → Run (Lexer σ) β} (hx : Goes I d known x A)
    (hf : ∀ a, Goes I d [] (f a) S) : Goes I d known (x >>= f) S :=
  hx.bind hf fun _ _ => .inr

omit [Source σ Char] in
/-- What only comes of a computation goes on if the computation does. -/
theorem bind_pure {A : α → Prop} {x : Run (Lexer σ) α} (hx : Goes I d known x A) (f : α → β)
    (hS : ∀ a, S (f a) → A a) : Goes I d known (x >>= fun a => Pure.pure (f a)) S := by
  intro p ps
  refine (hx p ps).bind fun a => ?_
  intro l hmoved
  exact hmoved.of_upto (.refl p) fun hb => .inl (hS a hb)

omit [Source σ Char] in
theorem byCases {P : Prop} [Decidable P] {x y : Run (Lexer σ) β} (hx : P → Goes I d known x S)
    (hy : ¬ P → Goes I d known y S) : Goes I d known (if P then x else y) S := by
  split
  · next h => exact hx h
  · next h => exact hy h

omit [Source σ Char] in
theorem ite {P : Prop} [Decidable P] {x y : Run (Lexer σ) β} (hx : Goes I d known x S)
    (hy : Goes I d known y S) : Goes I d known (if P then x else y) S :=
  byCases (fun _ => hx) fun _ => hy

omit [Source σ Char] in
theorem get {f : Lexer σ → Run (Lexer σ) β} (hf : ∀ l, l.dialect = d → Goes I d known (f l) S) :
    Goes I d known (MonadState.get >>= f) S :=
  fun p ps l h => hf l h.dialect p ps l h

/-- Looking at the character at the cursor, which is known then. -/
theorem peek (hI : Ebbs I) {f : Char → Run (Lexer σ) β} (hf : ∀ c, Goes I d [c] (f c) S) :
    Goes I d [] (Lexer.peek 0 >>= f) S := by
  intro p ps
  refine (peek_within hI 0).bind fun c => ?_
  intro l ⟨_, hknown, _⟩
  exact hf c p ps l (hknown rfl)

/-- Looking again at a character that is known. -/
theorem peek_known (hI : Ebbs I) {f : Char → Run (Lexer σ) β} (hf : Goes I d [c] (f c) S) :
    Goes I d [c] (Lexer.peek 0 >>= f) S := by
  intro p ps
  refine (peek_within hI 0).bind fun c' => ?_
  intro l ⟨hwithin, _, hsame⟩
  obtain rfl := hsame c rfl
  exact hf p ps l hwithin

theorem look (hI : Ebbs I) (k : Nat) {f : Char → Run (Lexer σ) β}
    (hf : ∀ c', Goes I d known (f c') S) : Goes I d known (Lexer.peek k >>= f) S := by
  intro p ps
  refine (peek_within hI k).bind fun c' => ?_
  intro l ⟨hwithin, _⟩
  exact hf c' p ps l hwithin

/-- Looking for something in a character further on. -/
theorem look_map (hI : Ebbs I) (k : Nat) {g : Char → α} {f : α → Run (Lexer σ) β}
    (hf : ∀ a, Goes I d known (f a) S) : Goes I d known (g <$> Lexer.peek k >>= f) S := by
  rw [map_eq_pure_bind, bind_assoc]
  exact .look hI k fun c' => hf (g c')

omit [Source σ Char] in
/-- A loop that goes on with every round but the last comes to an end: less and less is to come. -/
theorem iterateFor {step : α → Run (Lexer σ) (Run.Round α β)}
    (hstep : ∀ a, Goes I d [] (step a) fun round => ∃ a', round = .again a') (rounds : Nat) (a : α)
    (hp : p.left < rounds) (h : Within I d p ps [] l) :
    Run.Ends (fun _ => Moved I d False p ps) (Upset I d) (Run.iterateFor step rounds a l) := by
  refine Run.Ends.iterateFor_below (I := fun m _ l => ∃ q, q.left = m ∧ p.Upto q ∧ Within I d q ps [] l)
    ?_ hp ⟨p, rfl, .refl p, h⟩
  rintro m a l ⟨q, rfl, hpq, hwithin⟩
  refine (hstep a q ps l hwithin).mono ?_ fun _ _ he => he
  intro round l' ⟨r, hqr, hbefore, hwithin'⟩
  cases round with
  | again a' => exact ⟨r.left, (hbefore ⟨a', rfl⟩).1, r, rfl, hpq.trans hqr, hwithin'⟩
  | done b => exact ⟨r, hpq.trans hqr, False.elim, hwithin'⟩

/-- In a loop, the first round may be about what is known. -/
theorem iterate_known (hI : Ebbs I) {P : Prop} {step : α → Run (Lexer σ) (Run.Round α β)} {a : α}
    (hfirst : Goes I d known (step a) fun round => P ∨ ∃ a', round = .again a')
    (hstep : ∀ a, Goes I d [] (step a) fun round => ∃ a', round = .again a') :
    Goes I d known (Run.iterate remaining a step) fun _ => P := by
  intro p ps l h
  obtain ⟨n, hn, hremaining, htight⟩ := h.tighten hI
  have hup : p.Upto ⟨n, p.place⟩ := ⟨hn, .inl rfl⟩
  have hround := hfirst ⟨n, p.place⟩ ps l htight
  show Run.Ends _ _ (Run.iterateFor step (l.remaining + 1) a l)
  rw [Run.iterateFor_succ]
  cases hr : step a l with
  | error e t =>
    rw [hr] at hround
    exact hround
  | ok round t =>
    rw [hr] at hround
    obtain ⟨q, hpq, hbefore, hwithin⟩ := hround
    cases round with
    | done b => exact ⟨q, hup.trans hpq, fun hP => hup.trans_before (hbefore (.inl hP)), hwithin⟩
    | again a' =>
      have hless := hbefore (.inr ⟨a', rfl⟩)
      refine (iterateFor hstep _ a' (Nat.lt_of_lt_of_le hless.1 hremaining) hwithin).mono ?_
        fun _ _ he => he
      exact fun b _ hb => hb.of_upto (hup.trans hpq) fun _ => .inr (hup.trans_before hless)

theorem iterate (hI : Ebbs I) {step : α → Run (Lexer σ) (Run.Round α β)} (a : α)
    (hstep : ∀ a, Goes I d [] (step a) fun round => ∃ a', round = .again a') :
    Goes I d [] (Run.iterate remaining a step) fun _ => False :=
  iterate_known hI (P := False) ((hstep a).mono fun _ h => h.resolve_left id) hstep

end Goes

/-! ### Rules -/

theorem bump_goes (hI : Ebbs I) : Goes I d known (bump : Run (Lexer σ) Char) fun c => c ≠ endOfInput := by
  intro p ps
  refine (bump_within hI).mono (fun _ h => h) ?_
  intro c l ⟨⟨q, hpq, hbefore, hwithin⟩, _⟩
  exact ⟨q, hpq, hbefore, hwithin.forget⟩

/-- Consuming a character that is known. -/
theorem bump_known (hI : Ebbs I) : Goes I d [c] (bump : Run (Lexer σ) Char) fun _ => c ≠ endOfInput := by
  intro p ps
  refine (bump_within hI).mono (fun _ h => h) ?_
  intro c' l ⟨⟨q, hpq, hbefore, hwithin⟩, hsame⟩
  obtain rfl := hsame c rfl
  exact ⟨q, hpq, hbefore, hwithin.forget⟩

theorem bumps_goes (hI : Ebbs I) (n : Nat) :
    Goes I d known (bumps n : Run (Lexer σ) (List Char)) fun _ => False := by
  induction n generalizing known with
  | zero => exact .pure not_false
  | succ n ih => exact (bump_goes hI).seq fun c => ih.bind_pure _ fun _ => id

theorem bumps_known (hI : Ebbs I) {n : Nat} (hn : 0 < n) :
    Goes I d [c] (bumps n : Run (Lexer σ) (List Char)) fun _ => c ≠ endOfInput := by
  obtain ⟨n, rfl⟩ := Nat.exists_eq_add_one.2 hn
  exact (bump_known hI).andThen fun a => (bumps_goes hI n).bind_pure _ fun _ => id

omit [Source σ Char] in
theorem tokenFrom_goes (start : Position) (kind : Token.Kind) (text : List Char) :
    Goes I d known (tokenFrom start kind text : Run (Lexer σ) Token) fun _ => False :=
  .get fun _ _ => .pure not_false

omit [Source σ Char] in
theorem not_again {b : β} : ¬ ∃ a : α, (Run.Round.done b : Run.Round α β) = .again a := nofun

omit [Source σ Char] in
theorem ne_end_of_class {inClass : Char → Bool} (hend : inClass endOfInput = false)
    (hc : inClass c = true) : c ≠ endOfInput := by
  rintro rfl
  exact absurd hc (by simp [hend])

theorem takeRun_goes (hI : Ebbs I) {inClass : Char → Bool} (hend : inClass endOfInput = false) :
    Goes I d [] (takeRun inClass : Run (Lexer σ) (List Char)) fun _ => False := by
  refine .iterate hI [] fun taken => .peek hI fun c => .byCases (fun hc => ?_) fun _ => .pure not_again
  exact (bump_known hI).bind_pure _ fun _ _ => ne_end_of_class hend hc

/-- A run that is not empty takes the lexer on. -/
theorem takeRun_known (hI : Ebbs I) {inClass : Char → Bool} (hend : inClass endOfInput = false)
    (hc : inClass c = true) : Goes I d [c] (takeRun inClass : Run (Lexer σ) (List Char)) fun _ => True := by
  refine .iterate_known hI (.peek_known hI ?_) fun taken => .peek hI fun c' =>
    .byCases (fun hc' => ?_) fun _ => .pure not_again
  · rw [if_pos hc]
    exact (bump_known hI).bind_pure _ fun _ _ => ne_end_of_class hend hc
  · exact (bump_known hI).bind_pure _ fun _ _ => ne_end_of_class hend hc'

/-- **A literal** ends with its quote; where the input ends first, that is an error. -/
theorem literal_goes (hI : Ebbs I) : Goes I d [c] (literal : Run (Lexer σ) Token) fun _ => c ≠ endOfInput := by
  refine .get fun l _ => (bump_known hI).andThen fun quote => ?_
  refine Goes.seq (A := fun _ => False) ?_ fun content => .get fun _ _ => .pure not_false
  refine .iterate hI [] fun content => (bump_goes hI).bind (T := fun c _ => c = endOfInput) (fun c => ?_)
    fun c _ _ => (em (c = endOfInput)).symm
  refine .byCases (fun _ => .fail _) fun hc => .ite (.pure hc) (.peek hI fun c' => .ite ?_ (.pure hc))
  exact (bump_goes hI).forget.bind_pure _ fun _ hend => absurd hend hc

omit [Source σ Char] in
/-- Under a mark, too, a lexer goes on from where it is. -/
theorem Goes.keeps {S : β → Prop} {x : Run (Lexer σ) β} (hx : Goes I d [] x S) :
    Run.Leads (Upset I d) (Moved I d False p ps) (fun _ => Moved I d False p ps) x := by
  intro l ⟨q, hpq, _, hwithin⟩
  refine (hx q ps l hwithin).mono (fun b l' hmoved => ?_) fun _ _ he => he
  exact hmoved.of_upto hpq False.elim

omit [Source σ Char] in
theorem commit_moved : Run.Leads (Upset I d) (Moved I d False p (q :: ps)) (fun _ => Moved I d False p ps)
    (commit : Run (Lexer σ) Unit) := by
  intro l ⟨r, hpr, _, hwithin⟩
  exact (commit_within l hwithin).mono (fun _ _ h => ⟨r, hpr, False.elim, h⟩) fun _ _ he => he

omit [Source σ Char] in
theorem rollback_moved : Run.Leads (Upset I d) (Moved I d False p (q :: ps))
    (fun _ => Moved I d False q ps) (rollback : Run (Lexer σ) Unit) := by
  intro l ⟨r, _, _, hwithin⟩
  exact (rollback_within l hwithin).mono (fun _ _ h => h.moved not_false) fun _ _ he => he

theorem peek_goes (hI : Ebbs I) (k : Nat) :
    Goes I d known (peek k : Run (Lexer σ) Char) fun _ => False :=
  fun _ _ => (peek_within hI k).mono (fun _ h => h) fun _ _ h => h.1.moved not_false

/-- **An exponent** is consumed, or taken back. -/
theorem exponent_goes (hI : Ebbs I) :
    Goes I d known (exponent : Run (Lexer σ) (List Char)) fun _ => False := by
  refine .forget (.get fun l _ => ?_)
  intro p ps
  -- From here on there is a mark at `p`, and the lexer is not behind it.
  refine mark_within.bind fun _ => ?_
  refine Run.Leads.mono (P := Moved I d False p (p :: ps)) ?_ (fun _ h => h.moved not_false) fun _ _ h => h
  refine (bump_goes hI).keeps.bind fun marker => (peek_goes hI 0).keeps.bind fun c => ?_
  have hrest : ∀ sign, Run.Leads (Upset I d) (Moved I d False p (p :: ps)) (fun _ => Moved I d False p ps)
      (do
        if (← peek 0).isDigit then
          let digits ← takeRun Char.isDigit
          commit
          return marker :: sign ++ digits
        else
          rollback
          return [] : Run (Lexer σ) (List Char)) := by
    intro sign
    refine (peek_goes hI 0).keeps.bind fun c => .ite ?_ ?_
    · exact (takeRun_goes hI (by decide)).keeps.bind fun digits => commit_moved.bind fun _ => .pure _
    · exact rollback_moved.bind fun _ => .pure _
  exact .ite ((bumps_goes hI 1).keeps.bind hrest) (hrest [])

/-- **A number** begins with a digit. -/
theorem number_goes (hI : Ebbs I) (hc : c.isDigit = true) :
    Goes I d [c] (number : Run (Lexer σ) Token) fun _ => True := by
  refine .get fun l _ => .get fun l' _ => (takeRun_known hI isDigit_endOfInput hc).andThen fun whole => ?_
  refine .look hI 0 fun c' => .ite (.look_map hI 1 ?fraction) (?fraction false)
  intro fractional
  refine .ite ?_ (tokenFrom_goes _ _ _)
  refine (bump_goes hI).seq fun separator => (takeRun_goes hI isDigit_endOfInput).seq fun fraction => ?_
  refine .look hI 0 fun c' => .ite ?_ (tokenFrom_goes _ _ _)
  exact (exponent_goes hI).seq fun power => tokenFrom_goes _ _ _

theorem namePart_goes (hI : Ebbs I) :
    Goes I d [] (namePart : Run (Lexer σ) (List Char)) fun _ => False :=
  (bump_goes hI).seq fun _ => (takeRun_goes hI isNamePart_endOfInput).bind_pure _ fun _ => id

theorem namePart_known (hI : Ebbs I) :
    Goes I d [c] (namePart : Run (Lexer σ) (List Char)) fun _ => c ≠ endOfInput :=
  (bump_known hI).andThen fun _ => (takeRun_goes hI isNamePart_endOfInput).bind_pure _ fun _ => id

/-- **The parts of a name** behind the first begin with dots. -/
theorem dottedParts_goes (hI : Ebbs I) :
    Goes I d [] (dottedParts : Run (Lexer σ) (List Char)) fun _ => False := by
  refine .iterate hI [] fun parts => .peek hI fun c => .byCases (fun hdot => ?_) fun _ => ?_
  · subst hdot
    refine .look_map hI 1 fun dotted => .ite ?_ (.pure not_again)
    refine (bump_known hI).bind (T := fun _ _ => False) (fun dot => ?_) fun _ _ _ => .inl (by decide)
    exact (namePart_goes hI).bind_pure _ fun _ => id
  · exact Goes.pure (b := Run.Round.done parts) not_again

theorem identifier_goes (hI : Ebbs I) (start : Position) (sign : List Char) :
    Goes I d known (identifier start sign : Run (Lexer σ) Token) fun _ => False :=
  (namePart_goes hI).forget.seq fun _ => (dottedParts_goes hI).seq fun _ => tokenFrom_goes _ _ _

theorem identifier_known (hI : Ebbs I) (start : Position) (sign : List Char) :
    Goes I d [c] (identifier start sign : Run (Lexer σ) Token) fun _ => c ≠ endOfInput :=
  (namePart_known hI).andThen fun _ => (dottedParts_goes hI).seq fun _ => tokenFrom_goes _ _ _

/-- What has been looked at is still to come, and so the search for the longest symbol ends. -/
theorem symbolLength_within (hI : Ebbs I) (hc : c ≠ endOfInput) :
    Run.Leads (Upset I d) (Within I d p ps [c]) (fun n l => Within I d p ps [c] l ∧ 0 < n)
      (symbolLength : Run (Lexer σ) Nat) := by
  refine (peek_within hI 0).bind fun first => ?_
  intro l ⟨h, _, hsame⟩
  obtain rfl := hsame c rfl
  obtain ⟨n, hn, hremaining, htight⟩ := h.tighten hI
  have hdone : ∀ {run : List Char} {l : Lexer σ}, [first] <+: run →
      Within I d ⟨n, p.place⟩ ps run l → Within I d p ps [first] l :=
    fun hprefix h => (h.weaken hprefix).loosen hn
  refine Run.Ends.iterate_below (I := fun m (read : List Char × Nat) l => m + read.1.length = n ∧
    (∀ a ∈ read.1, a ≠ endOfInput) ∧ [first] <+: read.1 ∧ 0 < read.2 ∧
    Within I d ⟨n, p.place⟩ ps read.1 l) (m := n - 1) ?_ (by omega) ?_
  · intro m (run, best) l ⟨hm, hrun, hfirst, hbest, h⟩
    simp only at hm hrun hfirst hbest h
    refine (peek_within hI run.length l h).bind (fun a l₁ h₁ => ?_) fun _ _ he => he
    obtain ⟨-, hknown, -⟩ := h₁
    have h₁ := hknown rfl
    have hprefix : [first] <+: run ++ [a] := hfirst.trans (List.prefix_append run [a])
    split
    · next ha =>
      have hall : ∀ b ∈ run ++ [a], b ≠ endOfInput := by
        intro b hb
        rcases List.mem_append.1 hb with hb | hb
        · exact hrun b hb
        · rw [List.mem_singleton.1 hb]
          exact ne_end_of_class isSymbolic_endOfInput ha
      refine (peek_within hI (run.length + 1) l₁ h₁).bind (fun b l₂ h₂ => ?_) fun _ _ he => he
      obtain ⟨h₂, -⟩ := h₂
      have hlength : (run ++ [a]).length ≤ n := h₂.length_le hall
      split
      · exact ⟨hdone hprefix h₂, hbest⟩
      rw [Run.bind_apply, Run.get_apply]
      dsimp only
      split
      · rw [List.length_append, List.length_singleton] at hlength
        refine ⟨m - 1, by omega, ?_, hall, hprefix, ?_, h₂⟩
        · show m - 1 + (run ++ [a]).length = n
          rw [List.length_append, List.length_singleton]
          omega
        · show 0 < if _ then (run ++ [a]).length else best
          split
          · rw [List.length_append]
            exact Nat.succ_pos _
          · exact hbest
      · exact ⟨hdone hprefix h₂, hbest⟩
    · exact ⟨hdone hprefix h₁, hbest⟩
  · have hone : ∀ a ∈ [first], a ≠ endOfInput := by simpa using hc
    have := htight.length_le hone
    simp only [List.length_singleton] at this
    exact ⟨by simp only [List.length_singleton]; omega, hone, List.prefix_rfl, Nat.one_pos, htight⟩

/-- **A symbol** has at least one character. -/
theorem symbol_goes (hI : Ebbs I) (start : Position) (hc : isSymbolic c = true) :
    Goes I d [c] (symbol start : Run (Lexer σ) Token) fun _ => True := by
  have hne := ne_end_of_class isSymbolic_endOfInput hc
  intro p ps
  refine (symbolLength_within hI hne).bind fun n => ?_
  intro l ⟨h, hn⟩
  refine ((bumps_known hI hn).mono (R := fun _ => True) fun _ _ => hne).andThen (fun text => ?_) p ps l h
  exact tokenFrom_goes _ _ _

theorem single_goes (hI : Ebbs I) (start : Position) (kind : Token.Kind) :
    Goes I d [c] (single start kind : Run (Lexer σ) Token) fun _ => c ≠ endOfInput :=
  (bumps_known hI Nat.one_pos).andThen fun _ => tokenFrom_goes _ _ _

/-! ### Tokens -/

/-- A round of scanning goes on, unless it finds the end, or a role of the end. -/
def Proceeds (d : Dialect) : Run.Round Unit Token → Prop
  | .again _ => True
  | .done token => d.Plain ∧ token.kind ≠ .endOfFile

omit [Source σ Char] in
theorem arrow_ne_end {second : Char} {kind : Token.Kind} (h : arrow? c second = some kind) :
    c ≠ endOfInput := by
  rintro rfl
  have hnone : arrow? endOfInput second = none := by
    unfold arrow?
    rw [if_neg fun hc => absurd hc.1 (by decide), if_neg fun hc => absurd hc.1 (by decide)]
  rw [hnone] at h
  cases h

/-- **Punctuation** takes the lexer on where it is no role of the end. -/
theorem punctuation_goes (hI : Ebbs I) (start : Position) :
    Goes I d [c] (punctuation c start : Run (Lexer σ) (Run.Round Unit Token)) (Proceeds d) := by
  have hdone : ∀ {x : Run (Lexer σ) Token}, Goes I d [c] x (fun _ => c ≠ endOfInput) →
      (d.Plain → c ≠ endOfInput) → Goes I d [c] (do return .done (← x)) (Proceeds d) :=
    fun hx hplain => hx.bind_pure Run.Round.done fun token h => hplain h.1
  refine .get fun l hl => .look hI 1 fun c' => ?_
  cases harrow : arrow? c c' with
  | some kind =>
    refine (bumps_known hI Nat.two_pos).bind (T := fun _ _ => False) (fun text => ?_) fun _ _ _ =>
      .inl (arrow_ne_end harrow)
    exact (tokenFrom_goes _ _ _).bind_pure _ fun _ => id
  | none =>
  dsimp only
  rw [hl]
  cases hopening : d.opening? c with
  | some container =>
    refine hdone (single_goes hI start _) fun hplain hc => ?_
    rw [hc, hplain.opening] at hopening
    cases hopening
  | none =>
  dsimp only
  cases hclosing : d.closing? c with
  | some container =>
    refine hdone (single_goes hI start _) fun hplain hc => ?_
    rw [hc, hplain.closing] at hclosing
    cases hclosing
  | none =>
  dsimp only
  refine .byCases (fun hc => hdone (single_goes hI start _) fun hplain => hc ▸ hplain.executor) fun _ => ?_
  refine .byCases (fun hc => hdone (single_goes hI start _) fun hplain => hc ▸ hplain.separator) fun _ => ?_
  refine .byCases (fun hc => ?_) fun _ => ?_
  · subst hc
    refine (bump_known hI).bind (T := fun _ _ => False) (fun _ => ?_) fun _ _ _ => .inl (by decide)
    exact (takeRun_goes hI (isBlank_endOfInput d)).bind_pure _ fun _ => id
  refine .ite (.pure fun h => h.2 rfl) (.byCases (fun hc => ?_) fun _ => .fail _)
  exact (symbol_goes hI start hc).bind_pure Run.Round.done fun _ _ => trivial

/-- **A round of scanning** takes the lexer on, unless it finds the end. -/
theorem scanRound_goes (hI : Ebbs I) :
    Goes I d [] (scanRound () : Run (Lexer σ) (Run.Round Unit Token)) (Proceeds d) := by
  refine .peek hI fun c => .get fun l _ => .get fun l' hl' => ?_
  dsimp only
  rw [hl']
  refine .byCases (fun hc => ?_) fun _ => ?_
  · exact (bump_known hI).bind_pure (fun _ => Run.Round.again ()) fun _ _ =>
      ne_end_of_class (isBlank_endOfInput d) hc.2
  refine .byCases (fun hc => ?_) fun _ => ?_
  · exact (literal_goes hI).bind_pure Run.Round.done fun _ h => hc ▸ h.1.quote
  refine .byCases (fun hc => (number_goes hI hc).bind_pure Run.Round.done fun _ _ => trivial) fun _ => ?_
  have hrest : Goes I d [c] (do
      if isNameStart c then
        return .done (← identifier l.position [])
      else
        punctuation c l.position : Run (Lexer σ) (Run.Round Unit Token)) (Proceeds d) := by
    refine .byCases (fun hc => ?_) fun _ => punctuation_goes hI _
    exact (identifier_known hI _ _).bind_pure Run.Round.done fun _ _ =>
      ne_end_of_class isNameStart_endOfInput hc
  by_cases hsign : c = '@' ∨ c = '#'
  · have hne : c ≠ endOfInput := by
      rintro rfl
      exact not_sign_endOfInput hsign
    rw [if_pos hsign]
    refine .look_map hI 1 fun signed => .ite ?_ hrest
    refine (bumps_known hI Nat.one_pos).bind (T := fun _ _ => False) (fun sign => ?_) fun _ _ _ => .inl hne
    exact (identifier_goes hI _ _).bind_pure _ fun _ => id
  · rw [if_neg hsign]
    exact hrest

/-- **A token** is found, or the end. A token for something else than the end takes the lexer on, if the
end has no role. -/
theorem scan_goes (hI : Ebbs I) :
    Goes I d [] (scan : Run (Lexer σ) Token) fun token => d.Plain ∧ token.kind ≠ .endOfFile := by
  intro p ps l h
  obtain ⟨n, hn, hremaining, htight⟩ := h.tighten hI
  have hup : p.Upto ⟨n, p.place⟩ := ⟨hn, .inl rfl⟩
  refine Run.Ends.iterate_below (I := fun m _ l => ∃ q, q.left = m ∧ p.Upto q ∧ Within I d q ps [] l)
    ?_ hremaining ⟨_, rfl, hup, htight⟩
  rintro m ⟨⟩ l ⟨q, rfl, hpq, hwithin⟩
  refine (scanRound_goes hI q ps l hwithin).mono ?_ fun _ _ he => he
  intro round l' ⟨r, hqr, hbefore, hwithin'⟩
  cases round with
  | again a' => exact ⟨r.left, (hbefore trivial).1, r, rfl, hpq.trans hqr, hwithin'⟩
  | done token => exact ⟨r, hpq.trans hqr, fun h => hpq.trans_before (hbefore h), hwithin'⟩

theorem next_goes (hI : Ebbs I) :
    Goes I d [] (next : Run (Lexer σ) Token) fun token => d.Plain ∧ token.kind ≠ .endOfFile := by
  intro p ps
  refine (scan_goes hI p ps).bind fun token => ?_
  intro l ⟨q, hpq, hbefore, h⟩
  exact ⟨q, hpq, hbefore, h.dialect, h.place, h.saved, h.view⟩

theorem nexts_goes (hI : Ebbs I) (n : Nat) :
    Goes I d [] (nexts n : Run (Lexer σ) (List Token)) fun _ => False := by
  induction n with
  | zero => exact .pure not_false
  | succ n ih => exact (next_goes hI).seq fun token => ih.bind_pure _ fun _ => id

end Lexer

end Dataflow
