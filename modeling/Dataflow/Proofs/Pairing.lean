import Dataflow.Proofs.Coupling
import Dataflow.Proofs.Endless

/-!
# Dataflow.Proofs.Pairing

**Two sessions side by side**, over two texts that are coupled. They have been told the same, know
the same operators, and have tokens before them that are alike; as long as neither runs into the
limit of a buffer, the same step then leads to the same answer in both.

* `View`, `Coupled` — what is known of a pair of sessions;
* `Together` — how two runs can end: with answers that belong together, or with failures that are
  alike. Where the second text ends at the border, its session is the one that has to succeed, so
  that nothing is said where it fails;
* one law for each step of a session, and `Together.bind`, `Coupled.iterate` for what is made of
  them.
-/

namespace Dataflow

open Reading Lexer Text Circuit

/-- What is known of a pair of sessions. -/
structure View where
  /-- No more tokens that cover something are to come in the second session. -/
  pending : Nat
  /-- The same from each mark on, innermost mark first. -/
  marks : List Nat := []
  /-- The next tokens, as far as they have been looked at. -/
  heads : List (Token × Token) := []

/-- The last one of the tokens, and no other, is the end. -/
def Ended (tokens : List Token) : Prop :=
  ∃ front last, tokens = front ++ [last] ∧ (∀ t ∈ front, t.kind ≠ .endOfFile) ∧
    last.kind = .endOfFile

theorem Ended.of_cons {t : Token} {tokens : List Token} (h : Ended (t :: tokens))
    (ht : t.kind ≠ .endOfFile) : Ended tokens := by
  obtain ⟨front, last, htokens, hfront, hlast⟩ := h
  cases front with
  | nil =>
    cases htokens
    exact absurd hlast ht
  | cons t' front =>
    cases htokens
    exact ⟨front, last, rfl, fun u hu => hfront u (List.mem_cons_of_mem _ hu), hlast⟩

/-- Behind the end there is nothing. -/
theorem Ended.eq_nil {t : Token} {tokens : List Token} (h : Ended (t :: tokens))
    (ht : t.kind = .endOfFile) : tokens = [] := by
  obtain ⟨front, last, htokens, hfront, -⟩ := h
  cases front with
  | nil =>
    cases htokens
    rfl
  | cons t' front =>
    cases htokens
    exact absurd ht (hfront t List.mem_cons_self)

theorem not_ended_of_forall {tokens : List Token} (h : ∀ t ∈ tokens, t.kind ≠ .endOfFile) :
    ¬ Ended tokens := by
  rintro ⟨front, last, rfl, -, hlast⟩
  exact h last (by simp) hlast

namespace Coupling

variable {c : Coupling} {w : View} {v v' : Prospect} {left right : Token}

/-- Only at the border are the tokens of different kinds. -/
theorem Alike.eq_down (h : c.Alike left right) (hkind : right.kind ≠ .endOfFile) :
    left = right.down c.lines := by
  cases h with
  | same _ _ => rfl
  | border _ _ _ hlast => exact absurd hlast hkind

theorem Alike.kind_eq (h : c.Alike left right) (hlast : right.kind = .endOfFile → c.behind = none) :
    left.kind = right.kind := by
  cases h with
  | same _ _ => rfl
  | border hparted _ _ hend => exact absurd (hlast hend) hparted

/-- What a token names is known to both sessions, or to neither of them. -/
theorem Alike.named (h : c.Alike left right)
    (hkind : right.kind.isIdentifier = true ∨ right.kind = .literal) : Foreign c.extra right.text := by
  cases h with
  | same _ _ hnamed => exact hnamed hkind
  | border _ _ _ hlast =>
    rw [hlast] at hkind
    exact absurd hkind (by simp [Token.Kind.isIdentifier])

theorem Alike.covers (h : c.Alike left right) (hkind : right.kind ≠ .endOfFile)
    (hroles : c.dialect.Plain ∨ right.kind.isSolid = true) :
    left.span.isEmpty = false ∧ right.span.isEmpty = false := by
  cases h with
  | same hcovers _ =>
    have hright := hcovers hkind hroles
    exact ⟨by rw [Token.span_down, Span.isEmpty_down, hright], hright⟩
  | border _ _ _ hlast => exact absurd hlast hkind

theorem Alike.covering_le (h : c.Alike left right) : covering [right] ≤ covering [left] := by
  cases h with
  | same _ _ => simp [covering]
  | border _ _ hcovers _ =>
    rw [covering_of_covers hcovers]
    exact Dataflow.covering_le [right]

/-- Where the executor and the end are no different, the tokens are the same. -/
theorem Alike.apply {β : Type} (h : c.Alike left right) {f : Token.Kind → β}
    (hf : f .executor = f .endOfFile) : f left.kind = f right.kind := by
  cases h with
  | same _ _ => rfl
  | border _ hexecutor _ hlast => rw [hexecutor, hlast, hf]

theorem Alike.iff (h : c.Alike left right) (P : Token.Kind → Prop) (hexecutor : ¬ P .executor)
    (hend : ¬ P .endOfFile) : P left.kind ↔ P right.kind :=
  iff_of_eq (h.apply (f := P) (propext (iff_of_false hexecutor hend)))

theorem covering_le {tokens tokens' : List Token} (h : List.Forall₂ c.Alike tokens tokens') :
    covering tokens' ≤ covering tokens := by
  induction h with
  | nil => exact Nat.le_refl 0
  | @cons left right _ _ hfirst _ ih =>
    rw [covering_cons left, covering_cons right]
    exact Nat.add_le_add hfirst.covering_le ih

/-- Where the places stand, and what has been seen from all places in the second text: no end as
long as that is the border, and then the end once. -/
def Stage (c : Coupling) (p q : Place) (views : List (List Token)) : Prop :=
  c.Places p q ∧ (c.behind ≠ none → ∀ m ∈ views, ∀ t ∈ m, t.kind ≠ .endOfFile) ∨
    c.Crossed p q ∧ ∀ m ∈ views, Ended m

theorem Stage.mono {p q : Place} {views views' : List (List Token)} (h : c.Stage p q views)
    (hsub : ∀ m ∈ views', m ∈ views) : c.Stage p q views' :=
  h.imp (fun ⟨hplaces, hopen⟩ => ⟨hplaces, fun hparted m hm => hopen hparted m (hsub m hm)⟩)
    fun ⟨hcrossed, hended⟩ => ⟨hcrossed, fun m hm => hended m (hsub m hm)⟩

theorem Stage.pass {p q : Place} {t : Token} {tokens : List Token} {outer : List (List Token)}
    (h : c.Stage p q ((t :: tokens) :: outer)) (ht : t.kind ≠ .endOfFile) :
    c.Stage p q (tokens :: outer) := by
  refine h.imp (fun ⟨hplaces, hopen⟩ => ⟨hplaces, fun hparted m hm => ?_⟩)
    fun ⟨hcrossed, hended⟩ => ⟨hcrossed, fun m hm => ?_⟩
  · rcases List.mem_cons.1 hm with rfl | hm
    · exact fun u hu => hopen hparted _ List.mem_cons_self u (List.mem_cons_of_mem _ hu)
    · exact hopen hparted m (List.mem_cons_of_mem _ hm)
  · rcases List.mem_cons.1 hm with rfl | hm
    · exact (hended _ List.mem_cons_self).of_cons ht
    · exact hended m (List.mem_cons_of_mem _ hm)

/-- Another token is scanned from all places. -/
theorem Stage.scan {p q : Place} {views : List (List Token)}
    (hopen : c.behind ≠ none → ∀ m ∈ views, ∀ t ∈ m, t.kind ≠ .endOfFile)
    (hnext : c.Places p q ∧ (right.kind = .endOfFile → c.behind = none) ∨
      c.Crossed p q ∧ right.kind = .endOfFile) :
    c.Stage p q (views.map (· ++ [right])) := by
  refine hnext.imp (fun ⟨hplaces, hend⟩ => ⟨hplaces, fun hparted m hm t ht => ?_⟩)
    fun ⟨hcrossed, hend⟩ => ⟨hcrossed, fun m hm => ?_⟩
  · obtain ⟨m', hm', rfl⟩ := List.mem_map.1 hm
    rcases List.mem_append.1 ht with ht | ht
    · exact hopen hparted m' hm' t ht
    · rw [List.mem_singleton.1 ht]
      exact fun hkind => hparted (hend hkind)
  · obtain ⟨m', hm', rfl⟩ := List.mem_map.1 hm
    have hparted : c.behind ≠ none := by
      obtain ⟨-, more, hmore, -⟩ := hcrossed
      simp [hmore]
    exact ⟨m', right, rfl, hopen hparted m' hm', hend⟩

/-- The prospects of two sessions belong together. -/
structure Matches (c : Coupling) (w : View) (v v' : Prospect) : Prop where
  ahead : ∃ rest rest', v.ahead = w.heads.map Prod.fst ++ rest ∧
    v'.ahead = w.heads.map Prod.snd ++ rest' ∧ List.Forall₂ c.Alike rest rest'
  heads : ∀ h ∈ w.heads, c.Alike h.1 h.2
  marked : List.Forall₂ (List.Forall₂ c.Alike) v.marked v'.marked
  place : c.Stage v.place v'.place (v'.ahead :: v'.marked)
  pending : v'.pending ≤ w.pending
  marks : List.Forall₂ (fun m n => covering m + v'.place.text.length ≤ n) v'.marked w.marks

namespace Matches

/-- A token of each text is scanned. -/
theorem scan (h : c.Matches w v v') (hahead : v.ahead = w.heads.map Prod.fst)
    (hahead' : v'.ahead = w.heads.map Prod.snd) {g : Setting} {p q : Place}
    (hnext : v'.place.next g.dialect g.table = .ok (right, q)) (halike : c.Alike left right)
    (hplace : c.Stage p q ((v'.ahead :: v'.marked).map (· ++ [right]))) :
    c.Matches { w with heads := w.heads ++ [(left, right)] } (v.scan left p)
      (v'.scan right q) where
  ahead := ⟨[], [], by simp [Prospect.scan, hahead], by simp [Prospect.scan, hahead'], .nil⟩
  heads h' hh' := by
    rcases List.mem_append.1 hh' with hh' | hh'
    · exact h.heads h' hh'
    · rw [List.mem_singleton.1 hh']
      exact halike
  marked := by
    show List.Forall₂ _ (v.marked.map (· ++ [left])) (v'.marked.map (· ++ [right]))
    rw [List.forall₂_map_left_iff, List.forall₂_map_right_iff]
    exact h.marked.imp fun _ _ hm => List.rel_append hm (.cons halike .nil)
  place := hplace
  pending := by
    have hscan := Prospect.covering_scan hnext
    have hpending := h.pending
    unfold Prospect.pending at hpending ⊢
    show covering (v'.ahead ++ [right]) + q.text.length ≤ w.pending
    rw [covering_append]
    omega
  marks := by
    have hscan := Prospect.covering_scan hnext
    show List.Forall₂ (fun m n => covering m + q.text.length ≤ n) (v'.marked.map (· ++ [right])) _
    rw [List.forall₂_map_left_iff]
    refine h.marks.imp fun m n hm => ?_
    rw [covering_append]
    omega

theorem forall₂_ahead (h : c.Matches w v v') : List.Forall₂ c.Alike v.ahead v'.ahead := by
  obtain ⟨rest, rest', hahead, hahead', hrest⟩ := h.ahead
  rw [hahead, hahead']
  refine List.rel_append ?_ hrest
  rw [List.forall₂_map_left_iff, List.forall₂_map_right_iff, List.forall₂_same]
  exact h.heads

/-- Nobody has to know which tokens come next, or all that may be to come. -/
theorem forget (h : c.Matches w v v') {pending : Nat} (hpending : w.pending ≤ pending) :
    c.Matches { pending, marks := w.marks } v v' :=
  ⟨⟨_, _, rfl, rfl, h.forall₂_ahead⟩, by simp, h.marked, h.place,
    Nat.le_trans h.pending hpending, h.marks⟩

/-- No more is to come in the second session than in the first one. -/
theorem pending_le (h : c.Matches w v v') : v'.pending ≤ v.pending := by
  refine Nat.add_le_add (covering_le h.forall₂_ahead) ?_
  obtain ⟨⟨k, -, hlevel⟩, -⟩ | ⟨⟨hnil, -⟩, -⟩ := h.place
  · have hlength := congrArg List.length hlevel.text
    rw [List.length_append, Place.text_skip, List.length_drop] at hlength
    omega
  · rw [hnil]
    exact Nat.zero_le _

end Matches

end Coupling

/-! ### Runs side by side -/

section Together

variable {σ β γ δ ε : Type} {c : Coupling}

/-- How two runs can end together. -/
inductive Together (c : Coupling) (Q : β → γ → Session σ → Session σ → Prop) :
    EStateM.Result Failure (Session σ) β → EStateM.Result Failure (Session σ) γ → Prop
  | answers {b : β} {b' : γ} {t t' : Session σ} (h : Q b b' t t') :
    Together c Q (.ok b t) (.ok b' t')
  | failures {e e' : Failure} {t t' : Session σ} (alike : Failure.Alike c.lines e e')
    (calls : t.calls = t'.calls ++ c.old) : Together c Q (.error e t) (.error e' t')
  /-- The session whose text ends at the border fails. -/
  | parted {r : EStateM.Result Failure (Session σ) β} {e : Failure} {t : Session σ}
    (parted : c.behind ≠ none) : Together c Q r (.error e t)
  | exceededFirst {requested limit : Nat} {t : Session σ}
    {r : EStateM.Result Failure (Session σ) γ} :
    Together c Q (.error (.error (.capacityExceeded requested limit)) t) r
  | exceededSecond {requested limit : Nat} {t : Session σ}
    {r : EStateM.Result Failure (Session σ) β} :
    Together c Q r (.error (.error (.capacityExceeded requested limit)) t)

namespace Together

variable {Q Q' : β → γ → Session σ → Session σ → Prop}
  {R : δ → ε → Session σ → Session σ → Prop}

theorem mono {r : EStateM.Result Failure (Session σ) β} {r' : EStateM.Result Failure (Session σ) γ}
    (h : Together c Q r r') (hQ : ∀ b b' t t', Q b b' t t' → Q' b b' t t') :
    Together c Q' r r' := by
  cases h with
  | answers h => exact .answers (hQ _ _ _ _ h)
  | failures halike hcalls => exact .failures halike hcalls
  | parted hparted => exact .parted hparted
  | exceededFirst => exact .exceededFirst
  | exceededSecond => exact .exceededSecond

/-- Sequences go on together behind the answers that the runs have. -/
theorem bind_eq {x : Run (Session σ) β} {x' : Run (Session σ) γ} {k : β → Run (Session σ) δ}
    {k' : γ → Run (Session σ) ε} {s s' : Session σ} (hx : Together c Q (x s) (x' s'))
    (hk : ∀ b b' t t', x s = .ok b t → x' s' = .ok b' t' → Q b b' t t' →
      Together c R (k b t) (k' b' t')) :
    Together c R ((x >>= k) s) ((x' >>= k') s') := by
  rw [Run.bind_apply, Run.bind_apply]
  generalize x s = r at hx hk
  generalize x' s' = r' at hx hk
  cases hx with
  | answers h => exact hk _ _ _ _ rfl rfl h
  | failures halike hcalls => exact .failures halike hcalls
  | parted hparted => exact .parted hparted
  | exceededFirst => exact .exceededFirst
  | exceededSecond => exact .exceededSecond

/-- Sequences go on together behind answers that belong together. -/
theorem bind {x : Run (Session σ) β} {x' : Run (Session σ) γ} {k : β → Run (Session σ) δ}
    {k' : γ → Run (Session σ) ε} {s s' : Session σ} (hx : Together c Q (x s) (x' s'))
    (hk : ∀ b b' t t', Q b b' t t' → Together c R (k b t) (k' b' t')) :
    Together c R ((x >>= k) s) ((x' >>= k') s') :=
  hx.bind_eq fun b b' t t' _ _ h => hk b b' t t' h

/-- Both take the same branch. -/
theorem ite {P P' : Prop} [Decidable P] [Decidable P'] (hiff : P ↔ P')
    {x y : Run (Session σ) β} {x' y' : Run (Session σ) γ} {s s' : Session σ}
    (hpos : P' → Together c Q (x s) (x' s')) (hneg : ¬ P' → Together c Q (y s) (y' s')) :
    Together c Q ((if P then x else y) s) ((if P' then x' else y') s') := by
  by_cases hP : P'
  · rw [if_pos (hiff.2 hP), if_pos hP]
    exact hpos hP
  · rw [if_neg (mt hiff.1 hP), if_neg hP]
    exact hneg hP

/-- Both come to a stall or to the limit of a buffer. -/
theorem of_halts {r : EStateM.Result Failure (Session σ) β} {r' : EStateM.Result Failure (Session σ) γ}
    {calls calls' : List Call} (h : Halts calls r) (h' : Halts calls' r')
    (hcalls : calls = calls' ++ c.old) : Together c Q r r' := by
  cases r with
  | ok b t => exact h.elim
  | error e t =>
    cases r' with
    | ok b' t' => exact h'.elim
    | error e' t' =>
      obtain ⟨rfl | ⟨_, _, rfl⟩, hlast⟩ := h
      · obtain ⟨rfl | ⟨_, _, rfl⟩, hlast'⟩ := h'
        · exact .failures rfl (by rw [hlast, hlast', hcalls])
        · exact .exceededSecond
      · exact .exceededFirst

/-- Both may look at themselves. -/
theorem get_bind {k : Session σ → Run (Session σ) δ} {k' : Session σ → Run (Session σ) ε}
    {s s' : Session σ} (h : Together c R (k s s) (k' s' s')) :
    Together c R ((get >>= k) s) ((get >>= k') s') := h

end Together

end Together

/-! ### Sessions side by side -/

/-- The sessions have texts that are coupled before them, and have been told the same, but for what the
first one knew in front of its text. -/
def Coupled {σ : Type} [Supply σ Char] (c : Coupling) (w : View) (s s' : Session σ) : Prop :=
  ∃ g g' v v', g.dialect = c.dialect ∧ g'.dialect = c.narrow ∧
    g.table.AgreesOn (Foreign c.extra) g'.table ∧
    s.tokens.Faces g v ∧ s'.tokens.Faces g' v' ∧ c.Matches w v v' ∧
    s.netlist = s'.netlist.enriched c.extra ∧ s.calls = s'.calls ++ c.old

namespace Coupled

variable {σ β γ : Type} [Supply σ Char] {c : Coupling} {w : View} {s s' : Session σ}
  {Q : β → γ → Session σ → Session σ → Prop}

theorem calls (h : Coupled c w s s') : s.calls = s'.calls ++ c.old := by
  obtain ⟨g, g', v, v', -, -, -, -, -, -, -, hcalls⟩ := h
  exact hcalls

theorem alike {n : Nat} {marks : List Nat} {t t' : Token} {heads : List (Token × Token)}
    (h : Coupled c ⟨n, marks, (t, t') :: heads⟩ s s') : c.Alike t t' := by
  obtain ⟨g, g', v, v', -, -, -, -, -, hmatches, -⟩ := h
  exact hmatches.heads (t, t') List.mem_cons_self

theorem tables (h : Coupled c w s s') : s.table.AgreesOn (Foreign c.extra) s'.table := by
  obtain ⟨g, g', v, v', -, -, htable, hfaces, hfaces', -, -, -⟩ := h
  rw [show s.table = g.table from hfaces.table_eq, show s'.table = g'.table from hfaces'.table_eq]
  exact htable

theorem forget (h : Coupled c w s s') {pending : Nat} (hpending : w.pending ≤ pending) :
    Coupled c { pending, marks := w.marks } s s' := by
  obtain ⟨g, g', v, v', hd, hd', htable, hfaces, hfaces', hmatches, hrest⟩ := h
  exact ⟨g, g', v, v', hd, hd', htable, hfaces, hfaces', hmatches.forget hpending, hrest⟩

theorem weaken (h : Coupled c w s s') {pending : Nat} (hpending : w.pending ≤ pending) :
    Coupled c { w with pending } s s' := by
  obtain ⟨g, g', v, v', hd, hd', htable, hfaces, hfaces', hmatches, hrest⟩ := h
  exact ⟨g, g', v, v', hd, hd', htable, hfaces, hfaces',
    ⟨hmatches.ahead, hmatches.heads, hmatches.marked, hmatches.place,
      Nat.le_trans hmatches.pending hpending, hmatches.marks⟩, hrest⟩

/-- Both sessions know a bound on what is to come. -/
theorem tight (h : Coupled c w s s') :
    ∃ n, n ≤ w.pending ∧ n ≤ s.remaining ∧ n ≤ s'.remaining ∧
      Coupled c { w with pending := n } s s' := by
  obtain ⟨g, g', v, v', hd, hd', htable, hfaces, hfaces', hmatches, hrest⟩ := h
  refine ⟨v'.pending, hmatches.pending, Nat.le_trans hmatches.pending_le hfaces.pending_le,
    hfaces'.pending_le, g, g', v, v', hd, hd', htable, hfaces, hfaces', ?_, hrest⟩
  exact ⟨hmatches.ahead, hmatches.heads, hmatches.marked, hmatches.place, Nat.le_refl _,
    hmatches.marks⟩

/-- Failures of the cursors, which leave all else as it is. -/
theorem failures {x : Run (Cursor (Lexer σ) Token) β} {x' : Run (Cursor (Lexer σ) Token) γ}
    (h : Coupled c w s s') {e e' : Failure} {k k' : Cursor (Lexer σ) Token}
    (hx : x s.tokens = .error e k) (hx' : x' s'.tokens = .error e' k')
    (halike : Failure.Alike c.lines e e') :
    Together c Q (Session.onTokens x s) (Session.onTokens x' s') := by
  rw [Session.onTokens_error hx, Session.onTokens_error hx']
  exact .failures halike h.calls

/-- The next token that has not been looked at. -/
theorem look (h : Coupled c w s s') {k : Nat} (hk : w.heads.length = k) (hk1 : k ≤ 1)
    (hheads : ∀ h ∈ w.heads, h.2.kind ≠ .endOfFile) :
    Together c
      (fun t t' u u' => c.Alike t t' ∧ Coupled c { w with heads := w.heads ++ [(t, t')] } u u')
      (Session.onTokens (Cursor.lookahead k) s) (Session.onTokens (Cursor.lookahead k) s') := by
  have hcoupled := h
  obtain ⟨g, g', v, v', hd, hd', htable, hfaces, hfaces', hmatches, hnetlist, hcalls⟩ := h
  obtain ⟨rest, rest', hahead, hahead', hrest⟩ := hmatches.ahead
  cases hrest with
  | @cons t t' rest rest' hfirst hrest =>
    -- Both tokens are in view.
    obtain ⟨k₁, hlook, hfaces₁⟩ := hfaces.lookahead_held (k := k) (t := t) (by
      rw [hahead, List.getElem?_append_right (by simp [hk])]
      simp [hk])
    obtain ⟨k₁', hlook', hfaces₁'⟩ := hfaces'.lookahead_held (k := k) (t := t') (by
      rw [hahead', List.getElem?_append_right (by simp [hk])]
      simp [hk])
    rw [Session.onTokens_ok hlook, Session.onTokens_ok hlook']
    refine .answers ⟨hfirst, g, g', v, v', hd, hd', htable, hfaces₁, hfaces₁',
      ⟨⟨rest, rest', ?_, ?_, hrest⟩, ?_, hmatches.marked, hmatches.place, hmatches.pending,
        hmatches.marks⟩, hnetlist, hcalls⟩
    · rw [hahead]
      simp
    · rw [hahead']
      simp
    · intro h hh
      rcases List.mem_append.1 hh with hh | hh
      · exact hmatches.heads h hh
      · rw [List.mem_singleton.1 hh]
        exact hfirst
  | nil =>
    -- Both tokens have to be scanned.
    rw [List.append_nil] at hahead hahead'
    have hlength : v.ahead.length = k := by rw [hahead, List.length_map, hk]
    have hlength' : v'.ahead.length = k := by rw [hahead', List.length_map, hk]
    obtain ⟨hplaces, hopen⟩ := hmatches.place.resolve_right (by
      rintro ⟨-, hended⟩
      refine not_ended_of_forall ?_ (hended _ List.mem_cons_self)
      rw [hahead']
      intro t ht
      obtain ⟨h, hh, rfl⟩ := List.mem_map.1 ht
      exact hheads h hh)
    have hnext := hplaces.next g.table
    have hsame := hplaces.next_eq htable
    cases hx' : Cursor.lookahead k s'.tokens with
    | error e' k' =>
      rcases (hfaces'.lookahead_next hlength' hk1).of_error hx' with
        ⟨⟨_, _, rfl⟩, -⟩ | ⟨cause, hcause, rfl⟩
      · rw [Session.onTokens_error hx']
        exact .exceededSecond
      rw [hd', c.next_narrow, hsame] at hcause
      rcases hnext with ⟨_, _, _, _, hright, -⟩ | ⟨e, he, hparted | hleft⟩
      · rw [hright] at hcause
        cases hcause
      · rw [Session.onTokens_error hx']
        exact .parted hparted
      · rw [hcause] at he
        cases he
        cases hx : Cursor.lookahead k s.tokens with
        | ok t k₁ =>
          obtain ⟨q, hq, -⟩ := (hfaces.lookahead_next hlength hk1).of_ok hx
          rw [hd, hleft] at hq
          cases hq
        | error e k₁ =>
          rcases (hfaces.lookahead_next hlength hk1).of_error hx with
            ⟨⟨_, _, rfl⟩, -⟩ | ⟨cause', hcause', rfl⟩
          · rw [Session.onTokens_error hx]
            exact .exceededFirst
          · rw [hd, hleft] at hcause'
            cases hcause'
            exact hcoupled.failures hx hx' (.of_error c.lines cause)
    | ok t' k' =>
      obtain ⟨q', hq', hfaces₁'⟩ := (hfaces'.lookahead_next hlength' hk1).of_ok hx'
      rcases hnext with ⟨left, right, p₁, q₁, hright, hleft, halike, hplace⟩ | ⟨e, he, -⟩
      · have hscanned := hq'
        rw [hd', c.next_narrow, hsame, hright] at hq'
        cases hq'
        cases hx : Cursor.lookahead k s.tokens with
        | error e k₁ =>
          obtain ⟨⟨_, _, rfl⟩, -⟩ :=
            ((hfaces.lookahead_next hlength hk1).of_error hx).excused (by rw [hd]; exact hleft)
          rw [Session.onTokens_error hx]
          exact .exceededFirst
        | ok t k₁ =>
          obtain ⟨q, hq, hfaces₁⟩ := (hfaces.lookahead_next hlength hk1).of_ok hx
          rw [hd, hleft] at hq
          cases hq
          rw [Session.onTokens_ok hx, Session.onTokens_ok hx']
          exact .answers ⟨halike, g, g', _, _, hd, hd', htable, hfaces₁, hfaces₁',
            hmatches.scan hahead hahead' hscanned halike (.scan hopen hplace), hnetlist, hcalls⟩
      · rw [hd', c.next_narrow, hsame, he] at hq'
        cases hq'

/-- A token that has been looked at stays as it is. -/
theorem look_known (h : Coupled c w s s') {k : Nat} {t t' : Token}
    (hk : w.heads[k]? = some (t, t')) :
    ∃ k₁ k₁', Cursor.lookahead k s.tokens = .ok t k₁ ∧ Cursor.lookahead k s'.tokens = .ok t' k₁' ∧
      Coupled c w { s with tokens := k₁ } { s' with tokens := k₁' } := by
  obtain ⟨g, g', v, v', hd, hd', htable, hfaces, hfaces', hmatches, hrest⟩ := h
  obtain ⟨rest, rest', hahead, hahead', -⟩ := hmatches.ahead
  have hlength : k < w.heads.length := (List.getElem?_eq_some_iff.1 hk).1
  obtain ⟨k₁, hlook, hfaces₁⟩ := hfaces.lookahead_held (k := k) (t := t) (by
    rw [hahead, List.getElem?_append_left (by simpa using hlength), List.getElem?_map, hk]
    rfl)
  obtain ⟨k₁', hlook', hfaces₁'⟩ := hfaces'.lookahead_held (k := k) (t := t') (by
    rw [hahead', List.getElem?_append_left (by simpa using hlength), List.getElem?_map, hk]
    rfl)
  exact ⟨_, _, hlook, hlook', g, g', v, v', hd, hd', htable, hfaces₁, hfaces₁', hmatches, hrest⟩

theorem peek_known {n : Nat} {marks : List Nat} {t t' : Token} {heads : List (Token × Token)}
    (h : Coupled c ⟨n, marks, (t, t') :: heads⟩ s s') :
    ∃ u u', Session.peek s = .ok t u ∧ Session.peek s' = .ok t' u' ∧
      Coupled c ⟨n, marks, (t, t') :: heads⟩ u u' := by
  obtain ⟨k, k', hpeek, hpeek', hk⟩ := h.look_known (k := 0) rfl
  exact ⟨_, _, Session.onTokens_ok hpeek, Session.onTokens_ok hpeek', hk⟩

/-- A token that has been looked at, and is not the end, is consumed. If it covers something, there is
less to come. -/
theorem take {n : Nat} {marks : List Nat} {t t' : Token} {heads : List (Token × Token)}
    (h : Coupled c ⟨n, marks, (t, t') :: heads⟩ s s') (hkind : t'.kind ≠ .endOfFile) :
    ∃ u u' k, Session.consume s = .ok t u ∧ Session.consume s' = .ok t' u' ∧
      t = t'.down c.lines ∧ k ≤ n ∧ (t'.span.isEmpty = false → k < n) ∧
      Coupled c ⟨k, marks, heads⟩ u u' := by
  obtain ⟨g, g', v, v', hd, hd', htable, hfaces, hfaces', hmatches, hrest⟩ := h
  obtain ⟨rest, rest', hahead, hahead', hrests⟩ := hmatches.ahead
  have halike : c.Alike t t' := hmatches.heads (t, t') List.mem_cons_self
  have hfront : v.ahead = t :: (heads.map Prod.fst ++ rest) := by rw [hahead]; rfl
  have hfront' : v'.ahead = t' :: (heads.map Prod.snd ++ rest') := by rw [hahead']; rfl
  obtain ⟨k₁, hconsume, hfaces₁⟩ := hfaces.consume_held hfront fun hplain =>
    (halike.covers hkind (.inl (hd ▸ hplain))).1
  obtain ⟨k₁', hconsume', hfaces₁'⟩ := hfaces'.consume_held hfront' fun hplain =>
    (halike.covers hkind (.inl (c.plain_narrow.1 (hd' ▸ hplain)))).2
  have hpending : covering [t'] + (covering (heads.map Prod.snd ++ rest') +
      v'.place.text.length) ≤ n := by
    have hle := hmatches.pending
    unfold Prospect.pending at hle
    rw [hfront', covering_cons, Nat.add_assoc] at hle
    exact hle
  refine ⟨_, _, _, Session.onTokens_ok hconsume, Session.onTokens_ok hconsume',
    halike.eq_down hkind, Nat.le_trans (Nat.le_add_left _ _) hpending, fun hcovers => ?_,
    g, g', _, _, hd, hd', htable, hfaces₁, hfaces₁', ?_, hrest⟩
  · rw [covering_of_covers hcovers] at hpending
    omega
  · exact ⟨⟨rest, rest', rfl, rfl, hrests⟩, fun h hh => hmatches.heads h (List.mem_cons_of_mem _ hh),
      hmatches.marked, (hfront' ▸ hmatches.place).pass hkind, Nat.le_refl _, hmatches.marks⟩

/-- A token that has characters in the text is consumed, and there is less to come. -/
theorem consume {n : Nat} {marks : List Nat} {t t' : Token} {heads : List (Token × Token)}
    (h : Coupled c ⟨n, marks, (t, t') :: heads⟩ s s') (hsolid : t'.kind.isSolid = true) :
    ∃ u u', Session.consume s = .ok t u ∧ Session.consume s' = .ok t' u' ∧ 0 < n ∧
      t = t'.down c.lines ∧ Coupled c ⟨n - 1, marks, heads⟩ u u' := by
  have hkind := Token.Kind.ne_endOfFile_of_isSolid hsolid
  obtain ⟨u, u', k, hconsume, hconsume', hdown, -, hless, hu⟩ := h.take hkind
  have hlt := hless (h.alike.covers hkind (.inr hsolid)).2
  exact ⟨u, u', hconsume, hconsume', by omega, hdown, hu.weaken (Nat.le_sub_one_of_lt hlt)⟩

/-- A token that covers nothing and is not the end is the end marker in a role. Both sessions have
nothing else before them. -/
theorem endless {n : Nat} {marks : List Nat} {t t' : Token} {heads : List (Token × Token)}
    (h : Coupled c ⟨n, marks, (t, t') :: heads⟩ s s') (hkind : t'.kind ≠ .endOfFile)
    (hempty : t'.span.isEmpty = true) : s.Endless t'.kind ∧ s'.Endless t'.kind := by
  have hdown := h.alike.eq_down hkind
  obtain ⟨g, g', v, v', -, -, -, hfaces, hfaces', hmatches, -⟩ := h
  obtain ⟨rest, rest', hahead, hahead', -⟩ := hmatches.ahead
  refine ⟨?_, Session.endless_of_isEmpty hfaces' hahead' hempty⟩
  have hleft := Session.endless_of_isEmpty hfaces hahead
    (by rw [hdown, Token.span_down, Span.isEmpty_down, hempty])
  rw [hdown] at hleft
  exact hleft

/-- Where something else is expected, both sessions say so. -/
theorem mismatch {n : Nat} {marks : List Nat} {t t' : Token} {heads : List (Token × Token)}
    (h : Coupled c ⟨n, marks, (t, t') :: heads⟩ s s') (expected : String) :
    Together c Q (Session.mismatch expected s) (Session.mismatch expected s') := by
  have halike := h.alike
  obtain ⟨k₁, k₁', hlook, hlook', -⟩ := h.look_known (k := 0) rfl
  let make (found : String) (span : Option Text.Span) (context : String) : Error :=
    .mismatch expected found context span
  obtain ⟨text, k₂, hmismatch, -⟩ := Cursor.compose_of_ok (I := fun _ => True)
    (fun _ _ _ => Run.Ends.of_true _) hlook trivial make
  obtain ⟨text', k₂', hmismatch', -⟩ := Cursor.compose_of_ok (I := fun _ => True)
    (fun _ _ _ => Run.Ends.of_true _) hlook' trivial make
  rw [← Cursor.mismatch_eq] at hmismatch hmismatch'
  unfold Session.mismatch
  rw [Run.bind_apply, Run.bind_apply, Session.onTokens_ok hmismatch,
    Session.onTokens_ok hmismatch']
  cases halike with
  | same _ _ => exact .failures rfl h.calls
  | border hparted _ _ _ => exact .parted hparted

theorem unexpectedOperand {n : Nat} {marks : List Nat} {t t' : Token}
    {heads : List (Token × Token)} (h : Coupled c ⟨n, marks, (t, t') :: heads⟩ s s') :
    Together c Q (Session.unexpectedOperand s) (Session.unexpectedOperand s') := by
  have halike := h.alike
  obtain ⟨k₁, k₁', hlook, hlook', -⟩ := h.look_known (k := 0) rfl
  let make (found : String) (span : Option Text.Span) (context : String) : Error :=
    .unexpectedOperand found context span
  obtain ⟨text, k₂, hmismatch, -⟩ := Cursor.compose_of_ok (I := fun _ => True)
    (fun _ _ _ => Run.Ends.of_true _) hlook trivial make
  obtain ⟨text', k₂', hmismatch', -⟩ := Cursor.compose_of_ok (I := fun _ => True)
    (fun _ _ _ => Run.Ends.of_true _) hlook' trivial make
  rw [← Cursor.unexpectedOperand_eq] at hmismatch hmismatch'
  unfold Session.unexpectedOperand
  rw [Run.bind_apply, Run.bind_apply, Session.onTokens_ok hmismatch,
    Session.onTokens_ok hmismatch']
  cases halike with
  | same _ _ => exact .failures rfl h.calls
  | border hparted _ _ _ => exact .parted hparted

/-! ### Marks -/

theorem mark (h : Coupled c w s s') :
    ∃ u u', Session.onTokens Cursor.mark s = .ok () u ∧ Session.onTokens Cursor.mark s' = .ok () u' ∧
      Coupled c { w with marks := w.pending :: w.marks } u u' := by
  obtain ⟨g, g', v, v', hd, hd', htable, hfaces, hfaces', hmatches, hrest⟩ := h
  obtain ⟨k₁, hmark, hfaces₁⟩ := hfaces.mark_ok
  obtain ⟨k₁', hmark', hfaces₁'⟩ := hfaces'.mark_ok
  refine ⟨_, _, Session.onTokens_ok hmark, Session.onTokens_ok hmark', g, g', _, _, hd, hd',
    htable, hfaces₁, hfaces₁', ?_, hrest⟩
  refine ⟨hmatches.ahead, hmatches.heads, .cons hmatches.forall₂_ahead hmatches.marked, ?_,
    hmatches.pending, .cons hmatches.pending hmatches.marks⟩
  refine hmatches.place.mono fun m hm => ?_
  rcases List.mem_cons.1 hm with rfl | hm
  · exact List.mem_cons_self
  · exact hm

theorem commit {n m : Nat} {marks : List Nat} {heads : List (Token × Token)}
    (h : Coupled c ⟨n, m :: marks, heads⟩ s s') :
    ∃ u u', Session.onTokens Cursor.commit s = .ok () u ∧
      Session.onTokens Cursor.commit s' = .ok () u' ∧ Coupled c ⟨n, marks, heads⟩ u u' := by
  obtain ⟨g, g', v, v', hd, hd', htable, hfaces, hfaces', hmatches, hrest⟩ := h
  obtain ⟨first', outer', -, houter', hmarked'⟩ := List.forall₂_cons_right_iff.1 hmatches.marks
  obtain ⟨first, outer, -, houter, hmarked⟩ :=
    List.forall₂_cons_right_iff.1 (hmarked' ▸ hmatches.marked)
  obtain ⟨k₁, hcommit, hfaces₁⟩ := hfaces.commit_ok hmarked
  obtain ⟨k₁', hcommit', hfaces₁'⟩ := hfaces'.commit_ok hmarked'
  refine ⟨_, _, Session.onTokens_ok hcommit, Session.onTokens_ok hcommit', g, g', _, _, hd, hd',
    htable, hfaces₁, hfaces₁', ?_, hrest⟩
  refine ⟨hmatches.ahead, hmatches.heads, houter, ?_, hmatches.pending, houter'⟩
  refine hmatches.place.mono fun m hm => ?_
  rw [hmarked']
  rcases List.mem_cons.1 hm with rfl | hm
  · exact List.mem_cons_self
  · exact List.mem_cons_of_mem _ (List.mem_cons_of_mem _ hm)

theorem rollback {n m : Nat} {marks : List Nat} {heads : List (Token × Token)}
    (h : Coupled c ⟨n, m :: marks, heads⟩ s s') :
    ∃ u u', Session.onTokens Cursor.rollback s = .ok () u ∧
      Session.onTokens Cursor.rollback s' = .ok () u' ∧ Coupled c ⟨m, marks, []⟩ u u' := by
  obtain ⟨g, g', v, v', hd, hd', htable, hfaces, hfaces', hmatches, hrest⟩ := h
  obtain ⟨first', outer', hfirst', houter', hmarked'⟩ := List.forall₂_cons_right_iff.1 hmatches.marks
  obtain ⟨first, outer, hfirst, houter, hmarked⟩ :=
    List.forall₂_cons_right_iff.1 (hmarked' ▸ hmatches.marked)
  obtain ⟨k₁, hrollback, hfaces₁⟩ := hfaces.rollback_ok hmarked
  obtain ⟨k₁', hrollback', hfaces₁'⟩ := hfaces'.rollback_ok hmarked'
  refine ⟨_, _, Session.onTokens_ok hrollback, Session.onTokens_ok hrollback', g, g', _, _, hd, hd',
    htable, hfaces₁, hfaces₁', ?_, hrest⟩
  refine ⟨⟨_, _, rfl, rfl, hfirst⟩, by simp, houter, ?_, hfirst', houter'⟩
  refine hmatches.place.mono fun m hm => ?_
  rw [hmarked']
  exact List.mem_cons_of_mem _ hm

end Coupled

/-! ### Computations side by side -/

section Computations

variable {σ α β δ ε : Type} [Supply σ Char] {c : Coupling} {n m : Nat} {marks : List Nat}
  {s s' : Session σ}

/-- Both runs have the same answer, and leave the sessions as said. -/
def Keeps (c : Coupling) (w : View) (r r' : EStateM.Result Failure (Session σ) β) : Prop :=
  Together c (fun b b' t t' => b = b' ∧ Coupled c w t t') r r'

theorem Keeps.mono {w : View} {r r' : EStateM.Result Failure (Session σ) β}
    (h : Keeps c w r r') (hn : w.pending ≤ n) :
    Keeps c { pending := n, marks := w.marks } r r' :=
  Together.mono h fun _ _ _ _ ⟨hb, ht⟩ => ⟨hb, ht.forget hn⟩

/-- Both runs have the same answer, and there is less to come then. -/
def Takes (c : Coupling) (m : Nat) (marks : List Nat)
    (r r' : EStateM.Result Failure (Session σ) β) : Prop :=
  Together c (fun b b' t t' => b = b' ∧ 0 < m ∧ Coupled c { pending := m - 1, marks } t t') r r'

theorem Takes.keeps {r r' : EStateM.Result Failure (Session σ) β} (h : Takes c m marks r r') :
    Keeps c { pending := m, marks } r r' :=
  Together.mono h fun _ _ _ _ ⟨hb, _, ht⟩ => ⟨hb, ht.forget (Nat.sub_le m 1)⟩

theorem Takes.mono {r r' : EStateM.Result Failure (Session σ) β} (h : Takes c m marks r r')
    (hm : m ≤ n) : Takes c n marks r r' :=
  Together.mono h fun _ _ _ _ ⟨hb, hpos, ht⟩ =>
    ⟨hb, Nat.lt_of_lt_of_le hpos hm, ht.forget (Nat.sub_le_sub_right hm 1)⟩

theorem Keeps.takes {r r' : EStateM.Result Failure (Session σ) β}
    (h : Keeps c { pending := m - 1, marks } r r') (hm : 0 < m) : Takes c m marks r r' :=
  Together.mono h fun _ _ _ _ ⟨hb, ht⟩ => ⟨hb, hm, ht⟩

theorem Keeps.bind {w : View} {R : δ → ε → Session σ → Session σ → Prop}
    {x x' : Run (Session σ) β} {k : β → Run (Session σ) δ} {k' : β → Run (Session σ) ε}
    (hx : Keeps c w (x s) (x' s'))
    (hk : ∀ b t t', Coupled c w t t' → Together c R (k b t) (k' b t')) :
    Together c R ((x >>= k) s) ((x' >>= k') s') := by
  refine Together.bind hx ?_
  rintro b _ t t' ⟨rfl, ht⟩
  exact hk b t t' ht

/-- How two rounds of a loop end together: the next ones have less before them. -/
inductive Rounds (c : Coupling) (n : Nat) (marks : List Nat) (I : α → α → Nat → Prop)
    (Q : β → β → Session σ → Session σ → Prop) :
    Run.Round α β → Run.Round α β → Session σ → Session σ → Prop
  | again {a a' : α} {m : Nat} {t t' : Session σ} (less : m < n) (inv : I a a' m)
    (h : Coupled c { pending := m, marks } t t') : Rounds c n marks I Q (.again a) (.again a') t t'
  | done {b b' : β} {t t' : Session σ} (h : Q b b' t t') :
    Rounds c n marks I Q (.done b) (.done b') t t'

/-- **Loops go on together** where every round uses something up. Neither of them runs out of
rounds then. -/
theorem Coupled.iterate {I : α → α → Nat → Prop} {Q : β → β → Session σ → Session σ → Prop}
    {step step' : α → Run (Session σ) (Run.Round α β)}
    (h : Coupled c { pending := n, marks } s s') {a a' : α} (hI : ∀ m, m ≤ n → I a a' m)
    (hstep : ∀ a a' m t t', m ≤ n → I a a' m → Coupled c { pending := m, marks } t t' →
      Together c (Rounds c m marks I Q) (step a t) (step' a' t')) :
    Together c Q (Run.iterate Session.remaining a step s)
      (Run.iterate Session.remaining a' step' s') := by
  have key : ∀ rounds rounds' m a a' t t', m < rounds → m < rounds' → m ≤ n → I a a' m →
      Coupled c { pending := m, marks } t t' → Together c Q (Run.iterateFor step rounds a t)
        (Run.iterateFor step' rounds' a' t') := by
    intro rounds
    induction rounds with
    | zero => exact fun rounds' m a a' t t' hrounds => absurd hrounds (Nat.not_lt_zero m)
    | succ rounds ih =>
      intro rounds' m a a' t t' hrounds hrounds' hm hI h
      cases rounds' with
      | zero => exact absurd hrounds' (Nat.not_lt_zero m)
      | succ rounds' =>
        have hround := hstep a a' m t t' hm hI h
        rw [Run.iterateFor_succ, Run.iterateFor_succ]
        generalize step a t = r at hround
        generalize step' a' t' = r' at hround
        cases hround with
        | failures halike hcalls => exact .failures halike hcalls
        | parted hparted => exact .parted hparted
        | exceededFirst => exact .exceededFirst
        | exceededSecond => exact .exceededSecond
        | answers h =>
          cases h with
          | done h => exact .answers h
          | again hless hI h =>
            exact ih rounds' _ _ _ _ _ (Nat.lt_of_lt_of_le hless (Nat.le_of_lt_succ hrounds))
              (Nat.lt_of_lt_of_le hless (Nat.le_of_lt_succ hrounds'))
              (Nat.le_trans (Nat.le_of_lt hless) hm) hI h
  obtain ⟨m, hm, hremaining, hremaining', htight⟩ := h.tight
  exact key _ _ m a a' s s' (Nat.lt_succ_of_le hremaining) (Nat.lt_succ_of_le hremaining') hm
    (hI m hm) htight

/-! ### What the netlist is told, and what is registered -/

/-- The netlists give the same answer to a call that refers to no further entity, and nothing else
changes. -/
theorem Coupled.tell {w : View} (h : Coupled c w s s') (call : Call)
    (hcall : ∀ name ∈ call.reference?, Foreign c.extra name) :
    Keeps c w (Session.tell call s) (Session.tell call s') := by
  obtain ⟨g, g', v, v', hd, hd', htable, hfaces, hfaces', hmatches, hnetlist, hcalls⟩ := h
  have hsame : call :: s.calls = call :: s'.calls ++ c.old := congrArg (call :: ·) hcalls
  have hleft := Netlist.perform_enriched hcall s'.netlist
  rw [← hnetlist] at hleft
  cases hperform : Netlist.perform call s'.netlist with
  | ok reply n =>
    rw [hperform] at hleft
    rw [Session.tell_ok call hleft, Session.tell_ok call hperform]
    exact .answers ⟨rfl, g, g', v, v', hd, hd', htable, hfaces, hfaces', hmatches, rfl, hsame⟩
  | error cause n =>
    rw [hperform] at hleft
    rw [Session.tell_error call hleft, Session.tell_error call hperform]
    exact .failures (.of_build c.lines cause) hsame

/-- Both sessions come to know an operator. -/
theorem Coupled.insertOperator {w : View} (h : Coupled c w s s') {op : Operator}
    (hop : Foreign c.extra op.entity) : Coupled c w (s.insertOperator op) (s'.insertOperator op) := by
  obtain ⟨g, g', v, v', hd, hd', htable, hfaces, hfaces', hmatches, hrest⟩ := h
  exact ⟨{ g with table := g.table.insert op }, { g' with table := g'.table.insert op }, v, v', hd,
    hd', htable.insert hop, hfaces.mapSource op, hfaces'.mapSource op, hmatches, hrest⟩

/-! ### Steps on the tokens -/

theorem Coupled.peek (h : Coupled c { pending := n, marks } s s') :
    Together c (fun t t' u u' => Coupled c ⟨n, marks, [(t, t')]⟩ u u') (Session.peek s)
      (Session.peek s') :=
  (h.look rfl (Nat.zero_le 1) (by simp)).mono fun _ _ _ _ ⟨_, hu⟩ => hu

theorem Coupled.peekKind (h : Coupled c { pending := n, marks } s s') :
    Together c (fun kind kind' u u' => ∃ t t', kind = t.kind ∧ kind' = t'.kind ∧
      Coupled c ⟨n, marks, [(t, t')]⟩ u u') (Session.peekKind s) (Session.peekKind s') := by
  rw [Session.peekKind_eq]
  refine h.peek.bind fun t t' u u' hu => ?_
  exact .answers ⟨t, t', rfl, rfl, hu⟩

theorem Coupled.peekKind_known {t t' : Token} {heads : List (Token × Token)}
    (h : Coupled c ⟨n, marks, (t, t') :: heads⟩ s s') :
    ∃ u u', Session.peekKind s = .ok t.kind u ∧ Session.peekKind s' = .ok t'.kind u' ∧
      Coupled c ⟨n, marks, (t, t') :: heads⟩ u u' := by
  obtain ⟨u, u', hpeek, hpeek', hu⟩ := h.peek_known
  refine ⟨u, u', ?_, ?_, hu⟩
  · rw [Session.peekKind_eq, Run.bind_apply, hpeek]
    rfl
  · rw [Session.peekKind_eq, Run.bind_apply, hpeek']
    rfl

/-- The kind of the token behind the next one, which is not the end. -/
theorem Coupled.secondKind {t t' : Token} (h : Coupled c ⟨n, marks, [(t, t')]⟩ s s')
    (hkind : t'.kind ≠ .endOfFile) :
    Together c (fun kind kind' u u' => ∃ r r', kind = r.kind ∧ kind' = r'.kind ∧ c.Alike r r' ∧
      Coupled c ⟨n, marks, [(t, t'), (r, r')]⟩ u u') (Session.kindAt 1 s)
      (Session.kindAt 1 s') := by
  rw [Session.kindAt_eq]
  refine (h.look rfl (Nat.le_refl 1) (by simpa using hkind)).bind ?_
  rintro r r' u u' ⟨halike, hu⟩
  exact .answers ⟨r, r', rfl, rfl, halike, hu⟩

/-- A token that has been looked at, and is of a certain kind, may be consumed. -/
def Accepted (c : Coupling) (n : Nat) (marks : List Nat) (b b' : Bool) (t t' : Session σ) : Prop :=
  b = b' ∧ (b = true ∧ Coupled c { pending := n, marks } t t' ∨
    b = false ∧ ∃ head, Coupled c { pending := n, marks, heads := [head] } t t')

theorem Coupled.acceptIf (h : Coupled c { pending := n, marks } s s') (accepts : Token → Bool)
    (hsame : ∀ t t', c.Alike t t' → accepts t = accepts t')
    (hend : ∀ t, accepts t = true → t.kind ≠ .endOfFile) :
    Together c (Accepted c n marks)
      ((do
        if accepts (← Session.peek) then
          let _ ← Session.consume
          return true
        else
          return false : Run (Session σ) Bool) s)
      ((do
        if accepts (← Session.peek) then
          let _ ← Session.consume
          return true
        else
          return false : Run (Session σ) Bool) s') := by
  refine h.peek.bind fun t t' u u' hu => ?_
  have haccepts := hsame t t' hu.alike
  cases hb : accepts t' with
  | true =>
    obtain ⟨k, k', i, hconsume, hconsume', -, hi, -, hk⟩ := hu.take (hend t' hb)
    rw [haccepts.trans hb, if_pos rfl, Run.bind_apply, Run.bind_apply, hconsume,
      hconsume']
    exact .answers ⟨rfl, .inl ⟨rfl, hk.weaken hi⟩⟩
  | false =>
    rw [haccepts.trans hb, if_neg Bool.false_ne_true]
    exact .answers ⟨rfl, .inr ⟨rfl, _, hu⟩⟩

/-- A kind that has nothing to do with the border. -/
theorem Coupled.accept (h : Coupled c { pending := n, marks } s s') {kind : Token.Kind}
    (hexecutor : kind ≠ .executor) (hend : kind ≠ .endOfFile) :
    Together c (Accepted c n marks) (Session.accept kind s) (Session.accept kind s') := by
  have hcode : (Session.accept kind : Run (Session σ) Bool) = do
      if decide ((← Session.peek).kind = kind) = true then
        let _ ← Session.consume
        return true
      else
        return false := by
    rw [Session.accept_eq]
    simp only [decide_eq_true_eq]
  rw [hcode]
  refine h.acceptIf (fun t => decide (t.kind = kind)) ?_ ?_
  · intro t t' halike
    exact halike.apply (f := fun k => decide (k = kind))
      (by rw [decide_eq_false hexecutor.symm, decide_eq_false hend.symm])
  · intro t ht
    rw [of_decide_eq_true ht]
    exact hend

theorem Coupled.acceptWord (h : Coupled c { pending := n, marks } s s') (word : String) :
    Together c (Accepted c n marks) (Session.acceptWord word s) (Session.acceptWord word s') := by
  refine h.acceptIf (fun t => t.isWord word) ?_ ?_
  · intro t t' halike
    cases halike with
    | same _ _ => rfl
    | border _ hexecutor _ hlast => simp [Token.isWord, hexecutor, hlast]
  · intro t ht hkind
    simp [Token.isWord, hkind] at ht

theorem Coupled.expect (h : Coupled c { pending := n, marks } s s') {kind : Token.Kind}
    (hexecutor : kind ≠ .executor) (hend : kind ≠ .endOfFile) :
    Together c (fun _ _ t t' => Coupled c { pending := n, marks } t t')
      (Session.expect kind s) (Session.expect kind s') := by
  rw [Session.expect_eq]
  refine (h.accept hexecutor hend).bind ?_
  rintro b _ t t' ⟨rfl, ⟨rfl, ht⟩ | ⟨rfl, ⟨r, r'⟩, ht⟩⟩
  · exact .answers ht
  · exact ht.mismatch _

end Computations

end Dataflow
