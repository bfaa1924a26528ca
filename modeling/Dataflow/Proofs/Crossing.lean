import Dataflow.Proofs.Ending
import Dataflow.Proofs.Pairing

/-!
# Dataflow.Proofs.Crossing

**Executors side by side.** Where the second text ends at the border, the first session takes the
executor there and the second one does not. From then on the first session is `Passed`: it stands
behind the border, and the second one at its end.

Skipping executors takes the first session across the border and further on. That is the same as
skipping executors from behind the border on (`skip_of_accept`, `skip_cases`).
-/

namespace Dataflow

open Reading Lexer Text Circuit

variable {σ : Type} [Supply σ Char] {g : Setting} {v : Prospect} {n : Nat} {s s' : Session σ}

/-! ### Skipping -/

/-- No more tokens than this are to come, each of which takes something of the text. -/
def Finite (n : Nat) (s : Session σ) : Prop :=
  ∃ g v, g.dialect.Plain ∧ s.tokens.Faces g v ∧
    (∀ t ∈ v.ahead, t.kind ≠ .endOfFile → t.span.isEmpty = false) ∧ v.pending ≤ n

theorem Finite.tight (h : Finite n s) : Finite s.remaining s := by
  obtain ⟨g, v, hplain, hfaces, hcovers, -⟩ := h
  exact ⟨g, v, hplain, hfaces, hcovers, hfaces.pending_le⟩

/-- The next token is in view, or there is an error. -/
theorem Finite.peek (h : Finite n s) :
    Run.Ends (fun token t => ∃ g v rest, g.dialect.Plain ∧ t.tokens.Faces g v ∧
        (∀ t ∈ v.ahead, t.kind ≠ .endOfFile → t.span.isEmpty = false) ∧ v.pending ≤ n ∧
        v.ahead = token :: rest)
      (fun e _ => e ≠ .stalled) (Session.peek s) := by
  obtain ⟨g, v, hplain, hfaces, hcovers, hn⟩ := h
  cases hahead : v.ahead with
  | cons token rest =>
    obtain ⟨c, hlook, hc⟩ := hfaces.lookahead_held (k := 0) (t := token)
      (by rw [hahead]; rfl)
    rw [show Session.peek s = _ from Session.onTokens_ok hlook]
    exact ⟨g, v, rest, hplain, hc, hcovers, hn, hahead⟩
  | nil =>
    refine (Session.onTokens_ends (hfaces.lookahead_next (by rw [hahead]; rfl)
      (Nat.zero_le 1))).mono ?_ ?_
    · rintro token t ⟨c, ⟨q, hq, hc⟩, rfl⟩
      have hscan := Prospect.covering_scan hq
      refine ⟨g, _, [], hplain, hc, ?_, ?_, by simp [Prospect.scan, hahead]⟩
      · intro t ht hkind
        rw [Prospect.scan, hahead, List.nil_append, List.mem_singleton] at ht
        subst ht
        exact Place.covers_of_plain hq hplain hkind
      · unfold Prospect.pending at hn ⊢
        rw [hahead] at hn
        show covering (v.ahead ++ [token]) + q.text.length ≤ n
        rw [hahead, List.nil_append]
        simp at hn
        omega
    · rintro e t ⟨c, ⟨⟨_, _, rfl⟩, -⟩ | ⟨cause, -, rfl⟩, rfl⟩ <;> simp

/-- Taking a token leaves fewer to come. -/
theorem Finite.accept (h : Finite n s) {kind : Token.Kind} (hkind : kind ≠ .endOfFile) :
    Run.Ends (fun accepted t => accepted = true → ∃ m, m < n ∧ Finite m t)
      (fun e _ => e ≠ .stalled) (Session.accept kind s) := by
  rw [Session.accept_eq]
  refine h.peek.bind ?_ fun _ _ he => he
  rintro token t ⟨g, v, rest, hplain, hfaces, hcovers, hn, hahead⟩
  by_cases hk : token.kind = kind
  · have hcover := hcovers token (by simp [hahead]) (by rw [hk]; exact hkind)
    obtain ⟨c, hconsume, hc⟩ := hfaces.consume_held hahead fun _ => hcover
    rw [if_pos hk, Run.bind_apply, show Session.consume t = _ from Session.onTokens_ok hconsume]
    intro _
    have hpending : 1 + (covering rest + v.place.text.length) ≤ n := by
      unfold Prospect.pending at hn
      rw [hahead, covering_cons, covering_of_covers hcover, Nat.add_assoc] at hn
      exact hn
    refine ⟨n - 1, by omega, g, _, hplain, hc, fun t ht => hcovers t ?_, ?_⟩
    · rw [hahead]
      exact List.mem_cons_of_mem _ ht
    · exact Nat.le_sub_of_add_le' hpending
  · rw [if_neg hk]
    intro haccepted
    cases haccepted

/-- Skipping ends before it runs out of rounds. -/
theorem Finite.skip_ne_stalled {rounds : Nat} (h : Finite n s) (hn : n < rounds)
    {kind : Token.Kind} (hkind : kind ≠ .endOfFile) (t : Session σ) :
    Run.iterateFor (Session.skipRound kind) rounds () s ≠ .error .stalled t := by
  induction rounds generalizing n s with
  | zero => exact absurd hn (Nat.not_lt_zero n)
  | succ rounds ih =>
    have haccept := h.accept hkind
    rw [Run.iterateFor_succ]
    unfold Session.skipRound
    rw [Run.bind_apply]
    cases hx : Session.accept kind s with
    | error e u =>
      rintro ⟨⟩
      exact haccept.of_error hx rfl
    | ok accepted u =>
      cases accepted with
      | false => rintro ⟨⟩
      | true =>
        obtain ⟨m, hm, hu⟩ := haccept.of_ok hx rfl
        exact ih hu (by omega)

/-- Skipping is taking one token after the other. -/
theorem skip_eq (h : Finite n s) {kind : Token.Kind} (hkind : kind ≠ .endOfFile) :
    Session.skip kind s =
      (Session.accept kind >>= fun accepted =>
        if accepted then Session.skip kind else pure ()) s := by
  show Run.iterateFor (Session.skipRound kind) (s.remaining + 1) () s = _
  rw [Run.iterateFor_succ, Run.bind_apply]
  unfold Session.skipRound
  rw [Run.bind_apply]
  cases haccept : Session.accept kind s with
  | error e t => rfl
  | ok accepted t =>
    cases accepted with
    | false => rfl
    | true =>
      -- So many rounds are left that more of them make no difference.
      obtain ⟨m, hm, ht⟩ := (h.tight.accept hkind).of_ok haccept rfl
      show Run.iterateFor (Session.skipRound kind) s.remaining () t =
        Run.iterateFor (Session.skipRound kind) (t.remaining + 1) () t
      rw [← Run.iterateFor_mono (ht.skip_ne_stalled hm hkind) (t.remaining + 1),
        ← Run.iterateFor_mono (ht.tight.skip_ne_stalled (Nat.lt_succ_self _) hkind) s.remaining,
        Nat.add_comm]

/-! ### The border -/

variable {c : Coupling} {w : View}

theorem Coupling.covers_of_forall₂ {tokens tokens' : List Token} (hplain : c.dialect.Plain)
    (h : List.Forall₂ c.Alike tokens tokens') :
    (∀ t ∈ tokens, t.kind ≠ .endOfFile → t.span.isEmpty = false) ∧
      ∀ t ∈ tokens', t.kind ≠ .endOfFile → t.span.isEmpty = false := by
  induction h with
  | nil => simp
  | cons hfirst _ ih =>
    rw [List.forall_mem_cons, List.forall_mem_cons]
    refine ⟨⟨fun hkind => ?_, ih.1⟩, fun hkind => (hfirst.covers hkind (.inl hplain)).2, ih.2⟩
    cases hfirst with
    | same hcovers _ => exact (Span.isEmpty_down c.lines _).trans (hcovers hkind (.inl hplain))
    | border _ _ hcovers _ => exact hcovers

theorem Coupled.finite (h : Coupled c w s s') (hplain : c.dialect.Plain) :
    (∃ n, Finite n s) ∧ ∃ n, Finite n s' := by
  obtain ⟨g, g', v, v', hd, hd', -, hfaces, hfaces', hmatches, -⟩ := h
  obtain ⟨hcovers, hcovers'⟩ := Coupling.covers_of_forall₂ hplain hmatches.forall₂_ahead
  exact ⟨⟨_, g, v, hd ▸ hplain, hfaces, hcovers, Nat.le_refl _⟩,
    ⟨_, g', v', hd' ▸ c.plain_narrow.2 hplain, hfaces', hcovers', Nat.le_refl _⟩⟩

/-- The first session is behind the executor at the border, and the second one at the end of its
text. Nothing is marked. -/
def Passed (c : Coupling) (s s' : Session σ) : Prop :=
  ∃ g g' v v', g.dialect = c.dialect ∧ g'.dialect = c.narrow ∧
    g.table.AgreesOn (Foreign c.extra) g'.table ∧
    s.tokens.Faces g v ∧ s'.AtEnd g' v' ∧ v.ahead = [] ∧ v.marked = [] ∧
    c.Crossed v.place v'.place ∧ s.netlist = s'.netlist.enriched c.extra ∧
    s.calls = s'.calls ++ c.old

theorem Passed.atEnd (h : Passed c s s') : ∃ g v, s'.AtEnd g v := by
  obtain ⟨g, g', v, v', -, -, -, -, hend, -⟩ := h
  exact ⟨g', v', hend⟩

/-- The second session still sees the end. -/
theorem Passed.peekKind (h : Passed c s s') :
    ∃ t', Session.peekKind s' = .ok .endOfFile t' ∧ Passed c s t' := by
  obtain ⟨g, g', v, v', hd, hd', htable, hfaces, hend, hrest⟩ := h
  obtain ⟨tokens, hpeek, htokens⟩ := hend.peekKind
  exact ⟨_, hpeek, g, g', v, v', hd, hd', htable, hfaces, htokens, hrest⟩

/-- The second session finds no more statements. -/
theorem Passed.parseStatement (h : Passed c s s') :
    ∃ t', Parser.parseStatement s' = .ok none t' ∧ Passed c s t' := by
  obtain ⟨g, g', v, v', hd, hd', htable, hfaces, hend, hrest⟩ := h
  obtain ⟨tokens, hparse, htokens⟩ := Parser.parseStatement_atEnd hend
  exact ⟨_, hparse, g, g', v, v', hd, hd', htable, hfaces, htokens, hrest⟩

theorem Passed.calls (h : Passed c s s') : s.calls = s'.calls ++ c.old := by
  obtain ⟨g, g', v, v', -, -, -, -, -, -, -, -, -, hcalls⟩ := h
  exact hcalls

theorem Passed.parted (h : Passed c s s') : c.behind ≠ none := by
  obtain ⟨g, g', v, v', -, -, -, -, -, -, -, ⟨-, more, hmore, -⟩, -⟩ := h
  simp [hmore]

omit [Supply σ Char] in
theorem Together.of_fails {β γ : Type} {Q : β → γ → Session σ → Session σ → Prop}
    {r : EStateM.Result Failure (Session σ) β} {r' : EStateM.Result Failure (Session σ) γ}
    (hparted : c.behind ≠ none) (h : Fails r') : Together c Q r r' := by
  cases r' with
  | ok b t => exact h.elim
  | error e t => exact .parted hparted

/-- At the border, the first session takes the executor. -/
theorem Coupled.pass {t t' : Token} (h : Coupled c ⟨n, [], [(t, t')]⟩ s s')
    (hparted : c.behind ≠ none) (hend : t'.kind = .endOfFile)
    (hcovers : t.span.isEmpty = false) :
    ∃ u, Session.consume s = .ok t u ∧ Passed c u s' := by
  obtain ⟨g, g', v, v', hd, hd', htable, hfaces, hfaces', hmatches, hrest⟩ := h
  obtain ⟨rest, rest', hahead, hahead', hrests⟩ := hmatches.ahead
  have hfront : v.ahead = t :: rest := hahead
  have hfront' : v'.ahead = t' :: rest' := hahead'
  obtain ⟨hcrossed, hended⟩ := hmatches.place.resolve_left (by
    rintro ⟨-, hopen⟩
    exact hopen hparted _ List.mem_cons_self t' (by simp [hfront']) hend)
  have hnil' : rest' = [] := (hfront' ▸ hended _ List.mem_cons_self : Ended (t' :: rest')).eq_nil hend
  have hnil : rest = [] := by
    rw [hnil'] at hrests
    exact List.forall₂_nil_right_iff.1 hrests
  have hmarked : v.marked = [] := by
    have hmarked := hmatches.marked
    rw [List.forall₂_nil_right_iff.1 hmatches.marks] at hmarked
    exact List.forall₂_nil_right_iff.1 hmarked
  obtain ⟨k, hconsume, hk⟩ := hfaces.consume_held hfront fun _ => hcovers
  exact ⟨_, Session.onTokens_ok hconsume, g, g', _, v', hd, hd', htable, hk,
    ⟨hfaces', t', rest', hfront', hend⟩, hnil, hmarked, hcrossed, hrest⟩

/-- How two sessions can be after they have tried to take an executor. Where the end marker is one,
taking it leads nowhere. -/
def Tried (c : Coupling) (n : Nat) (b b' : Bool) (t t' : Session σ) : Prop :=
  (b = true ∧ b' = true ∧ ∃ m, m ≤ n ∧ Coupled c { pending := m } t t' ∧
    (m < n ∨ c.behind = none ∧ t.Endless .executor ∧ t'.Endless .executor)) ∨
  (b = false ∧ b' = false ∧ ∃ r r', Coupled c ⟨n, [], [(r, r')]⟩ t t' ∧
    (r'.kind = .endOfFile → c.behind = none)) ∨
  (b = true ∧ b' = false ∧ Passed c t t')

theorem Coupling.plain (c : Coupling) (hparted : c.behind ≠ none) : c.dialect.Plain := by
  obtain ⟨limits, hd⟩ := c.standard hparted
  rw [hd]
  exact Dialect.plain_standard limits

theorem Coupled.acceptExecutor (h : Coupled c { pending := n } s s') :
    Together c (Tried c n) (Session.accept .executor s) (Session.accept .executor s') := by
  rw [Session.accept_eq]
  refine h.peek.bind fun t t' u u' hu => ?_
  cases hu.alike with
  | same hcovers hlast =>
    refine .ite Iff.rfl (fun hkind => ?_) fun _ => .answers (.inr (.inl ⟨rfl, rfl, _, _, hu, hlast⟩))
    have hkind : t'.kind = .executor := hkind
    have hend : t'.kind ≠ .endOfFile := by simp [hkind]
    obtain ⟨k, k', m, hconsume, hconsume', -, hm, hless, hk⟩ := hu.take hend
    rw [Run.bind_apply, Run.bind_apply, hconsume, hconsume']
    refine .answers (.inl ⟨rfl, rfl, m, hm, hk, ?_⟩)
    cases hempty : t'.span.isEmpty with
    | false => exact .inl (hless hempty)
    | true =>
      have hbehind : c.behind = none := by
        refine Classical.not_not.1 fun hparted => ?_
        rw [hcovers hend (.inl (c.plain hparted))] at hempty
        cases hempty
      obtain ⟨hleft, hright⟩ := hu.endless hend hempty
      rw [hkind] at hleft hright
      exact .inr ⟨hbehind, ((hleft.consume (by simp)).of_ok hconsume).1.2,
        ((hright.consume (by simp)).of_ok hconsume').1.2⟩
  | border hparted hexecutor hcovers hlast =>
    obtain ⟨k, hconsume, hk⟩ := hu.pass hparted hlast hcovers
    rw [if_pos hexecutor, if_neg (by simp [hlast]), Run.bind_apply, hconsume]
    exact .answers (.inr (.inr ⟨rfl, rfl, hk⟩))

/-- Where the texts end together, both sessions stop skipping at the same token, or neither of them
stops. -/
theorem skip_together (h : Coupled c { pending := n } s s') (hbehind : c.behind = none) :
    Together c (fun _ _ t t' => ∃ r r', Coupled c ⟨n, [], [(r, r')]⟩ t t' ∧
        (r'.kind = .endOfFile → c.behind = none))
      (Session.skip .executor s) (Session.skip .executor s') := by
  have key : ∀ rounds rounds' m (t t' : Session σ), m < rounds → m < rounds' → m ≤ n →
      Coupled c { pending := m } t t' →
      Together c (fun _ _ u u' => ∃ r r', Coupled c ⟨n, [], [(r, r')]⟩ u u' ∧
          (r'.kind = .endOfFile → c.behind = none))
        (Run.iterateFor (Session.skipRound .executor) rounds () t)
        (Run.iterateFor (Session.skipRound .executor) rounds' () t') := by
    intro rounds
    induction rounds with
    | zero => exact fun rounds' m t t' hrounds => absurd hrounds (Nat.not_lt_zero m)
    | succ rounds ih =>
      intro rounds' m t t' hrounds hrounds' hm ht
      cases rounds' with
      | zero => exact absurd hrounds' (Nat.not_lt_zero m)
      | succ rounds' =>
        rw [Run.iterateFor, Run.iterateFor]
        unfold Session.skipRound
        rw [bind_assoc, bind_assoc]
        refine ht.acceptExecutor.bind ?_
        rintro b b' u u' (⟨rfl, rfl, k, hk, hu, hless | ⟨-, hleft, hright⟩⟩ |
          ⟨rfl, rfl, r, r', hu, hlast⟩ | ⟨rfl, rfl, hu⟩)
        · exact ih rounds' k u u' (by omega) (by omega) (by omega) hu
        · exact .of_halts (hleft.skip_halts (by simp) rounds) (hright.skip_halts (by simp) rounds')
            hu.calls
        · exact .answers ⟨r, r', hu.weaken hm, hlast⟩
        · exact absurd hbehind hu.parted
  obtain ⟨m, hm, hremaining, hremaining', htight⟩ := h.tight
  exact key _ _ m s s' (Nat.lt_succ_of_le hremaining) (Nat.lt_succ_of_le hremaining') hm htight

/-- **Skipping executors side by side.** Either both sessions stop at the same token, or the first
one crosses the border, and the second one stops at the end. -/
theorem skip_cases (h : Coupled c { pending := n } s s') :
    (∃ s₁ t', Session.skip .executor s = Session.skip .executor s₁ ∧
      Session.skip .executor s' = .ok () t' ∧ Passed c s₁ t') ∨
    Together c (fun _ _ t t' => ∃ r r', Coupled c ⟨n, [], [(r, r')]⟩ t t' ∧
        (r'.kind = .endOfFile → c.behind = none))
      (Session.skip .executor s) (Session.skip .executor s') := by
  by_cases hbehind : c.behind = none
  · exact .inr (skip_together h hbehind)
  have hplain := c.plain hbehind
  induction n using Nat.strongRecOn generalizing s s' with
  | ind n ih =>
    obtain ⟨⟨k, hfinite⟩, k', hfinite'⟩ := h.finite hplain
    by_cases hcross : ∃ t t', Session.accept .executor s = .ok true t ∧
        Session.accept .executor s' = .ok false t' ∧ Passed c t t'
    · obtain ⟨t, t', haccept, haccept', hpassed⟩ := hcross
      refine .inl ⟨t, t', ?_, ?_, hpassed⟩
      · rw [skip_eq hfinite (by simp), Run.bind_apply, haccept]
        rfl
      · rw [skip_eq hfinite' (by simp), Run.bind_apply, haccept']
        rfl
    by_cases htaken : ∃ t t' m, Session.accept .executor s = .ok true t ∧
        Session.accept .executor s' = .ok true t' ∧ m < n ∧ Coupled c { pending := m } t t'
    · obtain ⟨t, t', m, haccept, haccept', hm, ht⟩ := htaken
      have hskip : Session.skip .executor s = Session.skip .executor t := by
        rw [skip_eq hfinite (by simp), Run.bind_apply, haccept]
        rfl
      have hskip' : Session.skip .executor s' = Session.skip .executor t' := by
        rw [skip_eq hfinite' (by simp), Run.bind_apply, haccept']
        rfl
      rw [hskip, hskip']
      refine (ih m hm ht).imp id fun htogether => ?_
      refine htogether.mono ?_
      rintro _ _ u u' ⟨r, r', hu, hend⟩
      exact ⟨r, r', hu.weaken (Nat.le_of_lt hm), hend⟩
    right
    rw [skip_eq hfinite (by simp), skip_eq hfinite' (by simp)]
    refine h.acceptExecutor.bind_eq ?_
    rintro b b' t t' haccept haccept' (⟨rfl, rfl, m, -, ht, hless | ⟨hnone, -⟩⟩ | ⟨rfl, rfl, ht⟩ |
      ⟨rfl, rfl, ht⟩)
    · exact absurd ⟨t, t', m, haccept, haccept', hless, ht⟩ htaken
    · exact absurd hnone hbehind
    · exact .answers ht
    · exact absurd ⟨t, t', haccept, haccept', ht⟩ hcross

end Dataflow
