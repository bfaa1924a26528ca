import Dataflow.Proofs.Tiling
import Dataflow.Proofs.Transcript

/-!
# Dataflow.Proofs.Composition

**Programs compose at executors.** A session on a text that is read without an error, an executor
and a line break, and any second text, first answers as a session on the first text alone does, and
then as a fresh session on the second text, with the operators and the netlist that the first text
has left.

The texts are coupled twice. In front of the border the whole text goes with the first one, and
from the border on, some lines further down, with the second one. In between the session on the
whole text has `Passed` the border.
-/

namespace Dataflow

open Reading Lexer Text Circuit

variable {σ : Type} [Supply σ Char] {c : Coupling} {w : View} {s s' : Session σ}

/-- Replacing the end marker makes no line breaks. -/
theorem count_admitted (input : List Char) :
    (input.map admitted).count '\n' = input.count '\n' := by
  induction input with
  | nil => rfl
  | cons a input ih =>
    have hsame : (admitted a == '\n') = (a == '\n') := by
      unfold admitted
      split
      · next ha =>
        rw [ha]
        decide
      · rfl
    rw [List.map_cons, List.count_cons, List.count_cons, ih, hsame]

/-- Two sessions that have no tokens in view and no marks. -/
theorem Coupled.ofFaces {g g' : Setting} {p q : Place} (hd : g.dialect = c.dialect)
    (hd' : g'.dialect = c.narrow) (htable : g.table.AgreesOn (Foreign c.extra) g'.table)
    (hfaces : s.tokens.Faces g { place := p }) (hfaces' : s'.tokens.Faces g' { place := q })
    (hplaces : c.Places p q) (hnetlist : s.netlist = s'.netlist.enriched c.extra)
    (hcalls : s.calls = s'.calls ++ c.old) : Coupled c { pending := q.text.length } s s' := by
  refine ⟨g, g', _, _, hd, hd', htable, hfaces, hfaces', ?_, hnetlist, hcalls⟩
  exact {
    ahead := ⟨[], [], rfl, rfl, .nil⟩
    heads := by simp
    marked := .nil
    place := .inl ⟨hplaces, fun _ => by simp⟩
    pending := by simp [Prospect.pending]
    marks := .nil }

/-- One text for both, from a place on: nothing stands behind it, and only the limits differ. -/
def Coupling.same (d : Dialect) (limits : Limits) (p : Place) : Coupling where
  dialect := d
  limits := limits
  last := p.position.after p.text
  standard := absurd rfl

/-- Sessions with nothing in view that face the same text, at the same place, are coupled. -/
theorem Coupled.ofSame {g g' : Setting} {p : Place} {d : Dialect} {limits : Limits}
    (hd : g.dialect = d) (hd' : g'.dialect = { d with limits }) (htable : g.table = g'.table)
    (hfaces : s.tokens.Faces g { place := p }) (hfaces' : s'.tokens.Faces g' { place := p })
    (hnetlist : s.netlist = s'.netlist) (hcalls : s.calls = s'.calls) :
    Coupled (.same d limits p) { pending := p.text.length } s s' := by
  have hlevel : (Coupling.same d limits p).Level p p :=
    ⟨(List.append_nil _).symm, rfl, rfl, hfaces.text_ne, Coupling.avoids_of_extra rfl _⟩
  have hagree : g.table.AgreesOn (Foreign []) g'.table := htable ▸ .refl fun _ _ _ _ => foreign_nil _
  exact Coupled.ofFaces hd hd' hagree hfaces hfaces' hlevel.places hnetlist
    (hcalls.trans (List.append_nil _).symm)

/-- A text, and the same text with an executor, a line break and more behind it. -/
def Coupling.inFront (limits : Limits) (text more : List Char) : Coupling where
  dialect := .standard limits
  behind := some more
  last := Position.after {} text
  standard := fun _ => ⟨limits, rfl⟩

/-- A fresh session on the longer text goes with a fresh session on the shorter one. -/
theorem Coupled.inFront {source source₁ : σ} {text more : List Char} (limits : Limits)
    (table : Operator.Table) (hsource : Supply.Delivers source (text ++ ' ' :: ';' :: '\n' :: more))
    (hmarker : Source.endMarker source = endOfInput) (hsource₁ : Supply.Delivers source₁ text)
    (hmarker₁ : Source.endMarker source₁ = endOfInput)
    (hne : ∀ a ∈ text ++ ' ' :: ';' :: '\n' :: more, a ≠ endOfInput) :
    Coupled (.inFront limits text more) { pending := text.length }
      (Session.ofSource source (.standard limits) table)
      (Session.ofSource source₁ (.standard limits) table) := by
  have hne₁ : ∀ a ∈ text, a ≠ endOfInput := fun a ha => hne a (List.mem_append_left _ ha)
  have hlevel : (Coupling.inFront limits text more).Level ⟨_, {}⟩ ⟨_, {}⟩ :=
    ⟨rfl, rfl, rfl, hne₁, Coupling.avoids_of_extra rfl _⟩
  have hfaces := Cursor.faces_ofSource (d := .standard limits) (t := table) hsource hmarker hne
  have hfaces₁ := Cursor.faces_ofSource (d := .standard limits) (t := table) hsource₁ hmarker₁ hne₁
  have hagree : table.AgreesOn (Foreign []) table := .refl fun _ _ _ _ => foreign_nil _
  exact Coupled.ofFaces rfl rfl hagree hfaces hfaces₁ hlevel.places rfl rfl

/-- How what stands behind the border belongs to the first text: some lines further down, and with
all that the netlist has been told by then. -/
def Coupling.beyond (c : Coupling) (more : List Char) (old : List Call) : Coupling where
  dialect := c.dialect
  limits := c.limits
  lines := c.last.line + c.lines + 1
  last := Position.after {} more
  old := old
  extra := c.extra
  standard := absurd rfl

/-- A session that has passed the border goes on like a fresh one on the text behind it. -/
theorem Passed.coupled (h : Passed c s s') {more : List Char} (hbehind : c.behind = some more)
    (hne : ∀ a ∈ more, a ≠ endOfInput) (havoids : c.Avoids more) {source : σ}
    (hsource : Supply.Delivers source more) (hmarker : Source.endMarker source = endOfInput) :
    Coupled (c.beyond more s.calls) { pending := more.length } s
      { Session.ofSource source c.narrow s'.table with netlist := s'.netlist } := by
  obtain ⟨g, g', v, v', hd, hd', htable, hfaces, hend, hahead, hmarked, hcrossed, hnetlist, -⟩ := h
  obtain ⟨-, more', hmore, htext, hline⟩ := hcrossed
  rw [hbehind, Option.some.injEq] at hmore
  subst hmore
  obtain ⟨ahead, marked, place⟩ := v
  simp only at hahead hmarked htext hline
  subst hahead hmarked
  refine Coupled.ofFaces (p := place) (q := ⟨more, {}⟩) hd rfl ?_ hfaces
    (Cursor.faces_ofSource hsource hmarker hne) ⟨1, ?_, ?_, ?_, rfl, hne, havoids⟩ hnetlist rfl
  · rw [← hend.1.table_eq] at htable
    exact htable
  · rw [htext]
    intro a ha
    rw [List.take_succ_cons, List.take_zero, List.mem_singleton] at ha
    subst ha
    obtain ⟨limits, hstandard⟩ := c.standard (by simp [hbehind])
    show c.dialect.skips '\n' = true
    rw [hstandard]
    exact Dialect.skips_break limits
  · simp [Place.skip, htext, Coupling.tail, Coupling.beyond]
  · show place.position.after (place.text.take 1) = _
    rw [htext]
    show (place.position.advance '\n') = _
    simp [Position.advance, Position.down, hline, Coupling.beyond]

namespace Parser

/-- The next request is answered as by a session that has passed the border, or there is too large
a buffer needed for it. -/
def Passes (c : Coupling) (s s' : Session σ) : Prop :=
  (∃ s₁, parseStatement s = parseStatement s₁ ∧ Passed c s₁ s') ∨
    ∃ requested limit t,
      parseStatement s = .error (.error (.capacityExceeded requested limit)) t

/-- In front of the border, the session on the whole text answers like the other one. When that has
no more statements, the first one passes the border. -/
theorem yields_before {replies : List Reply} {u t : Session σ} {n : Nat}
    (hyields : Yields s' replies u) (hlast : parseStatement u = .ok none t)
    (h : Coupled c { pending := n } s s' ∨ Passed c s s') (hparted : c.behind ≠ none)
    (hold : c.old = []) :
    Exceeds (transcript replies.length s) ∨ ∃ v, Yields s replies v ∧ Passes c v t := by
  -- Along what the session on the first text answers, which has no more statements when it has passed.
  induction hyields generalizing s with
  | nil s' =>
    refine .inr ⟨s, .nil s, ?_⟩
    rcases h with hcoupled | hpassed
    · rcases parseStatement_cases hcoupled with ⟨s₁, t', hs, hs', hpassed⟩ | htogether
      · rw [hlast] at hs'
        cases hs'
        exact .inl ⟨s₁, hs, hpassed⟩
      · rw [hlast] at htogether
        generalize hs : parseStatement s = r at htogether
        cases htogether with
        | answers hanswers =>
          obtain ⟨rfl, hbehind, -⟩ := hanswers
          exact absurd (hbehind rfl) hparted
        | exceededFirst => exact .inr ⟨_, _, _, hs⟩
    · obtain ⟨t', hs', hpassed'⟩ := hpassed.parseStatement
      rw [hlast] at hs'
      cases hs'
      exact .inl ⟨s, rfl, hpassed'⟩
  | @cons s' t' u statement replies hs' hrest ih =>
    rcases h with hcoupled | hpassed
    · rcases parseStatement_cases hcoupled with ⟨s₁, t', -, hnone, -⟩ | htogether
      · rw [hs'] at hnone
        cases hnone
      · rw [hs'] at htogether
        generalize hs : parseStatement s = r at htogether
        cases htogether with
        | exceededFirst => exact .inl (exceeds_of_parseStatement hs)
        | @answers _ _ v _ hanswers =>
          obtain ⟨rfl, -, hnext⟩ := hanswers
          have htrace : v.trace = t'.trace := by
            have hcalls : v.calls = t'.calls ++ c.old :=
              hnext.elim Coupled.calls Passed.calls
            rw [Session.trace, hcalls, hold, List.append_nil]
            rfl
          rcases ih hlast hnext with hexceeds | ⟨v', hyields, hpasses⟩
          · rw [List.length_cons, transcript_ok hs]
            exact .inl (hexceeds.cons _)
          · rw [← htrace]
            exact .inr ⟨v', .cons hs hyields, hpasses⟩
    · obtain ⟨v, hnone, -⟩ := hpassed.parseStatement
      rw [hs'] at hnone
      cases hnone

variable {source source₁ source₂ : σ} {input₁ input₂ : List Char}

/-- **Programs compose at executors.** Let a session on the first text read all its statements. A
session on the first text, an executor, a line break and the second text gives the same replies,
and then, some lines further down and with all that the netlist has been told before, the replies
of a fresh session on the second text, with the operators and the netlist that the first text has
left; unless one of the sessions needs too large a buffer. -/
theorem transcript_append (limits : Limits) (table : Operator.Table)
    (hsource : Supply.Delivers source ((input₁ ++ ' ' :: ';' :: '\n' :: input₂).map admitted))
    (hmarker : Source.endMarker source = endOfInput)
    (hsource₁ : Supply.Delivers source₁ (input₁.map admitted))
    (hmarker₁ : Source.endMarker source₁ = endOfInput)
    (hsource₂ : Supply.Delivers source₂ (input₂.map admitted))
    (hmarker₂ : Source.endMarker source₂ = endOfInput) {statements : List Statement}
    {t : Session σ}
    (hparse : parseAll (Session.ofSource source₁ (.standard limits) table) = .ok statements t) :
    ∃ replies, replies.map Reply.answer = statements.map (fun x => .ok (some x)) ∧
      transcript (replies.length + 1) (Session.ofSource source₁ (.standard limits) table) =
        replies ++ [⟨.ok none, t.trace⟩] ∧
      ∀ n, Exceeds (transcript (replies.length + n) (Session.ofSource source (.standard limits) table)) ∨
        Exceeds (transcript n
          { Session.ofSource source₂ (.standard limits) t.table with netlist := t.netlist }) ∨
        ∃ further,
          transcript (replies.length + n) (Session.ofSource source (.standard limits) table) =
            replies ++ further ∧
          List.Forall₂ (Reply.Alike (input₁.count '\n' + 1) t.trace) further (transcript n
            { Session.ofSource source₂ (.standard limits) t.table with netlist := t.netlist }) := by
  have hne {input : List Char} : ∀ a ∈ input.map admitted, a ≠ endOfInput := by
    intro a ha
    obtain ⟨b, -, rfl⟩ := List.mem_map.1 ha
    exact admitted_ne_endOfInput b
  obtain ⟨replies, u, hyields, hlast, hanswers⟩ := yields_of_parseAll hparse
  refine ⟨replies, hanswers, ?_, fun n => ?_⟩
  · rw [hyields.transcript_eq, transcript_ok hlast]
    rfl
  have htext : (input₁ ++ ' ' :: ';' :: '\n' :: input₂).map admitted =
      input₁.map admitted ++ ' ' :: ';' :: '\n' :: input₂.map admitted := by
    rw [List.map_append]
    rfl
  rw [htext] at hsource
  have hcoupled := Coupled.inFront limits table hsource hmarker hsource₁ hmarker₁
    (by rw [← htext]; exact hne)
  rcases yields_before hyields hlast (.inl hcoupled) (Option.some_ne_none _) rfl with
    hexceeds | ⟨v, hwhole, hpasses⟩
  · exact .inl (hexceeds.more n)
  rw [hwhole.transcript_eq]
  rcases hpasses with ⟨s₁, hcongr, hpassed⟩ | ⟨requested, limit, v', hexceeded⟩
  · have hcalls : s₁.calls = t.calls := hpassed.calls.trans (List.append_nil _)
    have hlines : (Position.after {} (input₁.map admitted)).line + 0 + 1 =
        input₁.count '\n' + 1 := by
      rw [Position.after_eq_behind, Position.behind, count_admitted]
    have hbeyond := transcripts_alike (hpassed.coupled rfl hne (Coupling.avoids_of_extra rfl _)
      hsource₂ hmarker₂) rfl n
    rw [transcript_congr hcongr]
    rcases hbeyond with hexceeds | hexceeds | halike
    · left
      obtain ⟨r, hmem, hr⟩ := hexceeds
      exact ⟨r, List.mem_append_right _ hmem, hr⟩
    · exact .inr (.inl hexceeds)
    · refine .inr (.inr ⟨_, rfl, ?_⟩)
      rw [← hlines, Session.trace, ← hcalls]
      exact halike
  · cases n with
    | zero => exact .inr (.inr ⟨[], rfl, .nil⟩)
    | succ n =>
      obtain ⟨r, hmem, hr⟩ := exceeds_of_parseStatement (n := n) hexceeded
      exact .inl ⟨r, List.mem_append_right _ hmem, hr⟩

/-- The first text defines the symbol that the second one uses, before that is broken off. -/
theorem transcript_of_definition_and_use : ∃ (statements : List Statement) (t : Session (Items Char)),
    parseAll (Session.ofSource (Items.ofText "define entity Twice ~~ prefix 5") (.standard {}) .standard) =
        .ok statements t ∧
      ∃ replies, replies.map Reply.answer = statements.map (fun x => .ok (some x)) ∧
        transcript (replies.length + 1) (Session.ofSource
            (Items.ofText "define entity Twice ~~ prefix 5") (.standard {}) .standard) =
          replies ++ [⟨.ok none, t.trace⟩] ∧
        ∀ n, Exceeds (transcript (replies.length + n) (Session.ofSource
              (Items.ofText "define entity Twice ~~ prefix 5 ;\n~~a ; )") (.standard {})
              .standard)) ∨
          Exceeds (transcript n { Session.ofSource (Items.ofText "~~a ; )") (.standard {}) t.table
            with netlist := t.netlist }) ∨
          ∃ further,
            transcript (replies.length + n) (Session.ofSource
                (Items.ofText "define entity Twice ~~ prefix 5 ;\n~~a ; )") (.standard {})
                .standard) = replies ++ further ∧
              List.Forall₂ (Reply.Alike 1 t.trace) further (transcript n
                { Session.ofSource (Items.ofText "~~a ; )") (.standard {}) t.table
                  with netlist := t.netlist }) := by
  have hparse := Run.eq_ok_of_isSome (r := parseAll (Session.ofSource
    (Items.ofText "define entity Twice ~~ prefix 5") (.standard {}) .standard))
    (by decide +kernel)
  have hsource : Supply.Delivers (Items.ofText "define entity Twice ~~ prefix 5 ;\n~~a ; )")
      (("define entity Twice ~~ prefix 5".toList ++ ' ' :: ';' :: '\n' ::
        "~~a ; )".toList).map admitted) := rfl
  exact ⟨_, _, hparse, transcript_append {} .standard hsource rfl rfl rfl rfl rfl hparse⟩

end Parser

end Dataflow
