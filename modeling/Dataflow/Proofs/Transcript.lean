import Dataflow.Proofs.PairedStatements

/-!
# Dataflow.Proofs.Transcript

**What a session answers**, when it is asked for one statement after the other: every statement or
the end of the input, together with all that the netlist has been told by then, up to and with the
first failure.

* `Reply`, `transcript` — an answer, and the answers to a number of requests;
* `Exceeds` — one of them is that a buffer would have to grow past its limit;
* `Yields` — the requests that have been answered with a statement. Reading all statements is
  making such requests up to the end (`yields_of_parseAll`);
* `Coupled.transcripts` — two sessions side by side whose texts end together have transcripts
  that are alike.
-/

namespace Dataflow.Parser

open Reading Lexer Circuit Session

/-- What a session answers to a request for a statement. -/
structure Reply where
  answer : Except Failure (Option Statement)
  /-- All that the netlist has been told up to the answer. -/
  trace : List Call

/-- The first reply is the second one some lines further down, with more that the netlist has been
told before. -/
structure Reply.Alike (lines : Nat) (before : List Call) (r r' : Reply) : Prop where
  answers : (∃ x, r.answer = .ok x ∧ r'.answer = .ok x) ∨
    ∃ e e', r.answer = .error e ∧ r'.answer = .error e' ∧ Failure.Alike lines e e'
  trace : r.trace = before ++ r'.trace

/-- One of the replies is that a buffer would have to grow past its limit. -/
def Exceeds (replies : List Reply) : Prop :=
  ∃ r ∈ replies, ∃ requested limit, r.answer = .error (.error (.capacityExceeded requested limit))

instance (replies : List Reply) : Decidable (Exceeds replies) :=
  inferInstanceAs (Decidable (∃ r ∈ replies, _))

theorem Exceeds.cons {replies : List Reply} (h : Exceeds replies) (r : Reply) :
    Exceeds (r :: replies) := by
  obtain ⟨r', hmem, hr'⟩ := h
  exact ⟨r', List.mem_cons_of_mem r hmem, hr'⟩

section Requests

variable {σ : Type} [Source σ Char]

/-- What a session answers to `n` requests, up to and with the first failure. -/
def transcript : (n : Nat) → Session σ → List Reply
  | 0, _ => []
  | n + 1, s =>
    match parseStatement s with
    | .ok x t => ⟨.ok x, t.trace⟩ :: transcript n t
    | .error e t => [⟨.error e, t.trace⟩]

variable {s s₁ t : Session σ} {n : Nat}

theorem transcript_ok {x : Option Statement} (h : parseStatement s = .ok x t) :
    transcript (n + 1) s = ⟨.ok x, t.trace⟩ :: transcript n t := by
  simp only [transcript, h]

theorem transcript_error {e : Failure} (h : parseStatement s = .error e t) :
    transcript (n + 1) s = [⟨.error e, t.trace⟩] := by
  simp only [transcript, h]

theorem exceeds_of_parseStatement {requested limit : Nat}
    (h : parseStatement s = .error (.error (.capacityExceeded requested limit)) t) :
    Exceeds (transcript (n + 1) s) := by
  rw [transcript_error h]
  exact ⟨_, List.mem_singleton.2 rfl, requested, limit, rfl⟩

/-- Sessions that answer the next request in the same way do so for good. -/
theorem transcript_congr (h : parseStatement s = parseStatement s₁) (n : Nat) :
    transcript n s = transcript n s₁ := by
  cases n with
  | zero => rfl
  | succ n => simp only [transcript, h]

/-- More requests do not change the answers before them. -/
theorem Exceeds.more (h : Exceeds (transcript n s)) (m : Nat) : Exceeds (transcript (n + m) s) := by
  induction n generalizing s with
  | zero =>
    obtain ⟨r, hmem, -⟩ := h
    cases hmem
  | succ n ih =>
    rw [Nat.add_right_comm]
    cases hs : parseStatement s with
    | error e t =>
      rw [transcript_error hs] at h ⊢
      exact h
    | ok x t =>
      rw [transcript_ok hs] at h ⊢
      obtain ⟨r, hmem, requested, limit, hr⟩ := h
      rcases List.mem_cons.1 hmem with rfl | hmem
      · cases hr
      · exact (ih ⟨r, hmem, requested, limit, hr⟩).cons _

/-- The session answers with these statements, and is then in another state. -/
inductive Yields : Session σ → List Reply → Session σ → Prop where
  | nil (s : Session σ) : Yields s [] s
  | cons {s t u : Session σ} {statement : Statement} {replies : List Reply}
    (h : parseStatement s = .ok (some statement) t) (rest : Yields t replies u) :
    Yields s (⟨.ok (some statement), t.trace⟩ :: replies) u

theorem Yields.transcript_eq {replies : List Reply} (h : Yields s replies t) (n : Nat) :
    transcript (replies.length + n) s = replies ++ transcript n t := by
  induction h with
  | nil s => rw [List.length_nil, Nat.zero_add, List.nil_append]
  | cons hs _ ih =>
    rw [List.length_cons, Nat.add_right_comm, transcript_ok hs, ih]
    rfl

/-- A round of reading all statements: one more of them, or no more. -/
def allRound (done : List Statement) :
    Run (Session σ) (Run.Round (List Statement) (List Statement)) :=
  parseStatement >>= fun x =>
    pure (x.elim (.done done.reverse) fun statement => .again (statement :: done))

theorem parseAll_eq :
    (parseAll : Run (Session σ) (List Statement)) = Run.iterate Session.remaining [] allRound := by
  unfold parseAll allRound
  refine congrArg (Run.iterate _ []) (funext fun done => congrArg (_ >>= ·) (funext fun x => ?_))
  cases x <;> rfl

theorem allRound_ok {x : Option Statement} (h : parseStatement s = .ok x t) (done : List Statement) :
    allRound done s =
      .ok (x.elim (.done done.reverse) fun statement => .again (statement :: done)) t := by
  unfold allRound
  rw [Run.bind_apply, h]
  rfl

theorem allRound_error {e : Failure} (h : parseStatement s = .error e t) (done : List Statement) :
    allRound done s = .error e t := by
  unfold allRound
  rw [Run.bind_apply, h]

/-- Who reads all statements makes requests up to the end. -/
theorem yields_of_parseAll {statements : List Statement} (h : parseAll s = .ok statements t) :
    ∃ replies u, Yields s replies u ∧ parseStatement u = .ok none t ∧
      replies.map Reply.answer = statements.map fun x => .ok (some x) := by
  have key : ∀ rounds done (s : Session σ),
      Run.iterateFor allRound rounds done s = .ok statements t →
      ∃ replies u, Yields s replies u ∧ parseStatement u = .ok none t ∧
        done.reverse.map (fun x => .ok (some x)) ++ replies.map Reply.answer =
          statements.map fun x => .ok (some x) := by
    intro rounds
    induction rounds with
    | zero =>
      intro done s h
      cases h
    | succ rounds ih =>
      intro done s h
      cases hs : parseStatement s with
      | error e u =>
        rw [Run.iterateFor_succ, allRound_error hs] at h
        cases h
      | ok x u =>
        rw [Run.iterateFor_succ, allRound_ok hs] at h
        cases x with
        | none =>
          cases h
          exact ⟨[], s, .nil s, hs, by simp⟩
        | some statement =>
          obtain ⟨replies, v, hyields, hlast, hanswers⟩ := ih (statement :: done) u h
          refine ⟨_, v, .cons hs hyields, hlast, ?_⟩
          rw [← hanswers]
          simp
  rw [parseAll_eq] at h
  obtain ⟨replies, u, hyields, hlast, hanswers⟩ := key _ [] s h
  exact ⟨replies, u, hyields, hlast, by simpa using hanswers⟩

end Requests

section Coupled

variable {σ : Type} [Supply σ Char] {c : Coupling} {n : Nat} {s s' : Session σ}

/-- **Side by side, up to the end of both texts.** Unless one of them needs too large a buffer, two
sessions give replies that are alike. -/
theorem transcripts_alike (h : Coupled c { pending := n } s s') (hbehind : c.behind = none)
    (m : Nat) :
    Exceeds (transcript m s) ∨ Exceeds (transcript m s') ∨
      List.Forall₂ (Reply.Alike c.lines c.old.reverse) (transcript m s) (transcript m s') := by
  have htrace : ∀ {t t' : Session σ}, t.calls = t'.calls ++ c.old →
      t.trace = c.old.reverse ++ t'.trace := by
    intro t t' hcalls
    rw [Session.trace, hcalls, List.reverse_append]
    rfl
  induction m generalizing s s' with
  | zero => exact .inr (.inr .nil)
  | succ m ih =>
    have htogether := (parseStatement_cases h).resolve_left (by
      rintro ⟨s₁, t', -, -, hpassed⟩
      exact hpassed.parted hbehind)
    generalize hs : parseStatement s = r at htogether
    generalize hs' : parseStatement s' = r' at htogether
    cases htogether with
    | parted hparted => exact absurd hbehind hparted
    | exceededFirst => exact .inl (exceeds_of_parseStatement hs)
    | exceededSecond => exact .inr (.inl (exceeds_of_parseStatement hs'))
    | failures halike hcalls =>
      rw [transcript_error hs, transcript_error hs']
      exact .inr (.inr (.cons ⟨.inr ⟨_, _, rfl, rfl, halike⟩, htrace hcalls⟩ .nil))
    | answers hanswers =>
      obtain ⟨rfl, -, hnext⟩ := hanswers
      have hcoupled := hnext.resolve_right fun hpassed => hpassed.parted hbehind
      rw [transcript_ok hs, transcript_ok hs']
      rcases ih hcoupled with hexceeds | hexceeds | halike
      · exact .inl (hexceeds.cons _)
      · exact .inr (.inl (hexceeds.cons _))
      · exact .inr (.inr (.cons ⟨.inl ⟨_, rfl, rfl⟩, htrace hcoupled.calls⟩ halike))

end Coupled

end Dataflow.Parser
