import Dataflow.Proofs.Walk

/-!
# Dataflow.Proofs.Backtracking

**A cursor is a place in a stream.** Whatever sequence of operations is carried out on a cursor,
its answers are those of a `Walk`: of a position in a stream of elements, with a stack of
positions to go back to. The sizes of the buffer, the portions in which the source hands its
elements out and the moments at which consumed elements are dropped make no difference.

* `Step` — an operation, with `Step.perform` for what it does to a cursor and `Walk.step` for what
  it does to a walk;
* `Outcome` — what is seen of an operation. Of an error that something else was expected, the
  context is left out: it shows what stands behind the cursor as far as it has not been dropped;
* `Step.Balanced` — operations that give back exactly the marks that they set.

Two things are left to the caller of a cursor: marks are not given back that were never set, and
the limit of the buffer is not run into. Under both, `outcomes_eq_walk` is the whole truth about
what a cursor answers.
-/

namespace Dataflow.Reading

open Text

/-- A source together with what it delivers. -/
structure Stream (σ : Type) {α : Type} [Supply σ α] where
  source : σ
  elements : List α
  delivers : Supply.Delivers source elements

variable {σ α κ : Type} [Supply σ α]

/-- The walk at the start of a stream. -/
def Stream.walk (s : Stream σ) : Walk α where
  elements := s.elements
  endMarker := Source.endMarker s.source

/-- An operation on a cursor over a source of type `σ`, with elements that are told apart by kinds
of type `κ`. -/
inductive Step (σ κ : Type) {α : Type} [Supply σ α] where
  | consume
  | peek
  | lookahead (k : Nat)
  | kindAt (k : Nat)
  | accept (kind : κ)
  /-- The next element has to be of the kind. -/
  | matchKind (kind : κ)
  /-- The same, with the element as the answer. -/
  | matchGet (kind : κ)
  /-- Makes the error that something else is expected, without ending in it. -/
  | mismatch (expected : String)
  | unexpectedOperand
  | context
  | mark
  | commit
  | rollback
  /-- Goes on with the start of another stream. -/
  | reset (stream : Stream σ)

/-- What is seen of an operation. -/
inductive Outcome (α κ : Type) where
  | element (a : α)
  | kind (k : κ)
  | accepted (a : Option α)
  /-- Something else was expected than `found`. -/
  | refused (expected found : String) (span : Option Span)
  /-- Nothing is said of the answer, or there is none. -/
  | done
  | failed (f : Failure)
deriving DecidableEq

/-- What is seen of a failure. -/
def Outcome.ofFailure : Failure → Outcome α κ
  | .error (.mismatch expected found _ span) => refused expected found span
  | f => failed f

/-- Whether the limit of the buffer has been run into. -/
def Outcome.isExceeded : Outcome α κ → Bool
  | failed (.error (.capacityExceeded _ _)) => true
  | _ => false

/-! ### Steps of a cursor -/

namespace Step

variable [Element α κ] [DecidableEq κ]

/-- Carries an operation out. -/
def run : Step σ κ → Run (Cursor σ α) (Outcome α κ)
  | consume => Outcome.element <$> Cursor.consume
  | peek => Outcome.element <$> Cursor.peek
  | lookahead k => Outcome.element <$> Cursor.lookahead k
  | kindAt k => Outcome.kind <$> Cursor.kindAt k
  | accept kind => Outcome.accepted <$> Cursor.accept kind
  | matchKind kind => (fun _ => Outcome.done) <$> Cursor.expect kind
  | matchGet kind => Outcome.element <$> Cursor.expect kind
  | mismatch expected => (fun _ => Outcome.done) <$> Cursor.mismatch expected
  | unexpectedOperand => (fun _ => Outcome.done) <$> Cursor.unexpectedOperand
  | context => (fun _ => Outcome.done) <$> Cursor.context
  | mark => (fun _ => Outcome.done) <$> Cursor.mark
  | commit => (fun _ => Outcome.done) <$> Cursor.commit
  | rollback => (fun _ => Outcome.done) <$> Cursor.rollback
  | reset stream => (fun _ => Outcome.done) <$> modify fun c => c.reset stream.source

/-- What is seen of an operation, and the cursor behind it. An error leaves a cursor too. -/
def perform (s : Step σ κ) (c : Cursor σ α) : Outcome α κ × Cursor σ α :=
  match s.run c with
  | .ok o c => (o, c)
  | .error f c => (.ofFailure f, c)

/-- What is seen of several operations, one after the other. -/
def outcomes : List (Step σ κ) → Cursor σ α → List (Outcome α κ)
  | [], _ => []
  | s :: rest, c => (s.perform c).1 :: outcomes rest (s.perform c).2

/-- The cursor behind several operations. -/
def after (steps : List (Step σ κ)) (c : Cursor σ α) : Cursor σ α :=
  steps.foldl (fun c s => (s.perform c).2) c

theorem outcomes_append (first second : List (Step σ κ)) (c : Cursor σ α) :
    outcomes (first ++ second) c = outcomes first c ++ outcomes second (after first c) := by
  induction first generalizing c with
  | nil => rfl
  | cons s first ih =>
    rw [List.cons_append, outcomes, outcomes, ih, List.cons_append]
    rfl

omit [Element α κ] [DecidableEq κ] in
/-- How many of the marks that the operations set are left, when they begin with `n`; nothing if
one is given back that they have not set, or if they leave the stream. -/
def marksLeft : List (Step σ κ) → Nat → Option Nat
  | [], n => some n
  | mark :: rest, n => marksLeft rest (n + 1)
  | commit :: rest, n + 1 | rollback :: rest, n + 1 => marksLeft rest n
  | commit :: _, 0 | rollback :: _, 0 | reset _ :: _, _ => none
  | _ :: rest, n => marksLeft rest n

/-- The operations give back the marks that they set and no others, and stay in the stream. -/
def Balanced (steps : List (Step σ κ)) : Prop := marksLeft steps 0 = some 0

end Step

/-! ### Steps of a walk -/

namespace Walk

variable [Element α κ] [DecidableEq κ]

omit [DecidableEq κ] in
/-- The refusal of the next element where another kind is expected. -/
def refusal (w : Walk α) (kind : κ) : Outcome α κ :=
  .refused (Element.kindName α kind) (Element.describe (w.element w.position))
    (Element.span (w.element w.position))

/-- What is seen of an operation on a walk, and the walk behind it. There is nothing to be seen
of giving back a mark that was never set. -/
def step (w : Walk α) : Step σ κ → Option (Outcome α κ × Walk α)
  | .consume => some (.element (w.element w.position), w.advance)
  | .peek => some (.element (w.element w.position), w)
  | .lookahead k => some (.element (w.element (w.position + k)), w)
  | .kindAt k => some (.kind (Element.kind (w.element (w.position + k))), w)
  | .accept kind =>
    if Element.kind (w.element w.position) = kind then
      some (.accepted (some (w.element w.position)), w.advance)
    else some (.accepted none, w)
  | .matchKind kind =>
    if Element.kind (w.element w.position) = kind then some (.done, w.advance)
    else some (w.refusal kind, w)
  | .matchGet kind =>
    if Element.kind (w.element w.position) = kind then
      some (.element (w.element w.position), w.advance)
    else some (w.refusal kind, w)
  | .mismatch _ | .unexpectedOperand | .context => some (.done, w)
  | .mark => some (.done, { w with marks := w.position :: w.marks })
  | .commit =>
    match w.marks with
    | [] => none
    | _ :: outer => some (.done, { w with marks := outer })
  | .rollback =>
    match w.marks with
    | [] => none
    | m :: outer => some (.done, { w with position := m, marks := outer })
  | .reset stream => some (.done, stream.walk)

/-- What is seen of several operations, and the walk behind them. -/
def run : List (Step σ κ) → Walk α → Option (List (Outcome α κ) × Walk α)
  | [], w => some ([], w)
  | s :: rest, w => do
    let (o, w) ← w.step s
    let (os, w) ← run rest w
    return (o :: os, w)

variable {w w' : Walk α} {o answer : Outcome α κ} {m : Nat} {outer : List Nat} {kind : κ}

theorem step_commit (hm : w.marks = m :: outer) :
    w.step (.commit : Step σ κ) = some (.done, { w with marks := outer }) := by
  rw [step, hm]

theorem step_rollback (hm : w.marks = m :: outer) :
    w.step (.rollback : Step σ κ) = some (.done, { w with position := m, marks := outer }) := by
  rw [step, hm]

theorem commit_inv (h : w.step (.commit : Step σ κ) = some (o, w')) :
    ∃ m outer, w.marks = m :: outer ∧ o = .done ∧ w' = { w with marks := outer } := by
  cases hm : w.marks with
  | nil =>
    rw [step, hm] at h
    cases h
  | cons m outer =>
    rw [step_commit hm] at h
    cases h
    exact ⟨m, outer, rfl, rfl, rfl⟩

theorem rollback_inv (h : w.step (.rollback : Step σ κ) = some (o, w')) :
    ∃ m outer, w.marks = m :: outer ∧ o = .done ∧ w' = { w with position := m, marks := outer } := by
  cases hm : w.marks with
  | nil =>
    rw [step, hm] at h
    cases h
  | cons m outer =>
    rw [step_rollback hm] at h
    cases h
    exact ⟨m, outer, rfl, rfl, rfl⟩

/-- There is nothing to be seen only of giving back a mark where none is. -/
theorem misused_inv {s : Step σ κ} (h : w.step s = none) :
    (s = .commit ∨ s = .rollback) ∧ w.marks = [] := by
  cases s with
  | commit =>
    cases hm : w.marks with
    | nil => exact ⟨.inl rfl, rfl⟩
    | cons m outer => cases (step_commit hm).symm.trans h
  | rollback =>
    cases hm : w.marks with
    | nil => exact ⟨.inr rfl, rfl⟩
    | cons m outer => cases (step_rollback hm).symm.trans h
  | accept kind | matchKind kind | matchGet kind =>
    simp only [step] at h
    split at h <;> cases h
  | _ => cases h

/-- Where an element of a kind has to come, the walk goes on or refuses. -/
theorem expect_inv (h : (if Element.kind (w.element w.position) = kind then some (answer, w.advance)
      else some (w.refusal kind, w)) = some (o, w')) :
    Element.kind (w.element w.position) = kind ∧ o = answer ∧ w' = w.advance ∨
      Element.kind (w.element w.position) ≠ kind ∧ o = w.refusal kind ∧ w' = w := by
  split at h
  · next hkind =>
    cases h
    exact .inl ⟨hkind, rfl, rfl⟩
  · next hkind =>
    cases h
    exact .inr ⟨hkind, rfl, rfl⟩

end Walk

/-! ### One step -/

namespace Step

variable [Element α κ] [DecidableEq κ] {l : Limits} {c : Cursor σ α} {w w' : Walk α}
  {s : Step σ κ} {o : Outcome α κ}

/-- What is seen of an operation is `o` and the cursor then is where `w` is, or the limit of the
buffer has been run into. -/
def Seen (l : Limits) (s : Step σ κ) (c : Cursor σ α) (o : Outcome α κ) (w : Walk α) : Prop :=
  (s.perform c).1 = o ∧ (s.perform c).2.Tracks l w ∨ (s.perform c).1.isExceeded = true

theorem seen_of_ends {β : Type} {x : Run (Cursor σ α) β} {f : β → Outcome α κ} {n : Nat}
    (hrun : s.run = f <$> x)
    (hx : Run.Ends (fun a c' => f a = o ∧ c'.Tracks l w')
      (fun e c' => Cursor.Excused l n w e c' ∨ Outcome.ofFailure e = o ∧ c'.Tracks l w')
      (x c)) : Seen l s c o w' := by
  unfold Seen perform
  rw [hrun, map_eq_pure_bind, Run.bind_apply]
  cases hr : x c with
  | ok a c' => exact .inl (hx.of_ok hr)
  | error e c' =>
    rcases hx.of_error hr with ⟨⟨requested, limit, rfl⟩, -, -⟩ | h
    · exact .inr rfl
    · exact .inl h

theorem seen_of_ok {β : Type} {x : Run (Cursor σ α) β} {f : β → Outcome α κ} {b : β}
    {c' : Cursor σ α} (hrun : s.run = f <$> x) (hx : x c = .ok b c') (hf : f b = o)
    (h : c'.Tracks l w') : Seen l s c o w' := by
  unfold Seen perform
  rw [hrun, map_eq_pure_bind, Run.bind_apply, hx]
  exact .inl ⟨hf, h⟩

/-- The next element has to be of a kind. If it is not, that is seen. -/
theorem seen_of_expect {kind : κ} {f : α → Outcome α κ} (h : c.Tracks l w)
    (hrun : s.run = f <$> Cursor.expect kind)
    (hs : (if Element.kind (w.element w.position) = kind then some (f (w.element w.position), w.advance)
      else some (w.refusal kind, w)) = some (o, w')) : Seen l s c o w' := by
  refine seen_of_ends (n := w.position + 1) (w := w) hrun ((Cursor.expect_tracks h kind).mono ?_ ?_)
  · rintro a c' ⟨hkind, rfl, h'⟩
    obtain ⟨-, rfl, rfl⟩ := (Walk.expect_inv hs).resolve_right fun hno => hno.1 hkind
    exact ⟨rfl, h'⟩
  · rintro e c' (he | ⟨hkind, h', text, rfl⟩)
    · exact .inl he
    · obtain ⟨-, rfl, rfl⟩ := (Walk.expect_inv hs).resolve_left fun hyes => hkind hyes.1
      exact .inr ⟨rfl, h'⟩

/-- **One step.** Whatever operation a walk allows, the cursor answers as the walk does and goes
where the walk goes. -/
theorem seen_of_step (h : c.Tracks l w) (hs : w.step s = some (o, w')) : Seen l s c o w' := by
  cases s with
  | consume =>
    cases hs
    exact seen_of_ends rfl ((Cursor.consume_tracks h).mono
      (fun _ _ ha => ⟨congrArg _ ha.1, ha.2⟩) (fun _ _ he => .inl he))
  | peek =>
    cases hs
    exact seen_of_ends rfl ((Cursor.lookahead_tracks h 0).mono
      (fun _ _ ha => ⟨congrArg _ ha.1, ha.2⟩) (fun _ _ he => .inl he))
  | lookahead k =>
    cases hs
    exact seen_of_ends rfl ((Cursor.lookahead_tracks h k).mono
      (fun _ _ ha => ⟨congrArg _ ha.1, ha.2⟩) (fun _ _ he => .inl he))
  | kindAt k =>
    cases hs
    refine seen_of_ends rfl (Run.Ends.bind (Cursor.lookahead_tracks h k) ?_ (fun _ _ he => .inl he))
    rintro a c' ⟨rfl, h'⟩
    exact ⟨rfl, h'⟩
  | accept kind =>
    refine seen_of_ends rfl ((Cursor.accept_tracks h kind).mono ?_ (fun _ _ he => .inl he))
    rintro a c' (⟨hkind, rfl, h'⟩ | ⟨hkind, rfl, h', -⟩)
    · rw [Walk.step, if_pos hkind] at hs
      cases hs
      exact ⟨rfl, h'⟩
    · rw [Walk.step, if_neg hkind] at hs
      cases hs
      exact ⟨rfl, h'⟩
  | matchKind kind => exact seen_of_expect h rfl hs
  | matchGet kind => exact seen_of_expect h rfl hs
  | mismatch expected =>
    cases hs
    obtain ⟨e, c', he, h'⟩ := Cursor.mismatch_tracks h expected
    exact seen_of_ok rfl he rfl h'
  | unexpectedOperand =>
    cases hs
    obtain ⟨e, c', he, h'⟩ := Cursor.unexpectedOperand_tracks h
    exact seen_of_ok rfl he rfl h'
  | context =>
    cases hs
    obtain ⟨text, c', htext, h'⟩ := Cursor.context_tracks h
    exact seen_of_ok rfl htext rfl h'
  | mark =>
    cases hs
    obtain ⟨c', hmark, h'⟩ := Cursor.mark_tracks h
    exact seen_of_ok rfl hmark rfl h'
  | commit =>
    obtain ⟨m, outer, hm, rfl, rfl⟩ := Walk.commit_inv hs
    obtain ⟨c', hcommit, h'⟩ := Cursor.commit_tracks h hm
    exact seen_of_ok rfl hcommit rfl h'
  | rollback =>
    obtain ⟨m, outer, hm, rfl, rfl⟩ := Walk.rollback_inv hs
    obtain ⟨c', hrollback, h'⟩ := Cursor.rollback_tracks h hm
    exact seen_of_ok rfl hrollback rfl h'
  | reset stream =>
    cases hs
    exact seen_of_ok (x := modify fun c => c.reset stream.source) rfl rfl rfl
      (h.reset stream.delivers)

end Step

/-! ### Runs -/

section Runs

variable [Element α κ] [DecidableEq κ] {l : Limits} {c : Cursor σ α} {w w' : Walk α}
  {steps : List (Step σ κ)} {seen : List (Outcome α κ)}

/-- A run of operations that a walk allows is seen as on the walk, and ends where the walk ends,
if the limit of the buffer is never run into. -/
theorem Walk.seen_of_run (h : c.Tracks l w) (hrun : w.run steps = some (seen, w'))
    (fits : ∀ o ∈ Step.outcomes steps c, o.isExceeded = false) :
    Step.outcomes steps c = seen ∧ (Step.after steps c).Tracks l w' := by
  induction steps generalizing c w seen with
  | nil =>
    cases hrun
    exact ⟨rfl, h⟩
  | cons s rest ih =>
    simp only [Walk.run, Option.bind_eq_bind, Option.bind_eq_some_iff] at hrun
    obtain ⟨⟨o, w₁⟩, hstep, ⟨os, w₂⟩, hrest, hseen⟩ := hrun
    cases hseen
    rw [Step.outcomes] at fits ⊢
    rcases Step.seen_of_step h hstep with ⟨ho, h₁⟩ | hexceeded
    · obtain ⟨hos, h₂⟩ := ih h₁ hrest fun o ho => fits o (List.mem_cons_of_mem _ ho)
      exact ⟨by rw [ho, hos], h₂⟩
    · exact absurd hexceeded (by simp [fits _ List.mem_cons_self])

theorem Walk.run_append {first second : List (Step σ κ)} (h : w.run (first ++ second) = some (seen, w')) :
    ∃ os w₁ os', w.run first = some (os, w₁) ∧ w₁.run second = some (os', w') := by
  induction first generalizing w seen with
  | nil => exact ⟨[], w, seen, rfl, h⟩
  | cons s first ih =>
    simp only [List.cons_append, Walk.run, Option.bind_eq_bind, Option.bind_eq_some_iff] at h
    obtain ⟨⟨o, w₁⟩, hstep, ⟨os, w₂⟩, hrest, hseen⟩ := h
    cases hseen
    obtain ⟨os₁, w₃, os₂, hfirst, hsecond⟩ := ih hrest
    refine ⟨o :: os₁, w₃, os₂, ?_, hsecond⟩
    simp only [Walk.run, Option.bind_eq_bind, hstep, Option.bind_some, hfirst, Option.pure_def]

omit [DecidableEq κ] in
/-- Whether an operation has to do with marks or streams. -/
def Step.movesMarks : Step σ κ → Bool
  | .mark | .commit | .rollback | .reset _ => true
  | _ => false

/-- Other operations leave the walk where it is or move it by one. -/
theorem Walk.step_of_not_movesMarks {s : Step σ κ} {o : Outcome α κ}
    (hs : s.movesMarks = false) (h : w.step s = some (o, w')) : w' = w ∨ w' = w.advance := by
  cases s with
  | mark | commit | rollback | reset => cases hs
  | accept kind | matchKind kind | matchGet kind =>
    simp only [Walk.step] at h
    split at h
    · cases h
      exact .inr rfl
    · cases h
      exact .inl rfl
  | consume =>
    cases h
    exact .inr rfl
  | peek | lookahead | kindAt | mismatch | unexpectedOperand | context =>
    cases h
    exact .inl rfl

omit [Element α κ] [DecidableEq κ] in
theorem Step.marksLeft_of_not_movesMarks {s : Step σ κ} (hs : s.movesMarks = false) (n : Nat) :
    Step.marksLeft (s :: steps) n = Step.marksLeft steps n := by
  cases s with
  | mark | commit | rollback | reset => cases hs
  | _ => rfl

/-- Operations that give back only marks of their own leave the other marks where they are, and
the walk in its stream. -/
theorem Walk.marks_of_run {n left : Nat} {own outer : List Nat}
    (hleft : Step.marksLeft steps n = some left) (hmarks : w.marks = own ++ outer)
    (hown : own.length = n) (hrun : w.run steps = some (seen, w')) :
    ∃ own', w'.marks = own' ++ outer ∧ own'.length = left ∧ w'.elements = w.elements ∧
      w'.endMarker = w.endMarker := by
  induction steps generalizing w n own seen with
  | nil =>
    cases hrun
    cases hleft
    exact ⟨own, hmarks, hown, rfl, rfl⟩
  | cons s rest ih =>
    simp only [Walk.run, Option.bind_eq_bind, Option.bind_eq_some_iff] at hrun
    obtain ⟨⟨o, w₁⟩, hstep, ⟨os, w₂⟩, hrest, hseen⟩ := hrun
    cases hseen
    cases hmoves : s.movesMarks with
    | false =>
      rw [Step.marksLeft_of_not_movesMarks hmoves] at hleft
      rcases Walk.step_of_not_movesMarks hmoves hstep with rfl | rfl
      · exact ih hleft hmarks hown hrest
      · exact ih (w := w.advance) hleft hmarks hown hrest
    | true =>
      cases s with
      | mark =>
        cases hstep
        have hm : w.position :: w.marks = (w.position :: own) ++ outer := by rw [hmarks]; rfl
        exact ih (w := { w with marks := w.position :: w.marks }) hleft hm (by simp [hown]) hrest
      | reset stream => cases hleft
      | commit | rollback =>
        subst hown
        cases own with
        | nil => cases hleft
        | cons m own =>
          simp only [Walk.step, hmarks, List.cons_append, Option.some.injEq, Prod.mk.injEq] at hstep
          obtain ⟨-, hw₁⟩ := hstep
          have hm : w₁.marks = own ++ outer := by rw [← hw₁]
          have hsame : w₁.elements = w.elements ∧ w₁.endMarker = w.endMarker := by
            rw [← hw₁]
            exact ⟨rfl, rfl⟩
          rw [← hsame.1, ← hsame.2]
          exact ih hleft hm rfl hrest
      | _ => cases hmoves

/-- **Trying and taking back leaves no trace.** A mark, balanced operations and the way back to the
mark leave the walk as it was. -/
theorem Walk.run_taken_back {inner : List (Step σ κ)} (hinner : Step.Balanced inner)
    (h : w.run (.mark :: inner ++ [.rollback]) = some (seen, w')) : w' = w := by
  obtain ⟨os, w₁, os', hmarked, hback⟩ := Walk.run_append h
  simp only [Walk.run, Walk.step, Option.bind_eq_bind, Option.bind_some,
    Option.bind_eq_some_iff] at hmarked
  obtain ⟨⟨os₁, w₂⟩, hrun, hw₂⟩ := hmarked
  cases hw₂
  obtain ⟨own, hmarks, hown, helements, hmarker⟩ :=
    Walk.marks_of_run hinner (List.nil_append (w.position :: w.marks)).symm rfl hrun
  obtain rfl := List.length_eq_zero_iff.1 hown
  simp only [Walk.run, Walk.step, hmarks, List.nil_append, Option.bind_eq_bind,
    Option.bind_some] at hback
  cases hback
  obtain ⟨elements, endMarker, position, marks⟩ := w
  simp only at helements hmarker
  simp only [helements, hmarker]

end Runs

/-! ### The result -/

section Result

variable [Element α κ] [DecidableEq κ]

/-- **A cursor is a place in a stream.** As long as no mark is given back that was not set and the
limit of the buffer is not run into, everything that is seen of operations on a cursor at the
start of a stream is what is seen of them on the walk at that start: every element, every kind
and every refusal. In particular a mark, balanced operations and the way back to the mark can be
left out, and all the other operations are seen as before. -/
theorem outcomes_eq_walk (start : Stream σ) (l : Limits) (steps : List (Step σ κ))
    {seen : List (Outcome α κ)} {last : Walk α}
    (hmarks : start.walk.run steps = some (seen, last))
    (hfits : ∀ o ∈ Step.outcomes steps (Cursor.ofSource start.source l),
      o.isExceeded = false) :
    Step.outcomes steps (Cursor.ofSource start.source l) = seen ∧
      ∀ before inner after, steps = before ++ (.mark :: inner ++ [.rollback]) ++ after →
        Step.Balanced inner →
        (∀ o ∈ Step.outcomes (before ++ after) (Cursor.ofSource start.source l),
          o.isExceeded = false) →
        Step.outcomes (before ++ after) (Cursor.ofSource start.source l) =
          Step.outcomes before (Cursor.ofSource start.source l) ++
            Step.outcomes after (Step.after (before ++ (.mark :: inner ++ [.rollback]))
              (Cursor.ofSource start.source l)) := by
  have hstart : (Cursor.ofSource start.source l : Cursor σ α).Tracks l start.walk :=
    Cursor.tracks_ofSource start.delivers l
  refine ⟨(Walk.seen_of_run hstart hmarks hfits).1, ?_⟩
  rintro before inner after rfl hinner hfits'
  obtain ⟨os, w₁, os', hrun, hafter⟩ := Walk.run_append hmarks
  obtain ⟨os₁, w₂, os₂, hbefore, htried⟩ := Walk.run_append hrun
  obtain rfl := Walk.run_taken_back hinner htried
  rw [Step.outcomes_append] at hfits hfits' ⊢
  -- Both cursors, with and without the operations taken back, are where `w₁` is.
  have htracks := (Walk.seen_of_run hstart hrun fun o ho => hfits o (List.mem_append_left _ ho)).2
  have htracks' := (Walk.seen_of_run hstart hbefore fun o ho =>
    hfits' o (List.mem_append_left _ ho)).2
  have hseen := (Walk.seen_of_run htracks hafter fun o ho =>
    hfits o (List.mem_append_right _ ho)).1
  have hseen' := (Walk.seen_of_run htracks' hafter fun o ho =>
    hfits' o (List.mem_append_right _ ho)).1
  rw [hseen, hseen']

/-- The bytes of `aé` in two arrivals with an interruption between them, the first of which ends
inside a character, read one character at a time. -/
def interruptedStream : Stream (Paced ByteReader) where
  source :=
    { source := { arrivals := [.bytes [0x61, 0xc3], .interrupted, .bytes [0xa9]] }
      pace := some 1 }
  elements := ['a', 'é']
  delivers := by
    refine ⟨?_, .inr ⟨['a', 'é'], ⟨rfl, trivial, rfl⟩, rfl⟩⟩
    rintro most ⟨⟩
    exact Nat.one_pos

/-- Operations that try two characters, take them back and then meet one of them. -/
def triedTwice : List (Step (Paced ByteReader) Char) :=
  [.mark, .consume, .lookahead 2, .consume, .rollback, .accept 'a', .matchGet 'x', .consume,
    .mark, .commit, .peek]

theorem outcomes_of_interrupted :
    (∃ last, interruptedStream.walk.run triedTwice =
      some ([.done, .element 'a', .element endOfInput, .element 'é', .done, .accepted (some 'a'),
        .refused "'x'" "é" none, .element 'é', .done, .done, .element endOfInput], last)) ∧
    (∀ o ∈ Step.outcomes triedTwice
        (Cursor.ofSource interruptedStream.source { initial := 1, largest := 4 }),
      o.isExceeded = false) ∧
    Step.outcomes triedTwice
        (Cursor.ofSource interruptedStream.source { initial := 1, largest := 4 }) =
      [.done, .element 'a', .element endOfInput, .element 'é', .done, .accepted (some 'a'),
        .refused "'x'" "é" none, .element 'é', .done, .done, .element endOfInput] := by
  have hfits : ∀ o ∈ Step.outcomes triedTwice
      (Cursor.ofSource interruptedStream.source { initial := 1, largest := 4 }),
      o.isExceeded = false := by decide +kernel
  exact ⟨⟨_, rfl⟩, hfits, (outcomes_eq_walk interruptedStream { initial := 1, largest := 4 }
    triedTwice rfl hfits).1⟩

end Result

end Dataflow.Reading
