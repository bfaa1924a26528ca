import Dataflow.Proofs.Buffering
import Dataflow.Proofs.Ebbing
import Dataflow.Proofs.Matching

/-!
# Dataflow.Proofs.Mirroring

**Two cursors with the same in view.** What a cursor answers is determined by its outlook. So cursors that
show the same outlook (`Cursor.Mirrors`) answer the same as long as neither meets the limit of its buffer,
whatever is left of the past in their windows: where the elements stand there, how many stand behind the
cursor, and how large the ring has grown.

* `Run.replies`, `Run.failures` — what is answered to requests in turn up to the first failure, and the
  failures on the way. A request can keep failures to itself: a message shows elements as far as they can
  be read, and does not tell why there are no more of them;
* `Run.replies_eq` — states that a relation keeps together reply the same;
* `Source.Modest` — sources that never hand out more than they are asked for;
* `Cursor.Showing`, `Cursor.Viewed` — a cursor that has some outlook, and the steps that leave it one even
  if they fail;
* `Cursor.Mirrors`, `Cursor.Mirrored` — cursors with the same outlook, and the steps that keep them so;
* `Cursor.contextCut`, `Cursor.messageCut` — the failures that composing a message keeps to itself.
-/

namespace Dataflow

/-! ### Requests in turn -/

instance : DecidablePred Failure.Exceeded := fun e =>
  decidable_of_iff (∃ requested limit, (.error e : Except Failure Unit) =
      .error (.error (.capacityExceeded requested limit))) <| by
    simp only [Except.error.injEq]
    exact Iff.rfl

namespace Run

variable {σ τ ρ β γ : Type}

/-- What is answered to requests in turn, and what is seen behind each answer, up to the first failure.
The contexts of messages are left out. -/
def replies (perform : ρ → Run σ β) (seen : σ → γ) : List ρ → σ → List (Except Failure (β × γ))
  | [], _ => []
  | r :: rest, s =>
    match perform r s with
    | .ok b t => .ok (b, seen t) :: replies perform seen rest t
    | .error e _ => [.error e.bare]

/-- The failures that are met in this, with those that a request keeps to itself. -/
def failures (perform : ρ → Run σ β) (hidden : ρ → σ → List Failure) : List ρ → σ → List Failure
  | [], _ => []
  | r :: rest, s =>
    hidden r s ++
      match perform r s with
      | .ok _ t => failures perform hidden rest t
      | .error e _ => [e]

/-- Failures are alike if they differ in no more than the contexts of messages. That a buffer would have to
grow past its limit is excused. -/
def Tolerance.bare : Tolerance σ τ where
  alike e e' _ _ := e'.bare = e.bare
  excused := Failure.Exceeded

theorem Meet.mono {k k' : Tolerance σ τ} {Q Q' : β → σ → τ → Prop} {r : EStateM.Result Failure σ β}
    {r' : EStateM.Result Failure τ β} (h : Meet k Q r r')
    (halike : ∀ e e' s t, k.alike e e' s t → k'.alike e e' s t)
    (hexcused : ∀ e, k.excused e → k'.excused e) (hQ : ∀ b s t, Q b s t → Q' b s t) : Meet k' Q' r r' := by
  cases h with
  | answer h => exact .answer (hQ _ _ _ h)
  | failure h => exact .failure (halike _ _ _ _ h)
  | first h => exact .first (hexcused _ h)
  | second h => exact .second (hexcused _ h)

/-- **Requests in turn.** If every request keeps states related and is answered alike, and related states
look the same, then so are all requests, unless the limit of a buffer is met. -/
theorem replies_eq {R : σ → τ → Prop} {perform : ρ → Run σ β} {perform' : ρ → Run τ β}
    {hidden : ρ → σ → List Failure} {hidden' : ρ → τ → List Failure} {seen : σ → γ} {seen' : τ → γ}
    (hstep : ∀ r s t, R s t → (∀ e ∈ hidden r s, ¬ e.Exceeded) → (∀ e ∈ hidden' r t, ¬ e.Exceeded) →
      Meet .bare (fun _ => R) (perform r s) (perform' r t))
    (hseen : ∀ s t, R s t → seen' t = seen s) {requests : List ρ} {s : σ} {t : τ} (h : R s t)
    (hs : ∀ e ∈ failures perform hidden requests s, ¬ e.Exceeded)
    (ht : ∀ e ∈ failures perform' hidden' requests t, ¬ e.Exceeded) :
    replies perform seen requests s = replies perform' seen' requests t := by
  induction requests generalizing s t with
  | nil => rfl
  | cons r rest ih =>
    unfold failures at hs ht
    have hmeet := hstep r s t h (fun e he => hs e (List.mem_append_left _ he))
      fun e he => ht e (List.mem_append_left _ he)
    replace hs := fun e he => hs e (List.mem_append_right _ he)
    replace ht := fun e he => ht e (List.mem_append_right _ he)
    unfold replies
    generalize perform r s = x at hmeet hs
    generalize perform' r t = x' at hmeet ht
    cases hmeet with
    | answer h' =>
      dsimp only at hs ht ⊢
      rw [hseen _ _ h', ih h' hs ht]
    | failure halike =>
      have hbare : _ = _ := halike
      dsimp only
      rw [hbare]
    | first he => exact absurd he (hs _ (List.mem_cons_self ..))
    | second he => exact absurd he (ht _ (List.mem_cons_self ..))

theorem map_ok {x : Run σ β} {s t : σ} {b : β} (h : x s = .ok b t) (f : β → γ) :
    (f <$> x) s = .ok (f b) t := by
  rw [map_eq_pure_bind, bind_apply, h]
  rfl

end Run

namespace Reading

open Text

/-! ### Modest sources -/

/-- Sources that never hand out more than they are asked for. -/
class Source.Modest (σ : Type) (α : outParam Type) [Source σ α] : Prop where
  read_le : ∀ {n : Nat} {s t : σ} {elements : List α}, read n s = .ok elements t → elements.length ≤ n

instance {α : Type} : Source.Modest (Items α) α where
  read_le {n s t elements} h := by
    cases h
    exact List.length_take_le n s.rest

instance {σ α : Type} [Source σ α] [Source.Modest σ α] : Source.Modest (Paced σ) α where
  read_le {n s t elements} h := by
    obtain ⟨source, pace⟩ := s
    change Paced.onSource (Source.read (Paced.portion pace n)) ⟨source, pace⟩ = _ at h
    unfold Paced.onSource at h
    dsimp only at h
    cases hr : Source.read (Paced.portion pace n) source with
    | error e source' =>
      rw [hr] at h
      cases h
    | ok elements' source' =>
      rw [hr] at h
      cases h
      exact Nat.le_trans (Source.Modest.read_le hr) (Paced.portion_le pace n)

instance : Source.Modest ByteReader Char where
  read_le {n s _ _} h := (ByteReader.length_readChars n s).of_ok h

instance : Source.Modest Feed Char where
  read_le {n s _ _} h := ((Feed.countsDown n s).of_ok h).1

/-- Reading keeps what holds of a source, whether or not it fails. -/
def Source.Keeps {σ α : Type} [Source σ α] (J : σ → Prop) : Prop :=
  ∀ n, Run.Leads (fun _ => J) J (fun _ => J) (read n : Run σ (List α))

section Sources

variable {σ α : Type} [Source σ α]

theorem Source.keeps_true : Source.Keeps (σ := σ) fun _ => True :=
  fun n s _ => Run.Ends.of_true (read n s)

/-- Reading fully ends as reading does. -/
theorem Source.readFully_leads {E : Failure → σ → Prop} {J : σ → Prop}
    (h : ∀ n, Run.Leads E J (fun _ => J) (read n : Run σ (List α))) (n : Nat) :
    Run.Leads E J (fun _ => J) (readFully n : Run σ (List α)) := by
  have hportions : ∀ portions wanted,
      Run.Leads E J (fun _ => J) (readPortions portions wanted : Run σ (List α)) := by
    intro portions
    induction portions with
    | zero => exact fun _ => .pure []
    | succ portions ih =>
      intro wanted
      refine .ite (.pure []) ((h wanted).bind fun portion => .ite (.pure []) ?_)
      exact (ih _).bind fun rest => .pure (portion ++ rest)
  exact hportions n n

theorem Source.Keeps.readFully {J : σ → Prop} (h : Source.Keeps J) (n : Nat) :
    Run.Leads (fun _ => J) J (fun _ => J) (readFully n : Run σ (List α)) :=
  readFully_leads h n

theorem Source.readFully_le [Source.Modest σ α] {n : Nat} {s t : σ} {elements : List α}
    (h : readFully n s = .ok elements t) : elements.length ≤ n := by
  have hportions : ∀ portions wanted (s : σ),
      Run.Ends (fun elements _ => elements.length ≤ wanted) (fun _ _ => True)
        (readPortions portions wanted s) := by
    intro portions
    induction portions with
    | zero => exact fun wanted _ => Nat.zero_le wanted
    | succ portions ih =>
      intro wanted s
      unfold readPortions
      split
      · exact Nat.zero_le wanted
      · have hread : Run.Ends (fun elements _ => elements.length ≤ wanted) (fun _ _ => True)
            (read wanted s) := by
          cases hr : read wanted s with
          | ok elements t => exact Modest.read_le hr
          | error e t => exact trivial
        refine hread.bind (fun portion t hportion => ?_) fun _ _ he => he
        split
        · exact Nat.zero_le wanted
        · refine (ih (wanted - portion.length) t).bind (fun rest t' hrest => ?_) fun _ _ he => he
          show (portion ++ rest).length ≤ wanted
          rw [List.length_append]
          omega
  exact (hportions n n s).of_ok h

theorem Outlook.modest_of_source [Source.Modest σ α] (o : Outlook σ α) (n : Nat) : o.Modest n := by
  intro elements source h
  unfold portion at h
  split at h
  · cases h
    exact Nat.zero_le n
  · exact Source.readFully_le h

theorem Outlook.portion_keeps {J : σ → Prop} (hJ : Source.Keeps J) {o : Outlook σ α} (h : J o.source)
    (n : Nat) : Run.Ends (fun _ => J) (fun _ => J) (o.portion n) := by
  unfold portion
  split
  · exact h
  · exact hJ.readFully n o.source h

theorem Outlook.look_keeps {J : σ → Prop} (hJ : Source.Keeps J) {o : Outlook σ α} (h : J o.source)
    (k : Nat) : Run.Ends (fun _ o' => J o'.source) (fun _ o' => J o'.source) (o.look k) := by
  unfold look
  split
  · exact h
  · have hportion := o.portion_keeps hJ h (k + 1 - o.ahead.length)
    cases hr : o.portion (k + 1 - o.ahead.length) with
    | error e source => exact hportion.of_error hr
    | ok elements source => exact hportion.of_ok hr

theorem Outlook.take_keeps {J : σ → Prop} (hJ : Source.Keeps J) {o : Outlook σ α} (h : J o.source) :
    Run.Ends (fun _ o' => J o'.source) (fun _ o' => J o'.source) o.take := by
  unfold take
  have hlook := o.look_keeps hJ h 0
  cases hr : o.look 0 with
  | error e o' => exact hlook.of_error hr
  | ok a o' =>
    have hkept : J o'.source := hlook.of_ok hr
    exact hkept

/-- Looking ahead takes nothing out of view. -/
theorem Outlook.look_ne_nil {o o' : Outlook σ α} {a : α} {k : Nat} (h : o.look k = .ok a o')
    (hne : o.ahead ≠ []) : o'.ahead ≠ [] := by
  unfold look at h
  split at h
  · cases h
    exact hne
  · cases hr : o.portion (k + 1 - o.ahead.length) with
    | error e source =>
      rw [hr] at h
      cases h
    | ok elements source =>
      rw [hr] at h
      cases h
      exact List.append_ne_nil_of_left_ne_nil hne _

end Sources

/-! ### Cursors that have something in view -/

namespace Cursor

variable {σ α κ β : Type} [Source σ α] {l : Limits} {J : σ → Prop}

/-- The cursor has something in view, of a source of which `J` holds. -/
def Showing (l : Limits) (J : σ → Prop) (c : Cursor σ α) : Prop := ∃ o, c.Shows l o ∧ J o.source

/-- Whatever comes of a computation, the cursor has something in view. -/
abbrev Viewed (l : Limits) (J : σ → Prop) (x : Run (Cursor σ α) β) : Prop :=
  Run.Leads (fun _ => Showing l J) (Showing l J) (fun _ => Showing l J) x

theorem showing_ofSource {source : σ} (h : J source) (l : Limits) : Showing l J (ofSource source l) :=
  ⟨_, shows_ofSource source l, h⟩

omit [Source σ α] in
theorem Showing.reset {c : Cursor σ α} (h : Showing l J c) {source : σ} (hsource : J source) :
    Showing l J (c.reset source) := by
  obtain ⟨o, ho, -⟩ := h
  exact ⟨_, ho.reset source, hsource⟩

omit [Source σ α] in
theorem Shows.mapSource {c : Cursor σ α} {o : Outlook σ α} (h : c.Shows l o) (f : σ → σ) :
    (c.mapSource f).Shows l { o with source := f o.source } where
  source := congrArg f h.source
  ahead := h.ahead
  marked := h.marked
  ended := h.ended
  offset_le := h.offset_le
  marks_le := h.marks_le
  passed := h.passed
  grown := ⟨h.grown.limit, h.grown.capacity⟩

omit [Source σ α] in
theorem Agrees.viewed {needed : Nat} {o : Outlook σ α} {r : EStateM.Result Failure (Cursor σ α) β}
    {y : EStateM.Result Failure (Outlook σ α) β} (h : Agrees l needed o r y) (ho : J o.source)
    (hy : Run.Ends (fun _ o' => J o'.source) (fun _ o' => J o'.source) y) :
    Run.Ends (fun _ => Showing l J) (fun _ => Showing l J) r := by
  cases h with
  | answer h => exact ⟨_, h, hy⟩
  | failure h => exact ⟨_, h, hy⟩
  | exceeded h => exact ⟨_, h, ho⟩

omit [Source σ α] in
theorem mark_viewed : Viewed l J (mark : Run (Cursor σ α) Unit) := by
  rintro c ⟨o, h, ho⟩
  obtain ⟨c', hc', h'⟩ := mark_ok h
  rw [hc']
  exact ⟨_, h', ho⟩

omit [Source σ α] in
theorem commit_viewed : Viewed l J (commit : Run (Cursor σ α) Unit) := by
  rintro c ⟨o, h, ho⟩
  by_cases hm : o.marked = []
  · rw [commit_none h hm]
    exact ⟨o, h, ho⟩
  · obtain ⟨c', hc', h'⟩ := commit_ok h hm
    rw [hc']
    exact ⟨_, h', ho⟩

omit [Source σ α] in
theorem rollback_viewed : Viewed l J (rollback : Run (Cursor σ α) Unit) := by
  rintro c ⟨o, h, ho⟩
  cases hm : o.marked with
  | nil =>
    rw [rollback_none h hm]
    exact ⟨o, h, ho⟩
  | cons ahead outer =>
    obtain ⟨c', hc', h'⟩ := rollback_ok h hm
    rw [hc']
    exact ⟨_, h', ho⟩

section Steps

variable [Source.Modest σ α] (hJ : Source.Keeps J)

include hJ

theorem lookahead_viewed (k : Nat) : Viewed l J (lookahead k : Run (Cursor σ α) α) := by
  rintro c ⟨o, h, ho⟩
  exact (lookahead_agrees h k (o.modest_of_source _)).viewed ho (o.look_keeps hJ ho k)

theorem consume_viewed : Viewed l J (consume : Run (Cursor σ α) α) := by
  rintro c ⟨o, h, ho⟩
  exact (consume_agrees h (o.modest_of_source _)).viewed ho (o.take_keeps hJ ho)

theorem elementAt_viewed (k : Nat) (c : Cursor σ α) (h : Showing l J c) :
    Run.Ends (fun _ => Showing l J) (fun _ => Showing l J)
      (onBuffer (Buffer.elementAt (c.offset + k)) c) := by
  obtain ⟨o, h, ho⟩ := h
  exact (elementAt_agrees h k (o.modest_of_source _)).viewed ho (o.look_keeps hJ ho k)

variable [Element α κ] [DecidableEq κ]

theorem accept_viewed (kind : κ) : Viewed l J (accept kind : Run (Cursor σ α) (Option α)) :=
  (lookahead_viewed hJ 0).bind fun _ => .ite ((consume_viewed hJ).bind fun _ => .pure _) (.pure _)

theorem context_viewed : Viewed l J (context : Run (Cursor σ α) String) := by
  intro c h
  obtain ⟨text, c', hcontext, h'⟩ := context_ok (elementAt_viewed hJ) h
  rw [hcontext]
  exact h'

theorem compose_viewed (make : String → Option Span → String → Error) :
    Viewed l J (compose make : Run (Cursor σ α) Error) := by
  intro c h
  obtain ⟨found, context, c', hcompose, h'⟩ := compose_ok (elementAt_viewed hJ) (lookahead_viewed hJ 0 c h) make
  rw [hcompose]
  exact h'

theorem mismatch_viewed (expected : String) :
    Viewed l J (mismatch expected : Run (Cursor σ α) Error) := by
  rw [mismatch_eq]
  exact compose_viewed hJ _

theorem unexpectedOperand_viewed : Viewed l J (unexpectedOperand : Run (Cursor σ α) Error) := by
  rw [unexpectedOperand_eq]
  exact compose_viewed hJ _

theorem expect_viewed (kind : κ) : Viewed l J (expect kind : Run (Cursor σ α) α) := by
  refine (accept_viewed hJ kind).bind fun found => ?_
  cases found with
  | some a => exact .pure a
  | none =>
    have hfail (e : Error) : Viewed l J (Run.fail e : Run (Cursor σ α) α) := fun _ h => h
    exact (mismatch_viewed hJ _).bind hfail

end Steps

/-! ### Mirrored cursors -/

/-- The cursors have the same in view. -/
def Mirrors (l : Limits) (c c' : Cursor σ α) : Prop := ∃ o, c.Shows l o ∧ c'.Shows l o

/-- The cursors have the same in view, and the element at the cursor has been looked at. -/
def MirrorsNext (l : Limits) (c c' : Cursor σ α) : Prop :=
  ∃ o a rest, c.Shows l o ∧ c'.Shows l o ∧ o.ahead = a :: rest

/-- Failures of mirrored cursors: the same, behind which the cursors are mirrored again. -/
def mirrored (l : Limits) : Run.Tolerance (Cursor σ α) (Cursor σ α) where
  alike e e' c c' := e' = e ∧ Mirrors l c c'
  excused := Failure.Exceeded

namespace Mirrors

variable {c c' : Cursor σ α}

theorem remaining_eq (h : Mirrors l c c') : c'.remaining = c.remaining := by
  obtain ⟨o, ho, ho'⟩ := h
  have hsize := ho.size_eq
  have hsize' := ho'.size_eq
  unfold remaining
  rw [ho.source, ho'.source]
  show c'.buffer.ring.size - c'.offset + _ = c.buffer.ring.size - c.offset + _
  omega

omit [Source σ α] in
theorem source_eq (h : Mirrors l c c') : c'.source = c.source := by
  obtain ⟨o, ho, ho'⟩ := h
  exact ho'.source.trans ho.source.symm

omit [Source σ α] in
/-- There are as many marks to go back to. -/
theorem marks_length_eq (h : Mirrors l c c') : c'.marks.length = c.marks.length := by
  obtain ⟨o, ho, ho'⟩ := h
  have hmarked := congrArg List.length ho.marked
  have hmarked' := congrArg List.length ho'.marked
  rw [List.length_map] at hmarked hmarked'
  omega

omit [Source σ α] in
theorem mapSource (h : Mirrors l c c') (f : σ → σ) : Mirrors l (c.mapSource f) (c'.mapSource f) := by
  obtain ⟨o, ho, ho'⟩ := h
  exact ⟨_, ho.mapSource f, ho'.mapSource f⟩

omit [Source σ α] in
theorem reset (h : Mirrors l c c') (source : σ) : Mirrors l (c.reset source) (c'.reset source) := by
  obtain ⟨o, ho, ho'⟩ := h
  exact ⟨_, ho.reset source, ho'.reset source⟩

end Mirrors

/-- **A cursor that is reset mirrors a new one.** -/
theorem Showing.mirrors_reset {c : Cursor σ α} (h : Showing l J c) (source : σ) :
    Mirrors l (c.reset source) (ofSource source l) := by
  obtain ⟨o, ho, -⟩ := h
  exact ⟨_, ho.reset source, shows_ofSource source l⟩

omit [Source σ α] in
theorem MirrorsNext.mirrors {c c' : Cursor σ α} (h : MirrorsNext l c c') : Mirrors l c c' := by
  obtain ⟨o, a, rest, ho, ho', -⟩ := h
  exact ⟨o, ho, ho'⟩

omit [Source σ α] in
/-- What agrees with the same goes together. -/
theorem Agrees.meet {n n' : Nat} {o o' : Outlook σ α} {r r' : EStateM.Result Failure (Cursor σ α) β}
    {y : EStateM.Result Failure (Outlook σ α) β} (h : Agrees l n o r y) (h' : Agrees l n' o' r' y) :
    Run.Meet (mirrored l) (fun b c c' => ∃ o, y = .ok b o ∧ c.Shows l o ∧ c'.Shows l o) r r' := by
  cases h with
  | answer h =>
    cases h' with
    | answer h' => exact .answer ⟨_, rfl, h, h'⟩
    | exceeded => exact .second ⟨_, _, rfl⟩
  | failure h =>
    cases h' with
    | failure h' => exact .failure ⟨rfl, _, h, h'⟩
    | exceeded => exact .second ⟨_, _, rfl⟩
  | exceeded => exact .first ⟨_, _, rfl⟩

/-- Computations on mirrored cursors that keep them mirrored. -/
abbrev Mirrored (l : Limits) (x : Run (Cursor σ α) β) : Prop :=
  Run.Matches (mirrored l) (Mirrors l) (fun _ => Mirrors l) x x

omit [Source σ α] in
theorem mark_mirrored : Mirrored l (mark : Run (Cursor σ α) Unit) := by
  rintro c c' ⟨o, h, h'⟩
  obtain ⟨d, hd, hshows⟩ := mark_ok h
  obtain ⟨d', hd', hshows'⟩ := mark_ok h'
  rw [hd, hd']
  exact .answer ⟨_, hshows, hshows'⟩

omit [Source σ α] in
theorem commit_mirrored : Mirrored l (commit : Run (Cursor σ α) Unit) := by
  rintro c c' ⟨o, h, h'⟩
  by_cases hm : o.marked = []
  · rw [commit_none h hm, commit_none h' hm]
    exact .failure ⟨rfl, o, h, h'⟩
  · obtain ⟨d, hd, hshows⟩ := commit_ok h hm
    obtain ⟨d', hd', hshows'⟩ := commit_ok h' hm
    rw [hd, hd']
    exact .answer ⟨_, hshows, hshows'⟩

omit [Source σ α] in
theorem rollback_mirrored : Mirrored l (rollback : Run (Cursor σ α) Unit) := by
  rintro c c' ⟨o, h, h'⟩
  cases hm : o.marked with
  | nil =>
    rw [rollback_none h hm, rollback_none h' hm]
    exact .failure ⟨rfl, o, h, h'⟩
  | cons ahead outer =>
    obtain ⟨d, hd, hshows⟩ := rollback_ok h hm
    obtain ⟨d', hd', hshows'⟩ := rollback_ok h' hm
    rw [hd, hd']
    exact .answer ⟨_, hshows, hshows'⟩

variable [Source.Modest σ α]

theorem lookahead_mirrored (k : Nat) : Mirrored l (lookahead k : Run (Cursor σ α) α) := by
  rintro c c' ⟨o, h, h'⟩
  have hmeet := (lookahead_agrees h k (o.modest_of_source _)).meet
    (lookahead_agrees h' k (o.modest_of_source _))
  exact hmeet.mono (fun _ _ _ _ he => he) (fun _ he => he) fun _ _ _ ⟨o', _, hshows⟩ => ⟨o', hshows⟩

theorem consume_mirrored : Mirrored l (consume : Run (Cursor σ α) α) := by
  rintro c c' ⟨o, h, h'⟩
  have hmeet := (consume_agrees h (o.modest_of_source _)).meet (consume_agrees h' (o.modest_of_source _))
  exact hmeet.mono (fun _ _ _ _ he => he) (fun _ he => he) fun _ _ _ ⟨o', _, hshows⟩ => ⟨o', hshows⟩

theorem elementAt_mirrored (k : Nat) (c c' : Cursor σ α) (h : Mirrors l c c') :
    Run.Meet (mirrored l) (fun _ => Mirrors l) (onBuffer (Buffer.elementAt (c.offset + k)) c)
      (onBuffer (Buffer.elementAt (c'.offset + k)) c') := by
  obtain ⟨o, h, h'⟩ := h
  have hmeet := (elementAt_agrees h k (o.modest_of_source _)).meet
    (elementAt_agrees h' k (o.modest_of_source _))
  exact hmeet.mono (fun _ _ _ _ he => he) (fun _ he => he) fun _ _ _ ⟨o', _, hshows⟩ => ⟨o', hshows⟩

/-- The element at the cursor, which has then been looked at. -/
theorem peek_mirrored : Run.Matches (mirrored l) (Mirrors l) (fun _ => MirrorsNext l)
    (lookahead 0 : Run (Cursor σ α) α) (lookahead 0) := by
  rintro c c' ⟨o, h, h'⟩
  have hmeet := (lookahead_agrees h 0 (o.modest_of_source _)).meet
    (lookahead_agrees h' 0 (o.modest_of_source _))
  refine hmeet.mono (fun _ _ _ _ he => he) (fun _ he => he) fun a _ _ ⟨o', hlook, hshows, hshows'⟩ => ?_
  obtain ⟨rest, hrest⟩ := look_zero_ahead hlook
  exact ⟨o', a, rest, hshows, hshows', hrest⟩

/-- The element behind the one at the cursor, which stays in view. -/
theorem second_mirrored (k : Nat) : Run.Matches (mirrored l) (MirrorsNext l) (fun _ => MirrorsNext l)
    (lookahead k : Run (Cursor σ α) α) (lookahead k) := by
  rintro c c' ⟨o, a, rest, h, h', ho⟩
  have hmeet := (lookahead_agrees h k (o.modest_of_source _)).meet
    (lookahead_agrees h' k (o.modest_of_source _))
  refine hmeet.mono (fun _ _ _ _ he => he) (fun _ he => he) fun b _ _ ⟨o', hlook, hshows, hshows'⟩ => ?_
  obtain ⟨a', rest', hahead⟩ := List.exists_cons_of_ne_nil (Outlook.look_ne_nil hlook (by rw [ho]; nofun))
  exact ⟨o', a', rest', hshows, hshows', hahead⟩

section Messages

variable [Element α κ] [DecidableEq κ]

/-- Errors for an element that has been looked at differ in no more than their contexts. -/
theorem MirrorsNext.compose {c c' : Cursor σ α} (h : MirrorsNext l c c')
    (make : String → Option Span → String → Error) :
    ∃ found span text text' d d', (Cursor.compose make : Run (Cursor σ α) Error) c =
        .ok (make found span text) d ∧
      (Cursor.compose make : Run (Cursor σ α) Error) c' = .ok (make found span text') d' := by
  obtain ⟨o, a, rest, ho, ho', hahead⟩ := h
  have hheld : o.ahead[0]? = some a := by rw [hahead]; rfl
  obtain ⟨c₁, hlook, h₁⟩ := lookahead_held ho hheld
  obtain ⟨c₁', hlook', h₁'⟩ := lookahead_held ho' hheld
  have hviewed := elementAt_viewed (σ := σ) (l := l) Source.keeps_true
  obtain ⟨text, d, hd, -⟩ := context_ok hviewed ⟨o, h₁, trivial⟩
  obtain ⟨text', d', hd', -⟩ := context_ok hviewed ⟨o, h₁', trivial⟩
  refine ⟨Element.describe a, Element.span a, text, text', d, d', ?_, ?_⟩
  · unfold Cursor.compose
    simp only [Run.bind_apply, current_of_ok hlook, hd, Run.pure_apply]
  · unfold Cursor.compose
    simp only [Run.bind_apply, current_of_ok hlook', hd', Run.pure_apply]

/-! ### What messages keep to themselves -/

/-- The failure for which a message does not show the elements from `k` ahead on, `n` of them. -/
def cutShort (endKind : κ) : (n k : Nat) → Cursor σ α → Option Failure
  | 0, _, _ => none
  | n + 1, k, c =>
    match onBuffer (Buffer.elementAt (c.offset + k)) c with
    | .error e _ => some e
    | .ok a c => if Element.kind a = endKind then none else cutShort endKind n (k + 1) c

/-- The failure for which a context is shorter than it might be. -/
def contextCut (c : Cursor σ α) : List Failure :=
  (cutShort (Element.kind (Source.endMarker c.buffer.source)) (contextRadius + 1) 0 c).toList

/-- The failures that composing an error does not tell of: that of looking at the element at the cursor,
and that of looking further. -/
def messageCut (c : Cursor σ α) : List Failure :=
  match (peek : Run (Cursor σ α) α) c with
  | .ok _ c => c.contextCut
  | .error e c => e :: c.contextCut

variable {c c' : Cursor σ α}

/-- What messages look at is the same, unless the limit of a buffer is met. -/
theorem Mirrors.ahead {endKind : κ} {n k : Nat} (h : Mirrors l c c')
    (hcut : ∀ e, cutShort endKind n k c = some e → ¬ e.Exceeded)
    (hcut' : ∀ e, cutShort endKind n k c' = some e → ¬ e.Exceeded) :
    ∃ as d d', ahead endKind n k c = .ok as d ∧ ahead endKind n k c' = .ok as d' ∧ Mirrors l d d' := by
  induction n generalizing k c c' with
  | zero => exact ⟨[], c, c', rfl, rfl, h⟩
  | succ n ih =>
    have hmeet := elementAt_mirrored k c c' h
    unfold cutShort at hcut hcut'
    unfold Cursor.ahead
    generalize onBuffer (Buffer.elementAt (c.offset + k)) c = r at hmeet hcut
    generalize onBuffer (Buffer.elementAt (c'.offset + k)) c' = r' at hmeet hcut'
    cases hmeet with
    | failure halike => exact ⟨[], _, _, rfl, rfl, halike.2⟩
    | first he => exact absurd he (hcut _ rfl)
    | second he => exact absurd he (hcut' _ rfl)
    | @answer a d d' hd =>
      dsimp only at hcut hcut' ⊢
      by_cases hend : Element.kind a = endKind
      · rw [if_pos hend, if_pos hend]
        exact ⟨[a], d, d', rfl, rfl, hd⟩
      · rw [if_neg hend] at hcut hcut' ⊢
        obtain ⟨as, e, e', has, has', he⟩ := ih hd hcut hcut'
        refine ⟨a :: as, e, e', ?_, ?_, he⟩
        · rw [Run.bind_apply, has]
          rfl
        · rw [if_neg hend, Run.bind_apply, has']
          rfl

omit [Source.Modest σ α] in
theorem context_of_ahead {as : List α} {d : Cursor σ α}
    (h : ahead (Element.kind (Source.endMarker c.buffer.source)) (contextRadius + 1) 0 c = .ok as d) :
    ∃ text, (context : Run (Cursor σ α) String) c = .ok text d := by
  unfold context
  simp only [Run.bind_apply, Run.get_apply, h, Run.pure_apply]
  exact ⟨_, rfl⟩

theorem Mirrors.context (h : Mirrors l c c') (hcut : ∀ e ∈ c.contextCut, ¬ e.Exceeded)
    (hcut' : ∀ e ∈ c'.contextCut, ¬ e.Exceeded) :
    ∃ text text' d d', (context : Run (Cursor σ α) String) c = .ok text d ∧
      (context : Run (Cursor σ α) String) c' = .ok text' d' ∧ Mirrors l d d' := by
  have hsource : c'.buffer.source = c.buffer.source := h.source_eq
  unfold contextCut at hcut hcut'
  rw [hsource] at hcut'
  obtain ⟨as, d, d', has, has', hd⟩ := h.ahead (fun e he => hcut e (Option.mem_toList.2 he))
    fun e he => hcut' e (Option.mem_toList.2 he)
  obtain ⟨text, htext⟩ := context_of_ahead has
  obtain ⟨text', htext'⟩ := context_of_ahead (by rw [hsource]; exact has')
  exact ⟨text, text', d, d', htext, htext', hd⟩

/-- The element at the cursor, as errors name it, which may not have been looked at. -/
theorem Mirrors.current (h : Mirrors l c c') (hcut : ∀ e ∈ c.messageCut, ¬ e.Exceeded)
    (hcut' : ∀ e ∈ c'.messageCut, ¬ e.Exceeded) :
    ∃ found d d', (Cursor.current : Run (Cursor σ α) (String × Option Span)) c = .ok found d ∧
      (Cursor.current : Run (Cursor σ α) (String × Option Span)) c' = .ok found d' ∧ Mirrors l d d' ∧
      (∀ e ∈ d.contextCut, ¬ e.Exceeded) ∧ ∀ e ∈ d'.contextCut, ¬ e.Exceeded := by
  have hmeet := lookahead_mirrored 0 c c' h
  unfold messageCut peek at hcut hcut'
  unfold Cursor.current peek
  generalize Cursor.lookahead 0 c = r at hmeet hcut
  generalize Cursor.lookahead 0 c' = r' at hmeet hcut'
  cases hmeet with
  | answer hd => exact ⟨_, _, _, rfl, rfl, hd, hcut, hcut'⟩
  | failure halike =>
    exact ⟨_, _, _, rfl, rfl, halike.2, fun e he => hcut e (List.mem_cons_of_mem _ he),
      fun e he => hcut' e (List.mem_cons_of_mem _ he)⟩
  | first he => exact absurd he (hcut _ (List.mem_cons_self ..))
  | second he => exact absurd he (hcut' _ (List.mem_cons_self ..))

/-- Errors differ in no more than their contexts, unless the limit of a buffer is met. -/
theorem Mirrors.compose (h : Mirrors l c c') (hcut : ∀ e ∈ c.messageCut, ¬ e.Exceeded)
    (hcut' : ∀ e ∈ c'.messageCut, ¬ e.Exceeded) (make : String → Option Span → String → Error) :
    ∃ found span text text' d d', (Cursor.compose make : Run (Cursor σ α) Error) c =
        .ok (make found span text) d ∧
      (Cursor.compose make : Run (Cursor σ α) Error) c' = .ok (make found span text') d' ∧
      Mirrors l d d' := by
  obtain ⟨⟨found, span⟩, d, d', hd, hd', hmirrors, hcontext, hcontext'⟩ := h.current hcut hcut'
  obtain ⟨text, text', e, e', he, he', hmirrors'⟩ := hmirrors.context hcontext hcontext'
  refine ⟨found, span, text, text', e, e', ?_, ?_, hmirrors'⟩
  · unfold Cursor.compose
    simp only [Run.bind_apply, hd, he, Run.pure_apply]
  · unfold Cursor.compose
    simp only [Run.bind_apply, hd', he', Run.pure_apply]

end Messages

end Cursor

end Reading

end Dataflow
