import Dataflow.Run

/-!
# Dataflow.Proofs.Runs

Statements about runs. `Run.Ends` says of one run what holds of its answer and of the state that
it leaves, or of its failure; it goes through sequences and loops. `Run.Leads` says of a computation
what holds behind it if something holds in front of it, whatever the answer is.
-/

namespace Dataflow

/-- A buffer would have to grow past its limit. -/
def Failure.Exceeded (e : Failure) : Prop :=
  ∃ requested limit, e = .error (.capacityExceeded requested limit)

/-- A loop has run out of rounds, or a buffer would have to grow past its limit. -/
def Failure.MeetsBound (e : Failure) : Prop :=
  e = .stalled ∨ ∃ requested limit, e = .error (.capacityExceeded requested limit)

/-- Whether a buffer would have to grow past its limit can be seen from what was answered. -/
instance {α : Type} (x : Except Failure α) :
    Decidable (∃ requested limit, x = .error (.error (.capacityExceeded requested limit))) :=
  match x with
  | .error (.error (.capacityExceeded requested limit)) => isTrue ⟨requested, limit, rfl⟩
  | .error (.error (.unexpectedCharacter ..)) | .error (.error (.unterminatedLiteral _))
  | .error (.error (.mismatch ..)) | .error (.error (.unexpectedOperand ..))
  | .error (.error (.input _)) | .error (.error (.build _)) | .error (.violation _)
  | .error .stalled | .ok _ => isFalse nofun

namespace Run

variable {σ : Type} {α β : Type}

/-- The answer of a run, if it has one. -/
def answer? : EStateM.Result Failure σ α → Option α
  | .ok a _ => some a
  | .error _ _ => none

/-- The state that a run leaves. -/
def leaves : EStateM.Result Failure σ α → σ
  | .ok _ t => t
  | .error _ t => t

theorem eq_ok_of_answer? {r : EStateM.Result Failure σ α} {a : α} (h : answer? r = some a) :
    r = .ok a (leaves r) := by
  cases r with
  | ok b t =>
    cases h
    rfl
  | error e t => cases h

theorem eq_ok_of_isSome {r : EStateM.Result Failure σ α} (h : (answer? r).isSome = true) :
    r = .ok ((answer? r).get h) (leaves r) := by
  cases r with
  | ok b t => rfl
  | error e t => cases h

theorem eq_error_of_isNone {r : EStateM.Result Failure σ α} (h : (answer? r).isNone = true) :
    ∃ e, r = .error e (leaves r) := by
  cases r with
  | ok b t => cases h
  | error e t => exact ⟨e, rfl⟩

theorem exists_of_answer?_bind {x : Run σ α} {f : α → Run σ β} {s : σ} {b : β}
    (h : answer? ((x >>= f) s) = some b) : ∃ a t, x s = .ok a t ∧ answer? (f a t) = some b := by
  rw [bind_apply] at h
  cases hx : x s with
  | ok a t =>
    rw [hx] at h
    exact ⟨a, t, rfl, h⟩
  | error e t =>
    rw [hx] at h
    cases h

/-- A run ends with an answer and a state of which `Q` holds, or with a failure and a state of
which `E` holds. -/
def Ends (Q : α → σ → Prop) (E : Failure → σ → Prop) : EStateM.Result Failure σ α → Prop
  | .ok a t => Q a t
  | .error e t => E e t

namespace Ends

variable {Q Q' : α → σ → Prop} {E E' : Failure → σ → Prop}

theorem mono {r : EStateM.Result Failure σ α} (h : Ends Q E r) (hQ : ∀ a t, Q a t → Q' a t)
    (hE : ∀ e t, E e t → E' e t) : Ends Q' E' r := by
  cases r with
  | ok a t => exact hQ a t h
  | error e t => exact hE e t h

/-- A sequence of two computations ends as the second one does behind the first. -/
theorem bind {R : β → σ → Prop} {x : Run σ α} {f : α → Run σ β} {s : σ} (hx : Ends Q E (x s))
    (hf : ∀ a t, Q a t → Ends R E' (f a t)) (hE : ∀ e t, E e t → E' e t) :
    Ends R E' ((x >>= f) s) := by
  rw [bind_apply]
  cases h : x s with
  | ok a t =>
    rw [h] at hx
    exact hf a t hx
  | error e t =>
    rw [h] at hx
    exact hE e t hx

/-- What is made of the answer changes nothing else. -/
theorem map {R : β → σ → Prop} {x : Run σ α} {f : α → β} {s : σ}
    (hx : Ends (fun a => R (f a)) E (x s)) : Ends R E ((f <$> x) s) := by
  rw [map_eq_pure_bind]
  exact hx.bind (fun _ _ ha => ha) fun _ _ he => he

theorem and {r : EStateM.Result Failure σ α} (h : Ends Q E r) (h' : Ends Q' E' r) :
    Ends (fun a t => Q a t ∧ Q' a t) (fun e t => E e t ∧ E' e t) r := by
  cases r with
  | ok a t => exact ⟨h, h'⟩
  | error e t => exact ⟨h, h'⟩

/-- Where a run has an answer, the answer and the state are as promised. -/
theorem of_ok {r : EStateM.Result Failure σ α} {a : α} {t : σ} (h : Ends Q E r)
    (hr : r = .ok a t) : Q a t := by
  subst hr
  exact h

/-- Every run ends somehow. -/
theorem of_true (r : EStateM.Result Failure σ α) : Ends (fun _ _ => True) (fun _ _ => True) r := by
  cases r <;> exact trivial

theorem of_error {r : EStateM.Result Failure σ α} {e : Failure} {t : σ} (h : Ends Q E r)
    (hr : r = .error e t) : E e t := by
  subst hr
  exact h

/-- A loop ends as promised where every round keeps its invariant or ends as promised. Where the
rounds run out, the invariant still holds. -/
theorem iterate_of {I : α → σ → Prop} {R : β → σ → Prop} {step : α → Run σ (Round α β)}
    {bound : σ → Nat} {a : α} {s : σ}
    (hstep : ∀ a s, I a s → Ends
      (fun round t => match round with
        | .again a' => I a' t
        | .done b => R b t) E (step a s))
    (hstalled : ∀ a t, I a t → E .stalled t) (h : I a s) : Ends R E (iterate bound a step s) := by
  have key : ∀ rounds a s, I a s → Ends R E (iterateFor step rounds a s) := by
    intro rounds
    induction rounds with
    | zero => exact fun a s h => hstalled a s h
    | succ rounds ih =>
      intro a s h
      have hround := hstep a s h
      rw [iterateFor_succ]
      cases hr : step a s with
      | error e t =>
        rw [hr] at hround
        exact hround
      | ok round t =>
        rw [hr] at hround
        cases round with
        | again a' => exact ih a' t hround
        | done b => exact hround
  exact key _ a s h

theorem iterate {I : α → σ → Prop} {R : β → σ → Prop} {step : α → Run σ (Round α β)}
    {bound : σ → Nat} {a : α} {s : σ}
    (hstep : ∀ a s, I a s → Ends
      (fun round t => match round with
        | .again a' => I a' t
        | .done b => R b t) E (step a s))
    (hstalled : ∀ t, E .stalled t) (h : I a s) : Ends R E (iterate bound a step s) :=
  iterate_of hstep (fun _ t _ => hstalled t) h

/-- A loop ends as promised where every round but the last lowers a measure, and there are more rounds
than the measure is high. -/
theorem iterateFor_below {I : Nat → α → σ → Prop} {R : β → σ → Prop} {step : α → Run σ (Round α β)}
    (hstep : ∀ m a s, I m a s → Ends
      (fun round t => match round with
        | .again a' => ∃ m' < m, I m' a' t
        | .done b => R b t) E (step a s))
    {rounds m : Nat} {a : α} {s : σ} (hm : m < rounds) (h : I m a s) :
    Ends R E (iterateFor step rounds a s) := by
  induction rounds generalizing m a s with
  | zero => exact absurd hm (Nat.not_lt_zero m)
  | succ rounds ih =>
    have hround := hstep m a s h
    rw [iterateFor_succ]
    cases hr : step a s with
    | error e t =>
      rw [hr] at hround
      exact hround
    | ok round t =>
      rw [hr] at hround
      cases round with
      | again a' =>
        obtain ⟨m', hless, h'⟩ := hround
        exact ih (Nat.lt_of_lt_of_le hless (Nat.le_of_lt_succ hm)) h'
      | done b => exact hround

/-- A loop does not run out of rounds where its bound is not below the measure. -/
theorem iterate_below {I : Nat → α → σ → Prop} {R : β → σ → Prop} {step : α → Run σ (Round α β)}
    {bound : σ → Nat}
    (hstep : ∀ m a s, I m a s → Ends
      (fun round t => match round with
        | .again a' => ∃ m' < m, I m' a' t
        | .done b => R b t) E (step a s))
    {m : Nat} {a : α} {s : σ} (hm : m ≤ bound s) (h : I m a s) :
    Ends R E (Run.iterate bound a step s) :=
  iterateFor_below hstep (Nat.lt_succ_of_le hm) h

end Ends

/-! ### Triples -/

/-- From a state of which `P` holds, a computation leads to an answer and a state of which `Q` holds,
or it fails and `E` holds. -/
def Leads (E : Failure → σ → Prop) (P : σ → Prop) (Q : α → σ → Prop) (x : Run σ α) : Prop :=
  ∀ s, P s → Ends Q E (x s)

namespace Leads

variable {E : Failure → σ → Prop} {P P' : σ → Prop} {Q Q' : α → σ → Prop} {R : β → σ → Prop}

theorem pure (a : α) : Leads E P (fun _ => P) (Pure.pure a : Run σ α) := fun _ h => h

theorem mono {x : Run σ α} (hx : Leads E P Q x) (hP : ∀ s, P' s → P s)
    (hQ : ∀ a s, Q a s → Q' a s) : Leads E P' Q' x :=
  fun s h => (hx s (hP s h)).mono hQ fun _ _ he => he

theorem bind {x : Run σ α} {f : α → Run σ β} (hx : Leads E P Q x)
    (hf : ∀ a, Leads E (Q a) R (f a)) : Leads E P R (x >>= f) :=
  fun s h => (hx s h).bind hf fun _ _ he => he

theorem map {P' : σ → Prop} {x : Run σ α} (hx : Leads E P (fun _ => P') x) (f : α → β) :
    Leads E P (fun _ => P') (f <$> x) := by
  rw [map_eq_pure_bind]
  exact hx.bind fun a => .pure (f a)

theorem ite {c : Prop} [Decidable c] {x y : Run σ α} (hx : Leads E P Q x) (hy : Leads E P Q y) :
    Leads E P Q (if c then x else y) := by
  split
  · exact hx
  · exact hy

/-- A computation may look at the state. -/
theorem get {f : σ → Run σ α} (hf : ∀ s, P s → Leads E P Q (f s)) :
    Leads E P Q (MonadState.get >>= f) :=
  fun s h => hf s h s h

/-- A loop, where the rounds may also run out. -/
theorem iterate_of {step : α → Run σ (Round α β)} (bound : σ → Nat) (a : α)
    (hstep : ∀ a, Leads E P (fun _ => P) (step a)) (hstalled : ∀ t, P t → E .stalled t) :
    Leads E P (fun _ => P) (Run.iterate bound a step) := by
  intro s h
  refine Ends.iterate_of (I := fun _ => P) (fun a s h => ?_) (fun _ => hstalled) h
  refine (hstep a s h).mono (fun round t h' => ?_) fun _ _ he => he
  cases round <;> exact h'

theorem iterate {step : α → Run σ (Round α β)} (bound : σ → Nat) (a : α)
    (hstep : ∀ a, Leads E P (fun _ => P) (step a)) (hstalled : ∀ t, E .stalled t) :
    Leads E P (fun _ => P) (Run.iterate bound a step) :=
  iterate_of bound a hstep fun t _ => hstalled t

/-- What a computation keeps, whether or not it fails, holds of the state that it leaves. -/
theorem of_leaves {I : σ → Prop} {x : Run σ α} (hx : Leads (fun _ => I) I (fun _ => I) x) {s : σ} (h : I s) :
    I (leaves (x s)) := by
  have hx := hx s h
  cases hr : x s with
  | ok a t => exact hx.of_ok hr
  | error e t => exact hx.of_error hr

end Leads

end Run

end Dataflow
