import Dataflow.Proofs.Runs

/-!
# Dataflow.Proofs.Matching

**Two computations side by side.** They match if from states in a relation they come to the same answer
and to states in a relation again, or fail alike (`Run.Matches`). What counts as alike, and which failure
of one of them is reason enough not to look at the other, is left open (`Run.Tolerance`).

Matching goes through sequences, branches and loops. So it has to be shown of the steps that a program
is made of, and not of the program. A computation that matches itself on equal states of which an
invariant holds is one that keeps the invariant (`Run.Matches.keeps`).
-/

namespace Dataflow.Run

variable {σ τ α β γ : Type}

/-- When two runs that fail are taken to have failed alike, and which failures excuse everything. -/
structure Tolerance (σ τ : Type) where
  alike : Failure → Failure → σ → τ → Prop
  excused : Failure → Prop

/-- How two runs end together: with the same answer, with failures that are alike, or one of them with a
failure that is excused. -/
inductive Meet (k : Tolerance σ τ) (Q : β → σ → τ → Prop) :
    EStateM.Result Failure σ β → EStateM.Result Failure τ β → Prop
  | answer {b : β} {s : σ} {t : τ} (h : Q b s t) : Meet k Q (.ok b s) (.ok b t)
  | failure {e e' : Failure} {s : σ} {t : τ} (h : k.alike e e' s t) : Meet k Q (.error e s) (.error e' t)
  | first {e : Failure} {s : σ} {r : EStateM.Result Failure τ β} (h : k.excused e) :
    Meet k Q (.error e s) r
  | second {e : Failure} {t : τ} {r : EStateM.Result Failure σ β} (h : k.excused e) :
    Meet k Q r (.error e t)

/-- From states that `P` relates, the computations come to the same answer and to states that `Q`
relates, or fail as the tolerance allows. -/
def Matches (k : Tolerance σ τ) (P : σ → τ → Prop) (Q : β → σ → τ → Prop) (x : Run σ β) (x' : Run τ β) :
    Prop :=
  ∀ s t, P s t → Meet k Q (x s) (x' t)

namespace Matches

variable {k : Tolerance σ τ} {P P' : σ → τ → Prop} {Q Q' : β → σ → τ → Prop} {R : γ → σ → τ → Prop}
  {x y : Run σ β} {x' y' : Run τ β}

theorem pure (b : β) : Matches k P (fun _ => P) (Pure.pure b) (Pure.pure b) := fun _ _ h => .answer h

theorem mono (hx : Matches k P Q x x') (hP : ∀ s t, P' s t → P s t)
    (hQ : ∀ b s t, Q b s t → Q' b s t) : Matches k P' Q' x x' := by
  intro s t h
  have hx := hx s t (hP s t h)
  generalize x s = r at hx
  generalize x' t = r' at hx
  cases hx with
  | answer h => exact .answer (hQ _ _ _ h)
  | failure h => exact .failure h
  | first h => exact .first h
  | second h => exact .second h

/-- The states may be related more closely than is needed. -/
theorem of (hx : Matches k P Q x x') (hP : ∀ s t, P' s t → P s t) : Matches k P' Q x x' :=
  hx.mono hP fun _ _ _ h => h

theorem bind {f : β → Run σ γ} {f' : β → Run τ γ} (hx : Matches k P Q x x')
    (hf : ∀ b, Matches k (Q b) R (f b) (f' b)) : Matches k P R (x >>= f) (x' >>= f') := by
  intro s t h
  have hx := hx s t h
  rw [bind_apply, bind_apply]
  generalize x s = r at hx
  generalize x' t = r' at hx
  cases hx with
  | answer h => exact hf _ _ _ h
  | failure h => exact .failure h
  | first h => exact .first h
  | second h => exact .second h

theorem map (hx : Matches k P (fun _ => P') x x') (f : β → γ) :
    Matches k P (fun _ => P') (f <$> x) (f <$> x') := by
  rw [map_eq_pure_bind, map_eq_pure_bind]
  exact hx.bind fun b => .pure (f b)

theorem ite {c : Prop} [Decidable c] (hx : Matches k P Q x x') (hy : Matches k P Q y y') :
    Matches k P Q (if c then x else y) (if c then x' else y') := by
  split
  · exact hx
  · exact hy

/-- Both states may be looked at. -/
theorem get {f : σ → Run σ β} {f' : τ → Run τ β} (hf : ∀ s t, P s t → Matches k P Q (f s) (f' t)) :
    Matches k P Q (MonadState.get >>= f) (MonadState.get >>= f') :=
  fun s t h => hf s t h s t h

/-- Loops that go round for the same number of times, and fail alike where the rounds run out. If running
out of rounds is excused, the numbers may differ. -/
theorem iterate {step : α → Run σ (Round α β)} {step' : α → Run τ (Round α β)} {bound : σ → Nat}
    {bound' : τ → Nat}
    (hbound : k.excused .stalled ∨
      ∀ s t, P s t → bound' t = bound s ∧ k.alike .stalled .stalled s t) (a : α)
    (hstep : ∀ a, Matches k P (fun _ => P) (step a) (step' a)) :
    Matches k P (fun _ => P) (Run.iterate bound a step) (Run.iterate bound' a step') := by
  have hrounds : ∀ rounds rounds' a, (k.excused .stalled ∨
      rounds' = rounds ∧ ∀ s t, P s t → k.alike .stalled .stalled s t) →
      Matches k P (fun _ => P) (iterateFor step rounds a) (iterateFor step' rounds' a) := by
    intro rounds
    induction rounds with
    | zero =>
      rintro rounds' a (hexcused | ⟨rfl, hstalled⟩) s t h
      · exact .first hexcused
      · exact .failure (hstalled s t h)
    | succ rounds ih =>
      intro rounds' a hbound
      cases rounds' with
      | zero => exact fun s t h => .second (hbound.resolve_right fun h => nomatch h.1)
      | succ rounds' =>
        unfold iterateFor
        refine (hstep a).bind fun round => ?_
        cases round with
        | again a => exact ih rounds' a (hbound.imp_right fun h => ⟨Nat.succ.inj h.1, h.2⟩)
        | done b => exact .pure b
  intro s t h
  refine hrounds _ _ a (hbound.imp_right fun hbound => ?_) s t h
  exact ⟨congrArg Nat.succ (hbound s t h).1, fun s t h => (hbound s t h).2⟩

end Matches

/-! ### Comparisons -/

/-- A way to put two computations side by side that goes through what programs are made of. -/
structure Comparison (σ τ : Type) where
  /-- What is claimed of two computations, from states that the first relation relates on. -/
  Holds {β : Type} : (σ → τ → Prop) → (β → σ → τ → Prop) → Run σ β → Run τ β → Prop
  answer {β : Type} {P : σ → τ → Prop} {Q : β → σ → τ → Prop} {b : β} (h : ∀ s t, P s t → Q b s t) :
    Holds P Q (Pure.pure b) (Pure.pure b)
  adapt {β : Type} {P P' : σ → τ → Prop} {Q Q' : β → σ → τ → Prop} {x : Run σ β} {x' : Run τ β}
    (hx : Holds P Q x x') (hP : ∀ s t, P' s t → P s t) (hQ : ∀ b s t, Q b s t → Q' b s t) : Holds P' Q' x x'
  sequence {β γ : Type} {P : σ → τ → Prop} {Q : β → σ → τ → Prop} {R : γ → σ → τ → Prop} {x : Run σ β}
    {x' : Run τ β} {f : β → Run σ γ} {f' : β → Run τ γ} (hx : Holds P Q x x')
    (hf : ∀ b, Holds (Q b) R (f b) (f' b)) : Holds P R (x >>= f) (x' >>= f')
  /-- Both may look at what is the same in their states. -/
  look {A β : Type} {P : σ → τ → Prop} {Q : β → σ → τ → Prop} {v : σ → A} {v' : τ → A}
    (hv : ∀ s t, P s t → v s = v' t) {f : A → Run σ β} {f' : A → Run τ β}
    (hf : ∀ a, Holds P Q (f a) (f' a)) :
    Holds P Q (MonadState.get >>= fun s => f (v s)) (MonadState.get >>= fun t => f' (v' t))

namespace Comparison.Holds

variable {k : Comparison σ τ} {P P' : σ → τ → Prop} {Q Q' : β → σ → τ → Prop} {R : γ → σ → τ → Prop}
  {x y : Run σ β} {x' y' : Run τ β}

theorem pure_of {b : β} (h : ∀ s t, P s t → Q b s t) : k.Holds P Q (Pure.pure b) (Pure.pure b) := k.answer h

theorem pure (b : β) : k.Holds P (fun _ => P) (Pure.pure b) (Pure.pure b) := pure_of fun _ _ h => h

theorem mono (hx : k.Holds P Q x x') (hP : ∀ s t, P' s t → P s t) (hQ : ∀ b s t, Q b s t → Q' b s t) :
    k.Holds P' Q' x x' :=
  k.adapt hx hP hQ

theorem of (hx : k.Holds P Q x x') (hP : ∀ s t, P' s t → P s t) : k.Holds P' Q x x' :=
  hx.mono hP fun _ _ _ h => h

theorem bind {f : β → Run σ γ} {f' : β → Run τ γ} (hx : k.Holds P Q x x')
    (hf : ∀ b, k.Holds (Q b) R (f b) (f' b)) : k.Holds P R (x >>= f) (x' >>= f') :=
  k.sequence hx hf

theorem get_of {A : Type} (v : σ → A) (v' : τ → A) (hv : ∀ s t, P s t → v s = v' t) {f : A → Run σ β}
    {g : A → Run τ β} (hf : ∀ a, k.Holds P Q (f a) (g a)) :
    k.Holds P Q (MonadState.get >>= fun s => f (v s)) (MonadState.get >>= fun t => g (v' t)) :=
  k.look hv hf

theorem ite {c : Prop} [Decidable c] (hx : k.Holds P Q x x') (hy : k.Holds P Q y y') :
    k.Holds P Q (if c then x else y) (if c then x' else y') := by
  split
  · exact hx
  · exact hy

theorem mapM {f : α → Run σ β} {f' : α → Run τ β} (hf : ∀ a, k.Holds P (fun _ => P) (f a) (f' a))
    (items : List α) : k.Holds P (fun _ => P) (items.mapM f) (items.mapM f') := by
  induction items with
  | nil => exact .pure []
  | cons a items ih =>
    rw [List.mapM_cons, List.mapM_cons]
    exact (hf a).bind fun _ => ih.bind fun _ => .pure _

end Comparison.Holds

/-- Matching is such a way. -/
def Tolerance.comparison (k : Tolerance σ τ) : Comparison σ τ where
  Holds P Q x x' := Matches k P Q x x'
  answer h _ _ hs := .answer (h _ _ hs)
  adapt hx := hx.mono
  sequence hx := hx.bind
  look {A β P Q v v'} hv {f f'} hf := Matches.get fun s t hs => by
    rw [hv s t hs]
    exact hf _

/-! ### One computation -/

/-- The same state twice, and `I` holds of it. -/
def Both (I : σ → Prop) (s t : σ) : Prop := t = s ∧ I s

/-- Failures of a computation that goes alongside itself. Nothing is excused. -/
def Tolerance.alone (E : Failure → σ → Prop) : Tolerance σ σ where
  alike e e' s t := e' = e ∧ t = s ∧ E e s
  excused _ := False

/-- Where it fails, `I` holds still. -/
abbrev Tolerance.both (I : σ → Prop) : Tolerance σ σ := .alone fun _ => I

/-- What leads from `I` to `Q` matches itself. -/
theorem Matches.of_leads {E : Failure → σ → Prop} {I : σ → Prop} {Q : β → σ → Prop} {x : Run σ β}
    (hx : Leads E I Q x) : Matches (.alone E) (Both I) (fun b => Both (Q b)) x x := by
  rintro s t ⟨rfl, h⟩
  have hx := hx t h
  cases hr : x t with
  | ok b s =>
    rw [hr] at hx
    exact .answer ⟨rfl, hx⟩
  | error e s =>
    rw [hr] at hx
    exact .failure ⟨rfl, rfl, hx⟩

/-- What matches itself leads from `I` to `Q`. -/
theorem Matches.leads {E : Failure → σ → Prop} {I : σ → Prop} {Q : β → σ → Prop} {x : Run σ β}
    (hx : Matches (.alone E) (Both I) (fun b => Both (Q b)) x x) : Leads E I Q x := by
  intro s h
  have hx := hx s s ⟨rfl, h⟩
  cases hr : x s with
  | ok b t =>
    rw [hr] at hx
    cases hx with
    | answer h => exact h.2
  | error e t =>
    rw [hr] at hx
    cases hx with
    | failure h => exact h.2.2
    | first h => exact h.elim
    | second h => exact h.elim

/-- What matches itself keeps the invariant, whether or not it fails. -/
theorem Matches.keeps {I : σ → Prop} {x : Run σ β}
    (hx : Matches (.both I) (Both I) (fun _ => Both I) x x) : Leads (fun _ => I) I (fun _ => I) x :=
  hx.leads

end Dataflow.Run
