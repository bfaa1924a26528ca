import Dataflow.Proofs.Matching

/-!
# Dataflow.Proofs.Echoing

**A computation that echoes another one.** Wherever the second computation has an answer, the first has the
same answer (`Run.Echoes`). Nothing is said where the second one fails, so that the first may know less of
what is to come than the second one needs for its failures.

The second computation may also go where the first one cannot follow. Its state is *lost* then, and it has to
stay lost whatever is done next. Two runs are compared from the end: where the last state is not lost, none in
between has been.
-/

namespace Dataflow.Run

variable {σ τ α β γ : Type}

/-- From states that `P` relates, the first computation has every answer that the second one has, and leads to
states that `Q` relates; or the second one is lost behind it. Once lost it stays so. -/
structure Echoes (lost : τ → Prop) (P : σ → τ → Prop) (Q : β → σ → τ → Prop) (x : Run σ β)
    (x' : Run τ β) : Prop where
  run {s : σ} {t : τ} (h : P s t) {b : β} {t' : τ} (hx : x' t = .ok b t') :
    (∃ s', x s = .ok b s' ∧ Q b s' t') ∨ lost t'
  keeps {t : τ} (h : lost t) {b : β} {t' : τ} (hx : x' t = .ok b t') : lost t'

/-- Nothing is ever lost. -/
def never (_ : τ) : Prop := False

namespace Echoes

variable {lost : τ → Prop} {P P' : σ → τ → Prop} {Q Q' : β → σ → τ → Prop} {R : γ → σ → τ → Prop}
  {x y : Run σ β} {x' y' : Run τ β}

/-- What never answers is echoed by anything. -/
theorem of_silent (h : ∀ t b t', x' t ≠ .ok b t') : Echoes lost P Q x x' where
  run _ _ _ hx := absurd hx (h _ _ _)
  keeps _ _ _ hx := absurd hx (h _ _ _)

theorem fail (e : Error) : Echoes lost P Q x (Run.fail e) := of_silent fun _ _ _ => nofun

/-- What works out an error and ends with it is echoed by anything. -/
theorem fail_of (x' : Run τ Error) : Echoes lost P Q x (x' >>= fun e => Run.fail e) :=
  of_silent fun t b t' h => by
    rw [bind_apply] at h
    cases hr : x' t <;> rw [hr] at h <;> cases h

theorem violate (v : Violation) : Echoes lost P Q x (Run.violate v) := of_silent fun _ _ _ => nofun

theorem pure_of {b : β} (h : ∀ s t, P s t → Q b s t) : Echoes lost P Q (Pure.pure b) (Pure.pure b) where
  run hs _ _ hx := by
    cases hx
    exact .inl ⟨_, rfl, h _ _ hs⟩
  keeps ht _ _ hx := by
    cases hx
    exact ht

theorem pure (b : β) : Echoes lost P (fun _ => P) (Pure.pure b) (Pure.pure b) := pure_of fun _ _ h => h

theorem mono (hx : Echoes lost P Q x x') (hP : ∀ s t, P' s t → P s t)
    (hQ : ∀ b s t, Q b s t → Q' b s t) : Echoes lost P' Q' x x' where
  run hs _ _ ht := by
    obtain ⟨s', hr, hq⟩ | hlost := hx.run (hP _ _ hs) ht
    · exact .inl ⟨s', hr, hQ _ _ _ hq⟩
    · exact .inr hlost
  keeps := hx.keeps

/-- The states may be related more closely than is needed. -/
theorem of (hx : Echoes lost P Q x x') (hP : ∀ s t, P' s t → P s t) : Echoes lost P' Q x x' :=
  hx.mono hP fun _ _ _ h => h

/-- Behind the answers the states are related more loosely. -/
theorem weaken (hx : Echoes lost P Q x x') (hQ : ∀ b s t, Q b s t → Q' b s t) : Echoes lost P Q' x x' :=
  hx.mono (fun _ _ h => h) hQ

theorem bind {f : β → Run σ γ} {f' : β → Run τ γ} (hx : Echoes lost P Q x x')
    (hf : ∀ b, Echoes lost (Q b) R (f b) (f' b)) : Echoes lost P R (x >>= f) (x' >>= f') where
  run {s t} hs c t' ht := by
    rw [bind_apply] at ht ⊢
    cases hr : x' t with
    | error e t₁ =>
      rw [hr] at ht
      cases ht
    | ok b t₁ =>
      rw [hr] at ht
      obtain ⟨s₁, hs₁, hq⟩ | hlost := hx.run hs hr
      · rw [hs₁]
        exact (hf b).run hq ht
      · exact .inr ((hf b).keeps hlost ht)
  keeps {t} hlost c t' ht := by
    rw [bind_apply] at ht
    cases hr : x' t with
    | error e t₁ =>
      rw [hr] at ht
      cases ht
    | ok b t₁ =>
      rw [hr] at ht
      exact (hf b).keeps (hx.keeps hlost hr) ht

theorem map (hx : Echoes lost P Q x x') (f : β → γ) (hR : ∀ b s t, Q b s t → R (f b) s t) :
    Echoes lost P R (f <$> x) (f <$> x') := by
  rw [map_eq_pure_bind, map_eq_pure_bind]
  exact hx.bind fun b => pure_of (hR b)

theorem ite {c : Prop} [Decidable c] (hx : Echoes lost P Q x x') (hy : Echoes lost P Q y y') :
    Echoes lost P Q (if c then x else y) (if c then x' else y') := by
  split
  · exact hx
  · exact hy

/-- Both may look at what is the same in their states. -/
theorem view {A : Type} (v : σ → A) (v' : τ → A) (h : ∀ s t, P s t → v s = v' t) {f : A → Run σ β}
    {g : A → Run τ β} (hf : ∀ a, Echoes lost P Q (f a) (g a)) :
    Echoes lost P Q (MonadState.get >>= fun s => f (v s)) (MonadState.get >>= fun t => g (v' t)) where
  run {s t} hs b t' ht := by
    have hs' := (hf (v' t)).run hs ht
    rw [← h s t hs] at hs'
    exact hs'
  keeps {t} hlost b t' ht := (hf (v' t)).keeps hlost ht

/-- Loops, where the first one may go round as often as the second one. What the states have to do with each
other may depend on what the loop passes on. -/
theorem iterate_of {I : α → σ → τ → Prop} {step : α → Run σ (Round α β)} {step' : α → Run τ (Round α β)}
    {bound : σ → Nat} {bound' : τ → Nat} {a : α} (hbound : ∀ s t, I a s t → bound' t ≤ bound s)
    (hstep : ∀ a, Echoes lost (I a) (fun round s t => match round with
      | .again a' => I a' s t
      | .done b => Q b s t) (step a) (step' a)) :
    Echoes lost (I a) Q (Run.iterate bound a step) (Run.iterate bound' a step') := by
  -- by the rounds of the second loop: where it runs out of them it has no answer
  have hrounds : ∀ rounds' rounds a, rounds' ≤ rounds →
      Echoes lost (I a) Q (iterateFor step rounds a) (iterateFor step' rounds' a) := by
    intro rounds'
    induction rounds' with
    | zero => exact fun _ _ _ => of_silent fun _ _ _ => nofun
    | succ rounds' ih =>
      intro rounds a hle
      obtain ⟨rounds, rfl⟩ : ∃ n, rounds = n + 1 := ⟨rounds - 1, by omega⟩
      unfold iterateFor
      refine (hstep a).bind fun round => ?_
      cases round with
      | again a => exact ih rounds a (Nat.le_of_succ_le_succ hle)
      | done b => exact .pure_of fun _ _ h => h
  refine ⟨fun {s t} hs b t' ht => ?_, fun {t} hlost b t' ht => ?_⟩
  · exact (hrounds _ _ a (Nat.succ_le_succ (hbound s t hs))).run hs ht
  · exact (hrounds _ _ a (Nat.le_refl (bound' t + 1))).keeps hlost ht

theorem iterate {step : α → Run σ (Round α β)} {step' : α → Run τ (Round α β)} {bound : σ → Nat}
    {bound' : τ → Nat} (hbound : ∀ s t, P s t → bound' t ≤ bound s) (a : α)
    (hstep : ∀ a, Echoes lost P (fun _ => P) (step a) (step' a)) :
    Echoes lost P (fun _ => P) (Run.iterate bound a step) (Run.iterate bound' a step') := by
  refine iterate_of (I := fun _ => P) hbound fun a => (hstep a).weaken fun round _ _ h => ?_
  cases round <;> exact h

/-- A state may be changed by what does not bring back what is lost. -/
theorem modify {P : σ → τ → Prop} {Q : PUnit → σ → τ → Prop} {f : σ → σ} {f' : τ → τ}
    (hf : ∀ s t, P s t → Q ⟨⟩ (f s) (f' t)) (hlost : ∀ t, lost t → lost (f' t)) :
    Echoes lost P Q (modify f) (modify f') where
  run hs _ _ hx := by
    cases hx
    exact .inl ⟨_, rfl, hf _ _ hs⟩
  keeps ht _ _ hx := by
    cases hx
    exact hlost _ ht

/-- Echoing is a way to compare computations. -/
def comparison (lost : τ → Prop) : Comparison σ τ where
  Holds P Q x x' := Echoes lost P Q x x'
  answer := pure_of
  adapt := mono
  sequence := bind
  look := view _ _

/-! ### Where nothing is lost -/

theorem of_run (h : ∀ s t, P s t → ∀ b t', x' t = .ok b t' → ∃ s', x s = .ok b s' ∧ Q b s' t') :
    Echoes never P Q x x' where
  run hs _ _ hx := .inl (h _ _ hs _ _ hx)
  keeps ht _ _ _ := ht.elim

/-- Both may look at their states. -/
theorem get {f : σ → Run σ β} {f' : τ → Run τ β} (hf : ∀ s t, P s t → Echoes never P Q (f s) (f' t)) :
    Echoes never P Q (MonadState.get >>= f) (MonadState.get >>= f') :=
  of_run fun s t hs _ _ hx => ((hf s t hs).run hs hx).resolve_right id

/-- What relates the states may depend on something unknown. -/
theorem exists_of {ι : Type} {P : ι → σ → τ → Prop} (h : ∀ i, Echoes never (P i) Q x x') :
    Echoes never (fun s t => ∃ i, P i s t) Q x x' :=
  of_run fun _ _ ⟨i, hi⟩ _ _ hx => ((h i).run hi hx).resolve_right id

/-- What relates the states may say something that has nothing to do with them. -/
theorem assume {p : Prop} (h : p → Echoes never P Q x x') :
    Echoes never (fun s t => p ∧ P s t) Q x x' :=
  of_run fun _ _ ⟨hp, hs⟩ _ _ hx => ((h hp).run hs hx).resolve_right id

end Echoes

end Dataflow.Run
