import Dataflow.Error

/-!
# Dataflow.Run

Computations over a state that can fail, and whose state outlives the failure: a reader that
failed has still been read from, and a session goes on from where the failure left it.

* `Run σ α` — such a computation over a state of type `σ` with an answer of type `α`;
* `Run.fail`, `Run.violate` — the two ways to fail on purpose;
* `Run.iterate` — a loop that is given a bound on its rounds. A loop whose every round but the
  last uses up some of its input stays below such a bound, and then the bound cannot be noticed;
  a loop that goes round without using anything up ends as `Failure.stalled`.
-/

namespace Dataflow

/-- A computation over a state `σ` with an answer `α`, or a failure; the state is kept either
way. -/
abbrev Run (σ : Type) := EStateM Failure σ

namespace Run

variable {σ : Type} {α β : Type}

/-- Ends with an error. -/
def fail (e : Error) : Run σ α := throw (.error e)

/-- Ends with a broken rule of use. -/
def violate (v : Violation) : Run σ α := throw (.violation v)

@[simp] theorem pure_apply (a : α) (s : σ) : (pure a : Run σ α) s = .ok a s := rfl

@[simp] theorem get_apply (s : σ) : (get : Run σ σ) s = .ok s s := rfl

@[simp] theorem set_apply (t s : σ) : (set t : Run σ PUnit) s = .ok ⟨⟩ t := rfl

@[simp] theorem modify_apply (f : σ → σ) (s : σ) : (modify f : Run σ PUnit) s = .ok ⟨⟩ (f s) := rfl

theorem bind_apply (x : Run σ α) (f : α → Run σ β) (s : σ) :
    (x >>= f) s = match x s with
      | .ok a t => f a t
      | .error e t => .error e t := by
  show EStateM.bind x f s = _
  unfold EStateM.bind
  cases x s <;> rfl

@[simp] theorem fail_apply (e : Error) (s : σ) : (fail e : Run σ α) s = .error (.error e) s := rfl

@[simp] theorem violate_apply (v : Violation) (s : σ) :
    (violate v : Run σ α) s = .error (.violation v) s := rfl

/-- What one round of a loop decides: to go round again, or to end with an answer. -/
inductive Round (α β : Type) where
  | again (next : α)
  | done (answer : β)

/-- Goes round a loop up to `rounds` times, each round starting from what the last one passed
on. -/
def iterateFor (step : α → Run σ (Round α β)) : Nat → α → Run σ β
  | 0, _ => throw .stalled
  | rounds + 1, a => do
    match ← step a with
    | .again next => iterateFor step rounds next
    | .done answer => pure answer

/-- Goes round a loop, at most once more than the bound that the state sets. -/
def iterate (bound : σ → Nat) (a : α) (step : α → Run σ (Round α β)) : Run σ β :=
  fun s => iterateFor step (bound s + 1) a s

theorem iterateFor_succ (step : α → Run σ (Round α β)) (rounds : Nat) (a : α) (s : σ) :
    iterateFor step (rounds + 1) a s = match step a s with
      | .ok (.again next) t => iterateFor step rounds next t
      | .ok (.done answer) t => .ok answer t
      | .error e t => .error e t := by
  simp only [iterateFor, bind_apply]
  rcases step a s with ⟨_ | _, _⟩ | _ <;> rfl

/-- A loop that ends before its bound ends in the same way under every larger bound. -/
theorem iterateFor_mono {step : α → Run σ (Round α β)} {rounds : Nat} {a : α} {s : σ}
    (h : ∀ t, iterateFor step rounds a s ≠ .error .stalled t) (more : Nat) :
    iterateFor step (rounds + more) a s = iterateFor step rounds a s := by
  induction rounds generalizing a s with
  | zero => exact absurd rfl (h s)
  | succ rounds ih =>
    rw [Nat.add_right_comm, iterateFor_succ, iterateFor_succ]
    rw [iterateFor_succ] at h
    cases hs : step a s with
    | error e t => rfl
    | ok round t =>
      cases round with
      | done answer => rfl
      | again next => exact ih (by simpa [hs] using h)

end Run

end Dataflow
