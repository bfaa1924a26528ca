import Dataflow.Proofs.Runs
import Dataflow.Proofs.Supply

/-!
# Dataflow.Proofs.Ebbing

**Sources that run dry.** A source of characters may fail, and hand out as little at a time as it
likes. But whatever it hands out is no longer to come, it never hands out more than it is asked for, and
where it fails, it fails with an error.

* `Ebbs I` — that, where `I k` says of a source that no more than `k` characters are to come;
* `Paced.ebbs` — texts and readers of bytes are such sources, at whatever pace and whatever the bytes
  are: no more characters are to come than the bytes that have not been used;
* `Supply.ebbs` — a source that never fails has exactly those characters to come that it delivers.
-/

namespace Dataflow.Reading

variable {σ : Type}

/-- A source of which `I k` holds has at most `k` characters to come, and then it ends. -/
structure Ebbs [Source σ Char] (I : Nat → σ → Prop) : Prop where
  endMarker {k : Nat} {s : σ} (h : I k s) : Source.endMarker s = endOfInput
  /-- The source itself knows of a bound. -/
  known {k : Nat} {s : σ} (h : I k s) : ∃ k' ≤ k, k' ≤ Source.remaining s ∧ I k' s
  read {k : Nat} {s : σ} (h : I k s) (n : Nat) :
    Run.Ends (fun cs t => cs.length ≤ n ∧ ∃ k', cs.length + k' ≤ k ∧ I k' t)
      (fun e t => (∃ error, e = .error error) ∧ I k t) (Source.readFully n s)

/-! ### Sources that never fail -/

/-- A source that never fails delivers no more than so many characters. -/
def Delivering [Supply σ Char] (k : Nat) (s : σ) : Prop :=
  Source.endMarker s = endOfInput ∧ ∃ elements, Supply.Delivers s elements ∧ elements.length ≤ k

theorem Supply.ebbs [Supply σ Char] : Ebbs (Delivering : Nat → σ → Prop) where
  endMarker h := h.1
  known := by
    intro k s h
    obtain ⟨hend, elements, helements, hlength⟩ := h
    exact ⟨elements.length, hlength, Supply.length_le helements, hend, elements, helements,
      Nat.le_refl _⟩
  read := by
    intro k s h n
    obtain ⟨hend, elements, helements, hlength⟩ := h
    obtain ⟨t, hread, ht, hmarker⟩ := Supply.readFully_ok helements n
    rw [hread]
    refine ⟨by rw [List.length_take]; omega, elements.length - n, ?_, hmarker.trans hend, _, ht, ?_⟩
    · rw [List.length_take]
      omega
    · exact Nat.le_of_eq List.length_drop

/-! ### Sources that count down -/

/-- What comes of reading is counted off what is still to come. -/
def CountsDown [Source σ Char] (s : σ) (n : Nat) : EStateM.Result Failure σ (List Char) → Prop :=
  Run.Ends
    (fun cs t => cs.length ≤ n ∧ cs.length + Source.remaining t ≤ Source.remaining s ∧
      Source.endMarker t = Source.endMarker s)
    (fun e t => (∃ error, e = .error error) ∧ Source.remaining t ≤ Source.remaining s ∧
      Source.endMarker t = Source.endMarker s)

/-- Portions are counted off one after the other. -/
theorem countsDown_readPortions [Source σ Char]
    (hread : ∀ (n : Nat) (s : σ), CountsDown s n (Source.read n s)) (portions wanted : Nat) (s : σ) :
    CountsDown s wanted (Source.readPortions portions wanted s) := by
  induction portions generalizing wanted s with
  | zero => exact ⟨Nat.zero_le _, by simp, rfl⟩
  | succ portions ih =>
    unfold Source.readPortions
    split
    · exact ⟨Nat.zero_le _, by simp, rfl⟩
    refine Run.Ends.bind (hread wanted s) ?_ fun _ _ he => he
    rintro portion t ⟨hlength, hcount, hmarker⟩
    split
    · exact ⟨Nat.zero_le _, by simp; omega, hmarker⟩
    refine Run.Ends.bind (ih (wanted - portion.length) t) ?_ ?_
    · rintro rest u ⟨hlength', hcount', hmarker'⟩
      refine ⟨?_, ?_, hmarker'.trans hmarker⟩
      · rw [List.length_append]
        omega
      · rw [List.length_append]
        omega
    · rintro e u ⟨herror, hcount', hmarker'⟩
      exact ⟨herror, by omega, hmarker'.trans hmarker⟩

/-- The source says itself how many characters are to come at most. -/
def Remaining [Source σ Char] (k : Nat) (s : σ) : Prop :=
  Source.endMarker s = endOfInput ∧ Source.remaining s ≤ k

theorem ebbs_of_countsDown [Source σ Char]
    (hread : ∀ (n : Nat) (s : σ), CountsDown s n (Source.read n s)) :
    Ebbs (Remaining : Nat → σ → Prop) where
  endMarker h := h.1
  known h := ⟨_, h.2, Nat.le_refl _, h.1, Nat.le_refl _⟩
  read := by
    intro k s h n
    refine (countsDown_readPortions hread n n s).mono ?_ ?_
    · intro cs t ⟨hlength, hcount, hmarker⟩
      have := h.2
      exact ⟨hlength, Source.remaining t, by omega, hmarker.trans h.1, Nat.le_refl _⟩
    · intro e t ⟨herror, hcount, hmarker⟩
      have := h.2
      exact ⟨herror, hmarker.trans h.1, by omega⟩

theorem Items.countsDown (n : Nat) (s : Items Char) : CountsDown s n (Source.read n s) := by
  rw [Items.read_apply]
  refine ⟨by rw [List.length_take]; omega, ?_, rfl⟩
  rw [Items.remaining_eq, Items.remaining_eq, Items.rest_drop, List.length_take, List.length_drop]
  omega

namespace ByteReader

/-- Requesting bytes uses up the one that it gives. -/
theorem request_countsDown (arrivals : List Arrival) (ended : Bool) :
    Run.Ends
      (fun b t => b.toList.length + unused t ≤ unused { arrivals, ended })
      (fun e t => (∃ error, e = .error error) ∧ unused t ≤ unused { arrivals, ended })
      (request arrivals) := by
  induction arrivals with
  | nil => exact Nat.le_refl 0
  | cons a rest ih =>
    have hrest : unused { arrivals := a :: rest, ended } = a.size + unused { arrivals := rest, ended } := rfl
    rw [hrest]
    cases a with
    | interrupted =>
      rw [show Arrival.interrupted.size = 0 from rfl, Nat.zero_add]
      exact ih
    | failed message => exact ⟨⟨_, rfl⟩, Nat.le_add_left _ _⟩
    | bytes portion =>
      cases portion with
      | nil =>
        show 0 + unused { arrivals := rest } ≤ 0 + _
        exact Nat.le_refl _
      | cons b held =>
        have hheld : ∀ (as : List Arrival) (k : Nat),
            as.foldr (fun a n => a.size + n) k = k + as.foldr (fun a n => a.size + n) 0 := by
          intro as k
          induction as with
          | nil => rfl
          | cons a as ih =>
            rw [List.foldr_cons, List.foldr_cons, ih]
            omega
        show 1 + rest.foldr (fun a n => a.size + n) held.length ≤
          (held.length + 1) + rest.foldr (fun a n => a.size + n) 0
        rw [hheld]
        omega

/-- A byte that is taken is used up. -/
def Uses {β : Type} (size : β → Nat) (r : ByteReader) :
    EStateM.Result Failure ByteReader β → Prop :=
  Run.Ends (fun b t => size b + unused t ≤ unused r)
    (fun e t => (∃ error, e = .error error) ∧ unused t ≤ unused r)

theorem Uses.bind {β γ : Type} {size : β → Nat} {size' : γ → Nat} {x : Run ByteReader β}
    {f : β → Run ByteReader γ} {r : ByteReader} (hx : Uses size r (x r))
    (hf : ∀ b t, Uses (fun c => size' c - size b) t (f b t)) : Uses size' r ((x >>= f) r) := by
  refine Run.Ends.bind hx ?_ fun _ _ he => he
  intro b t hb
  refine (hf b t).mono ?_ ?_
  · intro c u hc
    have hc : size' c - size b + unused u ≤ unused t := hc
    omega
  · intro e u ⟨herror, hu⟩
    exact ⟨herror, by omega⟩

theorem nextByte_uses (r : ByteReader) : Uses (·.toList.length) r (nextByte r) := by
  obtain ⟨held, arrivals, ended⟩ := r
  cases held with
  | nil => exact request_countsDown arrivals ended
  | cons b held =>
    show 1 + arrivals.foldr (fun a n => a.size + n) held.length ≤
      arrivals.foldr (fun a n => a.size + n) (held.length + 1)
    induction arrivals with
    | nil =>
      rw [List.foldr_nil, List.foldr_nil]
      omega
    | cons a rest ih =>
      rw [List.foldr_cons, List.foldr_cons]
      omega

theorem continuation_uses (n : Nat) (r : ByteReader) : Uses (fun _ => 0) r (continuation n r) := by
  induction n generalizing r with
  | zero => exact Nat.le_of_eq (Nat.zero_add _)
  | succ n ih =>
    refine (nextByte_uses r).bind fun b t => ?_
    cases b with
    | none => exact ⟨⟨_, rfl⟩, Nat.le_refl _⟩
    | some b => exact (ih t).bind fun bs u => Nat.le_of_eq (Nat.zero_add _)

/-- A character takes at least one byte. -/
theorem nextChar_uses (r : ByteReader) : Uses (·.toList.length) r (nextChar r) := by
  refine (nextByte_uses r).bind fun lead t => ?_
  cases lead with
  | none => exact Nat.le_of_eq (Nat.zero_add _)
  | some lead =>
    cases hwidth : Text.Utf8.width? lead with
    | none =>
      simp only [hwidth]
      exact ⟨⟨_, rfl⟩, Nat.le_refl _⟩
    | some width =>
      simp only [hwidth]
      refine (continuation_uses (width - 1) t).bind fun bytes u => ?_
      cases Text.Utf8.decode lead bytes with
      | error e => exact ⟨⟨_, rfl⟩, Nat.le_refl _⟩
      | ok c => exact Nat.le_of_eq (Nat.zero_add _)

theorem readChars_uses (n : Nat) (r : ByteReader) : Uses List.length r (readChars n r) := by
  induction n generalizing r with
  | zero => exact Nat.le_of_eq (Nat.zero_add _)
  | succ n ih =>
    unfold readChars
    rw [Run.bind_apply, Run.get_apply]
    dsimp only
    split
    · exact Nat.le_of_eq (Nat.zero_add _)
    refine (nextChar_uses r).bind fun c t => ?_
    cases c with
    | none => exact Nat.le_of_eq (Nat.zero_add _)
    | some c =>
      refine (ih t).bind fun cs u => ?_
      show (cs.length + 1 - 1 - cs.length) + unused u ≤ unused u
      omega

theorem length_readChars (n : Nat) (r : ByteReader) :
    Run.Ends (fun cs _ => cs.length ≤ n) (fun _ _ => True) (readChars n r) := by
  induction n generalizing r with
  | zero => exact Nat.le_refl 0
  | succ n ih =>
    unfold readChars
    rw [Run.bind_apply, Run.get_apply]
    dsimp only
    split
    · exact Nat.zero_le _
    refine Run.Ends.bind (Run.Ends.of_true _) (fun c t _ => ?_) fun _ _ he => he
    cases c with
    | none => exact Nat.zero_le _
    | some c => exact (ih t).bind (fun cs u hcs => Nat.succ_le_succ hcs) fun _ _ he => he

theorem countsDown (n : Nat) (r : ByteReader) : CountsDown r n (Source.read n r) := by
  refine ((readChars_uses n r).and (length_readChars n r)).mono ?_ ?_
  · intro cs t ⟨hcount, hlength⟩
    exact ⟨hlength, hcount, rfl⟩
  · intro e t ⟨⟨herror, hcount⟩, _⟩
    exact ⟨herror, hcount, rfl⟩

end ByteReader

theorem Feed.countsDown (n : Nat) (s : Feed) : CountsDown s n (Source.read n s) := by
  cases s with
  | text items =>
    have hitems := Items.countsDown n items
    rw [Items.read_apply] at hitems
    exact hitems
  | reader bytes =>
    have hbytes := ByteReader.countsDown n bytes
    show CountsDown (Feed.reader bytes) n (read n (.reader bytes))
    unfold read
    dsimp only
    cases hr : (Source.read n : Run ByteReader (List Char)) bytes with
    | ok cs t => exact hbytes.of_ok hr
    | error e t => exact hbytes.of_error hr

theorem Paced.portion_le (pace : Option Nat) (n : Nat) : portion pace n ≤ n := by
  cases pace with
  | none => exact Nat.le_refl n
  | some most => exact Nat.min_le_left n most

theorem Paced.countsDown (n : Nat) (s : Paced Feed) : CountsDown s n (Source.read n s) := by
  obtain ⟨source, pace⟩ := s
  have hsource := Feed.countsDown (portion pace n) source
  have hportion := portion_le pace n
  show CountsDown (⟨source, pace⟩ : Paced Feed) n (onSource (Source.read (portion pace n)) ⟨source, pace⟩)
  unfold onSource
  dsimp only
  cases hr : (Source.read (portion pace n) : Run Feed (List Char)) source with
  | ok cs t =>
    obtain ⟨hlength, hcount, hmarker⟩ := hsource.of_ok hr
    exact ⟨Nat.le_trans hlength hportion, hcount, hmarker⟩
  | error e t => exact hsource.of_error hr

/-- Texts and readers of bytes run dry, at whatever pace. -/
theorem Paced.ebbs : Ebbs (Remaining : Nat → Paced Feed → Prop) :=
  ebbs_of_countsDown Paced.countsDown

end Dataflow.Reading
