import Dataflow.Proofs.Supply

/-!
# Dataflow.Proofs.Portions

**A filled buffer does not show in what portions it was filled.** A source may hand out less than it
is asked for, any number of times. A reader who wants a whole buffer goes on until the buffer is
full or nothing more comes, and puts end markers into what is left of it.

* `Source.Fills` — the loop of such a reader, round after round and without a bound: each round asks
  for as much as there is room for, and the buffer is filled from the front;
* `Source.readPadded_eq_iff` — for every source, `readPadded` answers what this loop ends with. The
  bound on the portions of `readPortions` is never what ends it, because each round but the last
  fills one slot or more;
* `Supply.readPadded_hides_portions` — from a source that does not fail, whatever was read from it
  before, the loop ends with as many elements of the rest as there is room for, in order, and with
  end markers behind them. Two buffers hold what one buffer of both lengths would.
-/

namespace Dataflow.Reading

namespace Source

variable {σ α : Type} [Source σ α]

/-- Fills a buffer of `n` elements, with end markers in place of what is missing. The answer tells
how many of them are elements. -/
def readPadded (n : Nat) : Run σ (Nat × List α) := do
  let elements ← readFully n
  return (elements.length, padded n (endMarker (← get)) elements)

/-- The loop that fills a buffer and ends with a count, the buffer and the state of the source.
The front of the buffer is `filled`; what the other `slots` happen to hold is overwritten. -/
inductive Fills : (rounds : Nat) → (filled slots : List α) → σ →
    (count : Nat) → (buffer : List α) → σ → Prop
  | full {filled : List α} {s : σ} : Fills 0 filled [] s filled.length filled s
  | ended {filled slots : List α} {s t : σ} (room : slots ≠ [])
      (nothing : read slots.length s = .ok [] t) :
      Fills 1 filled slots s filled.length
        (filled ++ List.replicate slots.length (endMarker t)) t
  | again {rounds count : Nat} {filled slots portion buffer : List α} {s t u : σ}
      (room : slots ≠ []) (some : portion ≠ []) (portion_eq : read slots.length s = .ok portion t)
      (rest : Fills rounds (filled ++ portion) (slots.drop portion.length) t count buffer u) :
      Fills (rounds + 1) filled slots s count buffer u

@[simp] theorem padded_nil (n : Nat) (marker : α) :
    padded n marker [] = List.replicate n marker := rfl

theorem padded_append (n : Nat) (marker : α) (portion more : List α) :
    padded n marker (portion ++ more) = portion ++ padded (n - portion.length) marker more := by
  simp [padded, Nat.sub_sub]

theorem padded_take (n : Nat) (marker : α) (elements : List α) :
    padded n marker (elements.take n) =
      elements.take n ++ List.replicate (n - elements.length) marker := by
  rw [padded, List.length_take]
  congr 2
  omega

/-! ### One round -/

section Round

variable {portions wanted : Nat} {s t : σ} {portion : List α}

theorem readPortions_none : readPortions portions 0 s = .ok [] s := by
  cases portions <;> rfl

theorem readPortions_ended (hwanted : wanted ≠ 0) (hread : read wanted s = .ok [] t) :
    readPortions (portions + 1) wanted s = .ok [] t := by
  unfold readPortions
  simp only [if_neg hwanted, Run.bind_apply, hread, List.isEmpty_nil, if_true, Run.pure_apply]

theorem readPortions_again (hwanted : wanted ≠ 0) (hread : read wanted s = .ok portion t)
    (hne : portion ≠ []) :
    readPortions (portions + 1) wanted s =
      ((portion ++ ·) <$> readPortions portions (wanted - portion.length)) t := by
  have hempty : portion.isEmpty = false := List.isEmpty_eq_false_iff.2 hne
  rw [readPortions, if_neg hwanted, Run.bind_apply, hread]
  simp only [hempty, Bool.false_eq_true, if_false, map_eq_pure_bind]

end Round

/-! ### The loop -/

section Loop

variable {rounds portions count : Nat} {filled slots buffer elements : List α} {s t : σ}

/-- Each round but the last fills one slot or more. -/
theorem Fills.rounds_le (h : Fills rounds filled slots s count buffer t) :
    rounds ≤ slots.length := by
  induction h with
  | full => exact Nat.le_refl 0
  | ended room => exact List.length_pos_iff.2 room
  | @again rounds _ _ slots portion _ _ _ _ room some _ _ ih =>
    have hslots : 0 < slots.length := List.length_pos_iff.2 room
    have hportion : 0 < portion.length := List.length_pos_iff.2 some
    rw [List.length_drop] at ih
    omega

/-- The loop has put into the buffer what the portions make together. -/
theorem Fills.readPortions (h : Fills rounds filled slots s count buffer t)
    (enough : slots.length ≤ portions) :
    ∃ elements, readPortions portions slots.length s = .ok elements t ∧
      count = filled.length + elements.length ∧
      buffer = filled ++ padded slots.length (endMarker t) elements := by
  induction h generalizing portions with
  | full => exact ⟨[], readPortions_none, rfl, by simp⟩
  | @ended filled slots s t room nothing =>
    obtain ⟨portions, rfl⟩ := Nat.exists_eq_add_one.2
      (Nat.lt_of_lt_of_le (List.length_pos_iff.2 room) enough)
    exact ⟨[], readPortions_ended (mt List.length_eq_zero_iff.1 room) nothing, rfl, rfl⟩
  | @again rounds count filled slots portion buffer s t u room some portion_eq rest ih =>
    have hslots : 0 < slots.length := List.length_pos_iff.2 room
    have hportion : 0 < portion.length := List.length_pos_iff.2 some
    obtain ⟨portions, rfl⟩ := Nat.exists_eq_add_one.2 (Nat.lt_of_lt_of_le hslots enough)
    have henough : (slots.drop portion.length).length ≤ portions := by
      rw [List.length_drop]
      omega
    obtain ⟨elements, hread, hcount, hbuffer⟩ := ih henough
    rw [List.length_drop] at hread hbuffer
    refine ⟨portion ++ elements, ?_, ?_, ?_⟩
    · rw [readPortions_again (by omega) portion_eq some, map_eq_pure_bind, Run.bind_apply, hread]
      rfl
    · rw [hcount, List.length_append, List.length_append, Nat.add_assoc]
    · rw [hbuffer, padded_append, List.append_assoc]

/-- Where the portions make so many elements together, the loop ends with them. -/
theorem fills_of_readPortions (filled : List α) (h : readPortions portions slots.length s = .ok elements t)
    (enough : slots.length ≤ portions) :
    ∃ rounds, Fills rounds filled slots s (filled.length + elements.length)
      (filled ++ padded slots.length (endMarker t) elements) t := by
  induction portions generalizing filled slots s elements with
  | zero =>
    -- A bound of none is enough only for a buffer without slots, which no round is for.
    obtain rfl : slots = [] := List.length_eq_zero_iff.1 (Nat.le_zero.1 enough)
    cases h
    simpa using ⟨0, Fills.full⟩
  | succ portions ih =>
    by_cases room : slots = []
    · subst room
      rw [List.length_nil, readPortions_none] at h
      cases h
      simpa using ⟨0, Fills.full⟩
    · have hslots : slots.length ≠ 0 := mt List.length_eq_zero_iff.1 room
      cases hread : read slots.length s with
      | error e u =>
        unfold Source.readPortions at h
        rw [if_neg hslots, Run.bind_apply, hread] at h
        cases h
      | ok portion u =>
        by_cases hne : portion = []
        · subst hne
          rw [readPortions_ended hslots hread] at h
          cases h
          exact ⟨1, .ended room hread⟩
        · have hportion : 0 < portion.length := List.length_pos_iff.2 hne
          rw [readPortions_again hslots hread hne, map_eq_pure_bind, Run.bind_apply,
            ← List.length_drop] at h
          cases hrest : readPortions portions (slots.drop portion.length).length u with
          | error e v =>
            rw [hrest] at h
            cases h
          | ok more v =>
            rw [hrest] at h
            cases h
            have henough : (slots.drop portion.length).length ≤ portions := by
              rw [List.length_drop]
              omega
            obtain ⟨rounds, hfills⟩ := ih (filled ++ portion) hrest henough
            refine ⟨rounds + 1, .again room hne hread ?_⟩
            rw [List.length_append, Nat.add_assoc, ← List.length_append, List.append_assoc,
              List.length_drop, ← padded_append] at hfills
            exact hfills

theorem readPadded_eq (n : Nat) (s : σ) : readPadded n s = match readFully n s with
    | .ok elements t => .ok (elements.length, padded n (endMarker t) elements) t
    | .error e t => .error e t := by
  unfold readPadded
  rw [Run.bind_apply]
  cases readFully n s <;> rfl

/-- A buffer is filled as the loop fills it, whatever its slots held and however many rounds there
are. There are no more rounds than slots. -/
theorem readPadded_eq_iff : readPadded slots.length s = .ok (count, buffer) t ↔
    ∃ rounds ≤ slots.length, Fills rounds [] slots s count buffer t := by
  rw [readPadded_eq]
  constructor
  · intro h
    cases hread : readFully slots.length s with
    | error e u =>
      rw [hread] at h
      cases h
    | ok elements u =>
      rw [hread] at h
      cases h
      obtain ⟨rounds, hfills⟩ := fills_of_readPortions [] hread (Nat.le_refl _)
      rw [List.length_nil, Nat.zero_add, List.nil_append] at hfills
      exact ⟨rounds, hfills.rounds_le, hfills⟩
  · rintro ⟨rounds, -, hfills⟩
    obtain ⟨elements, hread, rfl, rfl⟩ := hfills.readPortions (Nat.le_refl _)
    rw [readFully, hread]
    simp

end Loop

/-! ### Calls -/

/-- A call on a source: for a portion, which is not asked for where there is room for nothing, or
for a whole buffer. -/
inductive Call where
  | portion (most : Nat) (some : 0 < most)
  | whole (n : Nat)

/-- The elements that a call hands out. -/
def Call.perform : Call → Run σ (List α)
  | .portion most _ => read most
  | .whole n => readFully n

/-- The elements that the calls hand out one after the other. -/
def performAll : List Call → Run σ (List α)
  | [] => pure []
  | call :: calls => do
    let elements ← call.perform
    return elements ++ (← performAll calls)

end Source

namespace Supply

open Source

variable {σ α : Type} [Supply σ α] {s : σ} {elements : List α}

theorem call_ok (h : Delivers s elements) (call : Call) :
    ∃ k t, call.perform s = .ok (elements.take k) t ∧ Delivers t (elements.drop k) ∧
      endMarker t = endMarker s := by
  cases call with
  | portion most some =>
    obtain ⟨k, t, hread, -, -, ht, hmarker⟩ := read_ok h some
    exact ⟨k, t, hread, ht, hmarker⟩
  | whole n =>
    obtain ⟨t, hread, ht, hmarker⟩ := readFully_ok h n
    exact ⟨n, t, hread, ht, hmarker⟩

/-- Calls of either kind take elements off the front. -/
theorem performAll_ok (h : Delivers s elements) (calls : List Call) :
    ∃ taken rest t, performAll calls s = .ok taken t ∧ elements = taken ++ rest ∧
      Delivers t rest ∧ endMarker t = endMarker s := by
  induction calls generalizing s elements with
  | nil => exact ⟨[], elements, s, rfl, rfl, h, rfl⟩
  | cons call calls ih =>
    obtain ⟨k, t, hcall, ht, hmarker⟩ := call_ok h call
    obtain ⟨taken, rest, u, hcalls, heq, hu, hmarker'⟩ := ih ht
    refine ⟨elements.take k ++ taken, rest, u, ?_, ?_, hu, hmarker'.trans hmarker⟩
    · rw [performAll, Run.bind_apply, hcall]
      simp only [Run.bind_apply, hcalls, Run.pure_apply]
    · rw [List.append_assoc, ← heq, List.take_append_drop]

/-- A buffer holds the elements that there is room for, and end markers behind them. -/
theorem readPadded_ok (h : Delivers s elements) (n : Nat) :
    ∃ t, readPadded n s = .ok (min n elements.length,
        elements.take n ++ List.replicate (n - elements.length) (endMarker s)) t ∧
      Delivers t (elements.drop n) ∧ endMarker t = endMarker s := by
  obtain ⟨t, hread, ht, hmarker⟩ := readFully_ok h n
  refine ⟨t, ?_, ht, hmarker⟩
  rw [readPadded_eq, hread]
  simp only [List.length_take, hmarker, padded_take]

/-- What two buffers hold is what one buffer of both lengths holds. -/
theorem padding_add (n m : Nat) (marker : α) (elements : List α) :
    elements.take (n + m) ++ List.replicate (n + m - elements.length) marker =
      (elements.take n ++ List.replicate (n - elements.length) marker) ++
        ((elements.drop n).take m ++ List.replicate (m - (elements.length - n)) marker) := by
  rw [List.take_add]
  by_cases hall : elements.length ≤ n
  · rw [List.drop_eq_nil_of_le hall]
    simp only [List.take_nil, List.append_nil, List.nil_append, List.append_assoc,
      List.append_cancel_left_eq, List.replicate_append_replicate]
    congr 1
    omega
  · have hshort : n - elements.length = 0 := by omega
    have hrest : n + m - elements.length = m - (elements.length - n) := by omega
    rw [hshort, hrest, List.replicate_zero, List.append_nil, List.append_assoc]

/-- **A filled buffer does not show in what portions it was filled.** Whatever was read before, the
loop that fills a buffer ends. It has counted and put into the buffer the elements of the rest that
there is room for, with end markers behind them, and has left the others in the source. A second
buffer goes on where the first ends: the two have the elements and the count of one that is as long
as both. -/
theorem readPadded_hides_portions (h : Delivers s elements) (calls : List Call) :
    ∃ taken rest t, performAll calls s = .ok taken t ∧ elements = taken ++ rest ∧ Delivers t rest ∧
      ∀ n, ∃ buffer u,
        buffer = rest.take n ++ List.replicate (n - rest.length) (endMarker s) ∧
        readPadded n t = .ok (min n rest.length, buffer) u ∧ Delivers u (rest.drop n) ∧
        (∀ slots : List α, slots.length = n →
          ∃ rounds ≤ n, Fills rounds [] slots t (min n rest.length) buffer u) ∧
        ∀ m, ∃ more v w,
          more = (rest.drop n).take m ++ List.replicate (m - (rest.length - n)) (endMarker s) ∧
          readPadded m u = .ok (min m (rest.length - n), more) v ∧
          readPadded (n + m) t =
            .ok (min n rest.length + min m (rest.length - n), buffer ++ more) w ∧
          Delivers v (rest.drop (n + m)) ∧ Delivers w (rest.drop (n + m)) := by
  obtain ⟨taken, rest, t, hcalls, heq, ht, hmarker⟩ := performAll_ok h calls
  refine ⟨taken, rest, t, hcalls, heq, ht, fun n => ?_⟩
  obtain ⟨u, hbuffer, hu, hmarker'⟩ := readPadded_ok ht n
  rw [hmarker] at hbuffer hmarker'
  refine ⟨_, u, rfl, hbuffer, hu, ?_, fun m => ?_⟩
  · rintro slots rfl
    exact readPadded_eq_iff.1 hbuffer
  · obtain ⟨v, hmore, hv, -⟩ := readPadded_ok hu m
    obtain ⟨w, hboth, hw, -⟩ := readPadded_ok ht (n + m)
    rw [List.length_drop, hmarker'] at hmore
    rw [List.drop_drop] at hv
    refine ⟨_, v, w, rfl, hmore, ?_, hv, hw⟩
    have hcount : min (n + m) rest.length = min n rest.length + min m (rest.length - n) := by omega
    rw [hboth, hcount, hmarker, padding_add]

/-- A text of four characters whose bytes arrive in pieces that cut two of them, and which is handed
out two characters at a time. -/
def trickle : Paced Feed where
  source := .reader { arrivals := [.bytes [0x61, 0xCE], .interrupted, .bytes [0xBB, 0x62, 0xE2],
    .bytes [0x88, 0x80]] }
  pace := some 2

/-- Behind a portion of three characters, which has only two, buffers of one and of three hold what
one of four does. -/
theorem readPadded_hides_portions_trickle :
    Delivers trickle ['a', 'λ', 'b', '∀'] ∧
    ∃ t u v w, performAll [.portion 3 (by decide)] trickle = .ok ['a', 'λ'] t ∧
      readPadded 1 t = .ok (1, ['b']) u ∧
      readPadded 3 u = .ok (1, ['∀', endOfInput, endOfInput]) v ∧
      readPadded 4 t = .ok (2, ['b', '∀', endOfInput, endOfInput]) w := by
  have h : Delivers trickle ['a', 'λ', 'b', '∀'] := by
    refine ⟨?_, .inr ⟨['a', 'λ', 'b', '∀'], ⟨rfl, trivial, rfl⟩, rfl⟩⟩
    rintro _ ⟨⟩
    decide
  refine ⟨h, ?_⟩
  obtain ⟨taken, rest, t, hcalls, heq, -, hbuffers⟩ :=
    readPadded_hides_portions h [.portion 3 (by decide)]
  obtain ⟨t', hfirst⟩ : ∃ t', performAll [.portion 3 (by decide)] trickle = .ok ['a', 'λ'] t' :=
    ⟨_, rfl⟩
  obtain ⟨rfl, rfl⟩ : taken = ['a', 'λ'] ∧ t = t' := by
    rw [hfirst] at hcalls
    cases hcalls
    exact ⟨rfl, rfl⟩
  obtain rfl : rest = ['b', '∀'] := by simpa using heq.symm
  obtain ⟨_, u, rfl, hone, -, -, hmore⟩ := hbuffers 1
  obtain ⟨_, v, w, rfl, hthree, hfour, -⟩ := hmore 3
  exact ⟨t, u, v, w, hfirst, hone, hthree, hfour⟩

end Supply

end Dataflow.Reading
