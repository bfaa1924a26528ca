import Dataflow.Proofs.Utf8
import Dataflow.Reading.ByteReader

/-!
# Dataflow.Proofs.Supply

Sources that never fail, and what they deliver. `Supply.Delivers s elements` says that reading on
from the state `s` hands out exactly `elements`, in portions of any size that is not zero, and
then nothing more.

* the list of an `Items` is what it delivers;
* a `ByteReader` whose requests do not fail delivers the characters that its bytes encode, however
  the bytes are cut into arrivals and whatever interrupts them;
* a pace of one or more only changes the portions;
* a supply of either kind that `Carries` a text delivers its characters.

`Supply.readFully_ok` is all that a buffer has to know of them.
-/

namespace Dataflow.Reading

open Text

/-- Sources that never fail. -/
class Supply (σ : Type) (α : outParam Type) extends Source σ α where
  /-- Reading on from a state hands out these elements, and then nothing more. -/
  Delivers : σ → List α → Prop
  /-- A portion holds some elements, unless there are none left. -/
  read_ok : ∀ {s : σ} {elements : List α} {n : Nat}, Delivers s elements → 0 < n →
    ∃ k t, read n s = .ok (elements.take k) t ∧ k ≤ n ∧ (0 < k ∨ elements = []) ∧
      Delivers t (elements.drop k) ∧ endMarker t = endMarker s
  /-- The source knows how much it may still deliver. -/
  length_le : ∀ {s : σ} {elements : List α}, Delivers s elements →
    elements.length ≤ remaining s

namespace Supply

variable {σ α : Type} [Supply σ α]

theorem readPortions_ok {portions wanted : Nat} {s : σ} {elements : List α}
    (h : Delivers s elements) (enough : wanted ≤ portions) :
    ∃ t, Source.readPortions portions wanted s = .ok (elements.take wanted) t ∧
      Delivers t (elements.drop wanted) ∧ Source.endMarker t = Source.endMarker s := by
  induction portions generalizing wanted s elements with
  | zero =>
    obtain rfl : wanted = 0 := by omega
    exact ⟨s, rfl, h, rfl⟩
  | succ portions ih =>
    unfold Source.readPortions
    by_cases hw : wanted = 0
    · subst hw
      exact ⟨s, rfl, h, rfl⟩
    · rw [if_neg hw]
      obtain ⟨k, t, hread, hk, hsome, ht, hmarker⟩ := read_ok h (Nat.pos_of_ne_zero hw)
      rw [Run.bind_apply, hread]
      by_cases hempty : elements = []
      · subst hempty
        refine ⟨t, ?_, by simpa using ht, hmarker⟩
        simp only [List.take_nil, List.isEmpty_nil, if_true, Run.pure_apply]
      · have hpos : 0 < k := hsome.resolve_right hempty
        have hlength : 0 < elements.length := List.length_pos_iff.2 hempty
        have hne : (elements.take k).isEmpty = false := by
          rw [List.isEmpty_eq_false_iff, ← List.length_pos_iff, List.length_take]
          omega
        simp only [hne, Bool.false_eq_true, if_false, Run.bind_apply]
        by_cases hall : elements.length ≤ k
        · -- The portion is all there is, and the next one is empty.
          rw [List.drop_eq_nil_of_le hall] at ht
          obtain ⟨t', hrest, ht', hmarker'⟩ :=
            ih ht (show wanted - elements.length ≤ portions by omega)
          refine ⟨t', ?_, ?_, hmarker'.trans hmarker⟩
          · have hwanted : elements.take wanted = elements :=
              List.take_of_length_le (Nat.le_trans hall hk)
            rw [List.take_of_length_le hall, hrest, hwanted]
            simp only [List.take_nil, List.append_nil, Run.pure_apply]
          · rw [List.drop_eq_nil_of_le (by omega)]
            simpa using ht'
        · obtain ⟨t', hrest, ht', hmarker'⟩ := 
            ih ht (show wanted - k ≤ portions by omega)
          have hlen : (elements.take k).length = k := by
            rw [List.length_take]
            omega
          refine ⟨t', ?_, ?_, hmarker'.trans hmarker⟩
          · rw [hlen, hrest]
            simp only [Run.pure_apply]
            rw [← List.take_add, Nat.add_sub_cancel' hk]
          · rw [List.drop_drop, Nat.add_sub_cancel' hk] at ht'
            exact ht'

/-- Reading fully hands out what is asked for, up to the end. -/
theorem readFully_ok {s : σ} {elements : List α} (h : Delivers s elements) (n : Nat) :
    ∃ t, Source.readFully n s = .ok (elements.take n) t ∧ Delivers t (elements.drop n) ∧
      Source.endMarker t = Source.endMarker s :=
  readPortions_ok h (Nat.le_refl n)

end Supply

/-! ### Lists -/

instance {α : Type} : Supply (Items α) α where
  Delivers s elements := s.rest = elements
  read_ok := by
    rintro s elements n rfl hn
    exact ⟨n, s.drop n, rfl, Nat.le_refl n, .inl hn, rfl, rfl⟩
  length_le := by
    rintro s elements rfl
    exact Nat.le_of_eq (Items.remaining_eq s).symm

@[simp] theorem Items.delivers_iff {α : Type} {s : Items α} {elements : List α} :
    Supply.Delivers s elements ↔ s.rest = elements := Iff.rfl

/-! ### Bytes -/

namespace ByteReader

/-- The bytes that arrive before the end is reported. -/
def arriving : List Arrival → List UInt8
  | [] => []
  | .interrupted :: rest => arriving rest
  | .failed _ :: _ => []
  | .bytes [] :: _ => []
  | .bytes (b :: portion) :: rest => b :: portion ++ arriving rest

/-- No request fails before the end is reported. -/
def Unfailing : List Arrival → Prop
  | [] => True
  | .interrupted :: rest => Unfailing rest
  | .failed _ :: _ => False
  | .bytes [] :: _ => True
  | .bytes (_ :: _) :: rest => Unfailing rest

/-- The reader has these bytes still to use before it reports the end or fails. -/
structure Brings (r : ByteReader) (bytes : List UInt8) : Prop where
  bytes_eq : r.held ++ arriving r.arrivals = bytes
  ended : r.ended = false

/-- The reader has these bytes still to use, and no request for them fails. -/
structure Holds (r : ByteReader) (bytes : List UInt8) : Prop where
  bytes_eq : r.held ++ arriving r.arrivals = bytes
  unfailing : Unfailing r.arrivals
  ended : r.ended = false

/-- The second reader is the first one behind so many bytes. -/
structure Passes (r : ByteReader) (used : Nat) (r' : ByteReader) : Prop where
  unfailing : Unfailing r.arrivals → Unfailing r'.arrivals
  unused : r.unused = r'.unused + used

theorem Passes.refl (r : ByteReader) : r.Passes 0 r := ⟨id, rfl⟩

theorem Passes.trans {r r' r'' : ByteReader} {m n : Nat} (h : r.Passes m r') (h' : r'.Passes n r'') :
    r.Passes (n + m) r'' where
  unfailing hr := h'.unfailing (h.unfailing hr)
  unused := by rw [h.unused, h'.unused, Nat.add_assoc]

theorem unused_eq (r : ByteReader) : r.unused = r.held.length + unused { arrivals := r.arrivals } := by
  obtain ⟨held, arrivals, ended⟩ := r
  unfold unused
  induction arrivals with
  | nil => rfl
  | cons a rest ih =>
    rw [List.foldr_cons, List.foldr_cons, ih, Nat.add_left_comm]

theorem length_arriving_le (arrivals : List Arrival) (held : Nat) :
    held + (arriving arrivals).length ≤ arrivals.foldr (fun a n => a.size + n) held := by
  induction arrivals with
  | nil => exact Nat.le_refl _
  | cons a rest ih =>
    rw [List.foldr_cons]
    cases a with
    | interrupted => simpa [arriving, Arrival.size] using ih
    | failed message => simp only [arriving, List.length_nil]; omega
    | bytes portion =>
      have hsize : (Arrival.bytes portion).size = portion.length := rfl
      rw [hsize]
      cases portion with
      | nil => simp only [arriving, List.length_nil]; omega
      | cons b portion =>
        simp only [arriving, List.length_append]
        omega

theorem request_none {arrivals : List Arrival} (h : Unfailing arrivals)
    (hbytes : arriving arrivals = []) :
    ∃ r, request arrivals = .ok none r ∧ r.unused ≤ unused { arrivals } := by
  induction arrivals with
  | nil => exact ⟨_, rfl, Nat.le_refl _⟩
  | cons a rest ih =>
    cases a with
    | interrupted =>
      obtain ⟨r, hr, hle⟩ := ih h hbytes
      exact ⟨r, hr, Nat.le_trans hle (Nat.le_add_left _ _)⟩
    | failed message => exact h.elim
    | bytes portion =>
      cases portion with
      | nil => exact ⟨_, rfl, Nat.le_add_left _ _⟩
      | cons b portion => exact absurd hbytes (by simp [arriving])

theorem request_some {arrivals : List Arrival} {b : UInt8} {bytes : List UInt8}
    (hbytes : arriving arrivals = b :: bytes) :
    ∃ r, request arrivals = .ok (some b) r ∧ r.Brings bytes ∧ Passes { arrivals } 1 r := by
  induction arrivals with
  | nil => cases hbytes
  | cons a rest ih =>
    cases a with
    | interrupted =>
      obtain ⟨r, hr, hbrings, hpasses⟩ := ih hbytes
      exact ⟨r, hr, hbrings, hpasses.unfailing, (Nat.zero_add _).trans hpasses.unused⟩
    | failed message => cases hbytes
    | bytes portion =>
      cases portion with
      | nil => cases hbytes
      | cons b' portion =>
        rw [arriving, List.cons_append, List.cons.injEq] at hbytes
        obtain ⟨rfl, hrest⟩ := hbytes
        refine ⟨_, rfl, ⟨hrest, rfl⟩, id, ?_⟩
        rw [unused_eq { held := portion, arrivals := rest }, Nat.add_right_comm]
        rfl

namespace Brings

variable {r : ByteReader} {bytes : List UInt8}

/-- What is still to use is counted. -/
theorem length_le (h : r.Brings bytes) : bytes.length ≤ r.unused := by
  rw [← h.bytes_eq, List.length_append]
  exact length_arriving_le r.arrivals r.held.length

theorem nextByte_none (h : r.Brings []) (hunfailing : Unfailing r.arrivals) :
    ∃ r', nextByte r = .ok none r' ∧ r'.unused ≤ r.unused := by
  obtain ⟨held, arrivals, ended⟩ := r
  cases held with
  | nil => exact request_none hunfailing h.bytes_eq
  | cons b held => exact absurd h.bytes_eq (by simp)

theorem nextByte_some {b : UInt8} (h : r.Brings (b :: bytes)) :
    ∃ r', nextByte r = .ok (some b) r' ∧ r'.Brings bytes ∧ r.Passes 1 r' := by
  obtain ⟨held, arrivals, ended⟩ := r
  cases held with
  | nil =>
    obtain ⟨r', hr, hbrings, hpasses⟩ := request_some h.bytes_eq
    exact ⟨r', hr, hbrings, hpasses.unfailing, hpasses.unused⟩
  | cons b' held =>
    have hbytes := h.bytes_eq
    rw [List.cons_append, List.cons.injEq] at hbytes
    obtain ⟨rfl, hrest⟩ := hbytes
    refine ⟨_, rfl, ⟨hrest, h.ended⟩, id, ?_⟩
    rw [unused_eq, unused_eq { held, arrivals, ended }, List.length_cons, Nat.add_right_comm]

theorem continuation_ok {more : List UInt8} (h : r.Brings (more ++ bytes)) :
    ∃ r', continuation more.length r = .ok more r' ∧ r'.Brings bytes ∧ r.Passes more.length r' := by
  induction more generalizing r with
  | nil => exact ⟨r, rfl, h, .refl r⟩
  | cons b more ih =>
    obtain ⟨r₁, hbyte, h₁, hpasses₁⟩ := nextByte_some h
    obtain ⟨r₂, hrest, h₂, hpasses₂⟩ := ih h₁
    refine ⟨r₂, ?_, h₂, hpasses₁.trans hpasses₂⟩
    rw [List.length_cons, continuation, Run.bind_apply, hbyte]
    simp only [Run.bind_apply, hrest, Run.pure_apply]

/-- The bytes of a character are used up for that character. -/
theorem nextChar_some {c : Char} (h : r.Brings (String.utf8EncodeChar c ++ bytes)) :
    ∃ r', nextChar r = .ok (some (admitted c)) r' ∧ r'.Brings bytes ∧
      r.Passes (String.utf8EncodeChar c).length r' := by
  obtain ⟨lead, rest, hencode, hwidth, hdecode⟩ := Utf8.decode_utf8EncodeChar c
  rw [hencode, List.cons_append] at h
  obtain ⟨r₁, hbyte, h₁, hpasses₁⟩ := nextByte_some h
  obtain ⟨r₂, hmore, h₂, hpasses₂⟩ := continuation_ok h₁
  refine ⟨r₂, ?_, h₂, ?_⟩
  · unfold nextChar
    simp only [Run.bind_apply, hbyte, hwidth, Nat.add_sub_cancel, hmore, hdecode, Run.pure_apply]
  · rw [hencode]
    exact hpasses₁.trans hpasses₂

theorem nextChar_none (h : r.Brings []) (hunfailing : Unfailing r.arrivals) :
    ∃ r', nextChar r = .ok none r' ∧ r'.unused ≤ r.unused := by
  obtain ⟨r', hbyte, hle⟩ := nextByte_none h hunfailing
  refine ⟨r', ?_, hle⟩
  unfold nextChar
  simp only [Run.bind_apply, hbyte, Run.pure_apply]

end Brings

namespace Holds

variable {r : ByteReader} {bytes : List UInt8}

theorem brings (h : r.Holds bytes) : r.Brings bytes := ⟨h.bytes_eq, h.ended⟩

theorem of_passes {r' : ByteReader} {used : Nat} (h : r'.Brings bytes) (hpasses : r.Passes used r')
    (hunfailing : Unfailing r.arrivals) : r'.Holds bytes :=
  ⟨h.bytes_eq, hpasses.unfailing hunfailing, h.ended⟩

theorem nextByte_none (h : r.Holds []) : ∃ r', nextByte r = .ok none r' := by
  obtain ⟨r', hbyte, -⟩ := h.brings.nextByte_none h.unfailing
  exact ⟨r', hbyte⟩

theorem nextByte_some {b : UInt8} (h : r.Holds (b :: bytes)) :
    ∃ r', nextByte r = .ok (some b) r' ∧ r'.Holds bytes := by
  obtain ⟨r', hbyte, hbrings, hpasses⟩ := h.brings.nextByte_some
  exact ⟨r', hbyte, .of_passes hbrings hpasses h.unfailing⟩

theorem continuation_ok {more : List UInt8} (h : r.Holds (more ++ bytes)) :
    ∃ r', continuation more.length r = .ok more r' ∧ r'.Holds bytes := by
  obtain ⟨r', hmore, hbrings, hpasses⟩ := h.brings.continuation_ok
  exact ⟨r', hmore, .of_passes hbrings hpasses h.unfailing⟩

theorem nextChar_some {c : Char} (h : r.Holds (String.utf8EncodeChar c ++ bytes)) :
    ∃ r', nextChar r = .ok (some (admitted c)) r' ∧ r'.Holds bytes := by
  obtain ⟨r', hchar, hbrings, hpasses⟩ := h.brings.nextChar_some
  exact ⟨r', hchar, .of_passes hbrings hpasses h.unfailing⟩

theorem nextChar_none (h : r.Holds []) : ∃ r', nextChar r = .ok none r' := by
  obtain ⟨r', hchar, -⟩ := h.brings.nextChar_none h.unfailing
  exact ⟨r', hchar⟩

end Holds

/-- The reader still delivers `elements`: it has ended, or it holds the bytes of a text. -/
def Spells (r : ByteReader) (elements : List Char) : Prop :=
  r.ended = true ∧ elements = [] ∨
    ∃ text : List Char, r.Holds (text.flatMap String.utf8EncodeChar) ∧
      elements = text.map admitted

theorem readChars_ended {r : ByteReader} (h : r.ended = true) (n : Nat) :
    readChars n r = .ok [] r := by
  cases n with
  | zero => rfl
  | succ n =>
    unfold readChars
    simp only [Run.bind_apply, Run.get_apply, h, if_true, Run.pure_apply]

theorem readChars_ok {n : Nat} {r : ByteReader} {text : List Char}
    (h : r.Holds (text.flatMap String.utf8EncodeChar)) :
    ∃ r', readChars n r = .ok ((text.map admitted).take n) r' ∧
      Spells r' ((text.map admitted).drop n) := by
  induction n generalizing r text with
  | zero => exact ⟨r, by rw [List.take_zero]; rfl, .inr ⟨text, h, rfl⟩⟩
  | succ n ih =>
    unfold readChars
    simp only [Run.bind_apply, Run.get_apply, h.ended, Bool.false_eq_true, if_false]
    cases text with
    | nil =>
      obtain ⟨r', hchar⟩ := h.nextChar_none
      simp only [hchar, Run.bind_apply, Run.modify_apply, Run.pure_apply]
      exact ⟨_, rfl, .inl ⟨rfl, rfl⟩⟩
    | cons c text =>
      obtain ⟨r₁, hchar, h₁⟩ := h.nextChar_some
      obtain ⟨r₂, hrest, h₂⟩ := ih h₁
      simp only [hchar, Run.bind_apply, hrest, Run.pure_apply]
      exact ⟨r₂, rfl, h₂⟩

theorem length_le_length_flatMap (text : List Char) :
    text.length ≤ (text.flatMap String.utf8EncodeChar).length := by
  induction text with
  | nil => exact Nat.le_refl 0
  | cons c text ih =>
    have hpos : 0 < (String.utf8EncodeChar c).length :=
      List.length_pos_iff.2 String.utf8EncodeChar_ne_nil
    rw [List.flatMap_cons, List.length_append, List.length_cons]
    omega

instance : Supply ByteReader Char where
  Delivers := Spells
  read_ok := by
    rintro r elements n (⟨hended, rfl⟩ | ⟨text, h, rfl⟩) hn
    · refine ⟨n, r, ?_, Nat.le_refl n, .inr rfl, .inl ⟨hended, by simp⟩, rfl⟩
      rw [List.take_nil]
      exact readChars_ended hended n
    · obtain ⟨r', hread, h'⟩ := readChars_ok (n := n) h
      exact ⟨n, r', hread, Nat.le_refl n, .inl hn, h', rfl⟩
  length_le := by
    rintro r elements (⟨-, rfl⟩ | ⟨text, h, rfl⟩)
    · exact Nat.zero_le _
    · rw [List.length_map]
      exact Nat.le_trans (length_le_length_flatMap text) h.brings.length_le

end ByteReader

/-! ### Portions and feeds -/

namespace Paced

variable {σ α : Type}

instance [Supply σ α] : Supply (Paced σ) α where
  Delivers s elements := (∀ most, s.pace = some most → 0 < most) ∧ Supply.Delivers s.source elements
  read_ok := by
    rintro ⟨source, pace⟩ elements n ⟨hpace, h⟩ hn
    have hportion : 0 < portion pace n ∧ portion pace n ≤ n := by
      cases pace with
      | none => exact ⟨hn, Nat.le_refl n⟩
      | some most =>
        have := hpace most rfl
        show 0 < min n most ∧ min n most ≤ n
        omega
    obtain ⟨k, t, hread, hk, hsome, ht, hmarker⟩ := Supply.read_ok h hportion.1
    refine ⟨k, ⟨t, pace⟩, ?_, Nat.le_trans hk hportion.2, hsome, ⟨hpace, ht⟩, hmarker⟩
    show onSource (Source.read (portion pace n)) ⟨source, pace⟩ = _
    unfold onSource
    simp only [hread]
  length_le := by
    rintro s elements ⟨-, h⟩
    exact Supply.length_le h

end Paced

namespace Feed

instance : Supply Feed Char where
  Delivers
    | text items => Supply.Delivers items
    | reader bytes => Supply.Delivers bytes
  read_ok := by
    rintro (items | bytes) elements n h hn
    · obtain ⟨k, t, hread, hk, hsome, ht, hmarker⟩ := Supply.read_ok (s := items) h hn
      refine ⟨k, text t, ?_, hk, hsome, ht, hmarker⟩
      show read n (text items) = _
      unfold read
      simp only [hread]
    · obtain ⟨k, t, hread, hk, hsome, ht, hmarker⟩ := Supply.read_ok (s := bytes) h hn
      refine ⟨k, reader t, ?_, hk, hsome, ht, hmarker⟩
      show read n (reader bytes) = _
      unfold read
      simp only [hread]
  length_le := by
    rintro (items | bytes) elements h
    · exact Supply.length_le (s := items) h
    · exact Supply.length_le (s := bytes) h

end Feed

/-! ### Texts on their way -/

/-- The bytes arrive in portions of one or more, interrupted in between any number of times. -/
inductive Arrive : (bytes : List UInt8) → List Arrival → Prop
  | ended : Arrive [] []
  | interrupted {bytes : List UInt8} {arrivals : List Arrival} (h : Arrive bytes arrivals) :
    Arrive bytes (.interrupted :: arrivals)
  | portion {portion bytes : List UInt8} {arrivals : List Arrival} (hne : portion ≠ [])
    (h : Arrive bytes arrivals) : Arrive (portion ++ bytes) (.bytes portion :: arrivals)

theorem Arrive.holds {bytes : List UInt8} {arrivals : List Arrival} (h : Arrive bytes arrivals) :
    ByteReader.Holds { arrivals } bytes := by
  induction h with
  | ended => exact ⟨rfl, trivial, rfl⟩
  | interrupted _ ih => exact ⟨ih.bytes_eq, ih.unfailing, rfl⟩
  | @portion portion bytes arrivals hne _ ih =>
    obtain ⟨b, rest, rfl⟩ := List.exists_cons_of_ne_nil hne
    exact ⟨congrArg (b :: rest ++ ·) ih.bytes_eq, ih.unfailing, rfl⟩

/-- Nothing arrives behind the bytes. -/
theorem Arrive.unused_eq {bytes : List UInt8} {arrivals : List Arrival} (h : Arrive bytes arrivals) :
    ByteReader.unused { arrivals } = bytes.length := by
  induction h with
  | ended => rfl
  | interrupted _ ih => exact (Nat.zero_add _).trans ih
  | @portion portion bytes arrivals _ _ ih =>
    rw [List.length_append, ← ih]
    rfl

/-- The supply has the text at hand, or reads its encoding in UTF-8. -/
inductive Feed.Carries (text : String) : Feed → Prop
  | text : Carries text (.text (.ofText text))
  | reader {arrivals : List Arrival} (h : Arrive text.toUTF8.data.toList arrivals) :
    Carries text (.reader { arrivals })

/-- The supply carries the text, and hands out one or more of its characters at a time. -/
structure Paced.Carries (text : String) (s : Paced Feed) : Prop where
  source : s.source.Carries text
  pace : ∀ most, s.pace = some most → 0 < most

section Carries

variable {text : String}

theorem Feed.Carries.delivers {s : Feed} (h : s.Carries text) :
    Supply.Delivers s (text.toList.map admitted) := by
  cases h with
  | text => exact Items.delivers_iff.2 rfl
  | reader h =>
    refine .inr ⟨text.toList, ?_, rfl⟩
    have hbytes : text.toUTF8.data.toList = text.toList.flatMap String.utf8EncodeChar := by
      simp [← String.utf8Encode_toList, List.utf8Encode]
    rw [← hbytes]
    exact h.holds

theorem Paced.Carries.delivers {s : Paced Feed} (h : s.Carries text) :
    Supply.Delivers s (text.toList.map admitted) :=
  ⟨h.pace, h.source.delivers⟩

theorem Paced.Carries.endMarker_eq {s : Paced Feed} (h : s.Carries text) :
    Source.endMarker s = endOfInput := by
  obtain ⟨source, pace⟩ := s
  cases h.source <;> rfl

end Carries

end Dataflow.Reading
