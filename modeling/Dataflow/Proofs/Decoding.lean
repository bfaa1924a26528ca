import Dataflow.Proofs.Supply
import Dataflow.Proofs.Runs

/-!
# Dataflow.Proofs.Decoding

**A reader of bytes decodes exactly UTF-8, however the bytes are cut and whatever interrupts them**
(`Source.readEach_decodes`). Asked for one character after the other, it hands out the characters of
the longest beginning that is a whole number of encodings. Where that is everything, it has ended
for good; where it is not, the next request fails. So all requests succeed exactly for well-formed
bytes.

* `Utf8.Splits` — that longest beginning, and the bytes behind it. There is one for all bytes, and
  only one, since no encoding begins another (`Utf8.utf8EncodeChar_append_inj`).
* `Utf8.Illformed` — what no encoding begins: bytes that only continue a character, over-long forms,
  surrogates, values above the last code point, and the front of a character with the end behind it.
* `Holds.nextChar_splits` — what one request does with the bytes that are left. The decoder takes
  as many bytes as the first one tells before it looks at them; that this is no other language is
  because encoding and decoding undo each other.
-/

namespace Dataflow

open Text

namespace Text.Utf8

/-! ### The longest well-formed beginning -/

/-- The bytes are the encodings of the characters of `text`, and `rest`, which no encoding begins. -/
structure Splits (bytes : List UInt8) (text : List Char) (rest : List UInt8) : Prop where
  bytes_eq : text.flatMap String.utf8EncodeChar ++ rest = bytes
  stuck : ∀ c, ¬ String.utf8EncodeChar c <+: rest

theorem not_begun_nil (c : Char) : ¬ String.utf8EncodeChar c <+: [] := by
  rw [List.prefix_nil]
  exact String.utf8EncodeChar_ne_nil

theorem exists_splits (bytes : List UInt8) : ∃ text rest, Splits bytes text rest := by
  induction hn : bytes.length using Nat.strongRecOn generalizing bytes with
  | ind n ih =>
    by_cases h : ∃ c, String.utf8EncodeChar c <+: bytes
    · obtain ⟨c, more, rfl⟩ := h
      have hpos : 0 < (String.utf8EncodeChar c).length :=
        List.length_pos_iff.2 String.utf8EncodeChar_ne_nil
      obtain ⟨text, rest, hmore⟩ := ih more.length (by rw [← hn, List.length_append]; omega) more rfl
      refine ⟨c :: text, rest, ?_, hmore.stuck⟩
      rw [List.flatMap_cons, List.append_assoc, hmore.bytes_eq]
    · exact ⟨[], bytes, rfl, fun c hc => h ⟨c, hc⟩⟩

namespace Splits

variable {bytes rest : List UInt8} {text : List Char}

/-- No well-formed beginning is longer. -/
theorem longest (h : Splits bytes text rest) {text' : List Char}
    (h' : text'.flatMap String.utf8EncodeChar <+: bytes) : text' <+: text := by
  induction text' generalizing bytes text with
  | nil => exact List.nil_prefix
  | cons c' text' ih =>
    obtain ⟨more, hmore⟩ := h'
    rw [List.flatMap_cons, List.append_assoc] at hmore
    cases text with
    | nil => exact absurd ⟨_, hmore.trans h.bytes_eq.symm⟩ (h.stuck c')
    | cons c text =>
      have hbytes := h.bytes_eq
      rw [List.flatMap_cons, List.append_assoc, ← hmore] at hbytes
      obtain ⟨rfl, htail⟩ := utf8EncodeChar_append_inj hbytes
      exact (List.cons_prefix_cons).2 ⟨rfl, ih ⟨htail, h.stuck⟩ ⟨more, rfl⟩⟩

theorem unique (h : Splits bytes text rest) {text' : List Char} {rest' : List UInt8}
    (h' : Splits bytes text' rest') : text' = text ∧ rest' = rest := by
  have htext := (h.longest ⟨rest', h'.bytes_eq⟩).eq_of_length_le
    (h'.longest ⟨rest, h.bytes_eq⟩).length_le
  subst htext
  exact ⟨rfl, List.append_cancel_left (h'.bytes_eq.trans h.bytes_eq.symm)⟩

/-- Nothing is left of well-formed bytes, and of no others. -/
theorem isValidUTF8_iff (h : Splits bytes text rest) :
    bytes.toByteArray.IsValidUTF8 ↔ rest = [] := by
  constructor
  · rintro ⟨text', hbytes⟩
    have hbytes : [].append (text'.flatMap String.utf8EncodeChar) ++ [] = bytes :=
      (List.append_nil _).trans (List.toByteArray_inj.1 hbytes).symm
    exact (h.unique ⟨hbytes, not_begun_nil⟩).2.symm
  · rintro rfl
    exact ⟨text, congrArg List.toByteArray (h.bytes_eq.symm.trans (List.append_nil _))⟩

end Splits

/-! ### Ill-formed bytes -/

/-- The two bytes that the payload of a number would be spread over. -/
def overTwo (n : Nat) : List UInt8 :=
  [.ofNat (n / 0x40 % 0x20 + 0xc0), .ofNat (n % 0x40 + 0x80)]

/-- The three bytes that the payload of a number would be spread over. -/
def overThree (n : Nat) : List UInt8 :=
  [.ofNat (n / 0x1000 % 0x10 + 0xe0), .ofNat (n / 0x40 % 0x40 + 0x80), .ofNat (n % 0x40 + 0x80)]

/-- The four bytes that the payload of a number would be spread over. -/
def overFour (n : Nat) : List UInt8 :=
  [.ofNat (n / 0x40000 % 0x08 + 0xf0), .ofNat (n / 0x1000 % 0x40 + 0x80),
    .ofNat (n / 0x40 % 0x40 + 0x80), .ofNat (n % 0x40 + 0x80)]

/-- Bytes behind a whole number of characters that are not the beginning of another one. -/
inductive Illformed : List UInt8 → Prop
  /-- A byte that continues a character, without one. -/
  | stray {b : UInt8} {more : List UInt8} (h : 0x80 ≤ b.toNat) (h' : b.toNat ≤ 0xbf) :
    Illformed (b :: more)
  /-- Two bytes for what one holds. -/
  | overlongTwo {n : Nat} {more : List UInt8} (h : n < 0x80) : Illformed (overTwo n ++ more)
  /-- Three bytes for what two hold. -/
  | overlongThree {n : Nat} {more : List UInt8} (h : n < 0x800) : Illformed (overThree n ++ more)
  /-- Four bytes for what three hold. -/
  | overlongFour {n : Nat} {more : List UInt8} (h : n < 0x10000) : Illformed (overFour n ++ more)
  /-- Half of a pair of UTF-16. -/
  | surrogate {n : Nat} {more : List UInt8} (h : 0xd800 ≤ n) (h' : n ≤ 0xdfff) :
    Illformed (overThree n ++ more)
  /-- A number above the last code point. -/
  | beyond {n : Nat} {more : List UInt8} (h : 0x110000 ≤ n) (h' : n < 0x200000) :
    Illformed (overFour n ++ more)
  /-- The front of a character, and then the end. -/
  | truncated {c : Char} {k : Nat} (h : 0 < k) (h' : k < (String.utf8EncodeChar c).length) :
    Illformed ((String.utf8EncodeChar c).take k)

/-- An encoding begins with a byte that tells its length, and a second byte that may stand there. -/
theorem lead_of_begun {c : Char} {lead : UInt8} {bytes : List UInt8}
    (h : String.utf8EncodeChar c <+: lead :: bytes) :
    ∃ rest more, bytes = rest ++ more ∧ width? lead = some (rest.length + 1) ∧
      decode lead rest = .ok c := by
  obtain ⟨more, hmore⟩ := h
  obtain ⟨first, rest, hencode, hwidth, hdecode⟩ := decode_utf8EncodeChar c
  rw [hencode, List.cons_append, List.cons.injEq] at hmore
  obtain ⟨rfl, rfl⟩ := hmore
  exact ⟨rest, more, rfl, hwidth, hdecode⟩

theorem second_of_begun {c : Char} {lead second : UInt8} {bytes : List UInt8}
    (hlead : 0x80 ≤ lead.toNat) (h : String.utf8EncodeChar c <+: lead :: second :: bytes) :
    isSecond lead second = true := by
  obtain ⟨rest, more, hbytes, hwidth, hdecode⟩ := lead_of_begun h
  cases rest with
  | nil =>
    have hcases := width?_cases hwidth
    simp only [List.length_nil] at hcases
    omega
  | cons b rest =>
    rw [List.cons_append, List.cons.injEq] at hbytes
    obtain ⟨rfl, rfl⟩ := hbytes
    exact (second_of_validPrefix (decode_eq_ok hdecode).1).1

/-- No encoding begins what is ill-formed. -/
theorem Illformed.not_begun {bytes : List UInt8} (h : Illformed bytes) (c : Char) :
    ¬ String.utf8EncodeChar c <+: bytes := by
  intro hc
  cases h with
  | stray h h' =>
    obtain ⟨rest, more, -, hwidth, -⟩ := lead_of_begun hc
    have hcases := width?_cases hwidth
    omega
  | @overlongTwo n more h =>
    obtain ⟨rest, more, -, hwidth, -⟩ := lead_of_begun hc
    have hlead := toNat_byte (n := n / 0x40 % 0x20 + 0xc0) (by omega)
    have hcases := width?_cases hwidth
    omega
  | @overlongThree n more h =>
    have hlead := toNat_byte (n := n / 0x1000 % 0x10 + 0xe0) (by omega)
    have hb := toNat_byte (n := n / 0x40 % 0x40 + 0x80) (by omega)
    have hsecond := second_bounds (second_of_begun (by omega) hc)
    omega
  | @overlongFour n more h =>
    have hlead := toNat_byte (n := n / 0x40000 % 0x08 + 0xf0) (by omega)
    have hb := toNat_byte (n := n / 0x1000 % 0x40 + 0x80) (by omega)
    have hsecond := second_bounds (second_of_begun (by omega) hc)
    omega
  | @surrogate n more h h' =>
    have hlead := toNat_byte (n := n / 0x1000 % 0x10 + 0xe0) (by omega)
    have hb := toNat_byte (n := n / 0x40 % 0x40 + 0x80) (by omega)
    have hsecond := second_bounds (second_of_begun (by omega) hc)
    omega
  | @beyond n more h h' =>
    have hlead := toNat_byte (n := n / 0x40000 % 0x08 + 0xf0) (by omega)
    have hb := toNat_byte (n := n / 0x1000 % 0x40 + 0x80) (by omega)
    obtain ⟨rest, rest', -, hwidth, -⟩ := lead_of_begun hc
    have hcases := width?_cases hwidth
    have hsecond := second_bounds (second_of_begun (by omega) hc)
    omega
  | @truncated d k h h' =>
    obtain ⟨more, hmore⟩ := hc
    have hd : String.utf8EncodeChar c ++ (more ++ (String.utf8EncodeChar d).drop k) =
        String.utf8EncodeChar d ++ [] := by
      rw [← List.append_assoc, hmore, List.take_append_drop, List.append_nil]
    obtain ⟨rfl, -⟩ := utf8EncodeChar_append_inj hd
    have hlength := congrArg List.length hmore
    rw [List.length_append, List.length_take] at hlength
    omega

theorem Illformed.ne_nil {bytes : List UInt8} (h : Illformed bytes) : bytes ≠ [] := by
  cases h with
  | stray | overlongTwo | overlongThree | overlongFour | surrogate | beyond => exact nofun
  | truncated h h' =>
    rw [← List.length_pos_iff, List.length_take]
    omega

end Text.Utf8

namespace Reading

open Utf8

/-! ### One request -/

namespace ByteReader.Holds

variable {r : ByteReader} {bytes : List UInt8}

theorem continuation_truncated {n : Nat} (h : r.Holds bytes) (hshort : bytes.length < n) :
    ∃ r', continuation n r = .error (.error (.input .truncated)) r' := by
  induction n generalizing r bytes with
  | zero => exact absurd hshort (Nat.not_lt_zero _)
  | succ n ih =>
    unfold continuation
    cases bytes with
    | nil =>
      obtain ⟨r₁, hbyte⟩ := nextByte_none h
      exact ⟨r₁, by simp only [Run.bind_apply, hbyte, Run.fail_apply]⟩
    | cons b bytes =>
      obtain ⟨r₁, hbyte, h₁⟩ := nextByte_some h
      obtain ⟨r₂, hrest⟩ := ih h₁ (Nat.lt_of_succ_lt_succ hshort)
      exact ⟨r₂, by simp only [Run.bind_apply, hbyte, hrest]⟩

/-- A request for a character fails where bytes are left and no encoding begins them. -/
theorem nextChar_stuck (h : r.Holds bytes) (hne : bytes ≠ [])
    (hstuck : ∀ c, ¬ String.utf8EncodeChar c <+: bytes) :
    ∃ cause r', nextChar r = .error (.error (.input cause)) r' := by
  obtain ⟨lead, bytes, rfl⟩ := List.exists_cons_of_ne_nil hne
  obtain ⟨r₁, hbyte, h₁⟩ := nextByte_some h
  unfold nextChar
  simp only [Run.bind_apply, hbyte]
  cases hwidth : width? lead with
  | none => exact ⟨_, r₁, rfl⟩
  | some width =>
    by_cases hshort : bytes.length < width - 1
    · obtain ⟨r₂, hmore⟩ := continuation_truncated h₁ hshort
      exact ⟨.truncated, r₂, by simp only [Run.bind_apply, hmore]⟩
    · have hlength : (bytes.take (width - 1)).length = width - 1 := by
        rw [List.length_take]
        omega
      rw [← List.take_append_drop (width - 1) bytes] at h₁
      obtain ⟨r₂, hmore, -⟩ := continuation_ok h₁
      rw [hlength] at hmore
      simp only [Run.bind_apply, hmore]
      cases hdecode : decode lead (bytes.take (width - 1)) with
      | error cause => exact ⟨cause, r₂, rfl⟩
      | ok c =>
        have hpos : 0 < width := by
          have hcases := width?_cases hwidth
          omega
        have hencode := utf8EncodeChar_of_decode
          (by rw [hwidth, hlength, Nat.sub_add_cancel hpos]) hdecode
        refine absurd ⟨bytes.drop (width - 1), ?_⟩ (hstuck c)
        rw [hencode, List.cons_append, List.take_append_drop]

end ByteReader.Holds

/-! ### One request after the other -/

/-- Asks `n` times for one element, and hands out each of the answers. -/
def Source.readEach {σ α : Type} [Source σ α] : (n : Nat) → Run σ (List (List α))
  | 0 => pure []
  | n + 1 => do
    let answer ← Source.read 1
    return answer :: (← readEach n)

namespace ByteReader

variable {r : ByteReader} {bytes rest : List UInt8} {text : List Char}

theorem readOne_some {c : Char} (h : r.Holds (String.utf8EncodeChar c ++ bytes)) :
    ∃ r', Source.read 1 r = .ok [admitted c] r' ∧ r'.Holds bytes := by
  obtain ⟨r', hchar, h'⟩ := h.nextChar_some
  refine ⟨r', ?_, h'⟩
  show readChars 1 r = _
  simp only [readChars, Run.bind_apply, Run.get_apply, h.ended, Bool.false_eq_true, if_false, hchar,
    Run.pure_apply]

theorem readOne_none (h : r.Holds []) :
    ∃ r', Source.read 1 r = .ok [] r' ∧ r'.ended = true := by
  obtain ⟨r', hchar⟩ := h.nextChar_none
  refine ⟨{ r' with ended := true }, ?_, rfl⟩
  show readChars 1 r = _
  simp only [readChars, Run.bind_apply, Run.get_apply, h.ended, Bool.false_eq_true, if_false, hchar,
    Run.pure_apply, Run.modify_apply]

theorem readOne_stuck (h : r.Holds bytes) (hne : bytes ≠ [])
    (hstuck : ∀ c, ¬ String.utf8EncodeChar c <+: bytes) :
    ∃ cause r', Source.read 1 r = .error (.error (.input cause)) r' := by
  obtain ⟨cause, r', hchar⟩ := h.nextChar_stuck hne hstuck
  refine ⟨cause, r', ?_⟩
  show readChars 1 r = _
  simp only [readChars, Run.bind_apply, Run.get_apply, h.ended, Bool.false_eq_true, if_false, hchar]

theorem readEach_ended (h : r.ended = true) (n : Nat) :
    Source.readEach n r = .ok (List.replicate n []) r := by
  induction n with
  | zero => rfl
  | succ n ih =>
    have hone : Source.read 1 r = .ok [] r := readChars_ended h 1
    rw [Source.readEach, Run.bind_apply, hone]
    simp only [Run.bind_apply, ih, Run.pure_apply, List.replicate_succ]

/-- The characters come one by one, and behind them the end or a failure. -/
theorem readEach_splits (h : r.Holds bytes) (hsplit : Splits bytes text rest) (n : Nat) :
    Run.Ends
      (fun answers _ => (text.length < n → rest = []) ∧
        answers = (text.take n).map (fun c => [admitted c]) ++ List.replicate (n - text.length) [])
      (fun e _ => text.length < n ∧ rest ≠ [] ∧ ∃ cause, e = .error (.input cause))
      (Source.readEach n r) := by
  induction n generalizing r bytes text with
  | zero => exact ⟨fun h => absurd h (Nat.not_lt_zero _), by simp⟩
  | succ n ih =>
    rw [Source.readEach, Run.bind_apply]
    obtain ⟨rfl, hstuck⟩ := hsplit
    cases text with
    | cons c text =>
      rw [List.flatMap_cons, List.append_assoc] at h
      obtain ⟨r₁, hone, h₁⟩ := readOne_some h
      rw [hone]
      refine (ih h₁ ⟨rfl, hstuck⟩).bind (fun answers r₂ ⟨hrest, hanswers⟩ => ?_)
        fun e r₂ ⟨hn, hne, hcause⟩ => ⟨Nat.succ_lt_succ hn, hne, hcause⟩
      refine ⟨fun hn => hrest (Nat.lt_of_succ_lt_succ hn), ?_⟩
      rw [hanswers, List.take_succ_cons, List.map_cons, List.cons_append, List.length_cons,
        Nat.add_sub_add_right]
    | nil =>
      rw [List.flatMap_nil, List.nil_append] at h
      by_cases hne : rest = []
      · subst hne
        obtain ⟨r₁, hone, hended⟩ := readOne_none h
        rw [hone]
        simp only [Run.bind_apply, readEach_ended hended, Run.pure_apply]
        exact ⟨fun _ => trivial, rfl⟩
      · obtain ⟨cause, r₁, hone⟩ := readOne_stuck h hne hstuck
        rw [hone]
        exact ⟨Nat.succ_pos n, hne, cause, rfl⟩

end ByteReader

/-! ### The bytes of a reader -/

/-- Behind the last bytes, the end: nothing arrives any more, or it is reported by an empty portion,
whatever would arrive behind that. -/
inductive Closing : List Arrival → Prop
  | silent : Closing []
  | reported (later : List Arrival) : Closing (.bytes [] :: later)

theorem Arrive.holds_closing {bytes : List UInt8} {arrivals closing : List Arrival}
    (h : Arrive bytes arrivals) (hclosing : Closing closing) :
    ByteReader.Holds { arrivals := arrivals ++ closing } bytes := by
  induction h with
  | ended =>
    cases hclosing with
    | silent => exact ⟨rfl, trivial, rfl⟩
    | reported later => exact ⟨rfl, trivial, rfl⟩
  | interrupted _ ih => exact ⟨ih.bytes_eq, ih.unfailing, rfl⟩
  | @portion portion bytes arrivals hne _ ih =>
    obtain ⟨b, rest, rfl⟩ := List.exists_cons_of_ne_nil hne
    exact ⟨congrArg (b :: rest ++ ·) ih.bytes_eq, ih.unfailing, rfl⟩

/-- **A reader of bytes decodes exactly UTF-8.** Whatever bytes arrive in whatever portions, there is
a longest beginning of them that is a whole number of characters. Asked `n` times for one character,
the reader hands these out, and behind the last one nothing for ever if no bytes are left; if some
are, the request fails. So no request ever fails exactly if the bytes are well-formed, and what is
ill-formed behind a whole number of characters is what the failing request meets. -/
theorem Source.readEach_decodes {bytes : List UInt8} {arrivals closing : List Arrival}
    (h : Arrive bytes arrivals) (hclosing : Closing closing) :
    ∃ text rest, text.flatMap String.utf8EncodeChar ++ rest = bytes ∧
      (∀ text' : List Char, text'.flatMap String.utf8EncodeChar <+: bytes → text' <+: text) ∧
      (∀ n, Run.Ends
        (fun answers _ => (text.length < n → rest = []) ∧
          answers = (text.take n).map (fun c => [admitted c]) ++ List.replicate (n - text.length) [])
        (fun e _ => text.length < n ∧ rest ≠ [] ∧ ∃ cause, e = .error (.input cause))
        (Source.readEach n ({ arrivals := arrivals ++ closing } : ByteReader))) ∧
      ((∀ n, ∃ answers r, Source.readEach n ({ arrivals := arrivals ++ closing } : ByteReader) =
          .ok answers r) ↔ bytes.toByteArray.IsValidUTF8) ∧
      (∀ text' bad, text'.flatMap String.utf8EncodeChar ++ bad = bytes → Illformed bad →
        text' = text ∧ bad = rest ∧ rest ≠ []) := by
  obtain ⟨text, rest, hsplit⟩ := exists_splits bytes
  have hends := ByteReader.readEach_splits (h.holds_closing hclosing) hsplit
  refine ⟨text, rest, hsplit.bytes_eq, fun text' => hsplit.longest, hends, ?_, ?_⟩
  · rw [hsplit.isValidUTF8_iff]
    constructor
    · intro hall
      obtain ⟨answers, r, hok⟩ := hall (text.length + 1)
      exact ((hends _).of_ok hok).1 (Nat.lt_succ_self _)
    · intro hrest n
      cases hread : Source.readEach n ({ arrivals := arrivals ++ closing } : ByteReader) with
      | ok answers r => exact ⟨answers, r, rfl⟩
      | error e r => exact absurd hrest ((hends n).of_error hread).2.1
  · intro text' bad hbytes hbad
    obtain ⟨rfl, rfl⟩ := hsplit.unique ⟨hbytes, hbad.not_begun⟩
    exact ⟨rfl, rfl, hbad.ne_nil⟩

/-- The euro sign cut in two and interrupted, and behind it the front of another one: the first
request is answered and the second one fails, though more bytes would come after the end. -/
theorem Source.readEach_of_truncated_sign :
    let arrivals : List Arrival :=
      [.interrupted, .bytes [0xe2], .interrupted, .interrupted, .bytes [0x82, 0xac, 0xe2, 0x82]]
    let closing : List Arrival := [.bytes [], .bytes [0xac]]
    Arrive [0xe2, 0x82, 0xac, 0xe2, 0x82] arrivals ∧ Closing closing ∧
      Illformed [0xe2, 0x82] ∧
      Run.answer? (Source.readEach 1 ({ arrivals := arrivals ++ closing } : ByteReader)) =
        some [['€']] ∧
      Run.answer? (Source.readEach 2 ({ arrivals := arrivals ++ closing } : ByteReader)) = none := by
  intro arrivals closing
  have harrive : Arrive [0xe2, 0x82, 0xac, 0xe2, 0x82] arrivals :=
    .interrupted (@Arrive.portion [0xe2] _ _ nofun (.interrupted (.interrupted
      (@Arrive.portion [0x82, 0xac, 0xe2, 0x82] [] _ nofun .ended))))
  have hclosing : Closing closing := .reported _
  have hfront : Illformed [0xe2, 0x82] :=
    .truncated (c := '€') (k := 2) (by decide) (by decide)
  obtain ⟨text, rest, -, -, hends, -, hbad⟩ := Source.readEach_decodes harrive hclosing
  obtain ⟨rfl, rfl, -⟩ := hbad ['€'] [0xe2, 0x82] rfl hfront
  refine ⟨harrive, hclosing, hfront, ?_, ?_⟩
  · have hone := hends 1
    revert hone
    cases Source.readEach 1 ({ arrivals := arrivals ++ closing } : ByteReader) with
    | ok answers r => exact fun hone => congrArg some hone.2
    | error e r => exact fun hone => absurd hone.1 (Nat.lt_irrefl 1)
  · have htwo := hends 2
    revert htwo
    cases Source.readEach 2 ({ arrivals := arrivals ++ closing } : ByteReader) with
    | ok answers r => exact fun htwo => absurd (htwo.1 (Nat.lt_succ_self 1)) nofun
    | error e r => exact fun _ => rfl

end Reading

end Dataflow
