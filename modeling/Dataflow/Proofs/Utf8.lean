import Dataflow.Text.Utf8

/-!
# Dataflow.Proofs.Utf8

**Decoding undoes encoding.** The bytes that the encoding of Unicode gives a character
(`String.utf8EncodeChar`) are accepted, in the width that their first byte tells, and stand for
that character (`decode_utf8EncodeChar`). **And encoding undoes decoding**: whatever is accepted is
the encoding of the character that it stands for (`utf8EncodeChar_of_decode`), so that what follows
a character is told by its bytes alone (`utf8EncodeChar_append_inj`).

The bounds on first and second bytes are the only place where the two sides differ in form: the
decoder keeps over-long forms, surrogates and values above the last code point out by ranges of
bytes, the encoder never makes them because a character is not one of them.
-/

namespace Dataflow.Text.Utf8

/-! ### The ranges of bytes, in numbers -/

theorem width?_one {lead : UInt8} (h : lead.toNat ≤ 0x7f) : width? lead = some 1 := by
  unfold width?
  rw [if_pos (UInt8.le_iff_toNat_le.2 h)]

theorem width?_two {lead : UInt8} (h : 0xc2 ≤ lead.toNat) (h' : lead.toNat ≤ 0xdf) :
    width? lead = some 2 := by
  unfold width?
  simp only [UInt8.le_iff_toNat_le, UInt8.reduceToNat]
  rw [if_neg (by omega), if_pos ⟨h, h'⟩]

theorem width?_three {lead : UInt8} (h : 0xe0 ≤ lead.toNat) (h' : lead.toNat ≤ 0xef) :
    width? lead = some 3 := by
  unfold width?
  simp only [UInt8.le_iff_toNat_le, UInt8.reduceToNat]
  rw [if_neg (by omega), if_neg (by omega), if_pos ⟨h, h'⟩]

theorem width?_four {lead : UInt8} (h : 0xf0 ≤ lead.toNat) (h' : lead.toNat ≤ 0xf4) :
    width? lead = some 4 := by
  unfold width?
  simp only [UInt8.le_iff_toNat_le, UInt8.reduceToNat]
  rw [if_neg (by omega), if_neg (by omega), if_neg (by omega), if_pos ⟨h, h'⟩]

theorem isContinuation_of {b : UInt8} (h : 0x80 ≤ b.toNat) (h' : b.toNat ≤ 0xbf) :
    isContinuation b = true :=
  decide_eq_true ⟨UInt8.le_iff_toNat_le.2 h, UInt8.le_iff_toNat_le.2 h'⟩

/-- A byte that continues a character may stand second, but behind four first bytes not every
one. -/
theorem isSecond_of {lead b : UInt8} (h : 0x80 ≤ b.toNat) (h' : b.toNat ≤ 0xbf)
    (he0 : lead.toNat = 0xe0 → 0xa0 ≤ b.toNat) (hed : lead.toNat = 0xed → b.toNat ≤ 0x9f)
    (hf0 : lead.toNat = 0xf0 → 0x90 ≤ b.toNat) (hf4 : lead.toNat = 0xf4 → b.toNat ≤ 0x8f) :
    isSecond lead b = true := by
  have hle {m n : UInt8} (hm : m.toNat ≤ b.toNat) (hn : b.toNat ≤ n.toNat) : m ≤ b ∧ b ≤ n :=
    ⟨UInt8.le_iff_toNat_le.2 hm, UInt8.le_iff_toNat_le.2 hn⟩
  refine decide_eq_true ?_
  unfold secondRange
  split
  · next hlead => exact hle (he0 (by rw [hlead]; rfl)) h'
  split
  · next hlead => exact hle h (hed (by rw [hlead]; rfl))
  split
  · next hlead => exact hle (hf0 (by rw [hlead]; rfl)) h'
  split
  · next hlead => exact hle h (hf4 (by rw [hlead]; rfl))
  · exact hle h h'

/-! ### The four widths -/

theorem toNat_byte {n : Nat} (h : n < 0x100) : (UInt8.ofNat n).toNat = n :=
  UInt8.toNat_ofNat_of_lt' h

theorem ofNat_code {c : Char} {n : Nat} (h : n = c.val.toNat) : Char.ofNat n = c := by
  subst h
  exact Char.ofNat_toNat c

theorem decode_of {lead : UInt8} {rest : List UInt8} {c : Char}
    (hvalid : validPrefix lead rest = rest.length + 1)
    (hcode : codePoint lead rest = c.val.toNat) : decode lead rest = .ok c := by
  unfold decode
  rw [if_pos hvalid, ofNat_code hcode]

theorem decode_one {c : Char} {a : UInt8} (ha : a.toNat = c.val.toNat) :
    decode a [] = .ok c :=
  decode_of rfl ha

theorem decode_two {c : Char} {a b : UInt8} (hc : 0x7f < c.val.toNat) (hc' : c.val.toNat ≤ 0x7ff)
    (ha : a.toNat = c.val.toNat / 64 % 0x20 + 0xc0) (hb : b.toNat = c.val.toNat % 0x40 + 0x80) :
    width? a = some 2 ∧ decode a [b] = .ok c := by
  refine ⟨width?_two (by omega) (by omega), decode_of ?_ ?_⟩
  · have hsecond : isSecond a b = true :=
      isSecond_of (by omega) (by omega) (by omega) (by omega) (by omega) (by omega)
    simp [validPrefix, hsecond]
  · simp only [codePoint, leadBits, List.foldl_cons, List.foldl_nil]
    omega

theorem decode_three {c : Char} {a b d : UInt8} (hc : 0x7ff < c.val.toNat)
    (hc' : c.val.toNat ≤ 0xffff) (ha : a.toNat = c.val.toNat / 4096 % 0x10 + 0xe0)
    (hb : b.toNat = c.val.toNat / 64 % 0x40 + 0x80) (hd : d.toNat = c.val.toNat % 0x40 + 0x80) :
    width? a = some 3 ∧ decode a [b, d] = .ok c := by
  -- The second byte behind `0xed` is small because a character is no surrogate.
  have hvalid : c.val.toNat < 0xd800 ∨ 0xdfff < c.val.toNat ∧ c.val.toNat < 0x110000 := c.valid
  refine ⟨width?_three (by omega) (by omega), decode_of ?_ ?_⟩
  · have hsecond : isSecond a b = true :=
      isSecond_of (by omega) (by omega) (by omega) (by omega) (by omega) (by omega)
    have hthird : isContinuation d = true := isContinuation_of (by omega) (by omega)
    simp [validPrefix, hsecond, hthird]
  · simp only [codePoint, leadBits, List.foldl_cons, List.foldl_nil]
    omega

theorem decode_four {c : Char} {a b d e : UInt8} (hc : 0xffff < c.val.toNat)
    (ha : a.toNat = c.val.toNat / 262144 % 0x08 + 0xf0)
    (hb : b.toNat = c.val.toNat / 4096 % 0x40 + 0x80)
    (hd : d.toNat = c.val.toNat / 64 % 0x40 + 0x80) (he : e.toNat = c.val.toNat % 0x40 + 0x80) :
    width? a = some 4 ∧ decode a [b, d, e] = .ok c := by
  have hvalid : c.val.toNat < 0xd800 ∨ 0xdfff < c.val.toNat ∧ c.val.toNat < 0x110000 := c.valid
  refine ⟨width?_four (by omega) (by omega), decode_of ?_ ?_⟩
  · have hsecond : isSecond a b = true :=
      isSecond_of (by omega) (by omega) (by omega) (by omega) (by omega) (by omega)
    have hthird : isContinuation d = true := isContinuation_of (by omega) (by omega)
    have hfourth : isContinuation e = true := isContinuation_of (by omega) (by omega)
    simp [validPrefix, hsecond, hthird, hfourth]
  · simp only [codePoint, leadBits, List.foldl_cons, List.foldl_nil]
    omega

/-- **Decoding undoes encoding.** The bytes of a character are as many as the first of them tells,
and they stand for the character. -/
theorem decode_utf8EncodeChar (c : Char) :
    ∃ lead rest, String.utf8EncodeChar c = lead :: rest ∧ width? lead = some (rest.length + 1) ∧
      decode lead rest = .ok c := by
  have hvalid : c.val.toNat < 0xd800 ∨ 0xdfff < c.val.toNat ∧ c.val.toNat < 0x110000 := c.valid
  unfold String.utf8EncodeChar
  simp only
  split
  · next h1 =>
    have ha := toNat_byte (n := c.val.toNat) (by omega)
    exact ⟨_, [], rfl, width?_one (by omega), decode_one ha⟩
  split
  · next h1 h2 => exact ⟨_, [_], rfl,
      decode_two (by omega) h2 (toNat_byte (by omega)) (toNat_byte (by omega))⟩
  split
  · next h1 h2 h3 => exact ⟨_, [_, _], rfl,
      decode_three (by omega) h3 (toNat_byte (by omega)) (toNat_byte (by omega))
        (toNat_byte (by omega))⟩
  · next h1 h2 h3 => exact ⟨_, [_, _, _], rfl,
      decode_four (by omega) (toNat_byte (by omega)) (toNat_byte (by omega))
        (toNat_byte (by omega)) (toNat_byte (by omega))⟩

/-! ### Encoding undoes decoding -/

theorem width?_cases {lead : UInt8} {n : Nat} (h : width? lead = some n) :
    n = 1 ∧ lead.toNat ≤ 0x7f ∨ n = 2 ∧ 0xc2 ≤ lead.toNat ∧ lead.toNat ≤ 0xdf ∨
      n = 3 ∧ 0xe0 ≤ lead.toNat ∧ lead.toNat ≤ 0xef ∨
      n = 4 ∧ 0xf0 ≤ lead.toNat ∧ lead.toNat ≤ 0xf4 := by
  unfold width? at h
  simp only [UInt8.le_iff_toNat_le, UInt8.reduceToNat] at h
  split at h
  · next hone => exact .inl ⟨(Option.some.inj h).symm, hone⟩
  split at h
  · next htwo => exact .inr (.inl ⟨(Option.some.inj h).symm, htwo⟩)
  split at h
  · next hthree => exact .inr (.inr (.inl ⟨(Option.some.inj h).symm, hthree⟩))
  split at h
  · next hfour => exact .inr (.inr (.inr ⟨(Option.some.inj h).symm, hfour⟩))
  · cases h

theorem continues {b : UInt8} (h : isContinuation b = true) :
    0x80 ≤ b.toNat ∧ b.toNat ≤ 0xbf := by
  obtain ⟨hlow, hhigh⟩ := of_decide_eq_true h
  exact ⟨UInt8.le_iff_toNat_le.1 hlow, UInt8.le_iff_toNat_le.1 hhigh⟩

/-- A second byte continues the character, and is within the narrower ranges. -/
theorem second_bounds {lead b : UInt8} (h : isSecond lead b = true) :
    (0x80 ≤ b.toNat ∧ b.toNat ≤ 0xbf) ∧ (lead.toNat = 0xe0 → 0xa0 ≤ b.toNat) ∧
      (lead.toNat = 0xed → b.toNat ≤ 0x9f) ∧ (lead.toNat = 0xf0 → 0x90 ≤ b.toNat) ∧
      (lead.toNat = 0xf4 → b.toNat ≤ 0x8f) := by
  have hrange := of_decide_eq_true h
  unfold secondRange at hrange
  simp only [← UInt8.toNat_inj, UInt8.le_iff_toNat_le, UInt8.reduceToNat] at hrange
  split at hrange
  · simp only [UInt8.reduceToNat] at hrange; omega
  split at hrange
  · simp only [UInt8.reduceToNat] at hrange; omega
  split at hrange
  · simp only [UInt8.reduceToNat] at hrange; omega
  split at hrange <;> simp only [UInt8.reduceToNat] at hrange <;> omega

theorem second_of_validPrefix {lead second : UInt8} {rest : List UInt8}
    (h : validPrefix lead (second :: rest) = rest.length + 2) :
    isSecond lead second = true ∧ ∀ b ∈ rest, isContinuation b = true := by
  simp only [validPrefix] at h
  split at h
  · next hsecond =>
    have hlength : (rest.takeWhile isContinuation).length = rest.length := by omega
    have hall := (List.takeWhile_prefix isContinuation (l := rest)).eq_of_length hlength
    refine ⟨hsecond, fun b hb => ?_⟩
    rw [← hall] at hb
    exact List.all_eq_true.1 List.all_takeWhile b hb
  · omega

theorem decode_eq_ok {lead : UInt8} {rest : List UInt8} {c : Char} (h : decode lead rest = .ok c) :
    validPrefix lead rest = rest.length + 1 ∧ c = Char.ofNat (codePoint lead rest) := by
  unfold decode at h
  split at h
  · next hvalid => exact ⟨hvalid, (Except.ok.inj h).symm⟩
  · cases h

theorem val_ofNat {n : Nat} (h : n.isValidChar) : (Char.ofNat n).val.toNat = n := by
  unfold Char.ofNat
  rw [dif_pos h]
  rfl

theorem ofNat_byte {b : UInt8} {n : Nat} (h : n = b.toNat) : UInt8.ofNat n = b := by
  rw [h, UInt8.ofNat_toNat]

theorem encode_one {a : UInt8} (ha : a.toNat ≤ 0x7f) :
    String.utf8EncodeChar (Char.ofNat (codePoint a [])) = [a] := by
  have hpayload : codePoint a [] = a.toNat := rfl
  have hcode := val_ofNat (n := codePoint a []) (.inl (by omega))
  unfold String.utf8EncodeChar
  simp only [hcode]
  rw [if_pos (by omega), ofNat_byte (b := a) hpayload]

theorem encode_two {a b : UInt8} (ha : 0xc2 ≤ a.toNat ∧ a.toNat ≤ 0xdf)
    (hb : isSecond a b = true) :
    String.utf8EncodeChar (Char.ofNat (codePoint a [b])) = [a, b] := by
  obtain ⟨hb, -⟩ := second_bounds hb
  have hpayload : codePoint a [b] = a.toNat % 0x20 * 0x40 + b.toNat % 0x40 := rfl
  have hcode := val_ofNat (n := codePoint a [b]) (.inl (by omega))
  unfold String.utf8EncodeChar
  simp only [hcode]
  rw [if_neg (by omega), if_pos (by omega), ofNat_byte (b := a) (by omega),
    ofNat_byte (b := b) (by omega)]

theorem encode_three {a b d : UInt8} (ha : 0xe0 ≤ a.toNat ∧ a.toNat ≤ 0xef)
    (hb : isSecond a b = true) (hd : isContinuation d = true) :
    String.utf8EncodeChar (Char.ofNat (codePoint a [b, d])) = [a, b, d] := by
  obtain ⟨hb, he0, hed, -⟩ := second_bounds hb
  have hd := continues hd
  have hpayload : codePoint a [b, d] =
    (a.toNat % 0x10 * 0x40 + b.toNat % 0x40) * 0x40 + d.toNat % 0x40 := rfl
  -- The bound behind `0xed` keeps the surrogates out.
  have hvalid : (codePoint a [b, d]).isValidChar := by
    unfold Nat.isValidChar
    omega
  unfold String.utf8EncodeChar
  simp only [val_ofNat hvalid]
  rw [if_neg (by omega), if_neg (by omega), if_pos (by omega), ofNat_byte (b := a) (by omega),
    ofNat_byte (b := b) (by omega), ofNat_byte (b := d) (by omega)]

theorem encode_four {a b d e : UInt8} (ha : 0xf0 ≤ a.toNat ∧ a.toNat ≤ 0xf4)
    (hb : isSecond a b = true) (hd : isContinuation d = true) (he : isContinuation e = true) :
    String.utf8EncodeChar (Char.ofNat (codePoint a [b, d, e])) = [a, b, d, e] := by
  obtain ⟨hb, -, -, hf0, hf4⟩ := second_bounds hb
  have hd := continues hd
  have he := continues he
  have hpayload : codePoint a [b, d, e] =
    ((a.toNat % 0x08 * 0x40 + b.toNat % 0x40) * 0x40 + d.toNat % 0x40) * 0x40 +
      e.toNat % 0x40 := rfl
  have hvalid : (codePoint a [b, d, e]).isValidChar := by
    unfold Nat.isValidChar
    omega
  unfold String.utf8EncodeChar
  simp only [val_ofNat hvalid]
  rw [if_neg (by omega), if_neg (by omega), if_neg (by omega), ofNat_byte (b := a) (by omega),
    ofNat_byte (b := b) (by omega), ofNat_byte (b := d) (by omega),
    ofNat_byte (b := e) (by omega)]

/-- **Encoding undoes decoding.** Bytes that are as many as the first of them tells, and that stand
for a character, are the encoding of that character. -/
theorem utf8EncodeChar_of_decode {lead : UInt8} {rest : List UInt8} {c : Char}
    (hwidth : width? lead = some (rest.length + 1)) (hdecode : decode lead rest = .ok c) :
    String.utf8EncodeChar c = lead :: rest := by
  obtain ⟨hvalid, rfl⟩ := decode_eq_ok hdecode
  have hcases := width?_cases hwidth
  match rest, hvalid with
  | [], _ =>
    exact encode_one (by simp only [List.length_nil] at hcases; omega)
  | [b], hvalid =>
    obtain ⟨hb, -⟩ := second_of_validPrefix hvalid
    exact encode_two (by simp only [List.length_cons, List.length_nil] at hcases; omega) hb
  | [b, d], hvalid =>
    obtain ⟨hb, hmore⟩ := second_of_validPrefix hvalid
    exact encode_three (by simp only [List.length_cons, List.length_nil] at hcases; omega) hb
      (hmore d (by simp))
  | [b, d, e], hvalid =>
    obtain ⟨hb, hmore⟩ := second_of_validPrefix hvalid
    exact encode_four (by simp only [List.length_cons, List.length_nil] at hcases; omega) hb
      (hmore d (by simp)) (hmore e (by simp))
  | _ :: _ :: _ :: _ :: _, _ =>
    simp only [List.length_cons] at hcases
    omega

/-- No encoding begins another one: what follows a character is what follows it. -/
theorem utf8EncodeChar_append_inj {c c' : Char} {more more' : List UInt8}
    (h : String.utf8EncodeChar c ++ more = String.utf8EncodeChar c' ++ more') :
    c = c' ∧ more = more' := by
  obtain ⟨lead, rest, hencode, hwidth, hdecode⟩ := decode_utf8EncodeChar c
  obtain ⟨lead', rest', hencode', hwidth', hdecode'⟩ := decode_utf8EncodeChar c'
  rw [hencode, hencode', List.cons_append, List.cons_append, List.cons.injEq] at h
  obtain ⟨rfl, htail⟩ := h
  have hlength : rest.length = rest'.length := by
    rw [hwidth, Option.some.injEq] at hwidth'
    omega
  obtain ⟨rfl, rfl⟩ := List.append_inj htail hlength
  rw [hdecode] at hdecode'
  exact ⟨Except.ok.inj hdecode', rfl⟩

end Dataflow.Text.Utf8
