import Dataflow.Proofs.Resetting
import Dataflow.Proofs.Retention
import Mathlib.Data.List.Infix

/-!
# Dataflow.Proofs.Sparing

**An access that fails damages nothing.** A source may fail at any read, and the ring may have been moved
into a larger array by then. Still the window holds what it held, in the same order, since elements are
counted only when all of them are there, and until then they go to slots that nothing is kept in
(`Ring.toList_overwrite`). A cursor may moreover have dropped elements behind it to make room. Those are in
front of every mark, and offset and marks are renumbered for them (`Cursor.Spared`, `Cursor.Remains`).

All of this is so for any source, whatever it hands out. What it takes of a cursor is `Cursor.Orderly`, and
that holds of every cursor, whatever it has been asked and however that ended
(`Cursor.performAll_orderly`).

* `Buffer.elementAt_spec` — the two ways for an access to a buffer to fail: the buffer refuses, and then
  nothing has changed, or the source fails;
* `Cursor.lookahead_spec`, `Cursor.consume_eq` — the same for cursors, with the capacity behind it;
* `nothing_lost_of_failed` — the result.
-/

namespace Dataflow.Reading

/-! ### Rings -/

namespace Ring

variable {α : Type}

theorem push_of_full {r : Ring α} (h : r.capacity ≤ r.size) (a : α) : r.push a = r :=
  dif_neg (Nat.not_lt.2 h)

/-- What has been in a ring stays in front of what is pushed, whether or not there is room. -/
theorem prefix_pushAll (r : Ring α) (elements : List α) : r.toList <+: (r.pushAll elements).toList := by
  induction elements generalizing r with
  | nil => exact List.prefix_rfl
  | cons a rest ih =>
    have hpush : r.toList <+: (r.push a).toList := by
      by_cases hroom : r.size < r.capacity
      · rw [toList_push hroom]
        exact List.prefix_append _ _
      · rw [push_of_full (Nat.not_lt.1 hroom)]
    exact hpush.trans (ih (r.push a))

theorem size_pushAll (r : Ring α) (elements : List α) :
    (r.pushAll elements).size = min (r.size + elements.length) r.capacity := by
  induction elements generalizing r with
  | nil =>
    show r.size = min r.size r.capacity
    have := r.size_le_capacity
    omega
  | cons a rest ih =>
    show ((r.push a).pushAll rest).size = _
    rw [ih, capacity_push, List.length_cons]
    by_cases hroom : r.size < r.capacity
    · rw [size_push hroom]
      omega
    · rw [push_of_full (Nat.not_lt.1 hroom)]
      omega

/-- The ring over an array that has been written to. -/
def overwrite (r : Ring α) (slots : Array α) (h : slots.size = r.slots.size) : Ring α where
  slots := slots
  head := r.head
  size := r.size
  size_le := by
    rw [h]
    exact r.size_le
  head_lt := by
    rw [h]
    exact r.head_lt

/-- The slots for further elements are none of those in use. -/
theorem slot_not_mem_regions {r : Ring α} {n : Nat} (room : r.size + n ≤ r.capacity) {i : Nat}
    (hi : i < r.size) : ∀ region ∈ r.regions n, ¬ (region.1 ≤ r.slot i ∧ r.slot i < region.2) := by
  have hslot : ∀ k ≤ r.capacity,
      r.slot k = if r.head + k < r.capacity then r.head + k else r.head + k - r.capacity := by
    intro k hk
    have hhead : r.head < r.capacity := r.head_lt
    show (r.head + k) % r.capacity = _
    split
    · exact Nat.mod_eq_of_lt ‹_›
    · rw [Nat.mod_eq_sub_mod (by omega), Nat.mod_eq_of_lt (by omega)]
  have hhead : r.head < r.capacity := r.head_lt
  have hfront := hslot i (by omega)
  have hback := hslot r.size (by omega)
  intro region hregion
  simp only [regions, List.mem_cons, List.not_mem_nil, or_false] at hregion
  -- The free slots begin behind the last element and end in front of the first one, round the end.
  rcases hregion with rfl | rfl
  · simp only [not_and, Nat.not_lt]
    split at hfront <;> split at hback <;> omega
  · simp only [Nat.zero_le, true_and, Nat.not_lt]
    split at hfront <;> split at hback <;> omega

/-- What is written to the slots for further elements does not show. -/
theorem toList_overwrite {r : Ring α} {n : Nat} (room : r.size + n ≤ r.capacity) {slots : Array α}
    (hsize : slots.size = r.slots.size)
    (hsame : ∀ k, (∀ region ∈ r.regions n, ¬ (region.1 ≤ k ∧ k < region.2)) →
      slots[k]? = r.slots[k]?) :
    (r.overwrite slots hsize).toList = r.toList := by
  refine List.map_congr_left fun i hi => nth_eq ?_
  have hslot : (r.overwrite slots hsize).slot i = r.slot i := by
    show (r.head + i) % slots.size = (r.head + i) % r.slots.size
    rw [hsize]
  rw [hslot]
  exact hsame _ (slot_not_mem_regions room (List.mem_range.1 hi))

end Ring

/-! ### Buffers -/

namespace Buffer

variable {σ α : Type} [Source σ α] {b b' : Buffer σ α}

/-- The source is where it was, or elements have been read from it. -/
def Fetched (b b' : Buffer σ α) : Prop :=
  b'.source = b.source ∨ ∃ n elements, Source.readFully n b.source = .ok elements b'.source

/-- The buffer refuses to hold `needed` elements. -/
structure Refuses (b : Buffer σ α) (needed : Nat) (e : Failure) : Prop where
  small : b.capacity < needed
  past : b.limit < doubledTo b.capacity needed
  error : e = .error (.capacityExceeded (doubledTo b.capacity needed) b.limit)

theorem grow_spec (b : Buffer σ α) (needed : Nat) :
    Run.Ends
      (fun _ b' => b'.source = b.source ∧ b'.exhausted = b.exhausted ∧ b'.limit = b.limit ∧
        b'.ring.toList = b.ring.toList ∧ b'.capacity = doubledTo b.capacity needed ∧
        (b.capacity < needed → b'.capacity ≤ b.limit))
      (fun e b' => b' = b ∧ b.Refuses needed e) (grow needed b) := by
  generalize hr : grow needed b = r
  cases growth hr with
  | roomy hroom =>
    exact ⟨rfl, rfl, rfl, rfl, (doubledTo_of_le hroom).symm, fun hsmall => absurd hroom (Nat.not_le.2 hsmall)⟩
  | refused hsmall hpast => exact ⟨rfl, hsmall, hpast, rfl⟩
  | grown _ hfits hlist hcapacity => exact ⟨rfl, rfl, rfl, hlist, hcapacity, fun _ => hcapacity.trans_le hfits⟩

theorem pull_spec (b : Buffer σ α) (n : Nat) :
    Run.Ends
      (fun _ b' => b.Fetched b' ∧ b'.limit = b.limit ∧ b.ring.toList <+: b'.ring.toList ∧
        b'.capacity = b.capacity ∧ (b.size + n ≤ b.capacity → b.size + n ≤ b'.size))
      (fun e b' => ∃ source, b' = { b with source } ∧ b.exhausted = false ∧
        Source.readFully n b.source = .error e source) (pull n b) := by
  generalize hr : pull n b = r
  cases pulled hr with
  | @read elements source hread =>
    have hfetched : source = b.source ∨ ∃ elements, Source.readFully n b.source = .ok elements source := by
      split at hread
      · cases hread
        exact .inl rfl
      · exact .inr ⟨elements, hread⟩
    refine ⟨hfetched.imp_right fun ⟨more, hmore⟩ => ⟨n, more, hmore⟩, rfl, Ring.prefix_pushAll _ _,
      Ring.capacity_pushAll _ _, fun hroom => ?_⟩
    show b.ring.size + n ≤ (b.ring.pushAll _).size
    rw [Ring.size_pushAll, Source.padded, List.length_append, List.length_replicate]
    change b.ring.size + n ≤ b.ring.capacity at hroom
    omega
  | @failed e source hopen hread => exact ⟨source, rfl, hopen, hread⟩

/-- **An access to a buffer.** It is refused, and then nothing has changed, or the source fails, and then
no more has changed than the source and the capacity. -/
theorem elementAt_spec (b : Buffer σ α) (i : Nat) :
    Run.Ends
      (fun a b' => b.Fetched b' ∧ b'.limit = b.limit ∧ b.ring.toList <+: b'.ring.toList ∧
        i < b'.ring.size ∧ a = b'.ring.nth i ∧ b'.capacity = doubledTo b.capacity (i + 1) ∧
        (b.capacity < i + 1 → b'.capacity ≤ b.limit))
      (fun e b' => b' = b ∧ b.Refuses (i + 1) e ∨
        b'.ring.toList = b.ring.toList ∧ b'.exhausted = b.exhausted ∧ b'.limit = b.limit ∧
          b.exhausted = false ∧ b.ring.size ≤ i ∧
          Source.readFully (i + 1 - b.ring.size) b.source = .error e b'.source)
      (elementAt i b) := by
  by_cases hi : b.ring.size ≤ i
  · rw [elementAt_of_le hi]
    refine (grow_spec b (i + 1)).bind ?_ fun e b' he => .inl he
    rintro _ b₁ ⟨hsource, hexhausted, hlimit, hlist, hcapacity, hwithin⟩
    have hsize : b₁.ring.size = b.ring.size := Ring.size_eq_of_toList_eq hlist
    refine (pull_spec b₁ (i + 1 - b.ring.size)).bind ?_ ?_
    · rintro _ b₂ ⟨hfetched, hlimit₂, hprefix, hcapacity₂, hfull⟩
      have hroom : b₁.ring.size + (i + 1 - b.ring.size) ≤ b₁.capacity := by
        have hle := le_doubledTo b.ring.capacity_pos (i + 1)
        change i + 1 ≤ doubledTo b.capacity (i + 1) at hle
        omega
      have hlt : b₁.ring.size + (i + 1 - b.ring.size) ≤ b₂.ring.size := hfull hroom
      refine ⟨?_, hlimit₂.trans hlimit, hlist ▸ hprefix, by omega, rfl, hcapacity₂.trans hcapacity,
        fun hsmall => hcapacity₂.trans_le (hwithin hsmall)⟩
      unfold Fetched at hfetched ⊢
      rwa [← hsource]
    · rintro e _ ⟨source, rfl, hopen, hread⟩
      rw [hsource] at hread
      rw [hexhausted] at hopen
      exact .inr ⟨hlist, hexhausted, hlimit, hopen, hi, hread⟩
  · have hlt : i < b.ring.size := Nat.not_le.1 hi
    have hfits : i + 1 ≤ b.capacity := Nat.le_trans hlt b.ring.size_le_capacity
    have hheld : b.ring.toList[i]? = some (b.ring.nth i) := by
      rw [Ring.getElem?_toList, Ring.get?, if_pos hlt]
    rw [elementAt_held hheld]
    exact ⟨.inl rfl, rfl, List.prefix_rfl, hlt, rfl, (doubledTo_of_le hfits).symm,
      fun hsmall => absurd hfits (Nat.not_le.2 hsmall)⟩

end Buffer

/-! ### Cursors -/

namespace Cursor

variable {σ α κ : Type} {c c' c'' : Cursor σ α}

/-- The cursor is where it was in the stream, with its marks. Elements in front of all of them may have
been dropped. -/
def Spared (c c' : Cursor σ α) : Prop :=
  ∃ dropped, c.offset = dropped + c'.offset ∧ c.marks = c'.marks.map (dropped + ·) ∧
    c'.buffer.ring.toList = c.buffer.ring.toList.drop dropped

/-- The same, and more elements may have been read behind those that were there. -/
def Remains (c c' : Cursor σ α) : Prop :=
  ∃ dropped, c.offset = dropped + c'.offset ∧ c.marks = c'.marks.map (dropped + ·) ∧
    c.buffer.ring.toList.drop dropped <+: c'.buffer.ring.toList

theorem Spared.refl (c : Cursor σ α) : Spared c c :=
  ⟨0, (Nat.zero_add _).symm, by simp, rfl⟩

theorem Spared.remains (h : Spared c c') : Remains c c' := by
  obtain ⟨dropped, hoffset, hmarks, hlist⟩ := h
  exact ⟨dropped, hoffset, hmarks, hlist ▸ List.prefix_rfl⟩

theorem Remains.refl (c : Cursor σ α) : Remains c c := (Spared.refl c).remains

/-- Marks that have been shifted twice have been shifted by both numbers. -/
theorem shifted_trans {first second : Nat} {marks marks' marks'' : List Nat}
    (h : marks = marks'.map (first + ·)) (h' : marks' = marks''.map (second + ·)) :
    marks = marks''.map (first + second + ·) := by
  rw [h, h', List.map_map]
  exact List.map_congr_left fun m _ => (Nat.add_assoc first second m).symm

theorem Remains.trans (h : Remains c c') (h' : Remains c' c'') : Remains c c'' := by
  obtain ⟨first, hoffset, hmarks, hlist⟩ := h
  obtain ⟨second, hoffset', hmarks', hlist'⟩ := h'
  refine ⟨first + second, by omega, shifted_trans hmarks hmarks', ?_⟩
  rw [← List.drop_drop]
  exact (List.IsPrefix.drop hlist second).trans hlist'

theorem Spared.trans (h : Spared c c') (h' : Spared c' c'') : Spared c c'' := by
  obtain ⟨first, hoffset, hmarks, hlist⟩ := h
  obtain ⟨second, hoffset', hmarks', hlist'⟩ := h'
  exact ⟨first + second, by omega, shifted_trans hmarks hmarks', by rw [hlist', hlist, List.drop_drop]⟩

variable [Source σ α] {I : σ → Prop} {l : Limits}

/-- What holds of every cursor over a source that keeps `I`. -/
structure Orderly (I : σ → Prop) (l : Limits) (c : Cursor σ α) : Prop where
  thrifty : c.Thrifty l
  /-- The cursor is not behind what has been read. -/
  within : c.offset ≤ c.buffer.ring.size
  source : I c.buffer.source

theorem orderly_ofSource {source : σ} (h : I source) (l : Limits) :
    (ofSource source l : Cursor σ α).Orderly I l :=
  ⟨thrifty_ofSource source l, Nat.le_refl 0, h⟩

omit [Source σ α] in
theorem dropConsumed_eq {keep : Nat} (h : c.offset - keep ≤ c.buffer.ring.size) :
    dropConsumed keep c = .ok () { c with
      buffer := { c.buffer with ring := c.buffer.ring.dropFront (c.offset - keep) }
      offset := keep
      consumed := 0 } := by
  rw [dropConsumed_apply]
  exact if_neg (Nat.not_lt.2 h)

omit [Source σ α] in
/-- Room is made without reading, and nothing is lost by it that is marked or ahead. Without marks the
ring has to grow then only if it has to for the elements asked for. -/
theorem makeRoom_spec (h : c.Orderly I l) (k : Nat) :
    ∃ c', makeRoom k c = .ok () c' ∧ c'.Orderly I l ∧ Spared c c' ∧
      c'.buffer.source = c.buffer.source ∧ c'.buffer.exhausted = c.buffer.exhausted ∧
      c'.buffer.limit = c.buffer.limit ∧ c'.buffer.capacity = c.buffer.capacity ∧
      (c.marks = [] → c.buffer.capacity < c'.offset + k + 1 → c'.offset = 0) := by
  have hends := makeRoom_ends h.thrifty k
  by_cases hdrop : c.marks.isEmpty ∧ c.buffer.capacity ≤ c.offset + k ∧ c.keepable k < c.offset
  · have hsize : c.offset - c.keepable k ≤ c.buffer.ring.size := Nat.le_trans (Nat.sub_le _ _) h.within
    have hroom := makeRoom_apply k c
    rw [if_pos hdrop, dropConsumed_eq hsize] at hroom
    obtain ⟨hstays, -, hfree, -, -⟩ := hends.of_ok hroom
    refine ⟨_, hroom, ⟨hstays.thrifty, ?_, h.source⟩, ⟨c.offset - c.keepable k, ?_, ?_, ?_⟩, rfl,
      rfl, rfl, rfl, hfree⟩
    · have hwithin := h.within
      have hkeep := hdrop.2.2
      show c.keepable k ≤ c.buffer.ring.size - (c.offset - c.keepable k)
      omega
    · exact (Nat.sub_add_cancel (Nat.le_of_lt hdrop.2.2)).symm
    · show c.marks = c.marks.map _
      rw [List.isEmpty_iff.1 hdrop.1]
      rfl
    · exact Ring.toList_dropFront _ _
  · have hroom := makeRoom_apply k c
    rw [if_neg hdrop] at hroom
    obtain ⟨-, -, hfree, -, -⟩ := hends.of_ok hroom
    exact ⟨c, hroom, h, Spared.refl c, rfl, rfl, rfl, rfl, hfree⟩

/-- The element `k` ahead has been read, and the ring has grown no further than it had to. -/
structure Admits (k : Nat) (c : Cursor σ α) (a : α) (c' : Cursor σ α) : Prop where
  read : c'.offset + k < c'.buffer.ring.size
  element : a = c'.buffer.ring.nth (c'.offset + k)
  capacity : c'.buffer.capacity = doubledTo c.buffer.capacity (c'.offset + k + 1)
  limit : c.buffer.capacity < c'.offset + k + 1 → c'.buffer.capacity ≤ c.buffer.limit

/-- The ring refuses to hold the element `k` ahead. -/
structure Rejects (k : Nat) (c : Cursor σ α) (e : Failure) (c' : Cursor σ α) : Prop where
  refuses : c'.buffer.Refuses (c'.offset + k + 1) e
  source : c'.buffer.source = c.buffer.source
  capacity : c'.buffer.capacity = c.buffer.capacity

/-- An access fails because the ring refuses, or because the source fails. -/
def Misses (k : Nat) (c : Cursor σ α) (e : Failure) (c' : Cursor σ α) : Prop :=
  Spared c c' ∧ (Rejects k c e c' ∨ c.buffer.Broken e c'.source)

section Accesses

variable (hI : ∀ n, Run.Leads (fun _ => I) I (fun _ => I) (Source.readFully n : Run σ (List α)))

include hI

theorem elementAt_spec (h : c.Orderly I l) (k : Nat) :
    Run.Ends (fun a c' => c'.Orderly I l ∧ Remains c c' ∧ Admits k c a c' ∧ c'.offset = c.offset)
      (fun e c' => c'.Orderly I l ∧ Misses k c e c' ∧ c'.offset = c.offset)
      (onBuffer (Buffer.elementAt (c.offset + k)) c) := by
  have hspec := Buffer.elementAt_spec c.buffer (c.offset + k)
  have hgrown := Buffer.elementAt_ends h.thrifty.grown (c.offset + k)
  have hsource := h.source
  have hthrifty : ∀ {b : Buffer σ α}, b.Grown l → Thrifty l { c with buffer := b } := fun hb =>
    ⟨hb, h.thrifty.compactAfter, h.thrifty.offset_le, h.thrifty.marks_le⟩
  cases hx : Buffer.elementAt (c.offset + k) c.buffer with
  | ok a b =>
    obtain ⟨hfetched, -, hprefix, hlt, ha, hcapacity, hlimit⟩ := hspec.of_ok hx
    rw [onBuffer_ok hx]
    refine ⟨⟨hthrifty (hgrown.of_ok hx), ?_, ?_⟩, ⟨0, (Nat.zero_add _).symm, by simp, hprefix⟩,
      ⟨hlt, ha, hcapacity, hlimit⟩, rfl⟩
    · show c.offset ≤ b.ring.size
      omega
    · rcases hfetched with hsame | ⟨n, elements, hread⟩
      · exact hsame ▸ hsource
      · exact (hI n _ hsource).of_ok hread
  | error e b =>
    rw [onBuffer_error hx]
    rcases hspec.of_error hx with ⟨rfl, hrefuses⟩ | ⟨hlist, -, -, hopen, -, hread⟩
    · exact ⟨h, ⟨Spared.refl c, .inl ⟨hrefuses, rfl, rfl⟩⟩, rfl⟩
    · have hsize : b.ring.size = c.buffer.ring.size := Ring.size_eq_of_toList_eq hlist
      have hb : b.Grown l := by
        rcases hgrown.of_error hx with ⟨-, hsame, -⟩ | ⟨-, hb⟩
        · exact hsame ▸ h.thrifty.grown
        · exact hb
      refine ⟨⟨hthrifty hb, ?_, (hI _ _ hsource).of_error hread⟩,
        ⟨⟨0, (Nat.zero_add _).symm, by simp, hlist⟩, .inr ⟨hopen, _, hread⟩⟩, rfl⟩
      show c.offset ≤ b.ring.size
      rw [hsize]
      exact h.within

/-- **Looking ahead.** -/
theorem lookahead_spec (h : c.Orderly I l) (k : Nat) :
    Run.Ends
      (fun a c' => c'.Orderly I l ∧ Remains c c' ∧ Admits k c a c' ∧
        (c.marks = [] → c.buffer.capacity < c'.offset + k + 1 → c'.offset = 0))
      (fun e c' => c'.Orderly I l ∧ Misses k c e c' ∧
        (c.marks = [] → c.buffer.capacity < c'.offset + k + 1 → c'.offset = 0))
      (lookahead k c) := by
  obtain ⟨c₁, hroom, h₁, hspared, hsource, hexhausted, hlimit, hcapacity, hfree⟩ := makeRoom_spec h k
  unfold lookahead
  rw [Run.bind_apply, hroom]
  dsimp only
  rw [Run.bind_apply, Run.get_apply]
  refine (elementAt_spec hI h₁ k).mono ?_ ?_
  · rintro a c' ⟨h', hremains, hadmits, hoffset⟩
    refine ⟨h', hspared.remains.trans hremains, ⟨hadmits.read, hadmits.element, ?_, ?_⟩, ?_⟩
    · rw [hadmits.capacity, hcapacity]
    · rw [← hcapacity, ← hlimit]
      exact hadmits.limit
    · rw [hoffset]
      exact hfree
  · rintro e c' ⟨h', ⟨hspared', hcause⟩, hoffset⟩
    refine ⟨h', ⟨hspared.trans hspared', ?_⟩, ?_⟩
    · refine hcause.imp (fun hrejects => ?_) fun hbroken => ?_
      · exact ⟨hrejects.refuses, hrejects.source.trans hsource, hrejects.capacity.trans hcapacity⟩
      · unfold Buffer.Broken at hbroken ⊢
        rwa [← hexhausted, ← hsource]
    · rw [hoffset]
      exact hfree

end Accesses

/-! ### Consuming -/

omit [Source σ α] in
/-- Goes on behind the element at the cursor. -/
def pass (a : α) : Run (Cursor σ α) α := do
  modify fun c => { c with offset := c.offset + 1, consumed := c.consumed + 1 }
  let c ← get
  if c.marks.isEmpty ∧ c.compactAfter < c.consumed then
    dropConsumed 0
  return a

theorem consume_eq : (consume : Run (Cursor σ α) α) = lookahead 0 >>= pass := by
  unfold lookahead
  simp only [bind_assoc]
  rfl

omit [Source σ α] in
/-- Behind an element that has been read, everything is dropped if that is due. -/
theorem pass_eq (hread : c.offset < c.buffer.ring.size) (a : α) :
    pass a c = .ok a (if c.marks.isEmpty ∧ c.compactAfter < c.consumed + 1 then
      { c with
        buffer := { c.buffer with ring := c.buffer.ring.dropFront (c.offset + 1) }
        offset := 0
        consumed := 0 }
      else { c with offset := c.offset + 1, consumed := c.consumed + 1 }) := by
  unfold pass
  rw [Run.bind_apply, Run.modify_apply]
  dsimp only
  rw [Run.bind_apply, Run.get_apply]
  dsimp only
  by_cases hdrop : c.marks.isEmpty ∧ c.compactAfter < c.consumed + 1
  · rw [if_pos hdrop, if_pos hdrop, Run.bind_apply, dropConsumed_eq (by exact hread)]
    rfl
  · rw [if_neg hdrop, if_neg hdrop]
    rfl

omit [Source σ α] in
/-- An element that has been read can be passed. -/
theorem pass_spec (h : c.Orderly I l) (hread : c.offset < c.buffer.ring.size) (a : α) :
    ∃ c', pass a c = .ok a c' ∧ c'.Orderly I l ∧ c'.marks = c.marks ∧
      c'.buffer.capacity = c.buffer.capacity := by
  have hends : Run.Ends (fun _ c' => Advances l c c') (fun e _ => ∃ v, e = .violation v) (pass a c) :=
    passed_ends h.thrifty a
  have hpass := pass_eq hread a
  by_cases hdrop : c.marks.isEmpty ∧ c.compactAfter < c.consumed + 1
  · rw [if_pos hdrop] at hpass
    exact ⟨_, hpass, ⟨(hends.of_ok hpass).thrifty, Nat.zero_le _, h.source⟩, rfl, rfl⟩
  · rw [if_neg hdrop] at hpass
    exact ⟨_, hpass, ⟨(hends.of_ok hpass).thrifty, hread, h.source⟩, rfl, rfl⟩

/-- What has been read is looked at again without reading, and nothing has to make room for it. -/
theorem lookahead_of_read {k : Nat} (hread : c.offset + k < c.buffer.ring.size) :
    lookahead k c = .ok (c.buffer.ring.nth (c.offset + k)) c := by
  have hroom : makeRoom k c = .ok () c := by
    have hfits : ¬ c.buffer.capacity ≤ c.offset + k :=
      Nat.not_le.2 (Nat.lt_of_lt_of_le hread c.buffer.ring.size_le_capacity)
    rw [makeRoom_apply, if_neg fun h => hfits h.2.1]
  have hheld : c.buffer.ring.toList[c.offset + k]? = some (c.buffer.ring.nth (c.offset + k)) := by
    rw [Ring.getElem?_toList, Ring.get?, if_pos hread]
  unfold lookahead
  rw [Run.bind_apply, hroom]
  dsimp only
  rw [Run.bind_apply, Run.get_apply]
  exact onBuffer_ok (Buffer.elementAt_held hheld)

section Consuming

variable (hI : ∀ n, Run.Leads (fun _ => I) I (fun _ => I) (Source.readFully n : Run σ (List α)))

include hI

/-- **Consuming** fails only where looking fails. -/
theorem consume_spec (h : c.Orderly I l) :
    Run.Ends (fun a c' => c'.Orderly I l ∧ ∃ c₁, lookahead 0 c = .ok a c₁ ∧
        c'.marks = c₁.marks ∧ c'.buffer.capacity = c₁.buffer.capacity)
      (fun e c' => lookahead 0 c = .error e c') (consume c) := by
  rw [consume_eq, Run.bind_apply]
  have hlook := lookahead_spec hI h 0
  cases hr : (lookahead 0 : Run (Cursor σ α) α) c with
  | error e c' => exact rfl
  | ok a c₁ =>
    obtain ⟨h₁, -, hadmits, -⟩ := hlook.of_ok hr
    obtain ⟨c', hpass, h', hmarks, hcapacity⟩ := pass_spec h₁ hadmits.read a
    dsimp only
    rw [hpass]
    exact ⟨h', c₁, rfl, hmarks, hcapacity⟩

variable [Element α κ] [DecidableEq κ]

/-- Accepting fails only where looking fails. -/
theorem accept_spec (h : c.Orderly I l) (kind : κ) :
    Run.Ends (fun a c' => c'.Orderly I l ∧ (a = none → Remains c c'))
      (fun e c' => lookahead 0 c = .error e c') (accept kind c) := by
  unfold accept peek
  rw [Run.bind_apply]
  have hlook := lookahead_spec hI h 0
  cases hr : (lookahead 0 : Run (Cursor σ α) α) c with
  | error e c' => exact rfl
  | ok a c₁ =>
    obtain ⟨h₁, hremains, hadmits, -⟩ := hlook.of_ok hr
    -- The element that has been looked at cannot be missing when it is consumed.
    have hagain := lookahead_of_read hadmits.read
    dsimp only
    by_cases hkind : Element.kind a = kind
    · rw [if_pos hkind]
      refine (consume_spec hI h₁).bind (fun b c₂ h₂ => ⟨h₂.1, nofun⟩) fun e c₂ hfailed => ?_
      rw [hagain] at hfailed
      cases hfailed
    · rw [if_neg hkind]
      exact ⟨h₁, fun _ => hremains⟩

theorem elementAt_remains (k : Nat) (c' : Cursor σ α) (h : c'.Orderly I l ∧ Remains c c') :
    Run.Ends (fun _ c'' => c''.Orderly I l ∧ Remains c c'') (fun _ c'' => c''.Orderly I l ∧ Remains c c'')
      (onBuffer (Buffer.elementAt (c'.offset + k)) c') :=
  (elementAt_spec hI h.1 k).mono (fun _ _ ha => ⟨ha.1, h.2.trans ha.2.1⟩)
    fun _ _ he => ⟨he.1, h.2.trans he.2.1.1.remains⟩

/-- A context may read on, and leaves the cursor where it is. -/
theorem context_spec (h : c.Orderly I l) :
    ∃ text c', (context : Run (Cursor σ α) String) c = .ok text c' ∧ c'.Orderly I l ∧ Remains c c' :=
  context_ok (elementAt_remains hI) ⟨h, Remains.refl c⟩

/-- So does a message. -/
theorem compose_spec (h : c.Orderly I l) (make : String → Option Text.Span → String → Error) :
    ∃ e c', (compose make : Run (Cursor σ α) Error) c = .ok e c' ∧ c'.Orderly I l ∧ Remains c c' := by
  have hlook : Run.Ends (fun _ c' => c'.Orderly I l ∧ Remains c c') (fun _ c' => c'.Orderly I l ∧ Remains c c')
      ((lookahead 0 : Run (Cursor σ α) α) c) :=
    (lookahead_spec hI h 0).mono (fun _ _ ha => ⟨ha.1, ha.2.1⟩) fun _ _ he => ⟨he.1, he.2.1.1.remains⟩
  obtain ⟨found, context, c', hcompose, h', hremains⟩ := compose_ok (elementAt_remains hI) hlook make
  exact ⟨_, c', hcompose, h', hremains⟩

/-- An element that is not of the kind is expected in vain, and stays at the cursor. -/
theorem expect_spec (h : c.Orderly I l) (kind : κ) :
    Run.Ends (fun _ c' => c'.Orderly I l) (fun _ c' => c'.Orderly I l ∧ Remains c c')
      (expect kind c) := by
  unfold expect
  refine (accept_spec hI h kind).bind ?_ fun e c' hfailed => ?_
  · rintro a c₁ ⟨h₁, hremains₁⟩
    cases a with
    | some a => exact h₁
    | none =>
      obtain ⟨e, c₂, hcompose, h₂, hremains₂⟩ := compose_spec hI h₁
        fun found span context => .mismatch (Element.kindName α kind) found context span
      rw [← mismatch_eq] at hcompose
      dsimp only
      rw [Run.bind_apply, hcompose]
      exact ⟨h₂, (hremains₁ rfl).trans hremains₂⟩
  · have hlook := (lookahead_spec hI h 0).of_error hfailed
    exact ⟨hlook.1, hlook.2.1.1.remains⟩

end Consuming

/-! ### Marks -/

section Marks

omit [Source σ α]

theorem mark_orderly : Run.Leads (fun _ => Orderly I l) (Orderly I l) (fun _ => Orderly I l)
    (mark : Run (Cursor σ α) Unit) := fun _ h =>
  ⟨h.thrifty.mark, h.within, h.source⟩

theorem commit_orderly : Run.Leads (fun _ => Orderly I l) (Orderly I l) (fun _ => Orderly I l)
    (commit : Run (Cursor σ α) Unit) := by
  intro c h
  cases hm : c.marks with
  | nil =>
    rw [commit_nil hm]
    exact h
  | cons m outer =>
    rw [commit_eq hm]
    exact ⟨h.thrifty.commit hm, h.within, h.source⟩

/-- A mark is at an element that has been read, since the cursor has been there. -/
theorem rollback_orderly : Run.Leads (fun _ => Orderly I l) (Orderly I l) (fun _ => Orderly I l)
    (rollback : Run (Cursor σ α) Unit) := by
  intro c h
  cases hm : c.marks with
  | nil =>
    rw [rollback_nil hm]
    exact h
  | cons m outer =>
    rw [rollback_eq hm]
    have hbehind : m ≤ c.offset :=
      (List.pairwise_cons.1 h.thrifty.marks_le).1 m (hm ▸ List.mem_cons_self ..)
    exact ⟨h.thrifty.rollback hm, hbehind.trans h.within, h.source⟩

end Marks

/-! ### Requests -/

section Requests

variable [Element α κ] [DecidableEq κ]

/-- The source that a request leaves, if it is about the source, is one of which `I` holds. -/
def Request.Respects (I : σ → Prop) : Request σ κ → Prop
  | change f => ∀ source, I source → I (f source)
  | reset source => I source
  | _ => True

variable (hI : ∀ n, Run.Leads (fun _ => I) I (fun _ => I) (Source.readFully n : Run σ (List α)))

include hI

/-- **The step.** No request puts a cursor out of order, even if it fails. -/
theorem Request.orderly {r : Request σ κ} (hr : r.Respects I) :
    Run.Leads (fun _ => Orderly I l) (Orderly I l) (fun _ => Orderly I l)
      (r.perform : Run (Cursor σ α) (Reply α)) := by
  have hconsume : Run.Leads (fun _ => Orderly I l) (Orderly I l) (fun _ => Orderly I l)
      (Cursor.consume : Run (Cursor σ α) α) := fun c h =>
    (consume_spec hI h).mono (fun _ _ ha => ha.1) fun _ _ he => ((lookahead_spec hI h 0).of_error he).1
  cases r with
  | lookahead k =>
    refine Run.Leads.map (fun c h => ?_) _
    exact (lookahead_spec hI h k).mono (fun _ _ ha => ha.1) fun _ _ he => he.1
  | consume => exact hconsume.map _
  | accept kind =>
    refine Run.Leads.map (fun c h => ?_) _
    exact (accept_spec hI h kind).mono (fun _ _ ha => ha.1) fun _ _ he =>
      ((lookahead_spec hI h 0).of_error he).1
  | expect kind =>
    refine Run.Leads.map (fun c h => ?_) _
    exact (expect_spec hI h kind).mono (fun _ _ ha => ha) fun _ _ he => he.1
  | mark => exact mark_orderly.map _
  | commit => exact commit_orderly.map _
  | rollback => exact rollback_orderly.map _
  | context =>
    refine Run.Leads.map (fun c h => ?_) _
    obtain ⟨text, c', hcontext, h', -⟩ := context_spec hI h
    rw [hcontext]
    exact h'
  | mismatch expected =>
    refine Run.Leads.map (fun c h => ?_) _
    rw [mismatch_eq]
    obtain ⟨e, c', hcompose, h', -⟩ := compose_spec hI h _
    rw [hcompose]
    exact h'
  | unexpectedOperand =>
    refine Run.Leads.map (fun c h => ?_) _
    rw [unexpectedOperand_eq]
    obtain ⟨e, c', hcompose, h', -⟩ := compose_spec hI h _
    rw [hcompose]
    exact h'
  | change f =>
    -- Of the buffer nothing but the source is touched, and no bound is about that.
    refine Run.Leads.map (fun c h => ?_) _
    exact ⟨⟨⟨h.thrifty.grown.limit, h.thrifty.grown.capacity⟩, h.thrifty.compactAfter,
      h.thrifty.offset_le, h.thrifty.marks_le⟩, h.within, hr _ h.source⟩
  | reset source =>
    refine Run.Leads.map (fun c h => ?_) _
    exact ⟨h.thrifty.reset source, Nat.zero_le _, hr⟩

/-- **The run.** -/
theorem performAll_orderly {requests : List (Request σ κ)} (hrequests : ∀ r ∈ requests, r.Respects I)
    (h : c.Orderly I l) : (performAll requests c).Orderly I l := by
  induction requests generalizing c with
  | nil => exact h
  | cons r rest ih =>
    exact ih (fun r hr => hrequests r (List.mem_cons_of_mem _ hr))
      ((Request.orderly hI (hrequests r (List.mem_cons_self ..))).of_leaves h)

end Requests

end Cursor

/-! ### The result -/

section Result

variable {σ α κ : Type} [Source σ α] [Element α κ] [DecidableEq κ]

/-- **An access that fails damages nothing**, over any source. A buffer keeps its elements and their order;
it has refused, and then nothing at all has changed, or its source has failed. Whatever has been written by
then to the slots for the elements that were to come does not show. A cursor that has been asked anything
before keeps its place in the stream, its marks, and the elements from the oldest mark on, or from the place
on, as far as they had been read; a message about a mismatch may have read further ones. -/
theorem nothing_lost_of_failed :
    (∀ (b : Buffer σ α) (i : Nat), Run.Ends (fun _ _ => True)
      (fun e b' => b'.size = b.size ∧ b'.ring.toList = b.ring.toList ∧
        (∀ j, b'.buffered? j = b.buffered? j) ∧
        (b' = b ∧ b.Refuses (i + 1) e ∨ b.Broken e b'.source))
      (Buffer.elementAt i b)) ∧
    (∀ (b : Buffer σ α) (i : Nat), Run.Ends
      (fun _ t => ∀ (slots : Array α) (hsize : slots.size = t.ring.slots.size),
        (∀ k, (∀ region ∈ t.ring.regions (i + 1 - b.size), ¬ (region.1 ≤ k ∧ k < region.2)) →
          slots[k]? = t.ring.slots[k]?) →
        (t.ring.overwrite slots hsize).toList = b.ring.toList)
      (fun _ t => t = b) (Buffer.grow (i + 1) b)) ∧
    ∀ (source : σ) (l : Limits) (requests : List (Cursor.Request σ κ)),
      let c : Cursor σ α := Cursor.performAll requests (Cursor.ofSource source l)
      (∀ k, Run.Ends (fun _ _ => True) (Cursor.Misses k c) (Cursor.lookahead k c) ∧
        Run.Ends (fun _ _ => True) (Cursor.Misses k c) (Cursor.kindAt k c)) ∧
      Run.Ends (fun _ _ => True) (Cursor.Misses 0 c) (Cursor.consume c) ∧
      ∀ kind, Run.Ends (fun _ _ => True) (Cursor.Misses 0 c) (Cursor.accept kind c) ∧
        Run.Ends (fun _ _ => True) (fun _ => Cursor.Remains c) (Cursor.expect kind c) := by
  refine ⟨fun b i => ?_, fun b i => ?_, fun source l requests => ?_⟩
  · refine (Buffer.elementAt_spec b i).mono (fun _ _ _ => trivial) ?_
    have hkept : ∀ {b' : Buffer σ α}, b'.ring.toList = b.ring.toList →
        b'.size = b.size ∧ ∀ j, b'.buffered? j = b.buffered? j := by
      intro b' hlist
      refine ⟨Ring.size_eq_of_toList_eq hlist, fun j => ?_⟩
      show b'.ring.get? j = b.ring.get? j
      rw [← Ring.getElem?_toList, hlist, Ring.getElem?_toList]
    rintro e b' (⟨rfl, hrefuses⟩ | ⟨hlist, -, -, hopen, -, hread⟩)
    · exact ⟨rfl, rfl, fun _ => rfl, .inl ⟨rfl, hrefuses⟩⟩
    · exact ⟨(hkept hlist).1, hlist, (hkept hlist).2, .inr ⟨hopen, _, hread⟩⟩
  · refine (Buffer.grow_spec b (i + 1)).mono ?_ fun _ _ he => he.1
    rintro _ t ⟨-, -, -, hlist, hcapacity, -⟩ slots hsize hsame
    have hring : t.ring.size = b.ring.size := Ring.size_eq_of_toList_eq hlist
    -- The slots for the elements to come are free, so that none of them is one of the elements.
    have hroom : t.ring.size + (i + 1 - b.size) ≤ t.ring.capacity := by
      have hneeded := le_doubledTo b.ring.capacity_pos (i + 1)
      have hle := t.ring.size_le_capacity
      change i + 1 ≤ doubledTo b.capacity (i + 1) at hneeded
      rw [← hcapacity] at hneeded
      change i + 1 ≤ t.ring.capacity at hneeded
      show t.ring.size + (i + 1 - b.ring.size) ≤ _
      omega
    exact (Ring.toList_overwrite hroom hsize hsame).trans hlist
  · intro c
    have hI : ∀ n, Run.Leads (fun _ _ => True) (fun _ => True) (fun _ _ => True)
        (Source.readFully n : Run σ (List α)) := fun n s _ => Run.Ends.of_true _
    have hrequests : ∀ r ∈ requests, r.Respects fun _ : σ => True := by
      intro r _
      cases r <;> simp [Cursor.Request.Respects]
    have h : c.Orderly (fun _ => True) l :=
      Cursor.performAll_orderly hI hrequests (Cursor.orderly_ofSource trivial l)
    have hlook : ∀ k, Run.Ends (fun _ _ => True) (Cursor.Misses k c) (Cursor.lookahead k c) := fun k =>
      (Cursor.lookahead_spec hI h k).mono (fun _ _ _ => trivial) fun _ _ he => he.2.1
    refine ⟨fun k => ⟨hlook k, (hlook k).bind (fun _ _ _ => trivial) fun _ _ he => he⟩, ?_,
      fun kind => ⟨?_, ?_⟩⟩
    · exact (Cursor.consume_spec hI h).mono (fun _ _ _ => trivial) fun _ _ he => (hlook 0).of_error he
    · exact (Cursor.accept_spec hI h kind).mono (fun _ _ _ => trivial) fun _ _ he => (hlook 0).of_error he
    · exact (Cursor.expect_spec hI h kind).mono (fun _ _ _ => trivial) fun _ _ he => he.2

end Result

/-- A lexer in front of a number whose exponent is too long for its buffer. -/
def beforeLongExponent : Lexer (Items Char) :=
  .ofSource (Items.ofText "1.0e00000 2") { limits := ⟨1, 4⟩ } .standard

/-- A source may itself report that its buffer is exceeded. Then it has been read, and the ring over it may
have grown. -/
theorem grown_of_exceeded_source :
    ¬ ∀ (source : Lexer (Items Char)) (l : Limits) (i : Nat) (e : Failure) (b' : Buffer (Lexer (Items Char)) Token),
      Buffer.elementAt i (Buffer.ofSource source l) = .error e b' → e.Exceeded →
        b'.capacity = (Buffer.ofSource source l : Buffer (Lexer (Items Char)) Token).capacity := by
  intro hclaim
  have hfirst : (Buffer.ofSource beforeLongExponent ⟨1, 4⟩ : Buffer (Lexer (Items Char)) Token).capacity =
      1 := by decide +kernel
  have hgrown : (match Buffer.elementAt 3 (Buffer.ofSource beforeLongExponent ⟨1, 4⟩) with
      | .ok _ _ => none
      | .error e b' => some (decide e.Exceeded, b'.capacity)) = some (true, 4) := by decide +kernel
  cases hr : Buffer.elementAt 3 (Buffer.ofSource beforeLongExponent ⟨1, 4⟩) with
  | ok token b' =>
    rw [hr] at hgrown
    cases hgrown
  | error e b' =>
    rw [hr] at hgrown
    simp only [Option.some.injEq, Prod.mk.injEq, decide_eq_true_eq] at hgrown
    have hsame := hclaim beforeLongExponent ⟨1, 4⟩ 3 e b' hr hgrown.1
    rw [hgrown.2, hfirst] at hsame
    cases hsame

end Dataflow.Reading
