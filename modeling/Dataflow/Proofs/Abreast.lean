import Dataflow.Proofs.Echoing
import Dataflow.Proofs.Outlook

/-!
# Dataflow.Proofs.Abreast

**Two cursors on texts that begin alike.** From the first source at least as much is to come as from the second
one, and one element more or the end (`Source.Shares`). What the first one does behind that, failing included,
is left open. So the two cursors show the same as far as the second text goes; the place right behind it, the
*border*, can be looked at in both, and there they may differ.

The windows are as large as each other at any time, so that where one can grow, the other can too
(`Buffer.Roomy`). That is why nothing has to be excused here: the first cursor answers wherever the second one
does (`Cursor.Level.lookahead`, `Cursor.Level.consume`).
-/

namespace Dataflow.Reading

/-- `J` relates sources from which the same elements are to come, and then no more from the second one. The
first one hands out one more, or ends as well; what it does behind that is left open. -/
structure Source.Shares {σ τ α : Type} [Source σ α] [Source τ α] (marker : α)
    (J : List α → σ → τ → Prop) : Prop where
  read {x : List α} {s : σ} {t : τ} (h : J x s t) {n : Nat} (hn : n ≤ x.length) :
    ∃ s' t', readFully n s = .ok (x.take n) s' ∧ readFully n t = .ok (x.take n) t' ∧ J (x.drop n) s' t'
  last {x : List α} {s : σ} {t : τ} (h : J x s t) :
    ∃ more s' t', readFully (x.length + 1) s = .ok (x ++ more) s' ∧ more.length ≤ 1 ∧
      readFully (x.length + 1) t = .ok x t' ∧ endMarker t' = marker ∧ remaining t' ≤ remaining s'
  remaining {x : List α} {s : σ} {t : τ} (h : J x s t) : remaining t ≤ remaining s

/-! ### Windows that grow together -/

namespace Buffer

variable {σ τ α : Type} [Source σ α] [Source τ α] {b t : Buffer σ α} {n i : Nat}

/-- The window can grow to so many elements. -/
def Roomy (b : Buffer σ α) (n : Nat) : Prop := b.capacity < n → doubledTo b.capacity n ≤ b.limit

theorem grow_of_roomy (h : b.Roomy n) : ∃ ring : Ring α, grow n b = .ok () { b with ring } ∧
    ring.toList = b.ring.toList ∧ ring.capacity = doubledTo b.capacity n := by
  generalize hr : grow n b = r
  cases growth hr with
  | roomy hroom => exact ⟨b.ring, rfl, rfl, (doubledTo_of_le hroom).symm⟩
  | refused hsmall hpast => exact absurd (h hsmall) (Nat.not_le.2 hpast)
  | grown _ _ hlist hcapacity => exact ⟨_, rfl, hlist, hcapacity⟩

theorem roomy_of_grow {u : Unit} (h : grow n b = .ok u t) : b.Roomy n := by
  intro hsmall
  cases growth h with
  | roomy hroom => exact absurd hroom (Nat.not_le.2 hsmall)
  | grown _ hfits => exact hfits

theorem roomy_of_elementAt {a : α} (hi : b.ring.size ≤ i) (h : elementAt i b = .ok a t) :
    b.Roomy (i + 1) := by
  rw [elementAt_of_le hi, Run.bind_apply] at h
  cases hgrow : (grow (i + 1) : Run (Buffer σ α) Unit) b with
  | ok u b₁ => exact roomy_of_grow hgrow
  | error e b₁ =>
    rw [hgrow] at h
    cases h

/-- The element at an index behind the window is read, with all those before it, and the window has grown as
far as it has to. -/
structure Fetches (b : Buffer σ α) (i : Nat) (elements : List α) (source : σ) (a : α) (t : Buffer σ α) :
    Prop where
  answer : elementAt i b = .ok a t
  at_last : t.ring.toList[i]? = some a
  list : t.ring.toList = b.ring.toList ++
    Source.padded (i + 1 - b.ring.size) (Source.endMarker source) elements
  source : t.source = source
  exhausted : t.exhausted = (b.exhausted || elements.length < i + 1 - b.ring.size)
  limit : t.limit = b.limit
  capacity : t.capacity = doubledTo b.capacity (i + 1)

theorem exists_fetches {elements : List α} {source : σ} (hi : b.ring.size ≤ i)
    (hroomy : b.Roomy (i + 1)) (short : elements.length ≤ i + 1 - b.ring.size)
    (hread : (if b.exhausted then .ok [] b.source
      else Source.readFully (i + 1 - b.ring.size) b.source) = .ok elements source) :
    ∃ a t, Fetches b i elements source a t := by
  obtain ⟨ring, hgrow, hlist, hcapacity⟩ := grow_of_roomy hroomy
  have hsize : ring.size = b.ring.size := Ring.size_eq_of_toList_eq hlist
  have hroom : i + 1 ≤ ring.capacity := by
    rw [hcapacity]
    exact le_doubledTo b.ring.capacity_pos (i + 1)
  have hpadded : (Source.padded (i + 1 - b.ring.size) (Source.endMarker source) elements).length =
      i + 1 - b.ring.size := Source.length_padded short
  have hpush : (ring.pushAll (Source.padded (i + 1 - b.ring.size) (Source.endMarker source)
      elements)).toList = b.ring.toList ++
        Source.padded (i + 1 - b.ring.size) (Source.endMarker source) elements := by
    rw [Ring.toList_pushAll (by rw [hpadded]; omega), hlist]
  have hpull := pull_eq (b := { b with ring }) (n := i + 1 - b.ring.size) hread
  have hlt : i < (ring.pushAll (Source.padded (i + 1 - b.ring.size) (Source.endMarker source)
      elements)).size := by
    rw [← Ring.length_toList, hpush, List.length_append, hpadded, Ring.length_toList]
    omega
  have hanswer : elementAt i b = .ok (Ring.nth (ring.pushAll (Source.padded (i + 1 - b.ring.size)
      (Source.endMarker source) elements)) i) { b with
        source := source
        ring := ring.pushAll (Source.padded (i + 1 - b.ring.size) (Source.endMarker source) elements)
        exhausted := b.exhausted || elements.length < i + 1 - b.ring.size } := by
    rw [elementAt_of_le hi, Run.bind_apply, hgrow]
    dsimp only
    rw [Run.bind_apply, hpull]
    rfl
  refine ⟨_, _, hanswer, ?_, hpush, rfl, rfl, rfl, (Ring.capacity_pushAll _ _).trans hcapacity⟩
  dsimp only
  rw [Ring.getElem?_toList, Ring.get?, if_pos hlt]

theorem Fetches.grown {elements : List α} {source : σ} {a : α} (h : Fetches b i elements source a t)
    {l : Limits} (hb : b.Grown l) : t.Grown l := by
  obtain ⟨m, hm⟩ := hb.capacity
  refine ⟨h.limit.trans hb.limit, max m (i + 1), ?_⟩
  rw [h.capacity, hm, doubledTo_doubledTo l.effectiveInitial_pos]

/-- Two windows on a text. What of it the second one holds, the first one holds too, and the sources share
the rest; or the border has been looked at in both. -/
structure Abreast {σ τ α : Type} [Source σ α] [Source τ α] (marker : α) (J : List α → σ → τ → Prop)
    (text : List α) (b : Buffer σ α) (b' : Buffer τ α) : Prop where
  limit : b.limit = b'.limit
  capacity : b.capacity = b'.capacity
  grown : ∃ l, b'.Grown l
  stage : (∃ rest, text = b'.ring.toList ++ rest ∧ b.ring.toList = b'.ring.toList ∧
      b.exhausted = false ∧ b'.exhausted = false ∧ J rest b.source b'.source) ∨
    ∃ a, b.ring.toList = text ++ [a] ∧ b'.ring.toList = text ++ [marker] ∧ b'.exhausted = true ∧
      Source.endMarker b'.source = marker ∧ Source.remaining b'.source ≤ Source.remaining b.source

namespace Abreast

variable {marker : α} {J : List α → σ → τ → Prop} {text : List α} {b : Buffer σ α} {b' t' : Buffer τ α}

theorem size_eq (h : Abreast marker J text b b') : b.ring.size = b'.ring.size := by
  rw [← Ring.length_toList, ← Ring.length_toList]
  rcases h.stage with ⟨rest, -, hlist, -⟩ | ⟨a, hlist, hlist', -⟩
  · rw [hlist]
  · rw [hlist, hlist', List.length_append, List.length_append, List.length_singleton,
      List.length_singleton]

theorem remaining_le (hJ : Source.Shares marker J) (h : Abreast marker J text b b') :
    Source.remaining b'.source ≤ Source.remaining b.source := by
  rcases h.stage with ⟨rest, -, -, -, -, hshares⟩ | ⟨a, -, -, -, -, hremaining⟩
  · exact hJ.remaining hshares
  · exact hremaining

/-- The second window can grow only where the first one can. -/
theorem roomy {n : Nat} (h : Abreast marker J text b b') (hroomy : b'.Roomy n) : b.Roomy n := by
  unfold Roomy
  rw [h.capacity, h.limit]
  exact hroomy

/-- Where the second one reads on, the first one does as well. -/
theorem fetches (h : Abreast marker J text b b') {i : Nat} (hi : b'.ring.size ≤ i) {a' : α}
    (hx : elementAt i b' = .ok a' t') {elements elements' : List α} {s : σ} {s' : τ}
    (hopen : b.exhausted = false) (hopen' : b'.exhausted = false)
    (hread : Source.readFully (i + 1 - b'.ring.size) b.source = .ok elements s)
    (hread' : Source.readFully (i + 1 - b'.ring.size) b'.source = .ok elements' s')
    (short : elements.length ≤ i + 1 - b'.ring.size) (short' : elements'.length ≤ i + 1 - b'.ring.size) :
    Fetches b' i elements' s' a' t' ∧ ∃ a t, Fetches b i elements s a t ∧ t.limit = t'.limit ∧
      t.capacity = t'.capacity := by
  have hsize := h.size_eq
  have hroomy' := roomy_of_elementAt hi hx
  obtain ⟨a₁', u', h'⟩ := exists_fetches hi hroomy' short' (by rw [hopen']; exact hread')
  obtain ⟨a, t, h₁⟩ : ∃ a t, Fetches b i elements s a t :=
    exists_fetches (by omega) (h.roomy hroomy') (by omega) (by rw [hopen, hsize]; exact hread)
  have hsame := h'.answer
  rw [hx] at hsame
  cases hsame
  refine ⟨h', a, t, h₁, ?_, ?_⟩
  · rw [h₁.limit, h'.limit, h.limit]
  · rw [h₁.capacity, h'.capacity, h.capacity]

/-- In the text both hold the same. -/
theorem elementAt_inside (hJ : Source.Shares marker J) (h : Abreast marker J text b b') {i : Nat}
    (hi : i < text.length) {a : α} (hx : elementAt i b' = .ok a t') :
    text[i]? = some a ∧ ∃ t, elementAt i b = .ok a t ∧ Abreast marker J text t t' ∧
      b'.ring.size ≤ t'.ring.size ∧ i < t'.ring.size := by
  by_cases hheld : i < b'.ring.size
  · obtain ⟨a', ha'⟩ : ∃ a', b'.ring.toList[i]? = some a' :=
      ⟨_, List.getElem?_eq_getElem (by rw [Ring.length_toList]; exact hheld)⟩
    have hsame : b.ring.toList[i]? = some a' ∧ text[i]? = some a' := by
      rcases h.stage with ⟨rest, htext, hlist, -⟩ | ⟨m, hlist, hlist', -⟩
      · refine ⟨by rw [hlist, ha'], ?_⟩
        rw [htext, List.getElem?_append_left (by rw [Ring.length_toList]; exact hheld), ha']
      · rw [hlist', List.getElem?_append_left hi] at ha'
        exact ⟨by rw [hlist, List.getElem?_append_left hi, ha'], ha'⟩
    rw [elementAt_held ha'] at hx
    cases hx
    exact ⟨hsame.2, b, elementAt_held hsame.1, h, Nat.le_refl _, hheld⟩
  · have hi' : b'.ring.size ≤ i := Nat.not_lt.1 hheld
    obtain ⟨rest, htext, hlist, hopen, hopen', hshares⟩ : ∃ rest, text = b'.ring.toList ++ rest ∧
        b.ring.toList = b'.ring.toList ∧ b.exhausted = false ∧ b'.exhausted = false ∧
        J rest b.source b'.source := by
      refine h.stage.resolve_right ?_
      rintro ⟨m, -, hlist', -⟩
      have hsize := congrArg List.length hlist'
      rw [Ring.length_toList, List.length_append, List.length_singleton] at hsize
      omega
    have hlength : text.length = b'.ring.size + rest.length := by
      rw [htext, List.length_append, Ring.length_toList]
    obtain ⟨s, s', hread, hread', hshares'⟩ := hJ.read hshares (n := i + 1 - b'.ring.size) (by omega)
    have htaken : (rest.take (i + 1 - b'.ring.size)).length = i + 1 - b'.ring.size :=
      List.length_take_of_le (by omega)
    obtain ⟨h', a₁, t, h₁, hlimit, hcapacity⟩ := h.fetches hi' hx hopen hopen' hread hread'
      (Nat.le_of_eq htaken) (Nat.le_of_eq htaken)
    have hlist' := h'.list
    rw [Source.padded, htaken, Nat.sub_self, List.replicate_zero, List.append_nil] at hlist'
    have hlists : t.ring.toList = t'.ring.toList := by
      rw [h₁.list, h.size_eq, Source.padded, htaken, Nat.sub_self, List.replicate_zero, List.append_nil,
        hlist, hlist']
    have htext' : text = t'.ring.toList ++ rest.drop (i + 1 - b'.ring.size) := by
      rw [hlist', List.append_assoc, List.take_append_drop, htext]
    have hlast := h₁.at_last
    rw [hlists, h'.at_last] at hlast
    cases hlast
    have hlt : i < t'.ring.toList.length := (List.getElem?_eq_some_iff.1 h'.at_last).1
    have hgrown : ∃ l, t'.Grown l := h.grown.imp fun l hl => h'.grown hl
    refine ⟨?_, t, h₁.answer, ⟨hlimit, hcapacity, hgrown, .inl ⟨_, htext', hlists, ?_, ?_, ?_⟩⟩, ?_, ?_⟩
    · rw [htext', List.getElem?_append_left hlt, h'.at_last]
    · rw [h₁.exhausted, hopen, h.size_eq, htaken]
      simp
    · rw [h'.exhausted, hopen', htaken]
      simp
    · rw [h₁.source, h'.source]
      exact hshares'
    · rw [← Ring.length_toList, ← Ring.length_toList, hlist', List.length_append]
      omega
    · rwa [Ring.length_toList] at hlt

/-- At the border the second one ends, and the first one answers something. -/
theorem elementAt_border (hJ : Source.Shares marker J) (h : Abreast marker J text b b') {a' : α}
    (hx : elementAt text.length b' = .ok a' t') :
    a' = marker ∧ ∃ a t, elementAt text.length b = .ok a t ∧ Abreast marker J text t t' ∧
      b'.ring.size ≤ t'.ring.size ∧ text.length < t'.ring.size := by
  rcases h.stage with ⟨rest, htext, hlist, hopen, hopen', hshares⟩ | ⟨m, hlist, hlist', -⟩
  · have hlength : text.length = b'.ring.size + rest.length := by
      rw [htext, List.length_append, Ring.length_toList]
    have hn : text.length + 1 - b'.ring.size = rest.length + 1 := by omega
    obtain ⟨more, s, s', hread, hmore, hread', hmarker, hremaining⟩ := hJ.last hshares
    have hshort : (rest ++ more).length ≤ rest.length + 1 := by
      rw [List.length_append]
      omega
    obtain ⟨h', a, t, h₁, hlimit, hcapacity⟩ := h.fetches (by omega) hx hopen hopen'
      (by rw [hn]; exact hread) (by rw [hn]; exact hread') (by omega) (by omega)
    -- The second source has fallen short by one, and the first one by one at most.
    have hlist' : t'.ring.toList = text ++ [marker] := by
      rw [h'.list, Source.padded, hn, hmarker, Nat.add_sub_cancel_left, ← List.append_assoc, ← htext]
      rfl
    obtain ⟨m, hlist₁⟩ : ∃ m, t.ring.toList = text ++ [m] := by
      rw [h₁.list, Source.padded, h.size_eq, hn, hlist, List.append_assoc, ← List.append_assoc, ← htext]
      cases more with
      | nil =>
        refine ⟨Source.endMarker s, ?_⟩
        rw [List.append_nil, Nat.add_sub_cancel_left]
        rfl
      | cons m more =>
        obtain rfl : more = [] := List.eq_nil_of_length_eq_zero (Nat.le_zero.1 (Nat.le_of_succ_le_succ hmore))
        refine ⟨m, ?_⟩
        rw [List.length_append, List.length_singleton, Nat.sub_self, List.replicate_zero, List.append_nil]
    have hgrown : ∃ l, t'.Grown l := h.grown.imp fun l hl => h'.grown hl
    refine ⟨?_, a, t, h₁.answer, ⟨hlimit, hcapacity, hgrown, .inr ⟨m, hlist₁, hlist', ?_, ?_, ?_⟩⟩, ?_, ?_⟩
    · have hlast := h'.at_last
      rw [hlist', List.getElem?_append_right (Nat.le_refl _), Nat.sub_self] at hlast
      exact (Option.some.inj hlast).symm
    · rw [h'.exhausted, hopen', hn]
      simp
    · rw [h'.source]
      exact hmarker
    · rw [h₁.source, h'.source]
      exact hremaining
    · rw [← Ring.length_toList t'.ring, hlist', List.length_append]
      omega
    · rw [← Ring.length_toList t'.ring, hlist', List.length_append]
      exact Nat.lt_succ_self _
  · have hlast' : b'.ring.toList[text.length]? = some marker := by
      rw [hlist', List.getElem?_append_right (Nat.le_refl _), Nat.sub_self]
      rfl
    have hlast : b.ring.toList[text.length]? = some m := by
      rw [hlist, List.getElem?_append_right (Nat.le_refl _), Nat.sub_self]
      rfl
    rw [elementAt_held hlast'] at hx
    cases hx
    refine ⟨rfl, m, b, elementAt_held hlast, h, Nat.le_refl _, ?_⟩
    rw [← Ring.length_toList, hlist', List.length_append]
    exact Nat.lt_succ_self _

theorem ofSource {s : σ} {t : τ} (h : J text s t) (limits : Limits) :
    Abreast marker J text (Buffer.ofSource s limits) (Buffer.ofSource t limits) where
  limit := rfl
  capacity := by
    show (Ring.empty _ _).capacity = (Ring.empty _ _).capacity
    rw [Ring.capacity_empty, Ring.capacity_empty]
  grown := ⟨limits, grown_ofSource t limits⟩
  stage := .inl ⟨text, rfl, rfl, rfl, rfl, h⟩

/-- What stands in front may be dropped from both. -/
theorem dropFront (h : Abreast marker J text b b') {n : Nat} (hn : n ≤ b'.ring.size)
    (hn' : n ≤ text.length) : Abreast marker J (text.drop n) { b with ring := b.ring.dropFront n }
      { b' with ring := b'.ring.dropFront n } where
  limit := h.limit
  capacity := h.capacity
  grown := h.grown.imp fun _ hl => ⟨hl.limit, hl.capacity⟩
  stage := by
    refine h.stage.imp ?_ ?_
    · rintro ⟨rest, htext, hlist, hopen, hopen', hshares⟩
      refine ⟨rest, ?_, ?_, hopen, hopen', hshares⟩
      · rw [htext, Ring.toList_dropFront, List.drop_append_of_le_length (by
          rw [Ring.length_toList]; exact hn)]
      · rw [Ring.toList_dropFront, Ring.toList_dropFront, hlist]
    · rintro ⟨a, hlist, hlist', hbehind⟩
      refine ⟨a, ?_, ?_, hbehind⟩
      · rw [Ring.toList_dropFront, hlist, List.drop_append_of_le_length hn']
      · rw [Ring.toList_dropFront, hlist', List.drop_append_of_le_length hn']

end Abreast

end Buffer

/-! ### Cursors -/

namespace Cursor

variable {σ τ α : Type} [Source σ α] [Source τ α] {marker : α} {J : List α → σ → τ → Prop}

/-- Two cursors at the same place in windows on a text. -/
structure Abreast (marker : α) (J : List α → σ → τ → Prop) (text : List α) (c : Cursor σ α)
    (c' : Cursor τ α) : Prop where
  buffer : Buffer.Abreast marker J text c.buffer c'.buffer
  marks : c.marks = c'.marks
  offset : c.offset = c'.offset
  consumed : c.consumed = c'.consumed
  compactAfter : c.compactAfter = c'.compactAfter
  offset_le : c'.offset ≤ c'.buffer.ring.size ∧ c'.offset ≤ text.length
  marks_le : ∀ m ∈ c'.marks, m ≤ c'.buffer.ring.size ∧ m ≤ text.length

/-- Both cursors have the elements of `ahead` in front of them, up to the border, and those of `held` from each
mark on, innermost mark first. -/
def Level (marker : α) (J : List α → σ → τ → Prop) (ahead : List α) (held : List (List α))
    (c : Cursor σ α) (c' : Cursor τ α) : Prop :=
  ∃ text, Abreast marker J text c c' ∧ text.drop c'.offset = ahead ∧
    c'.marks.map (fun m => text.drop m) = held

theorem level_ofSource {s : σ} {t : τ} {text : List α} (h : J text s t) (limits : Limits) :
    Level marker J text [] (ofSource s limits) (ofSource t limits) :=
  ⟨text, ⟨.ofSource h limits, rfl, rfl, rfl, rfl, ⟨Nat.zero_le _, Nat.zero_le _⟩, by simp [ofSource]⟩,
    rfl, rfl⟩

/-- What is consumed is what would have been seen. -/
theorem lookahead_of_consume {c d : Cursor σ α} {a : α} (h : consume c = .ok a d) :
    ∃ e, lookahead 0 c = .ok a e := by
  unfold consume at h
  unfold lookahead
  simp only [Run.bind_apply, Run.get_apply, Nat.add_zero] at h ⊢
  cases hroom : makeRoom 0 c with
  | error e c₁ =>
    rw [hroom] at h
    cases h
  | ok u c₁ =>
    rw [hroom] at h
    dsimp only at h ⊢
    cases hat : onBuffer (Buffer.elementAt c₁.offset) c₁ with
    | error e c₂ =>
      rw [hat] at h
      cases h
    | ok a' c₂ =>
      rw [hat] at h
      simp only [Run.modify_apply] at h
      split at h
      · rw [Run.bind_apply] at h
        split at h <;> cases h
        exact ⟨_, rfl⟩
      · cases h
        exact ⟨_, rfl⟩

namespace Level

variable {ahead : List α} {held : List (List α)} {c : Cursor σ α} {c' d' : Cursor τ α}

theorem remaining_le (hJ : Source.Shares marker J) (h : Level marker J ahead held c c') :
    c'.remaining ≤ c.remaining := by
  obtain ⟨text, h, -, -⟩ := h
  have hsize : c.buffer.size = c'.buffer.size := h.buffer.size_eq
  have hremaining := h.buffer.remaining_le hJ
  unfold remaining
  rw [hsize, h.offset]
  omega

/-- Dropping what stands behind the cursors changes nothing in front of them. -/
theorem dropConsumed (h : Level marker J ahead held c c') (hm : c'.marks = []) {keep : Nat}
    (hk : keep ≤ c'.offset) : ∃ d d', dropConsumed keep c = .ok () d ∧ dropConsumed keep c' = .ok () d' ∧
      Level marker J ahead held d d' := by
  obtain ⟨text, h, hahead, hheld⟩ := h
  have hsize := h.buffer.size_eq
  have hoffset := h.offset
  obtain ⟨hle, hle'⟩ := h.offset_le
  have hfits : ¬ c.buffer.size < c.offset - keep := by
    show ¬ c.buffer.ring.size < _
    omega
  have hfits' : ¬ c'.buffer.size < c'.offset - keep := by
    show ¬ c'.buffer.ring.size < _
    omega
  have hbuffer := h.buffer.dropFront (n := c'.offset - keep) (by omega) (by omega)
  rw [← hoffset] at hbuffer
  rw [dropConsumed_apply, dropConsumed_apply, if_neg hfits, if_neg hfits']
  refine ⟨_, _, rfl, rfl, text.drop (c.offset - keep), ⟨?_, h.marks, rfl, rfl, h.compactAfter, ?_, ?_⟩, ?_, ?_⟩
  · rw [hoffset]
    rw [hoffset] at hbuffer
    exact hbuffer
  · rw [List.length_drop]
    show keep ≤ c'.buffer.ring.size - (c'.offset - keep) ∧ keep ≤ text.length - (c.offset - keep)
    omega
  · show ∀ m ∈ c'.marks, _
    rw [hm]
    simp
  · show (text.drop (c.offset - keep)).drop keep = ahead
    rw [List.drop_drop, hoffset, Nat.sub_add_cancel hk, hahead]
  · show c'.marks.map _ = held
    rw [← hheld, hm]
    rfl

theorem makeRoom (h : Level marker J ahead held c c') (k : Nat) : ∃ d d', makeRoom k c = .ok () d ∧
    makeRoom k c' = .ok () d' ∧ Level marker J ahead held d d' := by
  obtain ⟨text, hc, -⟩ := id h
  have hcapacity : c.buffer.capacity = c'.buffer.capacity := hc.buffer.capacity
  have hkeepable : c.keepable k = c'.keepable k := by
    unfold keepable
    rw [hc.offset, hcapacity]
  rw [makeRoom_apply, makeRoom_apply, hc.marks, hc.offset, hcapacity, hkeepable]
  split
  · next hdue => exact h.dropConsumed (List.isEmpty_iff.1 hdue.1) (Nat.le_of_lt hdue.2.2)
  · exact ⟨c, c', rfl, rfl, h⟩

/-- Behind an access to the windows the cursors are where they were. -/
theorem of_buffer {text : List α} (h : Abreast marker J text c c') {b : Buffer σ α} {b' : Buffer τ α}
    (hb : Buffer.Abreast marker J text b b') (hsize : c'.buffer.ring.size ≤ b'.ring.size) :
    Abreast marker J text { c with buffer := b } { c' with buffer := b' } where
  buffer := hb
  marks := h.marks
  offset := h.offset
  consumed := h.consumed
  compactAfter := h.compactAfter
  offset_le := ⟨Nat.le_trans h.offset_le.1 hsize, h.offset_le.2⟩
  marks_le m hm := ⟨Nat.le_trans (h.marks_le m hm).1 hsize, (h.marks_le m hm).2⟩

/-- In front of the border both see the same. -/
theorem lookahead (hJ : Source.Shares marker J) (h : Level marker J ahead held c c') {k : Nat}
    (hk : k < ahead.length) {a : α} (hx : lookahead k c' = .ok a d') :
    ahead[k]? = some a ∧ ∃ d, Cursor.lookahead k c = .ok a d ∧ Level marker J ahead held d d' := by
  obtain ⟨c₁, c₁', hroom, hroom', text, h, hahead, hheld⟩ := h.makeRoom k
  unfold Cursor.lookahead at hx ⊢
  simp only [Run.bind_apply, hroom, hroom', Run.get_apply] at hx ⊢
  have hlt : c₁'.offset + k < text.length := by
    rw [← hahead, List.length_drop] at hk
    omega
  cases hat : (Buffer.elementAt (c₁'.offset + k) : Run (Buffer τ α) α) c₁'.buffer with
  | error e b' =>
    rw [onBuffer_error hat] at hx
    cases hx
  | ok a' b' =>
    rw [onBuffer_ok hat] at hx
    cases hx
    obtain ⟨ha, b, hb, hbuffer, hsize, -⟩ := h.buffer.elementAt_inside hJ hlt hat
    rw [← h.offset] at hb
    refine ⟨?_, _, onBuffer_ok hb, text, of_buffer h hbuffer hsize, hahead, hheld⟩
    rw [← hahead, List.getElem?_drop, ha]

/-- What the second cursor has in view. -/
theorem exists_shows (h : Level marker J ahead held c c') : ∃ l o, c'.Shows l o ∧
    (o.ended = false ∧ o.ahead.length ≤ ahead.length ∨
      o.ended = true ∧ o.ahead = ahead ++ [marker] ∧ Source.endMarker o.source = marker) := by
  obtain ⟨text, h, hahead, -⟩ := h
  obtain ⟨l, hgrown⟩ := h.buffer.grown
  refine ⟨l, c'.outlook, Cursor.shows_outlook h.offset_le.1 (fun m hm => (h.marks_le m hm).1) hgrown, ?_⟩
  rcases h.buffer.stage with ⟨rest, htext, -, -, hopen, -⟩ | ⟨a, -, hlist, hended, hmarker, -⟩
  · refine .inl ⟨hopen, ?_⟩
    show (c'.buffer.ring.toList.drop c'.offset).length ≤ ahead.length
    rw [← hahead, htext, List.length_drop, List.length_drop, List.length_append]
    omega
  · refine .inr ⟨hended, ?_, hmarker⟩
    show c'.buffer.ring.toList.drop c'.offset = ahead ++ [marker]
    rw [hlist, List.drop_append_of_le_length h.offset_le.2, hahead]

/-- At the border the second one sees the marker, and the first one something. The second one has the marker in
view then. -/
theorem lookahead_border (hJ : Source.Shares marker J) (h : Level marker J ahead held c c') {a' : α}
    (hx : Cursor.lookahead ahead.length c' = .ok a' d') :
    a' = marker ∧ (∃ l o, d'.Shows l o ∧ o.ended = true ∧ o.ahead = ahead ++ [marker] ∧
      Source.endMarker o.source = marker) ∧
    ∃ a d, Cursor.lookahead ahead.length c = .ok a d ∧ Level marker J ahead held d d' := by
  obtain ⟨c₁, c₁', hroom, hroom', text, h, hahead, hheld⟩ := h.makeRoom ahead.length
  unfold Cursor.lookahead at hx ⊢
  simp only [Run.bind_apply, hroom, hroom', Run.get_apply] at hx ⊢
  have hat_border : c₁'.offset + ahead.length = text.length := by
    have hle := h.offset_le.2
    rw [← hahead, List.length_drop]
    omega
  rw [hat_border] at hx
  rw [h.offset, hat_border]
  cases hat : (Buffer.elementAt text.length : Run (Buffer τ α) α) c₁'.buffer with
  | error e b' =>
    rw [onBuffer_error hat] at hx
    cases hx
  | ok m b' =>
    rw [onBuffer_ok hat] at hx
    cases hx
    obtain ⟨hm, a, b, hb, hbuffer, hsize, hpast⟩ := h.buffer.elementAt_border hJ hat
    have hlevel : Level marker J ahead held { c₁ with buffer := b } { c₁' with buffer := b' } :=
      ⟨text, of_buffer h hbuffer hsize, hahead, hheld⟩
    refine ⟨hm, ?_, a, _, onBuffer_ok hb, hlevel⟩
    obtain ⟨l, o, ho, ⟨-, hshort⟩ | hborder⟩ := hlevel.exists_shows
    · have hview : b'.ring.size = c₁'.offset + o.ahead.length := ho.size_eq
      omega
    · exact ⟨l, o, ho, hborder⟩

theorem consume (hJ : Source.Shares marker J) {a₀ : α} (h : Level marker J (a₀ :: ahead) held c c') {a : α}
    (hx : consume c' = .ok a d') :
    a = a₀ ∧ ∃ d, Cursor.consume c = .ok a d ∧ Level marker J ahead held d d' := by
  obtain ⟨c₁, c₁', hroom, hroom', text, h, hahead, hheld⟩ := h.makeRoom 0
  unfold Cursor.consume at hx ⊢
  simp only [Run.bind_apply, hroom, hroom', Run.get_apply] at hx ⊢
  have hlt : c₁'.offset < text.length := by
    have hlength := congrArg List.length hahead
    rw [List.length_drop, List.length_cons] at hlength
    omega
  cases hat : (Buffer.elementAt c₁'.offset : Run (Buffer τ α) α) c₁'.buffer with
  | error e b' =>
    rw [onBuffer_error hat] at hx
    cases hx
  | ok a' b' =>
    obtain ⟨ha, b, hb, hbuffer, hsize, hinside⟩ := h.buffer.elementAt_inside hJ hlt hat
    rw [← h.offset] at hb
    rw [onBuffer_ok hat] at hx
    rw [onBuffer_ok hb]
    simp only [Run.modify_apply] at hx ⊢
    have hfirst : a' = a₀ := by
      have hhead := congrArg List.head? hahead
      rw [List.head?_drop, ha] at hhead
      exact Option.some.inj hhead
    have hpassed : Abreast marker J text
        { c₁ with buffer := b, offset := c₁.offset + 1, consumed := c₁.consumed + 1 }
        { c₁' with buffer := b', offset := c₁'.offset + 1, consumed := c₁'.consumed + 1 } := by
      have h₁ := of_buffer h hbuffer hsize
      exact ⟨h₁.buffer, h₁.marks, congrArg (· + 1) h₁.offset, congrArg (· + 1) h₁.consumed,
        h₁.compactAfter, ⟨hinside, hlt⟩, h₁.marks_le⟩
    have hlevel : Level marker J ahead held
        { c₁ with buffer := b, offset := c₁.offset + 1, consumed := c₁.consumed + 1 }
        { c₁' with buffer := b', offset := c₁'.offset + 1, consumed := c₁'.consumed + 1 } := by
      refine ⟨text, hpassed, ?_, hheld⟩
      show text.drop (c₁'.offset + 1) = ahead
      rw [← List.tail_drop, hahead]
      rfl
    have hiff : (c₁.marks.isEmpty = true ∧ c₁.compactAfter < c₁.consumed + 1) ↔
        (c₁'.marks.isEmpty = true ∧ c₁'.compactAfter < c₁'.consumed + 1) := by
      rw [h.marks, h.compactAfter, h.consumed]
    by_cases hdue : c₁'.marks.isEmpty = true ∧ c₁'.compactAfter < c₁'.consumed + 1
    · obtain ⟨d, e', hd, hd', hlevel'⟩ := hlevel.dropConsumed (List.isEmpty_iff.1 hdue.1) (Nat.zero_le _)
      rw [if_pos hdue, Run.bind_apply, hd'] at hx
      rw [if_pos (hiff.2 hdue), Run.bind_apply, hd]
      cases hx
      exact ⟨hfirst, d, rfl, hlevel'⟩
    · rw [if_neg hdue] at hx
      rw [if_neg (mt hiff.1 hdue)]
      cases hx
      exact ⟨hfirst, _, rfl, hlevel⟩

/-- At the border the second one takes the marker. -/
theorem consume_border (hJ : Source.Shares marker J) (h : Level marker J [] held c c') {a : α}
    (hx : Cursor.consume c' = .ok a d') : a = marker := by
  obtain ⟨e', hlook⟩ := lookahead_of_consume hx
  exact (h.lookahead_border hJ hlook).1

theorem mark (h : Level marker J ahead held c c') : ∃ d d', Cursor.mark c = .ok () d ∧
    Cursor.mark c' = .ok () d' ∧ Level marker J ahead (ahead :: held) d d' := by
  obtain ⟨text, h, rfl, rfl⟩ := h
  refine ⟨_, _, rfl, rfl, text, ⟨h.buffer, ?_, h.offset, h.consumed, h.compactAfter, h.offset_le, ?_⟩, rfl, rfl⟩
  · show c.offset :: c.marks = c'.offset :: c'.marks
    rw [h.offset, h.marks]
  · intro m hm
    rcases List.mem_cons.1 hm with rfl | hm
    · exact h.offset_le
    · exact h.marks_le m hm

theorem commit {held₀ : List α} (h : Level marker J ahead (held₀ :: held) c c') :
    ∃ d d', Cursor.commit c = .ok () d ∧ Cursor.commit c' = .ok () d' ∧ Level marker J ahead held d d' := by
  obtain ⟨text, h, hahead, hheld⟩ := h
  obtain ⟨buffer, marks, offset, consumed, compactAfter⟩ := c
  obtain ⟨buffer', marks', offset', consumed', compactAfter'⟩ := c'
  obtain rfl : marks = marks' := h.marks
  cases marks with
  | nil => cases hheld
  | cons m outer =>
    exact ⟨_, _, rfl, rfl, text, ⟨h.buffer, rfl, h.offset, h.consumed, h.compactAfter, h.offset_le,
      fun k hk => h.marks_le k (List.mem_cons_of_mem m hk)⟩, hahead, (List.cons.inj hheld).2⟩

theorem rollback {held₀ : List α} (h : Level marker J ahead (held₀ :: held) c c') :
    ∃ d d', Cursor.rollback c = .ok () d ∧ Cursor.rollback c' = .ok () d' ∧
      Level marker J held₀ held d d' := by
  obtain ⟨text, h, hahead, hheld⟩ := h
  obtain ⟨buffer, marks, offset, consumed, compactAfter⟩ := c
  obtain ⟨buffer', marks', offset', consumed', compactAfter'⟩ := c'
  obtain rfl : marks = marks' := h.marks
  cases marks with
  | nil => cases hheld
  | cons m outer =>
    exact ⟨_, _, rfl, rfl, text, ⟨h.buffer, rfl, rfl, h.consumed, h.compactAfter,
      h.marks_le m List.mem_cons_self, fun k hk => h.marks_le k (List.mem_cons_of_mem m hk)⟩,
      (List.cons.inj hheld).1, (List.cons.inj hheld).2⟩

end Level

end Cursor

end Dataflow.Reading
