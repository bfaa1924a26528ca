import Dataflow.Proofs.Runs
import Dataflow.Reading.Cursor

/-!
# Dataflow.Proofs.Outlook

**What a cursor means.** A cursor is a ring of elements, an offset into it and a stack of
offsets, and three mechanisms renumber the ring under the offsets: growing, making room and
dropping what has been consumed. None of this shows in what a cursor answers. An `Outlook` is
what is left when it is taken away:

* the elements ahead of the cursor that have been read already;
* for every mark, the elements from that mark on;
* the source, and whether it has ended.

Reading further puts elements at the end of all of these lists; consuming takes one off the front
of the first list only. `Cursor.Shows` ties a cursor to its outlook, and for every operation a
theorem says that the operation keeps them tied — unless the ring would have to grow past its
limit, and then the outlook stays as it is.

What growing and reading into a ring can end in is said once, by the cases `Buffer.Growth` and
`Buffer.Pulled`, and how the messages of a cursor are composed by `Cursor.compose`. Whatever else is
shown of a buffer or a message starts from these.

How large a ring has to be is bounded by the number of elements ahead of the start of the source
(`Outlook.passed`), so that the excuse can be traced back to the length of the input.
-/

namespace Dataflow

namespace Reading

/-! ### Doubling -/

theorem doubledUpTo_eq {times more capacity needed : Nat} (positive : 0 < capacity)
    (enough : needed ≤ capacity + times) :
    doubledUpTo (times + more) capacity needed = doubledUpTo times capacity needed := by
  induction times generalizing capacity with
  | zero =>
    cases more with
    | zero => rfl
    | succ more =>
      rw [Nat.zero_add, doubledUpTo, doubledUpTo]
      exact if_pos (by omega)
  | succ times ih =>
    rw [Nat.add_right_comm, doubledUpTo, doubledUpTo]
    split
    · rfl
    · exact ih (by omega) (by omega)

theorem doubledTo_of_le {capacity needed : Nat} (h : needed ≤ capacity) :
    doubledTo capacity needed = capacity := by
  unfold doubledTo
  cases needed with
  | zero => rfl
  | succ n => rw [doubledUpTo, if_pos h]

theorem doubledTo_of_lt {capacity needed : Nat} (positive : 0 < capacity)
    (h : capacity < needed) : doubledTo capacity needed = doubledTo (2 * capacity) needed := by
  obtain ⟨n, rfl⟩ : ∃ n, needed = n + 1 := ⟨needed - 1, by omega⟩
  unfold doubledTo
  rw [doubledUpTo, if_neg (by omega)]
  exact (doubledUpTo_eq (by omega) (by omega)).symm

/-- Doubling in two steps is doubling in one. -/
theorem doubledTo_doubledTo {capacity : Nat} (positive : 0 < capacity) (m n : Nat) :
    doubledTo (doubledTo capacity m) n = doubledTo capacity (max m n) := by
  induction h : m - capacity using Nat.strongRecOn generalizing capacity with
  | ind d ih =>
    by_cases hm : m ≤ capacity
    · rw [doubledTo_of_le hm]
      by_cases hn : n ≤ capacity
      · rw [doubledTo_of_le hn, doubledTo_of_le (by omega)]
      · rw [Nat.max_eq_right (by omega)]
    · rw [doubledTo_of_lt positive (by omega : capacity < m),
        doubledTo_of_lt positive (by omega : capacity < max m n)]
      exact ih (m - 2 * capacity) (by omega) (by omega) rfl

theorem capacity_le_doubledTo {capacity : Nat} (positive : 0 < capacity) (n : Nat) :
    capacity ≤ doubledTo capacity n := by
  by_cases h : n ≤ capacity
  · exact Nat.le_of_eq (doubledTo_of_le h).symm
  · exact Nat.le_trans (by omega) (le_doubledTo positive n)

theorem doubledTo_mono {capacity m n : Nat} (positive : 0 < capacity) (h : m ≤ n) :
    doubledTo capacity m ≤ doubledTo capacity n := by
  rw [← Nat.max_eq_right h, ← doubledTo_doubledTo positive]
  exact capacity_le_doubledTo (doubledTo_pos positive m) n

/-- A ring that begins within these limits cannot grow to `n` elements. -/
def Limits.Exceeded (l : Limits) (n : Nat) : Prop :=
  l.largest < doubledTo l.effectiveInitial n

theorem Limits.Exceeded.mono {l : Limits} {m n : Nat} (h : l.Exceeded m) (hmn : m ≤ n) :
    l.Exceeded n :=
  Nat.lt_of_lt_of_le h (doubledTo_mono l.effectiveInitial_pos hmn)

/-! ### The buffer -/

namespace Buffer

variable {σ α : Type} [Source σ α] {l : Limits} {b : Buffer σ α}

/-- The buffer began within the limits `l`, and its ring has been grown by doubling. -/
structure Grown (l : Limits) (b : Buffer σ α) : Prop where
  limit : b.limit = l.largest
  capacity : ∃ n, b.capacity = doubledTo l.effectiveInitial n

theorem grown_ofSource (source : σ) (l : Limits) : Grown l (ofSource source l) where
  limit := rfl
  capacity := by
    refine ⟨0, ?_⟩
    rw [doubledTo_of_le (Nat.zero_le _)]
    have := l.effectiveInitial_pos
    show (Ring.empty l.effectiveInitial (Source.endMarker source)).capacity = _
    rw [Ring.capacity_empty]
    omega

omit [Source σ α] in
theorem Grown.reset (h : Grown l b) (source : σ) : Grown l (b.reset source) where
  limit := h.limit
  capacity := h.capacity

omit [Source σ α] in
/-- A capacity that has been doubled, and is too small now, is doubled as if from the start. -/
theorem Grown.doubledTo_eq (h : Grown l b) {needed : Nat} (hsmall : b.capacity < needed) :
    doubledTo b.capacity needed = doubledTo l.effectiveInitial needed := by
  obtain ⟨n, hn⟩ := h.capacity
  have hpos := l.effectiveInitial_pos
  -- The ring has been doubled for fewer elements than are needed now.
  have hle : n ≤ needed := by
    have := le_doubledTo hpos n
    omega
  rw [hn, doubledTo_doubledTo hpos, Nat.max_eq_right hle]

/-- What comes of making room: there is room, or the limit is in the way, or the ring is doubled. -/
inductive Growth (b : Buffer σ α) (needed : Nat) : EStateM.Result Failure (Buffer σ α) Unit → Prop
  | roomy (hroom : needed ≤ b.capacity) : Growth b needed (.ok () b)
  | refused (hsmall : b.capacity < needed) (hpast : b.limit < doubledTo b.capacity needed) :
    Growth b needed (.error (.error (.capacityExceeded (doubledTo b.capacity needed) b.limit)) b)
  | grown {ring : Ring α} (hsmall : b.capacity < needed) (hfits : doubledTo b.capacity needed ≤ b.limit)
    (hlist : ring.toList = b.ring.toList) (hcapacity : ring.capacity = doubledTo b.capacity needed) :
    Growth b needed (.ok () { b with ring })

theorem growth {needed : Nat} {r : EStateM.Result Failure (Buffer σ α) Unit} (h : grow needed b = r) :
    Growth b needed r := by
  subst h
  rw [grow_apply]
  split
  · next hsmall =>
    split
    · next hpast => exact .refused hsmall hpast
    · next hfits =>
      refine .grown hsmall (Nat.not_lt.1 hfits) (Ring.toList_regrow ?_ _) ?_
      · exact Nat.le_trans b.ring.size_le_capacity (capacity_le_doubledTo b.ring.capacity_pos needed)
      · rw [Ring.capacity_regrow]
        exact Nat.max_eq_left (doubledTo_pos b.ring.capacity_pos needed)
  · next hroom => exact .roomy (Nat.not_lt.1 hroom)

theorem grow_of_le {needed : Nat} (h : needed ≤ b.capacity) : grow needed b = .ok () b := by
  rw [grow_apply, if_neg (Nat.not_lt.2 h)]

/-- Room is made for the elements that are needed, and nothing else changes; only the limit can
stand in the way. -/
theorem grow_ends (h : Grown l b) (needed : Nat) :
    Run.Ends
      (fun _ b' => b'.source = b.source ∧ b'.ring.toList = b.ring.toList ∧
        b'.exhausted = b.exhausted ∧ Grown l b' ∧ needed ≤ b'.capacity)
      (fun e b' => (∃ requested limit, e = .error (.capacityExceeded requested limit)) ∧
        b' = b ∧ l.Exceeded needed)
      (grow needed b) := by
  generalize hr : grow needed b = r
  cases growth hr with
  | roomy hroom => exact ⟨rfl, rfl, rfl, h, hroom⟩
  | refused hsmall hpast =>
    refine ⟨⟨_, _, rfl⟩, rfl, ?_⟩
    rw [h.doubledTo_eq hsmall, h.limit] at hpast
    exact hpast
  | grown hsmall _ hlist hcapacity =>
    have hroom : needed ≤ doubledTo b.capacity needed := le_doubledTo b.ring.capacity_pos needed
    exact ⟨rfl, hlist, rfl, ⟨h.limit, needed, hcapacity.trans (h.doubledTo_eq hsmall)⟩,
      Nat.le_trans hroom (Nat.le_of_eq hcapacity.symm)⟩

/-- What is read goes to the back of the window. -/
theorem pull_eq {n : Nat} {elements : List α} {source : σ}
    (hread : (if b.exhausted then .ok [] b.source else Source.readFully n b.source)
      = .ok elements source) :
    pull n b = .ok () { b with
      source := source
      ring := b.ring.pushAll (Source.padded n (Source.endMarker source) elements)
      exhausted := b.exhausted || elements.length < n } := by
  unfold pull
  simp only [Run.bind_apply, Run.get_apply]
  cases hx : b.exhausted with
  | true =>
    simp only [hx, if_true, EStateM.Result.ok.injEq] at hread
    obtain ⟨rfl, rfl⟩ := hread
    simp only [if_true, Run.bind_apply, Run.pure_apply, Run.modify_apply, hx]
  | false =>
    simp only [hx, Bool.false_eq_true, if_false] at hread
    simp only [Bool.false_eq_true, if_false, Run.bind_apply, onSource_ok hread,
      Run.modify_apply, hx]

/-- Elements are read into the window up to a length that there is room for. What they are, and
where the source is then, is up to the source. -/
theorem pull_ok {n : Nat} {elements : List α} {source : σ} (h : Grown l b)
    (room : b.ring.size + n ≤ b.capacity) (short : elements.length ≤ n)
    (hread : (if b.exhausted then .ok [] b.source else Source.readFully n b.source)
      = .ok elements source) :
    ∃ b', pull n b = .ok () b' ∧ b'.source = source ∧
      b'.ring.toList = b.ring.toList ++ Source.padded n (Source.endMarker source) elements ∧
      b'.exhausted = (b.exhausted || elements.length < n) ∧ Grown l b' := by
  have hpush : (b.ring.pushAll (Source.padded n (Source.endMarker source) elements)).toList =
      b.ring.toList ++ Source.padded n (Source.endMarker source) elements :=
    Ring.toList_pushAll (by rw [Source.length_padded short]; exact room)
  refine ⟨_, pull_eq hread, rfl, hpush, rfl, h.limit, ?_⟩
  obtain ⟨m, hm⟩ := h.capacity
  exact ⟨m, (Ring.capacity_pushAll _ _).trans hm⟩

theorem pull_error {n : Nat} {e : Failure} {source : σ} (hx : b.exhausted = false)
    (hread : Source.readFully n b.source = .error e source) :
    pull n b = .error e { b with source } := by
  unfold pull
  simp only [Run.bind_apply, Run.get_apply, hx, Bool.false_eq_true, if_false]
  rw [onSource_error hread]
  simp only [hx]

/-- What comes of reading into the window: the elements go to its back, or the source fails. -/
inductive Pulled (b : Buffer σ α) (n : Nat) : EStateM.Result Failure (Buffer σ α) Unit → Prop
  | read {elements : List α} {source : σ}
    (hread : (if b.exhausted then .ok [] b.source else Source.readFully n b.source) = .ok elements source) :
    Pulled b n (.ok () { b with
      source := source
      ring := b.ring.pushAll (Source.padded n (Source.endMarker source) elements)
      exhausted := b.exhausted || elements.length < n })
  | failed {e : Failure} {source : σ} (hopen : b.exhausted = false)
    (hread : Source.readFully n b.source = .error e source) : Pulled b n (.error e { b with source })

theorem pulled {n : Nat} {r : EStateM.Result Failure (Buffer σ α) Unit} (h : pull n b = r) :
    Pulled b n r := by
  subst h
  cases hread : (if b.exhausted then .ok [] b.source else Source.readFully n b.source :
      EStateM.Result Failure σ (List α)) with
  | ok elements source =>
    rw [pull_eq hread]
    exact .read hread
  | error e source =>
    have hopen : b.exhausted = false := by
      cases hx : b.exhausted with
      | false => rfl
      | true =>
        rw [hx, if_pos rfl] at hread
        cases hread
    rw [hopen, if_neg Bool.false_ne_true] at hread
    rw [pull_error hopen hread]
    exact .failed hopen hread

/-- The element at an index of the window, if it has been read. -/
theorem elementAt_held {i : Nat} {a : α} (hi : b.ring.toList[i]? = some a) :
    elementAt i b = .ok a b := by
  rw [Ring.getElem?_toList, Ring.get?] at hi
  split at hi
  · next hlt =>
    have hsize : ¬ b.size ≤ i := by show ¬ b.ring.size ≤ i; omega
    unfold elementAt
    simp only [Run.bind_apply, Run.get_apply, if_neg hsize, Run.pure_apply]
    exact congrArg (EStateM.Result.ok · b) (Option.some.inj hi)
  · cases hi

theorem elementAt_of_le {i : Nat} (hi : b.ring.size ≤ i) :
    elementAt i b = (grow (i + 1) >>= fun _ => pull (i + 1 - b.ring.size) >>= fun _ =>
      (get >>= fun b' => pure (b'.ring.nth i) : Run (Buffer σ α) α)) b := by
  unfold elementAt
  simp only [Run.bind_apply, Run.get_apply, if_pos (show b.size ≤ i from hi)]
  rfl

/-- The element at an index behind the window is read, with all those before it. -/
theorem elementAt_read {i : Nat} {elements : List α} {source : σ} (h : Grown l b)
    (hi : b.ring.size ≤ i) (short : elements.length ≤ i + 1 - b.ring.size)
    (hread : (if b.exhausted then .ok [] b.source
      else Source.readFully (i + 1 - b.ring.size) b.source) = .ok elements source) :
    Run.Ends
      (fun a b' =>
        (b.ring.toList ++ Source.padded (i + 1 - b.ring.size) (Source.endMarker source)
          elements)[i]? = some a ∧
        b'.source = source ∧
        b'.ring.toList = b.ring.toList ++
          Source.padded (i + 1 - b.ring.size) (Source.endMarker source) elements ∧
        b'.exhausted = (b.exhausted || elements.length < i + 1 - b.ring.size) ∧ Grown l b')
      (fun e b' => (∃ requested limit, e = .error (.capacityExceeded requested limit)) ∧
        b' = b ∧ l.Exceeded (i + 1))
      (elementAt i b) := by
  rw [elementAt_of_le hi]
  refine Run.Ends.bind (grow_ends h (i + 1)) ?_ (fun _ _ he => he)
  rintro _ b₁ ⟨hsource, hlist, hended, hgrown, hcap⟩
  have hsize : b₁.ring.size = b.ring.size := Ring.size_eq_of_toList_eq hlist
  obtain ⟨b', hb', hs, hl, he, hg⟩ := pull_ok (n := i + 1 - b.ring.size) hgrown
    (by omega) short (by rw [hsource, hended]; exact hread)
  rw [hlist] at hl
  have hlt : i < b'.ring.size := by
    rw [← Ring.length_toList, hl, List.length_append, Source.length_padded short,
      Ring.length_toList]
    omega
  rw [Run.bind_apply, hb']
  refine ⟨?_, hs, hl, by rw [he, hended], hg⟩
  rw [← hl, Ring.getElem?_toList, Ring.get?, if_pos hlt]

/-- Where the source fails, the window stays as it is. -/
theorem elementAt_failed {i : Nat} {e : Failure} {source : σ} (h : Grown l b)
    (hi : b.ring.size ≤ i) (hx : b.exhausted = false)
    (hread : Source.readFully (i + 1 - b.ring.size) b.source = .error e source) :
    Run.Ends (fun _ _ => False)
      (fun f b' => f = e ∧ b'.source = source ∧ b'.ring.toList = b.ring.toList ∧
          b'.exhausted = false ∧ Grown l b' ∨
        (∃ requested limit, f = .error (.capacityExceeded requested limit)) ∧
          b' = b ∧ l.Exceeded (i + 1))
      (elementAt i b) := by
  rw [elementAt_of_le hi]
  refine Run.Ends.bind (grow_ends h (i + 1)) ?_ (fun _ _ he => Or.inr he)
  rintro _ b₁ ⟨hsource, hlist, hended, hgrown, -⟩
  rw [Run.bind_apply, pull_error (hended.trans hx) (by rw [hsource]; exact hread)]
  exact Or.inl ⟨rfl, rfl, hlist, hended.trans hx, ⟨hgrown.limit, hgrown.capacity⟩⟩

end Buffer

/-! ### The outlook of a cursor -/

/-- What a cursor over a source has in view. -/
structure Outlook (σ α : Type) where
  source : σ
  /-- The elements that have been read and not consumed. -/
  ahead : List α := []
  /-- The elements that have been read from each mark on, innermost mark first. -/
  marked : List (List α) := []
  /-- Whether the source has come to its end. -/
  ended : Bool := false
  /-- How many elements there are between the start of the source and the cursor. -/
  passed : Nat := 0

namespace Outlook

variable {σ α : Type} [Source σ α]

/-- The next `n` elements of the source; once it has ended there are none. -/
def portion (o : Outlook σ α) (n : Nat) : EStateM.Result Failure σ (List α) :=
  if o.ended then .ok [] o.source else Source.readFully n o.source

/-- What is in view when `n` more elements have been asked for and these have come. -/
def extend (o : Outlook σ α) (n : Nat) (elements : List α) (source : σ) : Outlook σ α where
  source := source
  ahead := o.ahead ++ Source.padded n (Source.endMarker source) elements
  marked := o.marked.map (· ++ Source.padded n (Source.endMarker source) elements)
  ended := o.ended || elements.length < n
  passed := o.passed

/-- The element `k` places ahead, for which the source may have to be read. -/
def look (k : Nat) (o : Outlook σ α) : EStateM.Result Failure (Outlook σ α) α :=
  match o.ahead[k]? with
  | some a => .ok a o
  | none =>
    match o.portion (k + 1 - o.ahead.length) with
    | .error e source => .error e { o with source }
    | .ok elements source =>
      let o := o.extend (k + 1 - o.ahead.length) elements source
      .ok (o.ahead.getD k (Source.endMarker source)) o

/-- The outlook behind the next element. -/
def pass (o : Outlook σ α) : Outlook σ α :=
  { o with ahead := o.ahead.tail, passed := o.passed + 1 }

/-- The next element, which is passed. -/
def take (o : Outlook σ α) : EStateM.Result Failure (Outlook σ α) α :=
  match o.look 0 with
  | .ok a o => .ok a o.pass
  | .error e o => .error e o

/-- The outlook with another mark at the cursor. -/
def mark (o : Outlook σ α) : Outlook σ α :=
  { o with marked := o.ahead :: o.marked }

/-- The outlook without the innermost mark. -/
def commit (o : Outlook σ α) : Outlook σ α :=
  { o with marked := o.marked.tail }

/-- The outlook from the innermost mark, which is at `ahead`. -/
def rollback (o : Outlook σ α) (ahead : List α) : Outlook σ α :=
  { o with
    ahead := ahead
    marked := o.marked.tail
    passed := o.passed + o.ahead.length - ahead.length }

/-- A source never hands out more than `n` elements for `n`. -/
def Modest (o : Outlook σ α) (n : Nat) : Prop :=
  ∀ {elements source}, o.portion n = .ok elements source → elements.length ≤ n

end Outlook

/-! ### Cursors and their outlooks -/

namespace Cursor

variable {σ α β : Type} [Source σ α] {l : Limits} {c : Cursor σ α} {o : Outlook σ α}

/-- The cursor, whose buffer began within the limits `l`, has `o` in view. -/
structure Shows (l : Limits) (c : Cursor σ α) (o : Outlook σ α) : Prop where
  source : c.buffer.source = o.source
  ahead : c.buffer.ring.toList.drop c.offset = o.ahead
  marked : c.marks.map (fun m => c.buffer.ring.toList.drop m) = o.marked
  ended : c.buffer.exhausted = o.ended
  offset_le : c.offset ≤ c.buffer.ring.size
  marks_le : ∀ m ∈ c.marks, m ≤ c.buffer.ring.size
  passed : c.offset ≤ o.passed
  grown : c.buffer.Grown l

/-- A cursor at the start of a source has nothing in view yet. -/
theorem shows_ofSource (source : σ) (l : Limits) :
    (ofSource source l : Cursor σ α).Shows l { source } where
  source := rfl
  ahead := rfl
  marked := rfl
  ended := rfl
  offset_le := Nat.le_refl 0
  marks_le := by simp [ofSource]
  passed := Nat.le_refl 0
  grown := Buffer.grown_ofSource source l

/-- What a cursor has in view, itself just behind all that it has passed. -/
def outlook (c : Cursor σ α) : Outlook σ α where
  source := c.buffer.source
  ahead := c.buffer.ring.toList.drop c.offset
  marked := c.marks.map fun m => c.buffer.ring.toList.drop m
  ended := c.buffer.exhausted
  passed := c.offset

omit [Source σ α] in
theorem shows_outlook (hoffset : c.offset ≤ c.buffer.ring.size)
    (hmarks : ∀ m ∈ c.marks, m ≤ c.buffer.ring.size) (hgrown : c.buffer.Grown l) :
    c.Shows l c.outlook :=
  ⟨rfl, rfl, rfl, rfl, hoffset, hmarks, Nat.le_refl _, hgrown⟩

namespace Shows

omit [Source σ α] in
theorem size_eq (h : c.Shows l o) : c.buffer.ring.size = c.offset + o.ahead.length := by
  rw [← h.ahead, List.length_drop, Ring.length_toList]
  have := h.offset_le
  omega

omit [Source σ α] in
theorem marked_le (h : c.Shows l o) : ∀ m ∈ o.marked, m.length ≤ o.passed + o.ahead.length := by
  intro m hm
  rw [← h.marked] at hm
  obtain ⟨offset, -, rfl⟩ := List.mem_map.1 hm
  have hsize := h.size_eq
  have hpassed := h.passed
  rw [List.length_drop, Ring.length_toList]
  omega

omit [Source σ α] in
/-- The cursor at the start of another source has nothing in view again. -/
theorem reset (h : c.Shows l o) (source : σ) : (c.reset source).Shows l { source } where
  source := rfl
  ahead := by
    show (c.buffer.ring.dropFront c.buffer.ring.size).toList.drop 0 = []
    rw [Ring.toList_dropFront, ← Ring.length_toList, List.drop_length, List.drop_nil]
  marked := rfl
  ended := rfl
  offset_le := Nat.zero_le _
  marks_le := by simp [Cursor.reset]
  passed := Nat.le_refl 0
  grown := h.grown.reset source

end Shows

/-- What comes of an operation on a cursor is what comes of it on the outlook, unless the ring
would have to hold more than `needed` elements. -/
inductive Agrees (l : Limits) (needed : Nat) (o : Outlook σ α) :
    EStateM.Result Failure (Cursor σ α) β → EStateM.Result Failure (Outlook σ α) β → Prop
  | answer {b : β} {c : Cursor σ α} {o' : Outlook σ α} (h : c.Shows l o') :
    Agrees l needed o (.ok b c) (.ok b o')
  | failure {e : Failure} {c : Cursor σ α} {o' : Outlook σ α} (h : c.Shows l o') :
    Agrees l needed o (.error e c) (.error e o')
  | exceeded {requested limit : Nat} {c : Cursor σ α}
    {r : EStateM.Result Failure (Outlook σ α) β} (h : c.Shows l o)
    (hneeded : l.Exceeded needed) :
    Agrees l needed o (.error (.error (.capacityExceeded requested limit)) c) r

omit [Source σ α] in
/-- Dropping what stands behind the cursor changes nothing in view. -/
theorem dropConsumed_ok (h : c.Shows l o) (hm : c.marks = []) {keep : Nat}
    (hk : keep ≤ c.offset) : ∃ c', dropConsumed keep c = .ok () c' ∧ c'.Shows l o := by
  have hsize : ¬ c.buffer.size < c.offset - keep := by
    have := h.offset_le
    show ¬ c.buffer.ring.size < _
    omega
  have hdrop : (c.buffer.ring.dropFront (c.offset - keep)).toList.drop keep = o.ahead := by
    rw [Ring.toList_dropFront, List.drop_drop, Nat.sub_add_cancel hk, h.ahead]
  rw [dropConsumed_apply, if_neg hsize]
  refine ⟨_, rfl, ⟨h.source, hdrop, ?_, h.ended, ?_, ?_, ?_, ⟨h.grown.limit, h.grown.capacity⟩⟩⟩
  · show c.marks.map _ = o.marked
    rw [← h.marked, hm]
    rfl
  · have := h.offset_le
    show keep ≤ c.buffer.ring.size - (c.offset - keep)
    omega
  · intro m hmem
    rw [hm] at hmem
    cases hmem
  · have := h.passed
    show keep ≤ o.passed
    omega

omit [Source σ α] in
theorem makeRoom_ok (h : c.Shows l o) (k : Nat) :
    ∃ c', makeRoom k c = .ok () c' ∧ c'.Shows l o := by
  rw [makeRoom_apply]
  split
  · next hc =>
    exact dropConsumed_ok h (List.isEmpty_iff.1 hc.1) (Nat.le_of_lt hc.2.2)
  · exact ⟨c, rfl, h⟩

/-- What the ring holds is looked at without reading. -/
theorem elementAt_held (h : c.Shows l o) {k : Nat} {a : α} (hk : o.ahead[k]? = some a) :
    onBuffer (Buffer.elementAt (c.offset + k)) c = .ok a c := by
  rw [← h.ahead, List.getElem?_drop] at hk
  exact onBuffer_ok (Buffer.elementAt_held hk)

omit [Source σ α] in
/-- Reading that fails leaves in view what was. -/
theorem Shows.unread (h : c.Shows l o) {b : Buffer σ α} {source : σ} (hsource : b.source = source)
    (hlist : b.ring.toList = c.buffer.ring.toList) (hended : b.exhausted = c.buffer.exhausted)
    (hgrown : b.Grown l) : Shows l { c with buffer := b } { o with source } := by
  have hring : b.ring.size = c.buffer.ring.size := Ring.size_eq_of_toList_eq hlist
  refine ⟨hsource, ?_, ?_, hended.trans h.ended, ?_, ?_, h.passed, hgrown⟩
  · exact (congrArg (List.drop c.offset) hlist).trans h.ahead
  · show c.marks.map (fun m => b.ring.toList.drop m) = o.marked
    rw [hlist]
    exact h.marked
  · exact hring ▸ h.offset_le
  · exact fun m hm => hring ▸ h.marks_le m hm

/-- What has been read comes into view, also at each mark. -/
theorem Shows.extend (h : c.Shows l o) {b : Buffer σ α} {source : σ} {n : Nat} {elements : List α}
    (hsource : b.source = source)
    (hlist : b.ring.toList =
      c.buffer.ring.toList ++ Source.padded n (Source.endMarker source) elements)
    (hended : b.exhausted = (c.buffer.exhausted || elements.length < n)) (hgrown : b.Grown l) :
    Shows l { c with buffer := b } (o.extend n elements source) := by
  have hring : c.buffer.ring.size ≤ b.ring.size := by
    rw [← Ring.length_toList, ← Ring.length_toList, hlist, List.length_append]
    exact Nat.le_add_right _ _
  have hdrop : ∀ m ≤ c.buffer.ring.size, b.ring.toList.drop m =
      c.buffer.ring.toList.drop m ++ Source.padded n (Source.endMarker source) elements := by
    intro m hm
    rw [hlist, List.drop_append_of_le_length (by rw [Ring.length_toList]; exact hm)]
  refine ⟨hsource, ?_, ?_, ?_, Nat.le_trans h.offset_le hring, ?_, h.passed, hgrown⟩
  · show b.ring.toList.drop c.offset = o.ahead ++ _
    rw [hdrop _ h.offset_le, h.ahead]
  · show c.marks.map (fun m => b.ring.toList.drop m) = o.marked.map _
    rw [← h.marked, List.map_map]
    exact List.map_congr_left fun m hm => hdrop m (h.marks_le m hm)
  · show b.exhausted = (o.ended || _)
    rw [hended, h.ended]
  · exact fun m hm => Nat.le_trans (h.marks_le m hm) hring

/-- What the ring does not hold is read, and the marks see it too. -/
theorem elementAt_agrees (h : c.Shows l o) (k : Nat)
    (modest : o.Modest (k + 1 - o.ahead.length)) :
    Agrees l (o.passed + k + 1) o (onBuffer (Buffer.elementAt (c.offset + k)) c) (o.look k) := by
  have hsize := h.size_eq
  have hpassed := h.passed
  unfold Outlook.look
  cases hk : o.ahead[k]? with
  | some a =>
    rw [elementAt_held h hk]
    exact .answer h
  | none =>
    have hlen : o.ahead.length ≤ k := List.getElem?_eq_none_iff.1 hk
    have hi : c.buffer.ring.size ≤ c.offset + k := by omega
    have hn : c.offset + k + 1 - c.buffer.ring.size = k + 1 - o.ahead.length := by omega
    have hportion : (if c.buffer.exhausted then .ok [] c.buffer.source
        else Source.readFully (c.offset + k + 1 - c.buffer.ring.size) c.buffer.source)
        = o.portion (k + 1 - o.ahead.length) := by
      rw [hn, h.ended, h.source, Outlook.portion]
    cases hr : o.portion (k + 1 - o.ahead.length) with
    | error e source =>
      have hended : o.ended = false := by
        cases ho : o.ended with
        | false => rfl
        | true => simp [Outlook.portion, ho] at hr
      have hread : Source.readFully (c.offset + k + 1 - c.buffer.ring.size) c.buffer.source =
          .error e source := by
        rw [hr, h.ended, hended] at hportion
        exact hportion
      have hopen := h.ended.trans hended
      have hends := Buffer.elementAt_failed h.grown hi hopen hread
      cases hx : Buffer.elementAt (c.offset + k) c.buffer with
      | ok a b => exact absurd (hends.of_ok hx) (by simp)
      | error f b =>
        rw [onBuffer_error hx]
        rcases hends.of_error hx with ⟨rfl, hs, hl, he, hg⟩ | ⟨⟨requested, limit, rfl⟩, rfl, hover⟩
        · exact .failure (h.unread hs hl (he.trans hopen.symm) hg)
        · exact .exceeded h (hover.mono (by omega))
    | ok elements source =>
      have short : elements.length ≤ k + 1 - o.ahead.length := modest hr
      have hends := Buffer.elementAt_read h.grown hi (by rw [hn]; exact short)
        (hportion.trans hr)
      rw [hn] at hends
      cases hx : Buffer.elementAt (c.offset + k) c.buffer with
      | error f b =>
        rw [onBuffer_error hx]
        obtain ⟨⟨requested, limit, rfl⟩, rfl, hover⟩ := hends.of_error hx
        exact .exceeded h (hover.mono (by omega))
      | ok a b =>
        rw [onBuffer_ok hx]
        obtain ⟨ha, hs, hl, he, hg⟩ := hends.of_ok hx
        have hshows := h.extend hs hl he hg
        -- The element asked for is the one that the ring gave.
        have hanswer : (o.extend (k + 1 - o.ahead.length) elements source).ahead.getD k
            (Source.endMarker source) = a := by
          rw [← hshows.ahead, List.getD_eq_getElem?_getD, List.getElem?_drop, hl, ha]
          rfl
        simp only [hanswer]
        exact .answer hshows

/-- Looking ahead is looking at the outlook. -/
theorem lookahead_agrees (h : c.Shows l o) (k : Nat)
    (modest : o.Modest (k + 1 - o.ahead.length)) :
    Agrees l (o.passed + k + 1) o (lookahead k c) (o.look k) := by
  obtain ⟨c₁, hroom, h₁⟩ := makeRoom_ok h k
  unfold lookahead
  simp only [Run.bind_apply, hroom, Run.get_apply]
  exact elementAt_agrees h₁ k modest

theorem look_zero_ahead {o o' : Outlook σ α} {a : α} (h : o.look 0 = .ok a o') :
    ∃ rest, o'.ahead = a :: rest := by
  unfold Outlook.look at h
  cases hk : o.ahead with
  | cons b rest =>
    rw [hk] at h
    cases h
    exact ⟨rest, hk⟩
  | nil =>
    rw [hk] at h
    simp only [List.getElem?_nil, List.length_nil, Nat.sub_zero, Nat.zero_add] at h
    cases hr : o.portion 1 with
    | error e source =>
      rw [hr] at h
      cases h
    | ok elements source =>
      rw [hr] at h
      simp only [EStateM.Result.ok.injEq] at h
      obtain ⟨rfl, rfl⟩ := h
      -- One element has been asked for, so that padding leaves at least one.
      have hlist : (o.extend 1 elements source).ahead =
          Source.padded 1 (Source.endMarker source) elements := by
        rw [Outlook.extend, hk, List.nil_append]
      rw [hlist]
      cases elements with
      | nil => exact ⟨[], rfl⟩
      | cons b rest => exact ⟨rest ++ List.replicate (1 - (b :: rest).length) _, rfl⟩

/-- What is in view is looked at without reading. -/
theorem lookahead_held (h : c.Shows l o) {k : Nat} {a : α} (hk : o.ahead[k]? = some a) :
    ∃ c', lookahead k c = .ok a c' ∧ c'.Shows l o := by
  obtain ⟨c₁, hroom, h₁⟩ := makeRoom_ok h k
  refine ⟨c₁, ?_, h₁⟩
  unfold lookahead
  simp only [Run.bind_apply, hroom, Run.get_apply]
  exact elementAt_held h₁ hk

theorem consume_of_error {e : Failure} {c' : Cursor σ α} (h : lookahead 0 c = .error e c') :
    consume c = .error e c' := by
  unfold lookahead at h
  unfold consume
  simp only [Run.bind_apply, Run.get_apply, Nat.add_zero] at h ⊢
  cases hroom : makeRoom 0 c with
  | error f c₁ =>
    rw [hroom] at h
    exact h
  | ok u c₁ =>
    rw [hroom] at h
    simp only at h ⊢
    rw [h]

/-- Consuming is looking at the next element and passing it. -/
theorem consume_of_ok {a : α} {rest : List α} {c' : Cursor σ α} (hlook : lookahead 0 c = .ok a c')
    (h : c'.Shows l o) (hahead : o.ahead = a :: rest) :
    ∃ c'', consume c = .ok a c'' ∧ c''.Shows l o.pass := by
  have hsize := h.size_eq
  rw [hahead, List.length_cons] at hsize
  have hpass : Shows l { c' with offset := c'.offset + 1, consumed := c'.consumed + 1 } o.pass := by
    refine ⟨h.source, ?_, h.marked, h.ended, ?_, h.marks_le, Nat.succ_le_succ h.passed, h.grown⟩
    · show c'.buffer.ring.toList.drop (c'.offset + 1) = o.ahead.tail
      rw [← h.ahead, List.tail_drop]
    · show c'.offset + 1 ≤ c'.buffer.ring.size
      omega
  unfold lookahead at hlook
  unfold consume
  simp only [Run.bind_apply, Run.get_apply, Nat.add_zero] at hlook ⊢
  cases hroom : makeRoom 0 c with
  | error f c₁ =>
    rw [hroom] at hlook
    cases hlook
  | ok u c₁ =>
    rw [hroom] at hlook
    simp only at hlook ⊢
    rw [hlook]
    simp only [Run.modify_apply]
    split
    · next hc =>
      obtain ⟨c₂, hdrop, h₂⟩ := dropConsumed_ok hpass (List.isEmpty_iff.1 hc.1) (Nat.zero_le _)
      rw [Run.bind_apply, hdrop]
      exact ⟨c₂, rfl, h₂⟩
    · exact ⟨_, rfl, hpass⟩

theorem consume_agrees (h : c.Shows l o) (modest : o.Modest (1 - o.ahead.length)) :
    Agrees l (o.passed + 1) o (consume c) o.take := by
  have hpeek := lookahead_agrees h 0 (by rw [Nat.zero_add]; exact modest)
  unfold Outlook.take
  generalize hlook : o.look 0 = s at hpeek
  generalize hr : lookahead 0 c = r at hpeek
  cases hpeek with
  | failure h' =>
    rw [consume_of_error hr]
    exact .failure h'
  | exceeded h' hneeded =>
    rw [consume_of_error hr]
    exact .exceeded h' hneeded
  | answer h' =>
    obtain ⟨rest, hrest⟩ := look_zero_ahead hlook
    obtain ⟨c'', hc'', hshows⟩ := consume_of_ok hr h' hrest
    rw [hc'']
    exact .answer hshows

/-- What is in view is consumed without reading. -/
theorem consume_held (h : c.Shows l o) {a : α} {rest : List α} (hahead : o.ahead = a :: rest) :
    ∃ c', consume c = .ok a c' ∧ c'.Shows l o.pass := by
  obtain ⟨c₁, hlook, h₁⟩ := lookahead_held h (k := 0) (a := a) (by rw [hahead]; rfl)
  exact consume_of_ok hlook h₁ hahead

section Kinds

variable {κ : Type} [Element α κ] [DecidableEq κ]

theorem accept_of_error {kind : κ} {e : Failure} {c' : Cursor σ α}
    (h : lookahead 0 c = .error e c') : accept kind c = .error e c' := by
  unfold accept peek
  rw [Run.bind_apply, h]

/-- An element of another kind stays where it is. -/
theorem accept_of_ne {kind : κ} {a : α} {c' : Cursor σ α} (h : lookahead 0 c = .ok a c')
    (hkind : Element.kind a ≠ kind) : accept kind c = .ok none c' := by
  unfold accept peek
  rw [Run.bind_apply, h]
  simp only [if_neg hkind, Run.pure_apply]

/-- An element of the kind is consumed. -/
theorem accept_of_eq {kind : κ} {a : α} {rest : List α} {c' : Cursor σ α}
    (hlook : lookahead 0 c = .ok a c') (h : c'.Shows l o) (hahead : o.ahead = a :: rest)
    (hkind : Element.kind a = kind) :
    ∃ c'', accept kind c = .ok (some a) c'' ∧ c''.Shows l o.pass := by
  obtain ⟨c'', hc'', hshows⟩ := consume_held h hahead
  refine ⟨c'', ?_, hshows⟩
  unfold accept peek
  rw [Run.bind_apply, hlook]
  simp only [if_pos hkind, Run.bind_apply, hc'', Run.pure_apply]

/-! ### What messages show -/

/-- Looking for what messages show fails never, and keeps whatever reading keeps. -/
theorem ahead_ok {I : Cursor σ α → Prop} (endKind : κ)
    (hI : ∀ (k : Nat) (c : Cursor σ α), I c →
      Run.Ends (fun _ => I) (fun _ => I) (onBuffer (Buffer.elementAt (c.offset + k)) c))
    {n k : Nat} {c : Cursor σ α} (h : I c) : ∃ as c', ahead endKind n k c = .ok as c' ∧ I c' := by
  induction n generalizing k c with
  | zero => exact ⟨[], c, rfl, h⟩
  | succ n ih =>
    have hk := hI k c h
    unfold ahead
    cases hx : onBuffer (Buffer.elementAt (c.offset + k)) c with
    | error e c' => exact ⟨[], c', rfl, hk.of_error hx⟩
    | ok a c' =>
      simp only
      split
      · exact ⟨[a], c', rfl, hk.of_ok hx⟩
      · obtain ⟨as, c'', has, h''⟩ := ih (k := k + 1) (hk.of_ok hx)
        refine ⟨a :: as, c'', ?_, h''⟩
        rw [Run.bind_apply, has]
        rfl

theorem context_ok {I : Cursor σ α → Prop}
    (hI : ∀ (k : Nat) (c : Cursor σ α), I c →
      Run.Ends (fun _ => I) (fun _ => I) (onBuffer (Buffer.elementAt (c.offset + k)) c))
    {c : Cursor σ α} (h : I c) :
    ∃ text c', (context : Run (Cursor σ α) String) c = .ok text c' ∧ I c' := by
  obtain ⟨as, c', has, h'⟩ := ahead_ok (Element.kind (Source.endMarker c.buffer.source)) hI
    (n := contextRadius + 1) (k := 0) h
  unfold context
  simp only [Run.bind_apply, Run.get_apply, has, Run.pure_apply]
  exact ⟨_, c', rfl, h'⟩

omit [DecidableEq κ] in
theorem current_of_ok {a : α} {c' : Cursor σ α} (hlook : lookahead 0 c = .ok a c') :
    (current : Run (Cursor σ α) (String × Option Text.Span)) c =
      .ok (Element.describe a, Element.span a) c' := by
  unfold current peek
  rw [hlook]

/-- Composes an error from the element at the cursor and the context. -/
def compose (make : String → Option Text.Span → String → Error) : Run (Cursor σ α) Error := do
  let found ← current
  return make found.1 found.2 (← context)

theorem mismatch_eq (expected : String) : (mismatch expected : Run (Cursor σ α) Error) =
    compose fun found span context => .mismatch expected found context span := rfl

theorem unexpectedOperand_eq : (unexpectedOperand : Run (Cursor σ α) Error) =
    compose fun found span context => .unexpectedOperand found context span := rfl

section Composing

variable {I : Cursor σ α → Prop} (hI : ∀ (k : Nat) (c : Cursor σ α), I c →
  Run.Ends (fun _ => I) (fun _ => I) (onBuffer (Buffer.elementAt (c.offset + k)) c))

include hI

theorem compose_of_current {found : String × Option Text.Span} {c' : Cursor σ α}
    (hcurrent : current c = .ok found c') (h : I c') (make : String → Option Text.Span → String → Error) :
    ∃ context c'', compose make c = .ok (make found.1 found.2 context) c'' ∧ I c'' := by
  obtain ⟨text, c'', htext, h''⟩ := context_ok hI h
  refine ⟨text, c'', ?_, h''⟩
  unfold compose
  simp only [Run.bind_apply, hcurrent, htext, Run.pure_apply]

/-- The error for an element that has been looked at names that element. -/
theorem compose_of_ok {a : α} {c' : Cursor σ α} (hlook : lookahead 0 c = .ok a c') (h : I c')
    (make : String → Option Text.Span → String → Error) : ∃ context c'', compose make c =
      .ok (make (Element.describe a) (Element.span a) context) c'' ∧ I c'' :=
  compose_of_current hI (current_of_ok hlook) h make

/-- An error can be composed also where the element at the cursor cannot be read. -/
theorem compose_ok (hlook : Run.Ends (fun _ => I) (fun _ => I) ((lookahead 0 : Run (Cursor σ α) α) c))
    (make : String → Option Text.Span → String → Error) : ∃ (found : String × Option Text.Span) (context : String)
      (c' : Cursor σ α), compose make c = .ok (make found.1 found.2 context) c' ∧ I c' := by
  have hcurrent : ∃ found c', (current : Run (Cursor σ α) (String × Option Text.Span)) c = .ok found c' ∧
      I c' := by
    unfold current peek
    cases hr : (lookahead 0 : Run (Cursor σ α) α) c with
    | ok a c' => exact ⟨_, c', rfl, hlook.of_ok hr⟩
    | error e c' => exact ⟨_, c', rfl, hlook.of_error hr⟩
  obtain ⟨found, c', hfound, h'⟩ := hcurrent
  exact ⟨found, compose_of_current hI hfound h' make⟩

end Composing

end Kinds

omit [Source σ α]

theorem mark_ok (h : c.Shows l o) : ∃ c', mark c = .ok () c' ∧ c'.Shows l o.mark := by
  refine ⟨{ c with marks := c.offset :: c.marks }, rfl, h.source, h.ahead, ?_, h.ended,
    h.offset_le, ?_, h.passed, h.grown⟩
  · show c.buffer.ring.toList.drop c.offset :: c.marks.map _ = o.ahead :: o.marked
    rw [h.ahead, h.marked]
  · intro m hm
    rcases List.mem_cons.1 hm with rfl | hm
    · exact h.offset_le
    · exact h.marks_le m hm

theorem commit_ok (h : c.Shows l o) (hm : o.marked ≠ []) :
    ∃ c', commit c = .ok () c' ∧ c'.Shows l o.commit := by
  have hmarked := h.marked
  obtain ⟨buffer, marks, offset, consumed, compactAfter⟩ := c
  cases marks with
  | nil => exact absurd hmarked.symm hm
  | cons m outer =>
    refine ⟨⟨buffer, outer, offset, consumed, compactAfter⟩, rfl, h.source, h.ahead, ?_, h.ended,
      h.offset_le, fun k hk => h.marks_le k (List.mem_cons_of_mem m hk), h.passed, h.grown⟩
    show _ = o.marked.tail
    rw [← hmarked]
    rfl

/-- Without a mark there is nothing to give up. -/
theorem commit_none (h : c.Shows l o) (hm : o.marked = []) :
    commit c = .error (.violation .commitWithoutMark) c := by
  have hmarked := h.marked
  obtain ⟨buffer, marks, offset, consumed, compactAfter⟩ := c
  obtain rfl : marks = [] := List.map_eq_nil_iff.1 (hmarked.trans hm)
  rfl

/-- Without a mark there is no place to go back to. -/
theorem rollback_none (h : c.Shows l o) (hm : o.marked = []) :
    rollback c = .error (.violation .rollbackWithoutMark) c := by
  have hmarked := h.marked
  obtain ⟨buffer, marks, offset, consumed, compactAfter⟩ := c
  obtain rfl : marks = [] := List.map_eq_nil_iff.1 (hmarked.trans hm)
  rfl

theorem rollback_ok (h : c.Shows l o) {ahead : List α} {outer : List (List α)}
    (hm : o.marked = ahead :: outer) :
    ∃ c', rollback c = .ok () c' ∧ c'.Shows l (o.rollback ahead) := by
  have hmarked := h.marked
  obtain ⟨buffer, marks, offset, consumed, compactAfter⟩ := c
  cases marks with
  | nil => exact absurd (hmarked.trans hm) (by simp)
  | cons m rest =>
    have hsize := h.size_eq
    have hle : m ≤ buffer.ring.size := h.marks_le m List.mem_cons_self
    rw [hm, List.map_cons, List.cons.injEq] at hmarked
    have hlength : ahead.length = buffer.ring.size - m := by
      rw [← hmarked.1, List.length_drop, Ring.length_toList]
    refine ⟨⟨buffer, rest, m, consumed, compactAfter⟩, rfl, h.source, hmarked.1, ?_, h.ended,
      hle, fun k hk => h.marks_le k (List.mem_cons_of_mem m hk), ?_, h.grown⟩
    · show _ = o.marked.tail
      rw [hm]
      exact hmarked.2
    · have := h.passed
      show m ≤ o.passed + o.ahead.length - ahead.length
      simp only at hsize this
      omega

end Cursor

end Reading

end Dataflow
