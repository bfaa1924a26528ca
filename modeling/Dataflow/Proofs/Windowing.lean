import Dataflow.Proofs.Backtracking
import Dataflow.Proofs.Retention

/-!
# Dataflow.Proofs.Windowing

**A buffer is a window on its stream.** What is asked of a buffer is answered from a stretch of the
stream: so many elements have been removed from its front, and so many are held. A `Window` is these
two numbers, and no more; there is no array, no head and no capacity in it.

* `Window.step` — what each request shows of the window and makes of it;
* `Filling` — the order in which missing elements go to the slots of the array: all of them at once,
  or first those for the slots as far as its end and then those for the slots at its start. The source
  may come to its end in between;
* `Buffer.Holds` — a buffer holds a window: its ring has the elements of the stretch, its source has
  been read as far as the end of the stretch and no further, and its capacity is in bounds;
* `answers_eq_window` — buffers and windows answer alike.

Every request keeps `Holds`, for the window behind the request. Pulling elements into a ring that has
room for them is the one step with an argument in it, and pulling them in two goes is that step twice.
-/

namespace Dataflow.Reading

/-! ### Windows -/

/-- A stretch of a stream. -/
structure Window (α : Type) where
  /-- The elements of the stream. Behind them stands the end marker, at every place. -/
  elements : List α
  endMarker : α
  /-- How many elements are in front of the stretch. -/
  removed : Nat := 0
  /-- How many elements are in the stretch. -/
  size : Nat := 0

variable {σ α : Type}

namespace Window

/-- The stream of a window, from the start of the stretch on. -/
def walk (w : Window α) : Walk α where
  elements := w.elements
  endMarker := w.endMarker
  position := w.removed

/-- The element at an index, counted from the start of the stretch. -/
def element (w : Window α) (i : Nat) : α := w.walk.element (w.removed + i)

/-- The stretch. -/
def toList (w : Window α) : List α := (w.walk.upTo (w.removed + w.size)).drop w.removed

/-- The window with `n` more elements at its end. -/
def extend (w : Window α) (n : Nat) : Window α := { w with size := w.size + n }

@[simp] theorem length_toList (w : Window α) : w.toList.length = w.size := by
  simp [toList]

theorem getElem?_toList (w : Window α) {i : Nat} (h : i < w.size) :
    w.toList[i]? = some (w.element i) := by
  rw [toList, List.getElem?_drop, Walk.getElem?_upTo _ (by omega)]
  rfl

/-- A longer stretch has the next elements of the stream at its end. -/
theorem toList_extend (w : Window α) (n : Nat) : (w.extend n).toList =
    w.toList ++ Source.padded n w.endMarker ((w.elements.drop (w.removed + w.size)).take n) := by
  show (w.walk.upTo (w.removed + (w.size + n))).drop w.removed = _
  rw [← Nat.add_assoc, Walk.upTo_add, List.drop_append_of_le_length (by simp)]
  rfl

theorem extend_extend (w : Window α) (m n : Nat) : (w.extend m).extend n = w.extend (m + n) := by
  simp only [extend, Nat.add_assoc]

@[simp] theorem element_extend (w : Window α) (n i : Nat) : (w.extend n).element i = w.element i :=
  rfl

end Window

/-- The empty window at the start of a stream. -/
def Stream.window [Supply σ α] (s : Stream σ) : Window α where
  elements := s.elements
  endMarker := Source.endMarker s.source

/-- What can be asked of a buffer over a source of type `σ`. -/
inductive Request (σ : Type) {α : Type} [Supply σ α] where
  | elementAt (i : Nat)
  | buffered (i : Nat)
  | removeFront (n : Nat)
  /-- Goes on with the start of another stream. -/
  | reset (stream : Stream σ)

section Answers

variable [Supply σ α]

/-- No more is removed than there is. -/
def Request.Within (w : Window α) : Request σ → Prop
  | removeFront n => n ≤ w.size
  | _ => True

/-- The element that a request shows, and the window behind the request. -/
def Window.step (w : Window α) : Request σ → Option α × Window α
  | .elementAt i => (some (w.element i), { w with size := max w.size (i + 1) })
  | .buffered i => (if i < w.size then some (w.element i) else none, w)
  | .removeFront n => (none, { w with removed := w.removed + n, size := w.size - n })
  | .reset stream => (none, stream.window)

/-- What several requests show, one after the other. -/
def Window.answers (w : Window α) : List (Request σ) → List (Option α)
  | [] => []
  | r :: rest => (w.step r).1 :: (w.step r).2.answers rest

/-- The window behind several requests. -/
def Window.after (w : Window α) (requests : List (Request σ)) : Window α :=
  requests.foldl (fun w r => (w.step r).2) w

/-- No request removes more than there is when its turn comes. -/
def Window.Allows (w : Window α) : List (Request σ) → Prop
  | [] => True
  | r :: rest => r.Within w ∧ (w.step r).2.Allows rest

theorem Window.allows_append {w : Window α} {first second : List (Request σ)} :
    w.Allows (first ++ second) ↔ w.Allows first ∧ (w.after first).Allows second := by
  induction first generalizing w with
  | nil => exact (iff_of_eq (true_and _)).symm
  | cons r first ih =>
    show r.Within w ∧ (w.step r).2.Allows (first ++ second) ↔ _
    rw [ih, ← and_assoc]
    rfl

end Answers

/-! ### Buffers -/

/-- The order in which the elements that are missing go to the slots of the array. -/
inductive Filling where
  /-- All of them are read at once. -/
  | atOnce
  /-- Those for the slots as far as the end of the array are read first, and then those for the slots
  at its start. -/
  | byRegions

namespace Filling

variable [Source σ α]

/-- Reads the next `n` elements into the window, for which there has to be room. -/
def pull : Filling → (n : Nat) → Run (Buffer σ α) Unit
  | atOnce, n => Buffer.pull n
  | byRegions, n => do
    let b ← get
    let first := min n (b.capacity - b.ring.slot b.size)
    Buffer.pull first
    if first < n then
      Buffer.pull (n - first)

/-- The element at index `i` of the window. What is missing up to there is read first. -/
def elementAt : Filling → (i : Nat) → Run (Buffer σ α) α
  | atOnce, i => Buffer.elementAt i
  | byRegions, i => do
    let b ← get
    if b.size ≤ i then
      Buffer.grow (i + 1)
      byRegions.pull (i + 1 - b.size)
    return (← get).ring.nth i

theorem elementAt_eq (way : Filling) (i : Nat) : way.elementAt i = (do
    let b ← get
    if b.size ≤ i then
      Buffer.grow (i + 1)
      way.pull (i + 1 - b.size)
    return (← get).ring.nth i : Run (Buffer σ α) α) := by
  cases way <;> rfl

end Filling

/-- Fulfils a request, with an answer if it shows an element. -/
def Request.run [Supply σ α] (way : Filling) : Request σ → Run (Buffer σ α) (Option α)
  | elementAt i => some <$> way.elementAt i
  | buffered i => return (← get).buffered? i
  | removeFront n => do
    Buffer.removeFront n
    return none
  | reset stream => do
    modify fun b => b.reset stream.source
    return none

namespace Buffer

section Capacity

variable [Source σ α] {b : Buffer σ α}

/-- Pulling elements in leaves the capacity as it is. -/
theorem pull_capacity (n : Nat) :
    Run.Ends (fun _ b' => b'.capacity = b.capacity) (fun _ _ => True) (pull n b) := by
  generalize hr : pull n b = r
  cases pulled hr with
  | read => exact Ring.capacity_pushAll _ _
  | failed => exact trivial

/-- A capacity that has grown is within the limit. -/
theorem grow_capacity (needed : Nat) :
    Run.Ends (fun _ b' => b.capacity ≤ b'.capacity ∧ b'.limit = b.limit ∧
        b'.capacity ≤ max b.capacity b.limit)
      (fun _ _ => True) (grow needed b) := by
  generalize hr : grow needed b = r
  cases growth hr with
  | roomy => exact ⟨Nat.le_refl _, rfl, Nat.le_max_left _ _⟩
  | refused => exact trivial
  | @grown ring _ hfits _ hcapacity =>
    have hle : b.capacity ≤ doubledTo b.capacity needed := capacity_le_doubledTo b.ring.capacity_pos needed
    rw [← hcapacity] at hle hfits
    exact ⟨hle, rfl, Nat.le_trans hfits (Nat.le_max_right _ _)⟩

end Capacity

variable [Supply σ α] {l : Limits} {b : Buffer σ α} {w : Window α}

/-- The buffer holds the window: its ring has the elements of the stretch, and its source has been
read as far as the end of the stretch. -/
structure Holds (l : Limits) (b : Buffer σ α) (w : Window α) : Prop where
  grown : Grown l b
  elements : b.ring.toList = w.toList
  source : Supply.Delivers b.source (w.elements.drop (w.removed + w.size))
  endMarker : Source.endMarker b.source = w.endMarker
  /-- A source that has come to its end has nothing left. -/
  exhausted : b.exhausted = true → w.elements.length ≤ w.removed + w.size
  capacity_le : b.capacity ≤ max l.effectiveInitial l.largest

theorem holds_ofSource (s : Stream σ) (l : Limits) : Holds l (ofSource s.source l) s.window where
  grown := grown_ofSource s.source l
  elements := rfl
  source := s.delivers
  endMarker := rfl
  exhausted := nofun
  capacity_le := by
    have := l.effectiveInitial_pos
    show (Ring.empty l.effectiveInitial (Source.endMarker s.source)).capacity ≤ _
    rw [Ring.capacity_empty]
    omega

namespace Holds

theorem size_eq (h : Holds l b w) : b.size = w.size := by
  show b.ring.size = w.size
  rw [← Ring.length_toList, h.elements, Window.length_toList]

/-- **Pulling in.** The next elements of the stream join the window, however the source cuts them into
portions and wherever it ends. -/
theorem pull (h : Holds l b w) {n : Nat} (room : w.size + n ≤ b.capacity) :
    ∃ b', Buffer.pull n b = .ok () b' ∧ Holds l b' (w.extend n) ∧ b'.capacity = b.capacity := by
  have hsize : b.ring.size = w.size := h.size_eq
  -- A source that is known to have ended is not read, and has nothing left anyway.
  have hread : ∃ source, (if b.exhausted then .ok [] b.source else Source.readFully n b.source) =
        .ok ((w.elements.drop (w.removed + w.size)).take n) source ∧
      Supply.Delivers source ((w.elements.drop (w.removed + w.size)).drop n) ∧
      Source.endMarker source = w.endMarker := by
    cases hx : b.exhausted with
    | true =>
      have hnil : w.elements.drop (w.removed + w.size) = [] :=
        List.drop_eq_nil_of_le (h.exhausted hx)
      have hsource := h.source
      rw [hnil] at hsource ⊢
      exact ⟨b.source, by rw [List.take_nil]; rfl, by rw [List.drop_nil]; exact hsource, h.endMarker⟩
    | false =>
      obtain ⟨t, ht, hdelivers, hmarker⟩ := Supply.readFully_ok h.source n
      exact ⟨t, ht, hdelivers, hmarker.trans h.endMarker⟩
  obtain ⟨source, hread, hdelivers, hmarker⟩ := hread
  have hlength : ((w.elements.drop (w.removed + w.size)).take n).length =
      min n (w.elements.length - (w.removed + w.size)) := by
    rw [List.length_take, List.length_drop]
  obtain ⟨b', hb', hs, hl, hended, hgrown⟩ :=
    pull_ok h.grown (by rw [hsize]; exact room) (by rw [hlength]; exact Nat.min_le_left _ _) hread
  have hcapacity := (pull_capacity n).of_ok hb'
  refine ⟨b', hb', ⟨hgrown, ?_, ?_, ?_, ?_, ?_⟩, hcapacity⟩
  · rw [hl, hmarker, h.elements, Window.toList_extend]
  · rw [hs]
    show Supply.Delivers source (w.elements.drop (w.removed + (w.size + n)))
    rw [← Nat.add_assoc, ← List.drop_drop]
    exact hdelivers
  · rw [hs]
    exact hmarker
  · intro hx
    show w.elements.length ≤ w.removed + (w.size + n)
    rw [hended, Bool.or_eq_true, decide_eq_true_eq, hlength] at hx
    rcases hx with hx | hx
    · have := h.exhausted hx
      omega
    · omega
  · rw [hcapacity]
    exact h.capacity_le

/-- The order in which the slots are filled makes no difference. -/
theorem fill (h : Holds l b w) (way : Filling) {n : Nat} (room : w.size + n ≤ b.capacity) :
    ∃ b', way.pull n b = .ok () b' ∧ Holds l b' (w.extend n) ∧ b'.capacity = b.capacity := by
  cases way with
  | atOnce => exact h.pull room
  | byRegions =>
    show ∃ b', (do
      let b ← get
      let first := min n (b.capacity - b.ring.slot b.size)
      Buffer.pull first
      if first < n then
        Buffer.pull (n - first) : Run (Buffer σ α) Unit) b = .ok () b' ∧ _
    rw [Run.bind_apply, Run.get_apply]
    dsimp only
    have hle : min n (b.capacity - b.ring.slot b.size) ≤ n := Nat.min_le_left _ _
    generalize min n (b.capacity - b.ring.slot b.size) = first at hle ⊢
    obtain ⟨b₁, hb₁, h₁, hcapacity₁⟩ := h.pull (show w.size + first ≤ b.capacity by omega)
    rw [Run.bind_apply, hb₁]
    dsimp only
    by_cases hall : first < n
    · rw [if_pos hall]
      obtain ⟨b₂, hb₂, h₂, hcapacity₂⟩ := h₁.pull (n := n - first) (by
        rw [hcapacity₁]
        show w.size + first + (n - first) ≤ b.capacity
        omega)
      rw [Window.extend_extend, Nat.add_sub_cancel' hle] at h₂
      exact ⟨b₂, hb₂, h₂, hcapacity₂.trans hcapacity₁⟩
    · obtain rfl : first = n := by omega
      rw [if_neg hall]
      exact ⟨b₁, rfl, h₁, hcapacity₁⟩

theorem grow (h : Holds l b w) (needed : Nat) :
    Run.Ends (fun _ b' => Holds l b' w ∧ b.capacity ≤ b'.capacity ∧ needed ≤ b'.capacity)
      (fun e _ => e.Exceeded ∧ l.Exceeded needed) (Buffer.grow needed b) := by
  refine ((grow_ends h.grown needed).and (grow_capacity needed)).mono ?_ ?_
  · rintro _ b' ⟨⟨hsource, hlist, hended, hgrown, hneeded⟩, hle, -, hbound⟩
    refine ⟨⟨hgrown, hlist.trans h.elements, hsource ▸ h.source, hsource ▸ h.endMarker,
      hended ▸ h.exhausted, ?_⟩, hle, hneeded⟩
    have hcapacity := h.capacity_le
    rw [h.grown.limit] at hbound
    omega
  · rintro e b' ⟨⟨hexceeded, -, hlimits⟩, -⟩
    exact ⟨hexceeded, hlimits⟩

/-- What stands in a slot of the window is the element of the stream at that place. -/
theorem nth_eq (h : Holds l b w) {i : Nat} (hi : i < w.size) : b.ring.nth i = w.element i := by
  have hget : b.ring.toList[i]? = some (w.element i) := by
    rw [h.elements, Window.getElem?_toList w hi]
  rw [Ring.getElem?_toList, Ring.get?, if_pos (by rw [← h.size_eq] at hi; exact hi)] at hget
  exact Option.some.inj hget

theorem elementAt (h : Holds l b w) (way : Filling) (i : Nat) :
    Run.Ends
      (fun a b' => a = w.element i ∧ Holds l b' { w with size := max w.size (i + 1) } ∧
        b.capacity ≤ b'.capacity)
      (fun e _ => e.Exceeded ∧ l.Exceeded (i + 1)) (way.elementAt i b) := by
  rw [Filling.elementAt_eq, Run.bind_apply, Run.get_apply]
  dsimp only
  have hsize := h.size_eq
  by_cases hi : b.size ≤ i
  · rw [if_pos hi]
    refine Run.Ends.bind (h.grow (i + 1)) ?_ fun _ _ he => he
    rintro _ b₁ ⟨h₁, hle, hneeded⟩
    obtain ⟨b₂, hb₂, h₂, hcapacity⟩ := h₁.fill way (n := i + 1 - b.size) (by omega)
    have hwindow : w.extend (i + 1 - b.size) = { w with size := max w.size (i + 1) } := by
      unfold Window.extend
      congr 1
      omega
    rw [hwindow] at h₂
    rw [Run.bind_apply, hb₂]
    refine ⟨h₂.nth_eq ?_, h₂, by omega⟩
    show i < max w.size (i + 1)
    omega
  · rw [if_neg hi]
    have hwindow : { w with size := max w.size (i + 1) } = w := by
      obtain ⟨elements, endMarker, removed, size⟩ := w
      congr 1
      simp only at hsize ⊢
      omega
    rw [hwindow]
    exact ⟨h.nth_eq (by omega), h, Nat.le_refl _⟩

theorem removeFront (h : Holds l b w) {n : Nat} (hn : n ≤ w.size) :
    ∃ b', Buffer.removeFront n b = .ok () b' ∧
      Holds l b' { w with removed := w.removed + n, size := w.size - n } ∧
      b'.capacity = b.capacity := by
  have hsize := h.size_eq
  have hwhole : w.removed + n + (w.size - n) = w.removed + w.size := by omega
  refine ⟨{ b with ring := b.ring.dropFront n }, ?_, ⟨⟨h.grown.limit, h.grown.capacity⟩, ?_, ?_,
    h.endMarker, ?_, h.capacity_le⟩, rfl⟩
  · rw [Buffer.removeFront_apply, if_neg (by omega)]
  · show (b.ring.dropFront n).toList = (w.walk.upTo (w.removed + n + (w.size - n))).drop _
    rw [Ring.toList_dropFront, h.elements, Window.toList, List.drop_drop, hwhole]
  · show Supply.Delivers b.source (w.elements.drop (w.removed + n + (w.size - n)))
    rw [hwhole]
    exact h.source
  · show b.exhausted = true → w.elements.length ≤ w.removed + n + (w.size - n)
    rw [hwhole]
    exact h.exhausted

theorem reset (h : Holds l b w) (s : Stream σ) : Holds l (b.reset s.source) s.window where
  grown := h.grown.reset s.source
  elements := by
    show (b.ring.dropFront b.ring.size).toList = []
    rw [Ring.toList_dropFront, List.drop_eq_nil_of_le (by simp)]
  source := s.delivers
  endMarker := rfl
  exhausted := nofun
  capacity_le := h.capacity_le

/-- **One request.** The answer is what the window shows, the buffer holds the window behind the
request, and its capacity has not shrunk. -/
theorem request (h : Holds l b w) (way : Filling) {r : Request σ} (hr : r.Within w) :
    Run.Ends
      (fun a b' => a = (w.step r).1 ∧ Holds l b' (w.step r).2 ∧ b.capacity ≤ b'.capacity)
      (fun e _ => e.Exceeded ∧ ∃ i, r = .elementAt i ∧ l.Exceeded (i + 1)) (r.run way b) := by
  cases r with
  | elementAt i =>
    show Run.Ends _ _ ((some <$> way.elementAt i) b)
    rw [map_eq_pure_bind]
    refine Run.Ends.bind (h.elementAt way i) ?_ fun _ _ he => ⟨he.1, i, rfl, he.2⟩
    rintro a b' ⟨rfl, h'⟩
    exact ⟨rfl, h'⟩
  | buffered i =>
    refine ⟨?_, h, Nat.le_refl _⟩
    show b.ring.get? i = if i < w.size then some (w.element i) else none
    rw [← Ring.getElem?_toList, h.elements]
    split
    · exact Window.getElem?_toList w ‹_›
    · exact List.getElem?_eq_none (by rw [Window.length_toList]; omega)
  | removeFront n =>
    obtain ⟨b', hb', h', hcapacity⟩ := h.removeFront hr
    show Run.Ends _ _ ((Buffer.removeFront n >>= fun _ => pure none) b)
    rw [Run.bind_apply, hb']
    exact ⟨rfl, h', Nat.le_of_eq hcapacity.symm⟩
  | reset s => exact ⟨rfl, h.reset s, Nat.le_refl _⟩

/-- **Several requests.** -/
theorem requests (h : Holds l b w) (way : Filling) {requests : List (Request σ)}
    (hallows : w.Allows requests) :
    Run.Ends
      (fun answers b' => answers = w.answers requests ∧ Holds l b' (w.after requests) ∧
        b.capacity ≤ b'.capacity)
      (fun e _ => e.Exceeded ∧ ∃ i, .elementAt i ∈ requests ∧ l.Exceeded (i + 1))
      (requests.mapM (Request.run way) b) := by
  induction requests generalizing b w with
  | nil => exact ⟨rfl, h, Nat.le_refl _⟩
  | cons r rest ih =>
    rw [List.mapM_cons]
    refine Run.Ends.bind (h.request way hallows.1) ?_ ?_
    · rintro a b₁ ⟨rfl, h₁, hle₁⟩
      refine Run.Ends.bind (ih h₁ hallows.2) ?_ ?_
      · rintro answers b₂ ⟨rfl, h₂, hle₂⟩
        exact ⟨rfl, h₂, Nat.le_trans hle₁ hle₂⟩
      · rintro e b₂ ⟨hexceeded, i, hi, hlimits⟩
        exact ⟨hexceeded, i, List.mem_cons_of_mem _ hi, hlimits⟩
    · rintro e b₁ ⟨hexceeded, i, rfl, hlimits⟩
      exact ⟨hexceeded, i, List.mem_cons_self .., hlimits⟩

end Holds

end Buffer

/-! ### The result -/

section Result

variable [Supply σ α]

/-- **A buffer is a window on its stream.** Over any source that does not fail, in whatever portions it
hands its elements out, within any limits and however the slots are filled: any requests that remove no
more than there is are answered from the window, unless an index is asked for up to which there cannot
be room. The buffer then has the size of the window, and its source has been read up to the end of the
window and no further. Its capacity is a power of two, has room for the window and stays within its
bounds, and no further request makes it smaller. -/
theorem answers_eq_window (start : Stream σ) (l : Limits) (way : Filling)
    (requests further : List (Request σ)) (hallows : start.window.Allows (requests ++ further)) :
    Run.Ends
      (fun answers b =>
        let w := start.window.after requests
        answers = start.window.answers requests ∧
        b.size = w.size ∧
        Supply.Delivers b.source (w.elements.drop (w.removed + w.size)) ∧
        (∃ k, b.capacity = 2 ^ k) ∧
        b.size ≤ b.capacity ∧
        b.capacity ≤ max l.effectiveInitial l.largest ∧
        Run.Ends (fun _ b' => b.capacity ≤ b'.capacity) (fun e _ => e.Exceeded)
          (further.mapM (Request.run way) b))
      (fun e _ => e.Exceeded ∧ ∃ i, .elementAt i ∈ requests ∧ l.Exceeded (i + 1))
      (requests.mapM (Request.run way) (Buffer.ofSource start.source l)) := by
  obtain ⟨hfirst, hsecond⟩ := Window.allows_append.1 hallows
  refine ((Buffer.holds_ofSource start l).requests way hfirst).mono ?_ fun _ _ he => he
  rintro answers b ⟨hanswers, h, -⟩
  refine ⟨hanswers, h.size_eq, h.source, h.grown.exists_capacity, b.ring.size_le_capacity,
    h.capacity_le, ?_⟩
  exact (h.requests way hsecond).mono (fun _ _ ha => ha.2.2) fun _ _ he => he.1

/-- Five numbers, of which at most two are handed out at a time. -/
def fiveNumbers : Stream (Paced (Items Nat)) where
  source := { source := { rest := [1, 2, 3, 4, 5], endMarker := 0 }, pace := some 2 }
  elements := [1, 2, 3, 4, 5]
  delivers := ⟨by rintro most ⟨⟩; exact Nat.two_pos, rfl⟩

/-- Requests in the course of which the stretch goes round the end of the array, the source comes to
its end behind that, and the ring grows. -/
def roundTheEnd : List (Request (Paced (Items Nat))) :=
  [.elementAt 2, .removeFront 2, .elementAt 3, .elementAt 5, .buffered 1, .buffered 6]

theorem answers_of_roundTheEnd : fiveNumbers.window.Allows (roundTheEnd ++ [.reset fiveNumbers]) ∧
    ∀ way ∈ [Filling.atOnce, .byRegions],
      ∃ b, roundTheEnd.mapM (Request.run way) (Buffer.ofSource fiveNumbers.source ⟨4, 8⟩) =
        .ok [some 3, none, some 0, some 0, some 4, none] b ∧
      b.size = 6 ∧ b.source.source.rest = [] ∧ b.capacity ≤ 8 := by
  have hallows : fiveNumbers.window.Allows (roundTheEnd ++ [.reset fiveNumbers]) := by
    refine ⟨trivial, ?_, trivial, trivial, trivial, trivial, trivial, trivial⟩
    show 2 ≤ 3
    decide
  refine ⟨hallows, fun way hway => ?_⟩
  have h := answers_eq_window fiveNumbers ⟨4, 8⟩ way roundTheEnd [.reset fiveNumbers] hallows
  have hok : (Run.answer? (roundTheEnd.mapM (Request.run way)
      (Buffer.ofSource fiveNumbers.source ⟨4, 8⟩))).isSome = true := by
    simp only [List.mem_cons, List.not_mem_nil, or_false] at hway
    rcases hway with rfl | rfl <;> decide +kernel
  have hrun := Run.eq_ok_of_isSome hok
  obtain ⟨hanswers, hsize, hsource, -, -, hcapacity, -⟩ := h.of_ok hrun
  refine ⟨_, hrun.trans (congrArg (EStateM.Result.ok · _) (hanswers.trans rfl)), hsize, hsource.2, ?_⟩
  exact Nat.le_trans hcapacity (by decide +kernel)

end Result

end Dataflow.Reading
