import Dataflow.Proofs.Sparing

/-!
# Dataflow.Proofs.Ledger

**Where a cursor is, and where its marks are, in the stream.** A cursor counts from the front of its
window. When elements behind it are dropped, it renumbers itself and its marks. A ledger is kept
beside it that knows of no window: it has the elements that have been consumed and not been gone back
over, and for each mark what they were when it was set.

* `Ledger` — the record, and what the replies to requests do to it. Nothing is written down for a
  request that fails;
* `Cursor.Proceeds` — the step: the cursor has gone over some elements, and what is left behind it of
  all that was behind it is shorter at the front only. Requests that read go over the elements that
  they answer with, and over none if they fail;
* `Cursor.Accounts` — the invariant: the window, from its front to the cursor, is the end of what is
  written down as consumed, and a mark is as far from the front of the window as what was consumed
  when it was set goes past it;
* `Cursor.places_kept` — the result, over any source and for any requests, whether or not they were
  fulfilled.
-/

namespace Dataflow.Reading

/-! ### Ledgers -/

/-- What has been consumed, and how often that has been taken back. -/
structure Ledger (α : Type) where
  /-- The elements consumed since the start, without those that have been gone back over. -/
  consumed : List α := []
  /-- What was consumed when each outstanding mark was set, innermost first. -/
  saved : List (List α) := []
  /-- The elements that have been gone back over. -/
  undone : List α := []

namespace Ledger

variable {α σ κ : Type}

/-- Elements are consumed. -/
def take (elements : List α) (ledger : Ledger α) : Ledger α :=
  { ledger with consumed := ledger.consumed ++ elements }

/-- A mark is set. -/
def mark (ledger : Ledger α) : Ledger α :=
  { ledger with saved := ledger.consumed :: ledger.saved }

/-- The innermost mark is given up. -/
def commit (ledger : Ledger α) : Ledger α :=
  { ledger with saved := ledger.saved.tail }

/-- What has been consumed since the innermost mark is taken back. -/
def rollback (ledger : Ledger α) : Ledger α :=
  match ledger.saved with
  | [] => ledger
  | before :: saved =>
    { consumed := before, saved, undone := ledger.undone ++ ledger.consumed.drop before.length }

@[simp] theorem take_nil (ledger : Ledger α) : ledger.take [] = ledger := by
  simp [take]

/-- What a request comes to that has been fulfilled with such a reply. -/
def note (ledger : Ledger α) : Cursor.Request σ κ → Cursor.Reply α → Ledger α
  | .consume, .element a | .expect _, .element a | .accept _, .found (some a) => ledger.take [a]
  | .mark, _ => ledger.mark
  | .commit, _ => ledger.commit
  | .rollback, _ => ledger.rollback
  | .reset _, _ => {}
  | _, _ => ledger

end Ledger

namespace Cursor

variable {σ α κ : Type} {c c' c'' : Cursor σ α} {elements more : List α} {ledger : Ledger α}

/-- What stands in the window behind the cursor. -/
def behind (c : Cursor σ α) : List α := c.buffer.ring.toList.take c.offset

theorem length_behind (h : c.offset ≤ c.buffer.ring.size) : c.behind.length = c.offset := by
  rw [behind, List.length_take, Ring.length_toList]
  exact Nat.min_eq_left h

/-! ### The step -/

/-- The cursor has gone over the elements, and may have dropped what was farthest behind it. -/
def Proceeds (elements : List α) (c c' : Cursor σ α) : Prop :=
  ∃ dropped, c.offset + elements.length = dropped + c'.offset ∧
    c.marks = c'.marks.map (dropped + ·) ∧ c'.behind = (c.behind ++ elements).drop dropped

theorem Remains.proceeds (h : Remains c c') (within : c.offset ≤ c.buffer.ring.size) :
    Proceeds [] c c' := by
  obtain ⟨dropped, hoffset, hmarks, rest, hrest⟩ := h
  refine ⟨dropped, hoffset, hmarks, ?_⟩
  have hfits : c'.offset ≤ (c.buffer.ring.toList.drop dropped).length := by
    rw [List.length_drop, Ring.length_toList]
    omega
  have hleft : c.offset - dropped = c'.offset := by omega
  rw [behind, behind, ← hrest, List.take_append_of_le_length hfits, List.append_nil, List.drop_take,
    hleft]

theorem Proceeds.trans (h : Proceeds elements c c') (h' : Proceeds more c' c'')
    (within : c.offset ≤ c.buffer.ring.size) : Proceeds (elements ++ more) c c'' := by
  obtain ⟨first, hoffset, hmarks, hbehind⟩ := h
  obtain ⟨second, hoffset', hmarks', hbehind'⟩ := h'
  refine ⟨first + second, ?_, shifted_trans hmarks hmarks', ?_⟩
  · rw [List.length_append]
    omega
  · have hfits : first ≤ (c.behind ++ elements).length := by
      rw [List.length_append, length_behind within]
      omega
    have hdrop : (c.behind ++ elements ++ more).drop first =
        (c.behind ++ elements).drop first ++ more := List.drop_append_of_le_length hfits
    rw [hbehind', hbehind, ← List.append_assoc, ← List.drop_drop, hdrop]

variable [Source σ α] {l : Limits}

/-- A source can be asked for elements in any state. -/
theorem readFully_anywhere (n : Nat) : Run.Leads (fun _ _ => True) (fun _ => True)
    (fun _ _ => True) (Source.readFully n : Run σ (List α)) := fun _ _ => .of_true _

/-- The cursor is in order, whatever its source is. -/
abbrev InOrder (l : Limits) (c : Cursor σ α) : Prop := c.Orderly (fun _ => True) l

theorem lookahead_proceeds (h : c.InOrder l) (k : Nat) :
    Run.Ends (fun _ c' => c'.InOrder l ∧ Proceeds [] c c') (fun _ c' => c'.InOrder l ∧ Proceeds [] c c')
      (lookahead k c) :=
  (lookahead_spec readFully_anywhere h k).mono (fun _ _ ha => ⟨ha.1, ha.2.1.proceeds h.within⟩)
    fun _ _ he => ⟨he.1, he.2.1.1.remains.proceeds h.within⟩

omit [Source σ α] in
/-- Going over an element leaves it behind the cursor, unless everything is dropped there. -/
theorem pass_proceeds (h : c.InOrder l) (hread : c.offset < c.buffer.ring.size) {a : α}
    (ha : a = c.buffer.ring.nth c.offset) :
    ∃ c', pass a c = .ok a c' ∧ c'.InOrder l ∧ Proceeds [a] c c' := by
  obtain ⟨c', hpass, h', -⟩ := pass_spec h hread a
  refine ⟨c', hpass, h', ?_⟩
  rw [pass_eq hread] at hpass
  by_cases hdrop : c.marks.isEmpty ∧ c.compactAfter < c.consumed + 1
  · -- Without marks nothing is kept, also not the element itself.
    rw [if_pos hdrop] at hpass
    cases hpass
    refine ⟨c.offset + 1, rfl, ?_, ?_⟩
    · show c.marks = c.marks.map _
      rw [List.isEmpty_iff.1 hdrop.1]
      rfl
    · have hall : (c.behind ++ [a]).length ≤ c.offset + 1 := by
        rw [List.length_append, length_behind h.within]
        exact Nat.le_refl _
      rw [List.drop_eq_nil_of_le hall]
      rfl
  · rw [if_neg hdrop] at hpass
    cases hpass
    refine ⟨0, (Nat.zero_add _).symm, by simp, ?_⟩
    have hnext : c.buffer.ring.toList[c.offset]? = some a := by
      rw [Ring.getElem?_toList, Ring.get?, if_pos hread, ha]
    show c.buffer.ring.toList.take (c.offset + 1) = _
    rw [List.take_add_one, hnext]
    rfl

/-- What is consumed has been gone over. -/
theorem consume_proceeds (h : c.InOrder l) :
    Run.Ends (fun a c' => c'.InOrder l ∧ Proceeds [a] c c')
      (fun _ c' => c'.InOrder l ∧ Proceeds [] c c') (consume c) := by
  rw [consume_eq]
  refine (lookahead_spec readFully_anywhere h 0).bind ?_
    fun _ _ he => ⟨he.1, he.2.1.1.remains.proceeds h.within⟩
  rintro a c₁ ⟨h₁, hremains, hadmits, -⟩
  obtain ⟨c', hpass, h', hproceeds⟩ := pass_proceeds h₁ hadmits.read hadmits.element
  rw [hpass]
  exact ⟨h', (hremains.proceeds h.within).trans hproceeds h.within⟩

section Kinds

variable [Element α κ] [DecidableEq κ]

/-- What is accepted has been gone over. -/
theorem accept_proceeds (h : c.InOrder l) (kind : κ) :
    Run.Ends (fun found c' => c'.InOrder l ∧ Proceeds found.toList c c')
      (fun _ c' => c'.InOrder l ∧ Proceeds [] c c') (accept kind c) := by
  unfold accept peek
  refine (lookahead_proceeds h 0).bind ?_ fun _ _ he => he
  rintro a c₁ ⟨h₁, hproceeds⟩
  by_cases hkind : Element.kind a = kind
  · rw [if_pos hkind]
    exact (consume_proceeds h₁).bind (fun b c₂ h₂ => ⟨h₂.1, hproceeds.trans h₂.2 h.within⟩)
      fun e c₂ h₂ => ⟨h₂.1, hproceeds.trans h₂.2 h.within⟩
  · rw [if_neg hkind]
    exact ⟨h₁, hproceeds⟩

theorem context_proceeds (h : c.InOrder l) :
    ∃ text c', (context : Run (Cursor σ α) String) c = .ok text c' ∧ c'.InOrder l ∧
      Proceeds [] c c' := by
  obtain ⟨text, c', hcontext, h', hremains⟩ := context_spec readFully_anywhere h
  exact ⟨text, c', hcontext, h', hremains.proceeds h.within⟩

theorem compose_proceeds (h : c.InOrder l) (make : String → Option Text.Span → String → Error) :
    ∃ e c', (compose make : Run (Cursor σ α) Error) c = .ok e c' ∧ c'.InOrder l ∧
      Proceeds [] c c' := by
  obtain ⟨e, c', hcompose, h', hremains⟩ := compose_spec readFully_anywhere h make
  exact ⟨e, c', hcompose, h', hremains.proceeds h.within⟩

theorem expect_proceeds (h : c.InOrder l) (kind : κ) :
    Run.Ends (fun a c' => c'.InOrder l ∧ Proceeds [a] c c')
      (fun _ c' => c'.InOrder l ∧ Proceeds [] c c') (expect kind c) := by
  unfold expect
  refine (accept_proceeds h kind).bind ?_ fun _ _ he => he
  rintro found c₁ ⟨h₁, hproceeds⟩
  cases found with
  | some a => exact ⟨h₁, hproceeds⟩
  | none =>
    obtain ⟨e, c₂, hcompose, h₂, hproceeds₂⟩ := compose_proceeds h₁
      fun found span context => .mismatch (Element.kindName α kind) found context span
    rw [← mismatch_eq] at hcompose
    dsimp only
    rw [Run.bind_apply, hcompose]
    exact ⟨h₂, hproceeds.trans hproceeds₂ h.within⟩

end Kinds

/-! ### The invariant -/

/-- The ledger tells where the cursor and its marks are. -/
structure Accounts (ledger : Ledger α) (dropped : Nat) (c : Cursor σ α) : Prop where
  /-- So many elements are behind the cursor, of which some have been dropped. -/
  length_consumed : ledger.consumed.length = dropped + c.offset
  behind : c.behind = ledger.consumed.drop dropped
  /-- A mark is behind the same elements as when it was set. -/
  saved : ledger.saved = c.marks.map fun m => ledger.consumed.take (dropped + m)

section Steps

omit [Source σ α]

variable {dropped : Nat}

theorem accounts_of_start (h : c.offset = 0) (hmarks : c.marks = []) : Accounts {} 0 c where
  length_consumed := by rw [h]; rfl
  behind := by rw [behind, h]; rfl
  saved := by rw [hmarks]; rfl

/-- Marks behind the cursor do not see what is consumed. -/
theorem Accounts.proceeds (h : Accounts ledger dropped c) (hle : ∀ m ∈ c.marks, m ≤ c.offset)
    (hproceeds : Proceeds elements c c') :
    ∃ dropped', Accounts (ledger.take elements) dropped' c' := by
  obtain ⟨more, hoffset, hmarks, hbehind⟩ := hproceeds
  have hlength := h.length_consumed
  refine ⟨dropped + more, ?_, ?_, ?_⟩
  · show (ledger.consumed ++ elements).length = _
    rw [List.length_append]
    omega
  · show _ = (ledger.consumed ++ elements).drop _
    have hdrop : (ledger.consumed ++ elements).drop dropped =
        ledger.consumed.drop dropped ++ elements := List.drop_append_of_le_length (by omega)
    rw [hbehind, h.behind, ← List.drop_drop, hdrop]
  · show ledger.saved = c'.marks.map fun m => (ledger.consumed ++ elements).take _
    rw [h.saved, hmarks, List.map_map]
    -- In the old numbering the mark was behind the cursor, so what was consumed then is not longer.
    refine List.map_congr_left fun m hm => ?_
    have hm' : more + m ≤ c.offset := hle _ (hmarks ▸ List.mem_map_of_mem hm)
    show ledger.consumed.take (dropped + (more + m)) = _
    rw [← Nat.add_assoc, List.take_append_of_le_length (by omega)]

theorem Accounts.mark (h : Accounts ledger dropped c) :
    Accounts ledger.mark dropped { c with marks := c.offset :: c.marks } where
  length_consumed := h.length_consumed
  behind := h.behind
  saved := by
    show ledger.consumed :: ledger.saved =
      (c.offset :: c.marks).map fun m => ledger.consumed.take (dropped + m)
    rw [List.map_cons, ← h.length_consumed, List.take_length, h.saved]

theorem Accounts.commit (h : Accounts ledger dropped c) {m : Nat} {outer : List Nat}
    (hm : c.marks = m :: outer) : Accounts ledger.commit dropped { c with marks := outer } where
  length_consumed := h.length_consumed
  behind := h.behind
  saved := by
    show ledger.saved.tail = _
    rw [h.saved, hm]
    rfl

/-- Behind an inner mark, what was consumed at an outer one is still there. -/
theorem Accounts.rollback (h : Accounts ledger dropped c) {m : Nat} {outer : List Nat}
    (hm : c.marks = m :: outer)
    (hmarks : (c.offset :: c.marks).Pairwise fun inner outer => outer ≤ inner) :
    Accounts ledger.rollback dropped { c with offset := m, marks := outer } := by
  rw [hm] at hmarks
  obtain ⟨hoffset, hinner⟩ := List.pairwise_cons.1 hmarks
  have hle : m ≤ c.offset := hoffset m (List.mem_cons_self ..)
  have hlength := h.length_consumed
  have hsaved := h.saved
  rw [hm, List.map_cons] at hsaved
  have hledger : ledger.rollback = { ledger.rollback with
      consumed := ledger.consumed.take (dropped + m)
      saved := outer.map fun m => ledger.consumed.take (dropped + m) } := by
    rw [Ledger.rollback, hsaved]
  rw [hledger]
  refine ⟨?_, ?_, ?_⟩
  · show (ledger.consumed.take (dropped + m)).length = dropped + m
    rw [List.length_take]
    omega
  · show c.buffer.ring.toList.take m = (ledger.consumed.take (dropped + m)).drop dropped
    rw [List.drop_take, Nat.add_sub_cancel_left, ← h.behind, Cursor.behind, List.take_take,
      Nat.min_eq_left hle]
  · show _ = outer.map fun m' => (ledger.consumed.take (dropped + m)).take (dropped + m')
    refine List.map_congr_left fun m' hm' => ?_
    have hless : m' ≤ m := (List.pairwise_cons.1 hinner).1 m' hm'
    rw [List.take_take, Nat.min_eq_left (by omega)]

end Steps

/-- A cursor in order, and a ledger that accounts for it. -/
structure Recorded (l : Limits) (ledger : Ledger α) (c : Cursor σ α) : Prop where
  inOrder : c.InOrder l
  accounts : ∃ dropped, Accounts ledger dropped c

omit [Source σ α] in
theorem Recorded.proceeds (h : c.Recorded l ledger) (h' : c'.InOrder l)
    (hproceeds : Proceeds elements c c') : c'.Recorded l (ledger.take elements) := by
  obtain ⟨dropped, haccounts⟩ := h.accounts
  exact ⟨h', haccounts.proceeds (List.pairwise_cons.1 h.inOrder.thrifty.marks_le).1 hproceeds⟩

omit [Source σ α] in
/-- A cursor that has stayed where it was is where the ledger says. -/
theorem Recorded.stays (h : c.Recorded l ledger) (h' : c'.InOrder l) (hproceeds : Proceeds [] c c') :
    c'.Recorded l ledger := by
  simpa using h.proceeds h' hproceeds

omit [Source σ α] in
/-- What was consumed when a mark was set is still the beginning of what is consumed. -/
theorem Recorded.prefix_of_saved (h : c.Recorded l ledger) {before : List α}
    (hbefore : before ∈ ledger.saved) : before <+: ledger.consumed := by
  obtain ⟨dropped, haccounts⟩ := h.accounts
  rw [haccounts.saved] at hbefore
  obtain ⟨m, -, rfl⟩ := List.mem_map.1 hbefore
  exact List.take_prefix _ _

theorem recorded_ofSource (source : σ) (l : Limits) :
    Recorded l {} (ofSource source l : Cursor σ α) :=
  ⟨orderly_ofSource trivial l, 0, accounts_of_start rfl rfl⟩

omit [Source σ α] in
theorem mark_recorded (h : c.Recorded l ledger) :
    Run.Ends (fun _ => Recorded l ledger.mark) (fun _ => Recorded l ledger) (mark c) := by
  obtain ⟨dropped, haccounts⟩ := h.accounts
  exact ⟨mark_orderly c h.inOrder, dropped, haccounts.mark⟩

omit [Source σ α] in
theorem commit_recorded (h : c.Recorded l ledger) :
    Run.Ends (fun _ => Recorded l ledger.commit) (fun _ => Recorded l ledger) (commit c) := by
  obtain ⟨dropped, haccounts⟩ := h.accounts
  cases hm : c.marks with
  | nil =>
    rw [commit_nil hm]
    exact h
  | cons m outer =>
    have horderly := commit_orderly c h.inOrder
    rw [commit_eq hm] at horderly ⊢
    exact ⟨horderly, dropped, haccounts.commit hm⟩

omit [Source σ α] in
theorem rollback_recorded (h : c.Recorded l ledger) :
    Run.Ends (fun _ => Recorded l ledger.rollback) (fun _ => Recorded l ledger) (rollback c) := by
  obtain ⟨dropped, haccounts⟩ := h.accounts
  cases hm : c.marks with
  | nil =>
    rw [rollback_nil hm]
    exact h
  | cons m outer =>
    have horderly := rollback_orderly c h.inOrder
    rw [rollback_eq hm] at horderly ⊢
    exact ⟨horderly, dropped, haccounts.rollback hm h.inOrder.thrifty.marks_le⟩

/-! ### Requests -/

section Requests

variable [Element α κ] [DecidableEq κ]

/-- **The step.** The ledger accounts for the cursor behind every request, fulfilled or not. -/
theorem Request.recorded (r : Request σ κ) (h : c.Recorded l ledger) :
    Run.Ends (fun reply => Recorded l (ledger.note r reply)) (fun _ => Recorded l ledger)
      (r.perform c) := by
  cases r with
  | lookahead k =>
    refine Run.Ends.map ?_
    exact (lookahead_proceeds h.inOrder k).mono (fun _ _ ha => h.stays ha.1 ha.2)
      fun _ _ he => h.stays he.1 he.2
  | consume =>
    refine Run.Ends.map ?_
    exact (consume_proceeds h.inOrder).mono (fun _ _ ha => h.proceeds ha.1 ha.2)
      fun _ _ he => h.stays he.1 he.2
  | accept kind =>
    refine Run.Ends.map ?_
    refine (accept_proceeds h.inOrder kind).mono (fun found _ ha => ?_)
      fun _ _ he => h.stays he.1 he.2
    cases found with
    | none => exact h.stays ha.1 ha.2
    | some a => exact h.proceeds ha.1 ha.2
  | expect kind =>
    refine Run.Ends.map ?_
    exact (expect_proceeds h.inOrder kind).mono (fun _ _ ha => h.proceeds ha.1 ha.2)
      fun _ _ he => h.stays he.1 he.2
  | mark =>
    refine Run.Ends.map ?_
    exact mark_recorded h
  | commit =>
    refine Run.Ends.map ?_
    exact commit_recorded h
  | rollback =>
    refine Run.Ends.map ?_
    exact rollback_recorded h
  | context =>
    obtain ⟨text, c', hcontext, h', hproceeds⟩ := context_proceeds h.inOrder
    refine Run.Ends.map ?_
    rw [hcontext]
    exact h.stays h' hproceeds
  | mismatch expected =>
    refine Run.Ends.map ?_
    rw [mismatch_eq]
    obtain ⟨e, c', hcompose, h', hproceeds⟩ := compose_proceeds h.inOrder _
    rw [hcompose]
    exact h.stays h' hproceeds
  | unexpectedOperand =>
    refine Run.Ends.map ?_
    rw [unexpectedOperand_eq]
    obtain ⟨e, c', hcompose, h', hproceeds⟩ := compose_proceeds h.inOrder _
    rw [hcompose]
    exact h.stays h' hproceeds
  | change f =>
    have horderly := Request.orderly (l := l) readFully_anywhere (r := .change f)
      (fun _ _ => trivial) c h.inOrder
    obtain ⟨dropped, haccounts⟩ := h.accounts
    exact ⟨horderly, dropped, haccounts.length_consumed, haccounts.behind, haccounts.saved⟩
  | reset source =>
    exact ⟨⟨h.inOrder.thrifty.reset source, Nat.zero_le _, trivial⟩, 0, accounts_of_start rfl rfl⟩

/-- The ledger behind a number of requests. -/
def record (ledger : Ledger α) : List (Request σ κ) → Cursor σ α → Ledger α
  | [], _ => ledger
  | r :: rest, c =>
    let result := r.perform c
    record (match result with
      | .ok reply _ => ledger.note r reply
      | .error _ _ => ledger) rest (Run.leaves result)

/-- **The run.** -/
theorem performAll_recorded (requests : List (Request σ κ)) (h : c.Recorded l ledger) :
    (performAll requests c).Recorded l (record ledger requests c) := by
  induction requests generalizing c ledger with
  | nil => exact h
  | cons r rest ih =>
    have hstep := r.recorded h
    show (performAll rest (Run.leaves (r.perform c))).Recorded l (record _ rest _)
    cases hr : r.perform c with
    | ok reply c' => exact ih (hstep.of_ok hr)
    | error e c' => exact ih (hstep.of_error hr)

/-! ### The result -/

omit [Source σ α] in
/-- Where no drop is due, not much is behind the cursor. -/
theorem Thrifty.retained_le (h : c.Thrifty l) (hsettled : c.Settled) :
    c.retained ≤ 4 * l.effectiveInitial + contextRadius := by
  have hoffset := h.offset_le
  have hcompact := h.compactAfter
  unfold Settled at hsettled
  unfold retained
  omega

/-- **Where a cursor is, and where its marks are.** Over any source, behind any requests, whether or not
they were fulfilled, the marks are behind the cursor, each behind those set later, and the cursor is not
behind what is in the window. It has no more behind it than it has consumed since the last drop and a few
elements, and so few of them where something has just been consumed without marks. Every mark stands for
the place in the stream where it was set: in front of it is what had been consumed by then. -/
theorem places_kept (source : σ) (l : Limits) (requests : List (Request σ κ)) :
    let start : Cursor σ α := ofSource source l
    let c := performAll requests start
    let ledger := record {} requests start
    c.marks.reverse.Pairwise (· ≤ ·) ∧ (∀ m ∈ c.marks, m ≤ c.offset) ∧
    c.offset ≤ c.buffer.size ∧ c.offset ≤ c.consumed + contextRadius ∧
    (∀ a c', consume c = .ok a c' → c'.marks = [] →
      c'.retained ≤ 4 * l.effectiveInitial + contextRadius) ∧
    (∀ kind a c', accept kind c = .ok (some a) c' → c'.marks = [] →
      c'.retained ≤ 4 * l.effectiveInitial + contextRadius) ∧
    (∀ kind a c', expect kind c = .ok a c' → c'.marks = [] →
      c'.retained ≤ 4 * l.effectiveInitial + contextRadius) ∧
    ∃ dropped, ledger.consumed.length = dropped + c.offset ∧
      c.buffer.ring.toList.take c.offset = ledger.consumed.drop dropped ∧
      c.marks.map (dropped + ·) = ledger.saved.map List.length ∧
      ledger.saved = c.marks.map fun m => ledger.consumed.take (dropped + m) := by
  intro start c ledger
  obtain ⟨horderly, dropped, haccounts⟩ : c.Recorded l ledger :=
    performAll_recorded requests (recorded_ofSource source l)
  obtain ⟨hle, hmarks⟩ := List.pairwise_cons.1 horderly.thrifty.marks_le
  have hsettled : ∀ {c'}, Advances l c c' → c'.marks = [] →
      c'.retained ≤ 4 * l.effectiveInitial + contextRadius := fun h hnil =>
    h.thrifty.retained_le (h.settled (h.marks.symm.trans hnil))
  refine ⟨List.pairwise_reverse.2 hmarks, hle, horderly.within, horderly.thrifty.offset_le,
    fun a c' h => ?_, fun kind a c' h => ?_, fun kind a c' h => ?_,
    dropped, haccounts.length_consumed, haccounts.behind, ?_, haccounts.saved⟩
  · exact hsettled ((consume_ends horderly.thrifty).of_ok h)
  · rcases (accept_ends horderly.thrifty kind).of_ok h with ⟨hnone, -⟩ | ⟨-, hadvances⟩
    · cases hnone
    · exact hsettled hadvances
  · exact hsettled ((expect_ends horderly.thrifty kind).of_ok h)
  · rw [haccounts.saved, List.map_map]
    refine List.map_congr_left fun m hm => ?_
    have hlength := haccounts.length_consumed
    have hbehind := hle m hm
    show _ = (ledger.consumed.take (dropped + m)).length
    rw [List.length_take]
    omega

end Requests

end Cursor

end Dataflow.Reading
