import Dataflow.Proofs.Events
import Dataflow.Proofs.Retention
import Dataflow.Proofs.Troubles

/-!
# Dataflow.Proofs.Unmarked

**What becomes of looking at a token**, failures included, where no mark is outstanding. What is behind the cursor
may be dropped then, and so there is room for the token at the cursor in any window, and for the one behind it
unless the window is narrow.

* `Cursor.Sees.lookahead_held` — what is in view is looked at, and nothing is scanned for it;
* `Cursor.Sees.lookahead_next` — the token behind what is in view is the next one of the lexer;
* `Cursor.Sees.lookahead_narrow` — the second token in a narrow window is refused.
-/

namespace Dataflow

open Reading Circuit

/-! ### Room without marks -/

namespace Reading

variable {σ α : Type} [Source σ α]

namespace Buffer

variable {l : Limits} {b b₁ : Buffer σ α} {i n : Nat} {a : α} {source : σ}

theorem doubledTo_one_two : doubledTo 1 2 = 2 := by decide

/-- There is room for two elements in a window that is not narrow. -/
theorem grow_two (h : b.narrow = none) : ∃ b₁, grow 2 b = .ok () b₁ := by
  generalize hr : grow 2 b = r
  cases growth hr with
  | roomy => exact ⟨b, rfl⟩
  | grown => exact ⟨_, rfl⟩
  | refused hsmall hpast =>
    have hpos : 0 < b.capacity := b.ring.capacity_pos
    have hone : b.capacity = 1 := by omega
    rw [hone, doubledTo_one_two] at hpast
    rw [narrow_eq_some.2 ⟨hone, hpast, rfl⟩] at h
    cases h

/-- There is none in a window that is narrow. -/
theorem grow_narrow_fails {limit : Nat} (h : b.narrow = some limit) :
    grow 2 b = .error (.error (.capacityExceeded 2 limit)) b := by
  obtain ⟨hone, hlimit, rfl⟩ := narrow_eq_some.1 h
  rw [grow_apply, hone, if_pos Nat.one_lt_two, doubledTo_one_two, if_pos hlimit]

/-- Where there is room, the element behind the window is the next one of the source. -/
theorem elementAt_next (h : Grown l b) (hsize : b.ring.size = i) (hended : b.exhausted = false)
    (hgrow : grow (i + 1) b = .ok () b₁) (hread : Source.readFully 1 b.source = .ok [a] source) :
    ∃ b', elementAt i b = .ok a b' ∧ b'.source = source ∧ b'.ring.toList = b.ring.toList ++ [a] ∧
      b'.exhausted = false ∧ Grown l b' := by
  have hone : i + 1 - b.ring.size = 1 := by omega
  have hpadded : Source.padded 1 (Source.endMarker source) [a] = [a] := rfl
  have hread' : (if b.exhausted then .ok [] b.source else Source.readFully (i + 1 - b.ring.size) b.source) =
      .ok [a] source := by
    rw [hended, hone, if_neg Bool.false_ne_true]
    exact hread
  have hends := elementAt_read h (Nat.le_of_eq hsize) (by rw [hone]; exact Nat.le_refl 1) hread'
  obtain ⟨hsource₁, hlist₁, hended₁, hgrown₁, hcapacity₁⟩ := (grow_ends h (i + 1)).of_ok hgrow
  have hsize₁ : b₁.ring.size = i := (Ring.size_eq_of_toList_eq hlist₁).trans hsize
  have hread₁ : (if b₁.exhausted then .ok [] b₁.source else Source.readFully 1 b₁.source) = .ok [a] source := by
    rw [hended₁, hended, hsource₁, if_neg Bool.false_ne_true]
    exact hread
  obtain ⟨b₂, hpull, -⟩ := pull_ok hgrown₁ (by omega) (Nat.le_refl 1) hread₁
  have hanswer : elementAt i b = .ok (b₂.ring.nth i) b₂ := by
    rw [elementAt_of_le (Nat.le_of_eq hsize), Run.bind_apply, hgrow, hone]
    dsimp only
    rw [Run.bind_apply, hpull]
    rfl
  obtain ⟨ha, hsource, hlist, hended', hgrown⟩ := hends.of_ok hanswer
  rw [hone, hpadded] at ha hlist
  have hsame : b₂.ring.nth i = a := by
    rw [List.getElem?_append_right (by rw [Ring.length_toList]; omega), Ring.length_toList, hsize, Nat.sub_self] at ha
    exact (Option.some.inj ha).symm
  refine ⟨b₂, by rw [hanswer, hsame], hsource, hlist, ?_, hgrown⟩
  rw [hended', hended, hone]
  rfl

theorem elementAt_next_error {e : Failure} (h : Grown l b) (hsize : b.ring.size = i)
    (hended : b.exhausted = false) (hgrow : grow (i + 1) b = .ok () b₁)
    (hread : Source.readFully 1 b.source = .error e source) :
    ∃ b', elementAt i b = .error e b' ∧ b'.source = source ∧ b'.ring.toList = b.ring.toList ∧
      b'.exhausted = false ∧ Grown l b' := by
  have hone : i + 1 - b.ring.size = 1 := by omega
  obtain ⟨hsource₁, hlist₁, hended₁, hgrown₁, -⟩ := (grow_ends h (i + 1)).of_ok hgrow
  refine ⟨{ b₁ with source }, ?_, rfl, hlist₁, hended₁.trans hended, hgrown₁.limit, hgrown₁.capacity⟩
  rw [elementAt_of_le (Nat.le_of_eq hsize), Run.bind_apply, hgrow, hone]
  dsimp only
  rw [Run.bind_apply, pull_error (hended₁.trans hended) (by rw [hsource₁]; exact hread)]

end Buffer

namespace Cursor

variable {l : Limits} {c : Cursor σ α} {o : Outlook σ α} {k : Nat}

omit [Source σ α] in
/-- Without marks, room is made for what is in view, and whether the window is narrow stays as it is. -/
theorem makeRoom_unmarked (h : c.Shows l o) (hmarks : c.marks = []) (k : Nat) :
    ∃ c', makeRoom k c = .ok () c' ∧ c'.Shows l o ∧ c'.marks = [] ∧ c'.narrow = c.narrow ∧
      (c'.offset + k + 1 ≤ c'.buffer.capacity ∨ c'.offset = 0) := by
  obtain ⟨c', hroom, hshows⟩ := makeRoom_ok h k
  have hframed : c.Framed [] c.narrow := ⟨hmarks, rfl⟩
  obtain ⟨hmarks', hnarrow⟩ := (makeRoom_frames k c hframed).of_ok hroom
  exact ⟨c', hroom, hshows, hmarks', hnarrow, (makeRoom_roomy hmarks k).of_ok hroom⟩

end Cursor

end Reading

/-! ### The next token -/

theorem Lexer.readFully_one {σ : Type} [Source σ Char] (l : Lexer σ) :
    (Source.readFully 1 l : EStateM.Result Failure (Lexer σ) (List Token)) =
      match Lexer.next l with
      | .ok token lexer => .ok [token] lexer
      | .error e lexer => .error e lexer := by
  rw [Cursor.readFully_eq]
  unfold nexts
  rw [Run.bind_apply]
  cases next l <;> rfl

namespace Reading.Cursor

variable {σ β : Type} [Source σ Char] {c c' : Cursor (Lexer σ) Token} {v w : Sight σ} {k : Nat}

omit [Source σ Char] in
theorem Sees.marks_eq_nil (h : c.Sees v) : c.marks = [] ↔ v.marked = [] := by
  obtain ⟨limits, o, hshows, -, -, hmarked, -⟩ := h
  rw [← hmarked, ← hshows.marked, List.map_eq_nil_iff]

/-- Where looking fails, nothing but the lexer is different. -/
theorem Sees.of_agrees_failed (h : c.Sees v) (k : Nat) {x : Run (Cursor (Lexer σ) Token) Token}
    (hagrees : ∀ limits o, c.Shows limits o → o.Modest (k + 1 - o.ahead.length) →
      Agrees limits (o.passed + k + 1) o (x c) (o.look k)) :
    Run.Ends (fun _ _ => True) (fun _ c' => ∃ lexer, c'.Sees { v with lexer }) (x c) := by
  refine (h.scans_of_agrees k hagrees).mono (fun _ _ _ => trivial) ?_
  rintro e c' (⟨-, h'⟩ | ⟨n, lexer, -, h'⟩)
  · exact ⟨v.lexer, h'⟩
  · exact ⟨lexer, h'⟩

omit [Source σ Char] in
/-- A cursor has one sight before it. -/
theorem Sees.unique (h : c.Sees v) (h' : c.Sees w) : v = w := by
  obtain ⟨_, o, hshows, hsource, hahead, hmarked, -⟩ := h
  obtain ⟨_, o', hshows', hsource', hahead', hmarked', -⟩ := h'
  obtain ⟨lexer, ahead, marked⟩ := v
  obtain ⟨lexer', ahead', marked'⟩ := w
  rw [Sight.mk.injEq]
  refine ⟨?_, ?_, ?_⟩
  · exact hsource.symm.trans (hshows.source.symm.trans (hshows'.source.trans hsource'))
  · exact hahead.symm.trans (hshows.ahead.symm.trans (hshows'.ahead.trans hahead'))
  · exact hmarked.symm.trans (hshows.marked.symm.trans (hshows'.marked.trans hmarked'))

omit [Source σ Char] in
/-- A window with two tokens in it is not narrow. -/
theorem Sees.narrow_eq_none (h : c.Sees v) (htwo : 1 < v.ahead.length) : c.narrow = none := by
  obtain ⟨limits, o, hshows, -, hahead, -⟩ := h
  have hsize := hshows.size_eq
  have hle := c.buffer.ring.size_le_capacity
  rw [hahead] at hsize
  have hwide : ¬ (c.buffer.ring.capacity = 1 ∧ c.buffer.limit < 2) := by omega
  exact if_neg hwide

/-- What is in view is looked at, and nothing is scanned for it. -/
theorem Sees.lookahead_held {token : Token} (h : c.Sees v) (hk : v.ahead[k]? = some token) :
    ∃ c', Cursor.lookahead k c = .ok token c' ∧ c'.Sees v := by
  obtain ⟨limits, o, hshows, hsource, hahead, hmarked, hended⟩ := h
  obtain ⟨c', hlook, hshows'⟩ := Cursor.lookahead_held hshows (by rw [hahead]; exact hk)
  exact ⟨c', hlook, limits, o, hshows', hsource, hahead, hmarked, hended⟩

/-- What has been looked at is consumed. -/
theorem Sees.consume_of_ok {token : Token} {rest : List Token} (hlook : Cursor.lookahead 0 c = .ok token c')
    (h : c'.Sees v) (hahead : v.ahead = token :: rest) :
    ∃ c'', Cursor.consume c = .ok token c'' ∧ c''.Sees v.pass := by
  obtain ⟨limits, o, hshows, hsource, hahead', hmarked, hended⟩ := h
  obtain ⟨c'', hconsume, hshows'⟩ := Cursor.consume_of_ok hlook hshows (hahead'.trans hahead)
  exact ⟨c'', hconsume, limits, o.pass, hshows', hsource, congrArg List.tail hahead', hmarked, hended⟩

/-- **The next token.** Without marks, and where nothing less than the tokens in front of it is in view, the
token `k` ahead is the next one of the lexer, which may fail. -/
theorem Sees.lookahead_next (h : c.Sees v) (hm : v.marked = []) (hlength : v.ahead.length = k)
    (hroom : k = 0 ∨ k = 1 ∧ c.narrow = none) :
    match Lexer.next v.lexer with
    | .ok token lexer => ∃ c', Cursor.lookahead k c = .ok token c' ∧ c'.Sees (v.extend [token] lexer)
    | .error e lexer => ∃ c', Cursor.lookahead k c = .error e c' ∧ c'.Sees { v with lexer } := by
  have hmarks := h.marks_eq_nil.2 hm
  obtain ⟨limits, o, hshows, hsource, hahead, hmarked, hended⟩ := h
  obtain ⟨c₁, hmake, hshows₁, hmarks₁, hnarrow₁, hfits⟩ := makeRoom_unmarked hshows hmarks k
  have hsize₁ := hshows₁.size_eq
  rw [hahead, hlength] at hsize₁
  obtain ⟨b₁, hgrow⟩ : ∃ b₁, Buffer.grow (c₁.offset + k + 1) c₁.buffer = .ok () b₁ := by
    rcases hfits with hfits | hzero
    · exact ⟨_, Buffer.grow_of_le hfits⟩
    rw [hzero, Nat.zero_add]
    rcases hroom with rfl | ⟨rfl, hwide⟩
    · exact ⟨_, Buffer.grow_of_le c₁.buffer.ring.capacity_pos⟩
    · exact Buffer.grow_two (hnarrow₁.trans hwide)
  have hread := Lexer.readFully_one c₁.buffer.source
  rw [hshows₁.source, hsource] at hread
  have hlook : ∀ {r}, onBuffer (Buffer.elementAt (c₁.offset + k)) c₁ = r → Cursor.lookahead k c = r := by
    rintro r rfl
    unfold Cursor.lookahead
    simp only [Run.bind_apply, hmake, Run.get_apply]
  cases hnext : Lexer.next v.lexer with
  | ok token lexer =>
    rw [hnext] at hread
    obtain ⟨b', helement, hsource', hlist, hended', hgrown⟩ := Buffer.elementAt_next hshows₁.grown hsize₁
      (hshows₁.ended.trans hended) hgrow (by rw [hshows₁.source, hsource]; exact hread)
    have hpadded : Source.padded 1 (Source.endMarker lexer) [token] = [token] := rfl
    have hopen : b'.exhausted = (c₁.buffer.exhausted || decide ([token].length < 1)) := by
      rw [hended', hshows₁.ended, hended]
      rfl
    rw [← hpadded] at hlist
    refine ⟨{ c₁ with buffer := b' }, hlook (onBuffer_ok helement), limits, _,
      hshows₁.extend hsource' hlist hopen hgrown, rfl, ?_, ?_, ?_⟩
    · show o.ahead ++ _ = v.ahead ++ [token]
      rw [hahead, hpadded]
    · show o.marked.map _ = v.marked.map _
      rw [hmarked, hpadded]
    · show (o.ended || _) = false
      rw [hended]
      rfl
  | error e lexer =>
    rw [hnext] at hread
    obtain ⟨b', helement, hsource', hlist, hended', hgrown⟩ := Buffer.elementAt_next_error hshows₁.grown hsize₁
      (hshows₁.ended.trans hended) hgrow (by rw [hshows₁.source, hsource]; exact hread)
    have hopen : b'.exhausted = c₁.buffer.exhausted := hended'.trans (hshows₁.ended.trans hended).symm
    exact ⟨{ c₁ with buffer := b' }, hlook (onBuffer_error helement), limits, { o with source := lexer },
      hshows₁.unread hsource' hlist hopen hgrown, rfl, hahead, hmarked, hended⟩

/-- The second token in a narrow window is refused. -/
theorem Sees.lookahead_narrow {limit : Nat} (h : c.Sees v) (hm : v.marked = []) (hlength : v.ahead.length = 1)
    (hnarrow : c.narrow = some limit) :
    ∃ c', Cursor.lookahead 1 c = .error (.error (.capacityExceeded 2 limit)) c' ∧ c'.Sees v := by
  have hmarks := h.marks_eq_nil.2 hm
  obtain ⟨limits, o, hshows, hsource, hahead, hmarked, hended⟩ := h
  obtain ⟨c₁, hmake, hshows₁, -, hnarrow₁, hfits⟩ := makeRoom_unmarked hshows hmarks 1
  have hsize₁ := hshows₁.size_eq
  rw [hahead, hlength] at hsize₁
  have hrefuses := Buffer.grow_narrow_fails (hnarrow₁.trans hnarrow)
  obtain ⟨hone, -⟩ := Buffer.narrow_eq_some.1 (hnarrow₁.trans hnarrow)
  have hzero : c₁.offset = 0 := by omega
  have helement : Buffer.elementAt (c₁.offset + 1) c₁.buffer =
      .error (.error (.capacityExceeded 2 limit)) c₁.buffer := by
    rw [Buffer.elementAt_of_le (Nat.le_of_eq hsize₁), hzero, Run.bind_apply, hrefuses]
  refine ⟨c₁, ?_, limits, o, hshows₁, hsource, hahead, hmarked, hended⟩
  unfold Cursor.lookahead
  simp only [Run.bind_apply, hmake, Run.get_apply]
  exact onBuffer_error helement

end Reading.Cursor

end Dataflow
