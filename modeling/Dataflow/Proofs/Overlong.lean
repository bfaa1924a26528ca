import Dataflow.Proofs.Consumption
import Dataflow.Proofs.Cutting
import Dataflow.Proofs.Drafts
import Dataflow.Proofs.LexerMatching
import Dataflow.Proofs.LexerMemory
import Dataflow.Proofs.Transcript

/-!
# Dataflow.Proofs.Overlong

**An exponent has to fit into the buffer.** While an exponent is tried, a mark stands in front of it, so
nothing is dropped: all of it is in the window when its end is found, behind whatever stood in the window
before (`exponent_holds`). And a window is never larger than its limit (`Cursor.Confined`). So there are
numbers that a lexer does not read, plain as they are (`stuck_of_number`), and no parser reads a statement in
which such a number comes before any name (`parseAll_fails`).

* `Cursor.Pinned` — under one mark, offsets are counted from it;
* `Lexer.Powered` — a text that begins with a number that has an exponent;
* `Lexer.oneWithZeros` — such numbers of any length, and `Parser.parseAll_oneWithZeros` for the long ones.
-/

namespace Dataflow

open Reading Text

/-! ### Windows within their limit -/

namespace Reading

variable {σ α β : Type} [Source σ α] {most : Nat}

/-- The window holds no more elements than `most`, and will not. -/
def Buffer.Confined (most : Nat) (b : Buffer σ α) : Prop := b.limit ≤ most ∧ b.capacity ≤ most

namespace Buffer

theorem grow_confined (needed : Nat) : Run.Leads (fun _ => Confined most) (Confined most)
    (fun _ => Confined most) (grow needed : Run (Buffer σ α) Unit) := by
  rintro b ⟨hlimit, hcapacity⟩
  generalize hr : grow needed b = r
  cases growth hr with
  | roomy | refused => exact ⟨hlimit, hcapacity⟩
  | grown _ hfits _ hgrown => exact ⟨hlimit, Nat.le_trans (Nat.le_of_eq hgrown) (Nat.le_trans hfits hlimit)⟩

theorem pull_confined (n : Nat) : Run.Leads (fun _ => Confined most) (Confined most)
    (fun _ => Confined most) (pull n : Run (Buffer σ α) Unit) := by
  intro b hb
  generalize hr : pull n b = r
  cases pulled hr with
  | read => exact ⟨hb.1, Nat.le_trans (Nat.le_of_eq (Ring.capacity_pushAll _ _)) hb.2⟩
  | failed => exact hb

theorem elementAt_confined (i : Nat) : Run.Leads (fun _ => Confined most) (Confined most)
    (fun _ => Confined most) (elementAt i : Run (Buffer σ α) α) := by
  have hheld (i : Nat) : Run.Leads (fun _ => Confined most) (Confined most) (fun _ => Confined most)
      (do return (← get).ring.nth i : Run (Buffer σ α) α) := .get fun _ _ => .pure _
  refine .get fun b hb => .ite ?_ (hheld i)
  exact (grow_confined _).bind fun _ => (pull_confined _).bind fun _ => hheld i

end Buffer

namespace Cursor

/-- The window of the cursor holds no more elements than `most`, and will not. -/
def Confined (most : Nat) (c : Cursor σ α) : Prop := c.buffer.Confined most

theorem confined_ofSource (source : σ) {l : Limits} (h : l.effectiveInitial ≤ l.largest) :
    (ofSource source l : Cursor σ α).Confined l.largest := by
  refine ⟨Nat.le_refl _, ?_⟩
  have hpos := l.effectiveInitial_pos
  show (Ring.empty l.effectiveInitial (Source.endMarker source)).capacity ≤ l.largest
  rw [Ring.capacity_empty]
  omega

omit [Source σ α] in
theorem onBuffer_confined {x : Run (Buffer σ α) β}
    (hx : Run.Leads (fun _ => Buffer.Confined most) (Buffer.Confined most) (fun _ => Buffer.Confined most) x) :
    Run.Leads (fun _ => Confined most) (Confined most) (fun _ => Confined most) (onBuffer x) := by
  rintro ⟨buffer, _, _, _, _⟩ h
  have hx := hx buffer h
  unfold onBuffer
  dsimp only
  generalize x buffer = r at hx
  cases r with
  | ok b buffer => exact hx
  | error e buffer => exact hx

omit [Source σ α] in
theorem dropConsumed_confined (keep : Nat) : Run.Leads (fun _ => Confined most) (Confined most)
    (fun _ => Confined most) (dropConsumed keep : Run (Cursor σ α) Unit) := by
  intro c h
  refine (dropConsumed_ends keep c).mono ?_ ?_
  · rintro _ c' ⟨ring, hcapacity, rfl⟩
    exact ⟨h.1, Nat.le_trans (Nat.le_of_eq hcapacity) h.2⟩
  · rintro e c' ⟨-, rfl⟩
    exact h

omit [Source σ α] in
theorem makeRoom_confined (k : Nat) : Run.Leads (fun _ => Confined most) (Confined most)
    (fun _ => Confined most) (makeRoom k : Run (Cursor σ α) Unit) :=
  .get fun _ _ => .ite (dropConsumed_confined _) (.pure _)

theorem lookahead_confined (k : Nat) : Run.Leads (fun _ => Confined most) (Confined most)
    (fun _ => Confined most) (lookahead k : Run (Cursor σ α) α) :=
  (makeRoom_confined k).bind fun _ => .get fun _ _ => onBuffer_confined (Buffer.elementAt_confined _)

theorem consume_confined : Run.Leads (fun _ => Confined most) (Confined most) (fun _ => Confined most)
    (consume : Run (Cursor σ α) α) := by
  refine (makeRoom_confined 0).bind fun _ => .get fun _ _ =>
    (onBuffer_confined (Buffer.elementAt_confined _)).bind fun a => ?_
  refine Run.Leads.bind (Q := fun _ => Confined most) (fun _ h => h) fun _ => .get fun _ _ => ?_
  exact .ite ((dropConsumed_confined 0).bind fun _ => .pure a) (.pure a)

omit [Source σ α] in
theorem onMarks_confined (x : Run Marks β) : Run.Leads (fun _ => Confined most) (Confined most)
    (fun _ => Confined most) (onMarks x : Run (Cursor σ α) β) := by
  rintro ⟨_, marks, _, _, _⟩ h
  unfold onMarks
  dsimp only
  cases x marks with
  | ok b marks => exact h
  | error e marks => exact h

/-! ### Under a mark -/

variable {I : σ → Prop} {B : Failure → σ → Prop} {l : Limits} {m n : Nat} {c : Cursor σ α}

/-- There is one mark, at the offset `m` of the window, and `n` elements have been consumed since it was
set. -/
structure Pinned (I : σ → Prop) (l : Limits) (m n : Nat) (c : Cursor σ α) : Prop where
  sound : c.Sound I l
  marks : c.marks = [m]
  offset : c.offset = m + n

namespace Pinned

omit [Source σ α] in
theorem marks_ne (h : c.Pinned I l m n) : c.marks ≠ [] := by simp [h.marks]

/-- An element that has been looked at is in the window. -/
theorem lookahead (hI : Feeds I B) (h : c.Pinned I l m n) :
    Run.Ends (fun _ c' => c'.Pinned I l m n ∧ c'.offset < c'.buffer.capacity) (fun _ _ => True)
      (Cursor.lookahead 0 c) := by
  refine (h.sound.lookahead hI 0).mono ?_ fun _ _ _ => trivial
  rintro a c' ⟨hsound, hstays, -, hnext⟩
  refine ⟨⟨hsound, hstays.marks.trans h.marks, (hstays.offset_eq h.marks_ne).trans h.offset⟩, ?_⟩
  refine Nat.lt_of_not_le fun hle => ?_
  have hnone : c'.next? = none :=
    if_neg (Nat.not_lt.2 (Nat.le_trans c'.buffer.ring.size_le_capacity hle))
  rw [hnext rfl] at hnone
  cases hnone

theorem consume (hI : Feeds I B) (h : c.Pinned I l m n) :
    Run.Ends (fun _ c' => c'.Pinned I l m (n + 1)) (fun _ _ => True) (Cursor.consume c) := by
  refine (h.sound.consume hI).mono ?_ fun _ _ _ => trivial
  rintro a c' ⟨hsound, hadvances, -⟩
  refine ⟨hsound, hadvances.marks.trans h.marks, ?_⟩
  rw [hadvances.offset_eq h.marks_ne, h.offset, Nat.add_assoc]

end Pinned

end Cursor

end Reading

/-! ### Exponents -/

namespace Lexer

variable {σ β : Type} [Supply σ Char] {d : Dialect} {m n most : Nat}

/-- The lexer has consumed `n` characters since a mark at the offset `m` of its window. -/
abbrev Pinned (d : Dialect) (m n : Nat) (l : Lexer σ) : Prop := l.input.Pinned Delivering d.limits m n

omit [Supply σ Char] in
theorem onInput_leads {P : Cursor σ Char → Prop} {Q : β → Cursor σ Char → Prop}
    {x : Run (Cursor σ Char) β} (hx : ∀ c, P c → Run.Ends Q (fun _ _ => True) (x c)) :
    Run.Leads (fun _ _ => True) (fun l => P l.input) (fun b l => Q b l.input) (onInput x) := by
  rintro ⟨input, _, _, _, _, _⟩ h
  have hx := hx input h
  unfold onInput
  dsimp only
  cases hr : x input with
  | ok b c => exact hx.of_ok hr
  | error e c => exact trivial

theorem peek_pinned : Run.Leads (fun _ _ => True) (Pinned d m n)
    (fun _ l => Pinned d m n l ∧ l.input.offset < l.input.buffer.capacity)
    (peek 0 : Run (Lexer σ) Char) :=
  onInput_leads (x := Cursor.lookahead 0) fun _ h => Cursor.Pinned.lookahead Supply.feeds h

theorem bump_pinned : Run.Leads (fun _ _ => True) (Pinned d m n) (fun _ => Pinned d m (n + 1))
    (bump : Run (Lexer σ) Char) := by
  refine (onInput_leads (x := Cursor.consume) fun _ h =>
    Cursor.Pinned.consume Supply.feeds h).bind fun c l h => ?_
  by_cases hc : c ≠ endOfInput
  · rw [if_pos hc]
    exact h
  · rw [if_neg hc]
    exact h

/-- What is looked at in the end is in the window, with all that has been taken. -/
theorem takeRun_pinned (inClass : Char → Bool) : Run.Leads (fun _ _ => True) (Pinned d m n)
    (fun taken l => Pinned d m (n + taken.length) l ∧ l.input.offset < l.input.buffer.capacity)
    (takeRun inClass : Run (Lexer σ) (List Char)) := by
  intro l h
  refine Run.Ends.iterate (I := fun (taken : List Char) l => Pinned d m (n + taken.length) l) ?_
    (fun _ => trivial) h
  intro taken l h
  refine (peek_pinned l h).bind (fun c l₁ h₁ => ?_) fun _ _ _ => trivial
  by_cases hc : inClass c = true
  · rw [if_pos hc]
    exact (bump_pinned l₁ h₁.1).bind (fun c l₂ h₂ => h₂) fun _ _ _ => trivial
  · rw [if_neg hc]
    refine ⟨?_, h₁.2⟩
    rw [List.length_reverse]
    exact h₁.1

/-- Giving up the mark leaves the window as it is. -/
theorem commit_pinned : Run.Leads (fun _ _ => True)
    (fun l => Pinned d m n l ∧ l.input.offset < l.input.buffer.capacity)
    (fun _ l => m + n < l.input.buffer.capacity) (commit : Run (Lexer σ) Unit) := by
  rintro l ⟨h, hoffset⟩
  unfold commit
  rw [Run.bind_apply, onInput_ok (Cursor.commit_eq h.marks)]
  rw [h.offset] at hoffset
  exact hoffset

/-- **An exponent** that is read stands in the window as a whole, behind what stood there before, and the
character behind it does too. -/
theorem exponent_holds {l : Lexer σ} (h : l.input.Sound Delivering d.limits) (hm : l.input.marks = []) :
    Run.Ends (fun power l' => power ≠ [] → l.input.offset + power.length < l'.input.buffer.capacity)
      (fun _ _ => True) (exponent l) := by
  -- What comes behind the sign, if there is any.
  have hdigits (m : Nat) (front : List Char) : Run.Leads (fun _ _ => True) (Pinned d m front.length)
      (fun power l' => power ≠ [] → m + power.length < l'.input.buffer.capacity) (do
        if (← peek 0).isDigit then
          let digits ← takeRun Char.isDigit
          commit
          return front ++ digits
        else
          rollback
          return [] : Run (Lexer σ) (List Char)) := by
    refine peek_pinned.bind fun c => .ite ?_ ?_
    · refine ((takeRun_pinned _).mono (fun _ h => h.1) fun _ _ h => h).bind fun digits =>
        commit_pinned.bind fun _ l hl _ => ?_
      rw [List.length_append]
      exact hl
    · exact Run.Leads.bind (Q := fun _ _ => True) (fun l _ => .of_true _) fun _ l _ hne => absurd rfl hne
  have hmarked : Run.Ends (fun _ => Pinned d l.input.offset 0) (fun _ _ => True) (mark l) := by
    unfold mark
    rw [Run.bind_apply, onInput_ok (Cursor.mark_eq l.input)]
    obtain ⟨o, hshows, hsource⟩ := h.view
    obtain ⟨c', hmark, hshows'⟩ := Cursor.mark_ok hshows
    rw [Cursor.mark_eq] at hmark
    cases hmark
    refine ⟨⟨h.thrifty.mark, _, hshows', hsource⟩, ?_, rfl⟩
    show l.input.offset :: l.input.marks = _
    rw [hm]
  unfold exponent
  rw [Run.bind_apply, Run.get_apply]
  refine hmarked.bind (fun _ l₁ h₁ => ?_) fun _ _ _ => trivial
  refine (bump_pinned l₁ h₁).bind (fun marker l₂ h₂ => ?_) fun _ _ _ => trivial
  refine (peek_pinned l₂ h₂).bind (fun c l₃ h₃ => ?_) fun _ _ _ => trivial
  split
  · refine ((bump_pinned l₃ h₃.1).bind (R := fun sign => Pinned d l.input.offset (marker :: sign).length)
      (fun c l₄ h₄ => ?_) fun _ _ _ => trivial).bind (fun sign l₄ h₄ => ?_) fun _ _ _ => trivial
    · exact h₄
    · exact hdigits _ (marker :: sign) l₄ h₄
  · exact hdigits _ [marker] l₃ h₃.1

/-! ### Numbers -/

variable {b : Bounds} {g : Setting} {l : Lexer σ} {p : Place}

theorem mantissa_leads (hfit : b.Fit d.limits) (numerals : Numerals) :
    Run.Leads (Blames b) (Calm d false) (fun _ => Calm d false)
      (mantissa numerals : Run (Lexer σ) (List Char × Option Char)) := by
  refine (takeRun_leads hfit _).bind fun whole => (peek_leads hfit (Nat.zero_le 1)).bind fun c => ?_
  refine .ite (((peek_leads hfit (Nat.le_refl 1)).map _).bind ?token) (?token false)
  intro fractional
  refine .ite ?_ (.pure _)
  refine (bump_keeps hfit).bind fun separator => (takeRun_leads hfit _).bind fun fraction => ?_
  exact (peek_leads hfit (Nat.zero_le 1)).bind fun c => .pure _

/-- The text begins with a number, of whose characters the last `power` are an exponent and `front` stand
before it. -/
structure Powered (n : Numerals) (text : List Char) (front power : Nat) : Prop where
  fraction : charAt (text.drop (runLength Char.isDigit text)) 0 = n.decimal ∧
    (charAt (text.drop (runLength Char.isDigit text)) 1).isDigit = true
  front_eq : front = runLength Char.isDigit text + 1 +
    runLength Char.isDigit (text.drop (runLength Char.isDigit text + 1))
  marker : n.isExponentMarker (charAt (text.drop front) 0) = true
  power_eq : power = exponentLength n (text.drop front)
  power_pos : power ≠ 0

theorem runLength_replicate {inClass : Char → Bool} {c : Char} (hc : inClass c = true) (n : Nat)
    {rest : List Char} (hrest : inClass (charAt rest 0) = false) :
    runLength inClass (List.replicate n c ++ rest) = n := by
  induction n with
  | zero => exact runLength_of_charAt hrest
  | succ n ih =>
    unfold runLength at ih ⊢
    rw [List.replicate_succ, List.cons_append, List.takeWhile_cons_of_pos hc, List.length_cons, ih]

/-- A text without the end marker is supplied as it is. -/
theorem admitted_text {text : List Char} (h : endOfInput ∉ text) : text.map admitted = text :=
  (List.map_congr_left fun _ hc => admitted_of_ne (ne_of_mem_of_not_mem hc h)).trans (List.map_id text)

theorem delivers_ofList {text : List Char} (h : endOfInput ∉ text) :
    Supply.Delivers (Items.ofText (String.ofList text)) text := by
  show (String.ofList text).toList.map admitted = text
  rw [String.toList_ofList, admitted_text h]

/-- One, with so many zeros in its exponent. -/
def oneWithZeros (n : Nat) : List Char := '1' :: '.' :: '0' :: 'e' :: List.replicate n '0'

theorem endOfInput_not_mem_oneWithZeros (n : Nat) : endOfInput ∉ oneWithZeros n := by
  have hfront : endOfInput ∉ ['1', '.', '0', 'e'] := by decide
  intro hend
  rcases List.mem_append.1 (show endOfInput ∈ ['1', '.', '0', 'e'] ++ List.replicate n '0' from hend) with h | h
  · exact hfront h
  · exact absurd (List.eq_of_mem_replicate h) (by decide)

theorem powered_oneWithZeros {n : Nat} (hn : n ≠ 0) {rest : List Char}
    (hrest : (charAt rest 0).isDigit = false) : Powered {} (oneWithZeros n ++ rest) 3 (1 + n) where
  fraction := ⟨rfl, rfl⟩
  front_eq := rfl
  marker := by
    show ({} : Numerals).isExponentMarker 'e' = true
    decide +kernel
  power_eq := by
    obtain ⟨n, rfl⟩ := Nat.exists_eq_succ_of_ne_zero hn
    have hdigits : runLength Char.isDigit (List.replicate (n + 1) '0' ++ rest) = n + 1 :=
      runLength_replicate rfl (n + 1) hrest
    have hsign : signLength {} ('e' :: (List.replicate (n + 1) '0' ++ rest)) = 0 := rfl
    show _ = exponentLength {} ('e' :: (List.replicate (n + 1) '0' ++ rest))
    unfold exponentLength
    rw [hsign]
    show _ = if runLength Char.isDigit (List.replicate (n + 1) '0' ++ rest) = 0 then 0 else
      1 + 0 + runLength Char.isDigit (List.replicate (n + 1) '0' ++ rest)
    rw [hdigits, if_neg (Nat.succ_ne_zero n)]
  power_pos := by omega

/-- A number with an exponent is scanned as a whole. -/
theorem Powered.numberLexeme_eq {n : Numerals} {text : List Char} {front power : Nat}
    (h : Powered n text front power) :
    numberLexeme n text = .plain .real text (front + power) := by
  have hlength := fractionLength_eq rfl h.fraction
  rw [List.drop_drop, List.drop_drop, ← Nat.add_assoc, ← h.front_eq, if_pos h.marker, ← h.power_eq] at hlength
  rw [Lexer.numberLexeme_eq, hlength, if_neg (by omega), h.front_eq, ← Nat.add_assoc, ← Nat.add_assoc]

theorem lexeme_oneWithZeros {n : Nat} (hn : n ≠ 0) (t : Operator.Table) :
    lexeme {} t (oneWithZeros n) = .ok (.plain .real (oneWithZeros n) (oneWithZeros n).length) := by
  have hpowered : Powered {} (oneWithZeros n ++ []) 3 (1 + n) := powered_oneWithZeros hn rfl
  rw [List.append_nil] at hpowered
  have hlength : (oneWithZeros n).length = 3 + (1 + n) := by
    simp only [oneWithZeros, List.length_cons, List.length_replicate]
    omega
  have hquote : ¬ charAt (oneWithZeros n) 0 = ({} : Dialect).quote := by
    show ¬ '1' = '\x22'
    decide
  have hdigit : (charAt (oneWithZeros n) 0).isDigit = true := rfl
  rw [(Rule.number hquote hdigit).eq, hpowered.numberLexeme_eq, hlength]

theorem scansAs_oneWithZeros {n : Nat} (hn : n ≠ 0) :
    ScansAs (· = .real) (String.ofList (oneWithZeros n)) := by
  have hskips : Dialect.skips {} (charAt (oneWithZeros n) 0) = false := by
    show Dialect.skips {} '1' = false
    decide +kernel
  have hnext : (Place.mk (String.ofList (oneWithZeros n)).toList {}).next {} {} =
      (Place.mk (oneWithZeros n) {}).outcome
        (.ok (.plain .real (oneWithZeros n) (oneWithZeros n).length)) := by
    rw [String.toList_ofList, Place.next_of_not_skips hskips, lexeme_oneWithZeros hn]
  refine ⟨_, _, hnext, ?_, rfl⟩
  show String.ofList ((oneWithZeros n).take _) = _
  rw [List.take_length]

variable {front power : Nat}

/-- Where the exponent of a number is tried, and what the window holds behind it. -/
theorem number_holds (hfit : b.Fit g.dialect.limits) (h : Reads g l p []) (hcalm : Calm g.dialect false l)
    (hnumber : Powered g.dialect.numerals p.text front power) :
    Run.Ends (fun _ l' => ∃ found l₁, mantissa g.dialect.numerals l = .ok found l₁ ∧
        l₁.input.offset + power < l'.input.buffer.capacity)
      (fun _ _ => True) (number l) := by
  rw [number_eq, Run.bind_apply, Run.get_apply]
  dsimp only
  rw [Run.bind_apply, Run.get_apply]
  dsimp only
  rw [h.dialect, Run.bind_apply]
  have hreads := mantissa_reads h rfl rfl hnumber.fraction
  have hleads := mantissa_leads hfit g.dialect.numerals l hcalm
  cases hm : mantissa g.dialect.numerals l with
  | error e l₁ => exact trivial
  | ok found l₁ =>
    obtain ⟨rfl, h₁⟩ := Run.Ends.of_ok hreads hm
    have hcalm₁ := hleads.of_ok hm
    rw [← hnumber.front_eq] at h₁ ⊢
    have hpower := (exponent_reads h₁ hnumber.marker).and (exponent_holds hcalm₁.input hcalm₁.marks)
    rw [Place.text_skip, ← hnumber.power_eq] at hpower
    dsimp only [numberFrom]
    rw [if_pos hnumber.marker]
    refine hpower.bind ?_ fun _ _ _ => trivial
    rintro taken l₂ ⟨⟨rfl, h₂⟩, hholds⟩
    refine ⟨_, l₁, rfl, ?_⟩
    have hlength : ((p.text.drop front).take power).length = power := by
      rw [List.length_take, hnumber.power_eq]
      exact Nat.min_eq_left (exponentLength_le _ _)
    have hne : (p.text.drop front).take power ≠ [] :=
      List.ne_nil_of_length_pos (by rw [hlength]; exact Nat.pos_of_ne_zero hnumber.power_pos)
    have := hholds hne
    rwa [hlength] at this

/-- The lexer stands at a place, without marks, and its window is no larger than `most`. -/
structure Poised (g : Setting) (most : Nat) (p : Place) (l : Lexer σ) : Prop where
  reads : Reads g l p []
  calm : Calm g.dialect false l
  confined : l.input.Confined most

omit [Supply σ Char] in
/-- What every operation on the cursor keeps, the lexer keeps. -/
theorem respected_confined [Source σ Char] (d : Dialect) :
    Respected (σ := σ) (.both (Has d (Cursor.Confined most))) fun _ => Run.Both (Has d (Cursor.Confined most)) :=
  respected_has Cursor.lookahead_confined Cursor.consume_confined
    ((Run.Leads.get fun _ _ => Cursor.onMarks_confined _)) (Cursor.onMarks_confined _)
    ((Cursor.onMarks_confined _).bind fun _ _ h => h)

theorem poised_ofSource {source : σ} {text : List Char} {t : Operator.Table}
    (hfirst : d.limits.effectiveInitial ≤ d.limits.largest) (hsource : Supply.Delivers source text)
    (hmarker : Source.endMarker source = endOfInput) (hne : ∀ c ∈ text, c ≠ endOfInput) :
    Poised ⟨text.length, d, t⟩ d.limits.largest ⟨text, {}⟩ (Lexer.ofSource source d t) where
  reads := reads_ofSource hsource hmarker hne
  calm := calm_ofSource ⟨_, hsource⟩ d t false
  confined := Cursor.confined_ofSource source hfirst

namespace Poised

theorem peek (hfit : b.Fit g.dialect.limits) (h : Poised g most p l) :
    Run.Ends (fun c l' => c = charAt p.text 0 ∧ Poised g most p l') (fun _ _ => True) (Lexer.peek 0 l) := by
  have hreads := peek_reads h.reads (Nat.zero_le _)
  have hleads := peek_leads hfit (Nat.zero_le 1) l h.calm
  have hkept := ((respected_confined g.dialect).peek 0 0).keeps l ⟨h.reads.dialect, h.confined⟩
  cases hr : Lexer.peek 0 l with
  | error e l' => exact trivial
  | ok c l' =>
    obtain ⟨rfl, hreads'⟩ := Run.Ends.of_ok hreads hr
    exact ⟨rfl, hreads', hleads.of_ok hr, (hkept.of_ok hr).2⟩

theorem bump (hfit : b.Fit g.dialect.limits) (h : Poised g most p l) (hp : p.text ≠ []) :
    Run.Ends (fun _ => Poised g most (p.skip 1)) (fun _ _ => True) (Lexer.bump l) := by
  have hreads := bump_reads h.reads fun _ => hp
  have hleads := bump_keeps hfit l h.calm
  have hkept := ((respected_confined g.dialect).bump 0).keeps l ⟨h.reads.dialect, h.confined⟩
  cases hr : Lexer.bump l with
  | error e l' => exact trivial
  | ok c l' =>
    obtain ⟨-, hreads'⟩ := Run.Ends.of_ok hreads hr
    exact ⟨hreads', hleads.of_ok hr, (hkept.of_ok hr).2⟩

theorem next (hfit : b.Fit g.dialect.limits) (h : Poised g most p l) {q : Place} {token : Token}
    (hnext : p.next g.dialect g.table = .ok (token, q)) :
    Run.Ends (fun token' l' => token' = token ∧ Poised g most q l') (fun _ _ => True) (Lexer.next l) := by
  have hreads := next_reads h.reads
  have hleads := next_leads hfit l h.calm
  have hkept := (next_kept (respected_confined g.dialect)).keeps l ⟨h.reads.dialect, h.confined⟩
  cases hr : Lexer.next l with
  | error e l' => exact trivial
  | ok token' l' =>
    obtain ⟨q', hq, hreads'⟩ := Run.Ends.of_ok hreads hr
    cases hnext.symm.trans hq
    exact ⟨rfl, hreads', hleads.of_ok hr, (hkept.of_ok hr).2⟩

/-- Behind the tokens that stand before a place. -/
theorem nexts (hfit : b.Fit g.dialect.limits) {q : Place} {tokens : List Token} (hscans : Scans g p tokens q)
    (h : Poised g most p l) :
    Run.Ends (fun tokens' l' => tokens' = tokens ∧ Poised g most q l') (fun _ _ => True)
      (Lexer.nexts tokens.length l) := by
  induction hscans generalizing l with
  | nil p => exact ⟨rfl, h⟩
  | cons first _ ih =>
    refine (h.next hfit first).bind (fun token l₁ h₁ => ?_) fun _ _ _ => trivial
    obtain ⟨rfl, h₁⟩ := h₁
    refine (ih h₁).bind (fun tokens l₂ h₂ => ?_) fun _ _ _ => trivial
    exact ⟨congrArg _ h₂.1, h₂.2⟩

end Poised

/-- **A number** that is read has an exponent for which there has been room. -/
theorem scanRound_holds (hfit : b.Fit g.dialect.limits) (h : Poised g most p l)
    (hdigit : (charAt p.text 0).isDigit = true) (hblank : g.dialect.isBlank (charAt p.text 0) = false)
    (hquote : charAt p.text 0 ≠ g.dialect.quote) (hnumber : Powered g.dialect.numerals p.text front power) :
    Run.Ends (fun _ l' => ∃ c l₁ found l₂, peek 0 l = .ok c l₁ ∧
        mantissa g.dialect.numerals l₁ = .ok found l₂ ∧ l₂.input.offset + power < l'.input.buffer.capacity)
      (fun _ _ => True) (scanRound () l) := by
  have hpeek := h.peek hfit
  unfold scanRound
  rw [Run.bind_apply]
  cases hr : peek 0 l with
  | error e l₁ => exact trivial
  | ok c l₁ =>
    obtain ⟨rfl, h₁⟩ := hpeek.of_ok hr
    dsimp only
    rw [Run.bind_apply, Run.get_apply]
    dsimp only
    rw [Run.bind_apply, Run.get_apply]
    dsimp only
    rw [h₁.reads.dialect, if_neg (by simp [hblank]), if_neg hquote, if_pos hdigit]
    refine (number_holds hfit h₁.reads h₁.calm hnumber).bind ?_ fun _ _ _ => trivial
    rintro token l₃ ⟨found, l₂, hm, hroom⟩
    exact ⟨_, l₁, found, l₂, rfl, hm, hroom⟩

/-- However many rounds there may be, there is no token. -/
def Stuck (l : Lexer σ) : Prop := ∀ rounds, ∃ e l', Run.iterateFor scanRound rounds () l = .error e l'

theorem Stuck.next (h : Stuck l) : ∃ e l', Lexer.next l = .error e l' := by
  obtain ⟨e, l', hfails⟩ := h (l.remaining + 1)
  have hscan : scan l = .error e l' := hfails
  exact ⟨e, l', by rw [Lexer.next, Run.bind_apply, hscan]⟩

/-- **A number that does not fit.** Where the exponent and what stands behind it in the window fill it,
there is no token. -/
theorem stuck_of_number (hfit : b.Fit g.dialect.limits) (h : Poised g most p l)
    (hdigit : (charAt p.text 0).isDigit = true) (hblank : g.dialect.isBlank (charAt p.text 0) = false)
    (hquote : charAt p.text 0 ≠ g.dialect.quote) (hnumber : Powered g.dialect.numerals p.text front power)
    (hfull : ∀ c l₁ found l₂, peek 0 l = .ok c l₁ → mantissa g.dialect.numerals l₁ = .ok found l₂ →
      most ≤ l₂.input.offset + power) : Stuck l := by
  intro rounds
  cases rounds with
  | zero => exact ⟨_, _, rfl⟩
  | succ rounds =>
    have hends := scanRound_holds hfit h hdigit hblank hquote hnumber
    have hkept := (scanRound_kept (respected_confined g.dialect) ()).keeps l ⟨h.reads.dialect, h.confined⟩
    rw [Run.iterateFor_succ]
    cases hround : scanRound () l with
    | error e l' => exact ⟨e, l', rfl⟩
    | ok round l' =>
      obtain ⟨c, l₁, found, l₂, hpeek, hmantissa, hroom⟩ := hends.of_ok hround
      have hmost := (hkept.of_ok hround).2.2
      have hless := hfull c l₁ found l₂ hpeek hmantissa
      exact absurd (Nat.lt_of_lt_of_le hroom hmost) (Nat.not_lt.2 hless)

/-- Blanks in front are of no help. -/
theorem stuck_of_blank {c : Char} {rest : List Char} (hfit : b.Fit g.dialect.limits) (h : Poised g most p l)
    (hp : p.text = c :: rest) (hblank : g.dialect.isBlank c = true) (hline : c ≠ '\n')
    (hbehind : ∀ c l₁ c' l₂, peek 0 l = .ok c l₁ → bump l₁ = .ok c' l₂ → Poised g most (p.skip 1) l₂ →
      Stuck l₂) : Stuck l := by
  intro rounds
  cases rounds with
  | zero => exact ⟨_, _, rfl⟩
  | succ rounds =>
    have hpeek := h.peek hfit
    rw [hp, charAt_cons_zero] at hpeek
    rw [Run.iterateFor, Run.bind_apply, scanRound, Run.bind_apply]
    cases hr : peek 0 l with
    | error e l₁ => exact ⟨e, l₁, rfl⟩
    | ok c' l₁ =>
      obtain ⟨rfl, h₁⟩ := hpeek.of_ok hr
      have hbump := h₁.bump hfit (hp ▸ List.cons_ne_nil _ _)
      dsimp only
      rw [Run.bind_apply, Run.get_apply]
      dsimp only
      rw [Run.bind_apply, Run.get_apply]
      dsimp only
      rw [h₁.reads.dialect, if_pos ⟨hline, hblank⟩, Run.bind_apply]
      cases hr' : bump l₁ with
      | error e l₂ => exact ⟨e, l₂, rfl⟩
      | ok c' l₂ => exact hbehind _ l₁ c' l₂ hr hr' (hbump.of_ok hr') rounds

/-- One, with too many zeros in its exponent for what stands before it in the window. -/
theorem stuck_of_oneWithZeros {total : Nat} {t : Operator.Table} {rest : List Char}
    (h : Poised ⟨total, {}, t⟩ 1048576 p l) (hp : p.text = oneWithZeros n ++ rest)
    (hrest : (charAt rest 0).isDigit = false) (hn : n ≠ 0)
    (hfull : ∀ c l₁ found l₂, peek 0 l = .ok c l₁ → mantissa {} l₁ = .ok found l₂ →
      1048576 ≤ l₂.input.offset + (1 + n)) : Stuck l := by
  have hfit : Bounds.Fit ⟨0, 0, 2⟩ ({} : Dialect).limits := ⟨by decide, by decide⟩
  have hone : charAt p.text 0 = '1' := by rw [hp]; rfl
  have hnumber : Powered {} p.text 3 (1 + n) := hp ▸ powered_oneWithZeros hn hrest
  refine stuck_of_number hfit h ?_ ?_ ?_ hnumber hfull
  · rw [hone]
    rfl
  · rw [hone]
    show Dialect.isBlank {} '1' = false
    decide +kernel
  · rw [hone]
    show '1' ≠ '\x22'
    decide

end Lexer

/-! ### Sessions -/

namespace Sight.Becomes

variable {σ : Type} [Source σ Char] {v w : Sight σ} {es : List Event} {tokens : List Token} {l l' : Lexer σ}
  {e : Failure}

/-- As long as no operator is registered, what is scanned is what the lexer hands out, up to where it
fails. -/
theorem scanned_begins (h : v.Becomes es w) (hquiet : registeredIn es = [])
    (hnexts : Lexer.nexts tokens.length v.lexer = .ok tokens l) (hfails : Lexer.next l = .error e l') :
    scannedIn es <+: tokens := by
  induction h generalizing tokens with
  | refl v => exact ⟨tokens, rfl⟩
  | step hstep _ ih =>
    cases hstep with
    | take hahead => exact ih hquiet hnexts
    | register => cases hquiet
    | @scan token lexer hnext =>
      cases tokens with
      | nil =>
        cases hnexts
        cases hfails.symm.trans hnext
      | cons first tokens =>
        simp only [List.length_cons, Lexer.nexts, Run.bind_apply, hnext] at hnexts
        cases hrest : Lexer.nexts tokens.length lexer with
        | error e l => simp [hrest] at hnexts
        | ok rest l₁ =>
          simp only [hrest, Run.pure_apply] at hnexts
          cases hnexts
          exact List.cons_prefix_cons.2 ⟨rfl, ih hquiet hrest⟩

end Sight.Becomes

namespace Parser

open Lexer

section Failing

variable {σ : Type} [Source σ Char] {s : Session σ} {v w : Sight σ} {es : List Event} {tokens : List Token}
  {l l' : Lexer σ} {e : Failure}

omit [Source σ Char] in
theorem exists_first_registered (h : registeredIn es ≠ []) :
    ∃ before op behind, es = before ++ .registered op :: behind ∧ registeredIn before = [] := by
  induction es with
  | nil => exact absurd rfl h
  | cons event es ih =>
    cases event with
    | registered op => exact ⟨[], op, es, rfl, rfl⟩
    | scanned token =>
      obtain ⟨before, op, behind, rfl, hquiet⟩ := ih h
      exact ⟨.scanned token :: before, op, behind, rfl, hquiet⟩
    | taken token =>
      obtain ⟨before, op, behind, rfl, hquiet⟩ := ih h
      exact ⟨.taken token :: before, op, behind, rfl, hquiet⟩

/-- A definition names its notation. -/
theorem exists_identifier {e : Circuit.Entity} (h : Grammar.Definition tokens e) :
    ∃ token ∈ tokens, token.kind = .identifier := by
  cases h with
  | mk _ _ _ hform => exact ⟨_, by simp, hform⟩

/-- Where no identifier is scanned before the lexer fails, no operator is registered. -/
theorem Prompt.registeredIn_eq (h : Prompt [] es) (hes : v.Becomes es w)
    (hnexts : Lexer.nexts tokens.length v.lexer = .ok tokens l) (hfails : Lexer.next l = .error e l')
    (hkinds : ∀ token ∈ tokens, token.kind ≠ .identifier) : registeredIn es = [] := by
  refine Decidable.byContradiction fun hne => ?_
  obtain ⟨before, op, behind, hsplit, hquiet⟩ := exists_first_registered hne
  obtain ⟨⟨token, hscanned⟩, front, definition, e, htaken, hdefinition, -⟩ := h before op behind hsplit
  rw [hsplit] at hes
  obtain ⟨u, hbefore, -⟩ := hes.split
  obtain ⟨form, hform, hidentifier⟩ := exists_identifier hdefinition
  refine hkinds form ?_ hidentifier
  have hbegins := hbefore.scanned_begins hquiet hnexts hfails
  rw [List.nil_append] at hscanned
  rw [hscanned, htaken] at hbegins
  exact hbegins.subset (by simp [hform])

/-- **No statement is read** where the lexer fails before one can have come to its end. -/
theorem parseStatement_fails (h : s.Sees v) (hahead : v.ahead = [])
    (hnexts : Lexer.nexts tokens.length v.lexer = .ok tokens l) (hfails : Lexer.next l = .error e l')
    (hkinds : ∀ token ∈ tokens, token.kind ≠ .executor ∧ token.kind ≠ .endOfFile ∧ token.kind ≠ .identifier) :
    ∃ f t, parseStatement s = .error f t := by
  cases hparse : parseStatement s with
  | error f t => exact ⟨f, t, rfl⟩
  | ok reply t =>
    obtain ⟨es, w, hes, -, hconsumes⟩ := (parseStatement_logs h).of_ok hparse
    have hprompt : Prompt [] es ∧ ∃ last ∈ takenIn es ++ w.ahead,
        last.kind = .executor ∨ last.kind = .endOfFile := by
      cases reply with
      | none =>
        obtain ⟨-, ⟨last, rest, hrest, hlast⟩, hshort⟩ := hconsumes
        exact ⟨hahead ▸ (hshort (by simp [hahead])).1, last, by simp [hrest], .inr hlast⟩
      | some statement =>
        obtain ⟨leading, sentence, ending, htaken, -, -, hcloses, hshort⟩ := hconsumes
        refine ⟨hahead ▸ (hshort (by simp [hahead])).1, ?_⟩
        rcases hcloses with ⟨executor, rfl, hexecutor⟩ | ⟨-, last, rest, hrest, hlast⟩
        · exact ⟨executor, by simp [htaken], .inl hexecutor⟩
        · exact ⟨last, by simp [hrest], .inr hlast⟩
    obtain ⟨hprompt, last, hmem, hlast⟩ := hprompt
    have hquiet := hprompt.registeredIn_eq hes hnexts hfails fun token htoken => (hkinds token htoken).2.2
    have hbegins := hes.scanned_begins hquiet hnexts hfails
    have hahead' := hes.ahead
    rw [hahead, List.nil_append] at hahead'
    rw [hahead'] at hbegins
    have hkind := hkinds last (hbegins.subset hmem)
    exact (hlast.elim hkind.1 hkind.2.1).elim

theorem parseAll_fails (h : s.Sees v) (hahead : v.ahead = [])
    (hnexts : Lexer.nexts tokens.length v.lexer = .ok tokens l) (hfails : Lexer.next l = .error e l')
    (hkinds : ∀ token ∈ tokens, token.kind ≠ .executor ∧ token.kind ≠ .endOfFile ∧ token.kind ≠ .identifier) :
    ∃ f t, parseAll s = .error f t := by
  obtain ⟨f, t, hparse⟩ := parseStatement_fails h hahead hnexts hfails hkinds
  refine ⟨f, t, ?_⟩
  rw [parseAll_eq]
  unfold Run.iterate
  rw [Run.iterateFor_succ, allRound_error hparse]

end Failing

/-! ### A text that does not fit -/

variable {σ : Type} [Supply σ Char]

/-- **A number that is too long** for the largest window is not read, whatever stands behind it. -/
theorem parseAll_oneWithZeros {n : Nat} (hn : 1048576 ≤ n) {rest : List Char} {source : σ}
    (hsource : Supply.Delivers source (oneWithZeros n ++ rest))
    (hmarker : Source.endMarker source = endOfInput) (hne : endOfInput ∉ rest)
    (hrest : (charAt rest 0).isDigit = false) (t : Operator.Table) :
    ∃ e s, parseAll (Session.ofSource source {} t) = .error e s := by
  have htext : ∀ c ∈ oneWithZeros n ++ rest, c ≠ endOfInput := by
    intro c hc hend
    rcases List.mem_append.1 hc with hc | hc
    · exact endOfInput_not_mem_oneWithZeros n (hend ▸ hc)
    · exact hne (hend ▸ hc)
  have hpoised := poised_ofSource (d := {}) (t := t) (by decide) hsource hmarker htext
  obtain ⟨e, l, hfails⟩ := (stuck_of_oneWithZeros hpoised rfl hrest (by omega) fun _ _ _ _ _ _ => by omega).next
  have hnexts : nexts ([] : List Token).length (Lexer.ofSource source {} t) =
      .ok [] (Lexer.ofSource source {} t) := rfl
  exact parseAll_fails (Cursor.sees_ofSource _ _) rfl hnexts hfails nofun

end Parser

end Dataflow
