import Dataflow.Proofs.Survival

/-!
# Dataflow.Proofs.Assertions

**No assertion fires.** A lexer or a parser is asked for tokens and statements, is given operators and
further sources, and goes on after errors; whatever the order of that, no rule of use is ever broken in
it: there is a mark for every commit and every rollback, no more is removed from a window than it holds,
groups begin with a bracket, and no operator lacks its operands.

* `Lexer.Request`, `Parser.Request` — what a lexer or a parser can be asked;
* `Lexer.Request.keeps`, `Parser.Request.keeps` — none of it costs them their footing, whether it
  succeeds or fails;
* `Ring.regions`, `bindChecked` — the places of an array that are written by their numbers. There is no
  invariant behind these: the numbers are in range wherever they are used;
* `no_violation` — all of that.
-/

namespace Dataflow

open Reading Circuit Session

/-! ### Indices -/

namespace Reading

/-- The slots for `n` elements behind those of a ring, as ranges of the array: as far as its end, and for
the others from its start on. -/
def Ring.regions {α : Type} (r : Ring α) (n : Nat) : List (Nat × Nat) :=
  let first := min n (r.capacity - r.slot r.size)
  [(r.slot r.size, r.slot r.size + first), (0, n - first)]

section

variable {σ α : Type} {r : Ring α} {n : Nat}

/-- The elements go into these slots. -/
theorem Ring.slot_mem_regions (h : r.size + n ≤ r.capacity) {k : Nat} (hk : k < n) :
    ∃ region ∈ r.regions n, region.1 ≤ r.slot (r.size + k) ∧ r.slot (r.size + k) < region.2 := by
  have hlt : r.slot r.size < r.capacity := r.slot_lt r.size
  have hslot : r.slot (r.size + k) =
      if r.slot r.size + k < r.capacity then r.slot r.size + k else r.slot r.size + k - r.capacity := by
    have hadd : r.slot (r.size + k) = (r.slot r.size + k) % r.capacity := by
      simp [Ring.slot, Ring.capacity, Nat.add_assoc]
    rw [hadd]
    split
    · exact Nat.mod_eq_of_lt ‹_›
    · rw [Nat.mod_eq_sub_mod (by omega), Nat.mod_eq_of_lt (by omega)]
  rw [hslot]
  by_cases hfirst : r.slot r.size + k < r.capacity
  · rw [if_pos hfirst]
    exact ⟨_, List.mem_cons_self .., Nat.le_add_right _ _, by simp only; omega⟩
  · rw [if_neg hfirst]
    exact ⟨_, List.mem_cons_of_mem _ (List.mem_cons_self ..), Nat.zero_le _, by simp only; omega⟩

/-- The array has all of these slots if there is room for the elements. -/
theorem Ring.regions_le (h : r.size + n ≤ r.capacity) : ∀ region ∈ r.regions n, region.2 ≤ r.capacity := by
  have hlt : r.slot r.size < r.capacity := r.slot_lt r.size
  intro region hregion
  simp only [Ring.regions, List.mem_cons, List.not_mem_nil, or_false] at hregion
  rcases hregion with rfl | rfl
  · simp only
    omega
  · simp only
    omega

/-- Growing a window makes the room, whatever the window is like. -/
theorem Buffer.room_of_grow [Source σ α] (b : Buffer σ α) (needed : Nat) :
    Run.Ends (fun _ t => t.size = b.size ∧ needed ≤ t.capacity) (fun _ _ => True) (grow needed b) := by
  generalize hr : grow needed b = r
  cases growth hr with
  | roomy hroom => exact ⟨rfl, hroom⟩
  | refused => exact trivial
  | grown _ _ hlist hcapacity =>
    have hroom := le_doubledTo b.ring.capacity_pos needed
    exact ⟨Ring.size_eq_of_toList_eq hlist, Nat.le_trans hroom (Nat.le_of_eq hcapacity.symm)⟩

end

end Reading

namespace Operator

/-- The registrations of a symbol as an array, in the order of `Fixity.all`. -/
def Slots.array (s : Slots) : List (Option Operator) := Fixity.all.map s.get?

/-- Every fixity has its slot. -/
theorem Slots.getElem?_array (s : Slots) (f : Fixity) : s.array[f.index]? = some (s.get? f) := by
  cases f <;> rfl

end Operator

namespace Circuit

/-- Binding a node to the pin of this number with every index checked, and going on: nothing where there
is no place of that number. -/
def checkPlace (side : Side) (entity : String) (pins : List String) (given : Nat) (value : Expr) (i : Nat)
    (bound : List (Option Expr))
    (k : List (Option Expr) → Option (Except BuildError (List (Option Expr)))) :
    Option (Except BuildError (List (Option Expr))) :=
  if pins.length ≤ i then some (.error (.pinCount entity pins.length side given))
  else
    match bound[i]?, pins[i]? with
    | some none, some _ => k (bound.set i (some value))
    | some (some _), some pin => some (.error (.pinTwice side pin entity))
    | _, _ => none

/-- The same without the checks. -/
def bindPlace (side : Side) (entity : String) (pins : List String) (given : Nat) (value : Expr) (i : Nat)
    (bound : List (Option Expr)) (k : List (Option Expr) → Except BuildError (List (Option Expr))) :
    Except BuildError (List (Option Expr)) :=
  match pins[i]? with
  | none => .error (.pinCount entity pins.length side given)
  | some pin =>
    match bindAt value i bound with
    | none => .error (.pinTwice side pin entity)
    | some bound => k bound

/-- Binding nodes to pins with every index checked. -/
def bindChecked (side : Side) (entity : String) (pins : List String) (given : Nat) :
    List Binding → Nat → List (Option Expr) → Option (Except BuildError (List (Option Expr)))
  | [], _, bound => some (.ok bound)
  | b :: rest, next, bound =>
    let target : Except BuildError (Nat × Nat) :=
      match b.label with
      | none => .ok (next, next + 1)
      | some label =>
        match pins.idxOf? label with
        | some i => .ok (i, next)
        | none => .error (.noPin entity side label)
    match target with
    | .error e => some (.error e)
    | .ok (i, next) =>
      checkPlace side entity pins given b.value i bound fun bound =>
        bindChecked side entity pins given rest next bound

theorem bindAt_of_getElem? {value : Expr} {i : Nat} {bound : List (Option Expr)} {place : Option Expr}
    (h : bound[i]? = some place) :
    bindAt value i bound = if place.isNone then some (bound.set i (some value)) else none := by
  induction bound generalizing i with
  | nil => cases h
  | cons first rest ih =>
    cases i with
    | zero =>
      obtain rfl : first = place := Option.some.inj h
      cases first <;> rfl
    | succ i =>
      have hrest : rest[i]? = some place := h
      have hbind : bindAt value (i + 1) (first :: rest) = (bindAt value i rest).map (first :: ·) := by
        simp only [bindAt]
      rw [hbind, ih hrest]
      cases place <;> rfl

theorem checkPlace_eq {side : Side} {entity : String} {pins : List String} {given : Nat} {value : Expr}
    {i : Nat} {bound : List (Option Expr)}
    {k : List (Option Expr) → Option (Except BuildError (List (Option Expr)))}
    {k' : List (Option Expr) → Except BuildError (List (Option Expr))} (hbound : bound.length = pins.length)
    (hk : ∀ bound', bound'.length = pins.length → k bound' = some (k' bound')) :
    checkPlace side entity pins given value i bound k =
      some (bindPlace side entity pins given value i bound k') := by
  unfold checkPlace bindPlace
  by_cases hi : pins.length ≤ i
  · rw [if_pos hi, List.getElem?_eq_none hi]
  · have hplace : bound[i]? = some bound[i] := List.getElem?_eq_getElem (by omega)
    rw [if_neg hi, bindAt_of_getElem? hplace, hplace, List.getElem?_eq_getElem (by omega)]
    cases bound[i] with
    | none => exact hk _ (by rw [List.length_set, hbound])
    | some held => rfl

/-- There is a place for every pin, so that no index is ever out of range. -/
theorem bindChecked_eq (side : Side) (entity : String) (pins : List String) (given : Nat)
    (bindings : List Binding) (next : Nat) {bound : List (Option Expr)} (hbound : bound.length = pins.length) :
    bindChecked side entity pins given bindings next bound =
      some (bindPinsFrom side entity pins given bindings next bound) := by
  induction bindings generalizing next bound with
  | nil => rfl
  | cons b rest ih =>
    unfold bindChecked bindPinsFrom
    cases b.label with
    | none => exact checkPlace_eq hbound fun bound' => ih (next + 1)
    | some label =>
      dsimp only
      cases pins.idxOf? label with
      | none => rfl
      | some i => exact checkPlace_eq hbound fun bound' => ih next

end Circuit

/-! ### Lexers -/

namespace Lexer

/-- What a lexer can be asked. -/
inductive Request (σ : Type) where
  /-- The next token. -/
  | next
  /-- So many tokens at once. -/
  | read (n : Nat)
  /-- To know a further operator. -/
  | register (op : Operator)
  /-- To go on with another source and other operators. -/
  | reset (source : σ) (table : Operator.Table)

variable {σ : Type} [Source σ Char]

namespace Request

/-- The lexer behind the request, also if it could not be fulfilled. -/
def perform (l : Lexer σ) : Request σ → Lexer σ
  | next => Run.leaves (Lexer.next l)
  | read n => Run.leaves (nexts n l)
  | register op => (l.register op).2
  | reset source table => l.reset source table

/-- A further source ends like every source of characters. -/
def Proper : Request σ → Prop
  | reset source _ => Source.endMarker source = endOfInput
  | _ => True

end Request

/-- The lexer behind a number of requests. -/
def performAll (requests : List (Request σ)) (l : Lexer σ) : Lexer σ := requests.foldl Request.perform l

variable {I : Nat → σ → Prop} {d : Dialect} {l : Lexer σ}

omit [Source σ Char] in
/-- The lexer has some footing. -/
def Stands (I : Nat → σ → Prop) (d : Dialect) (l : Lexer σ) : Prop := ∃ p ps, Within I d p ps [] l

/-- A request costs a lexer nothing, even if it fails. -/
theorem Request.keeps (hI : Ebbs I) (hbegins : ∀ source, Source.endMarker source = endOfInput → ∃ k, I k source)
    {r : Request σ} (hr : r.Proper) (h : Stands I d l) : Stands I d (r.perform l) := by
  obtain ⟨p, ps, hwithin⟩ := h
  cases r with
  | next =>
    have hgoes := next_goes hI p ps l hwithin
    show Stands I d (Run.leaves (Lexer.next l))
    cases hnext : Lexer.next l with
    | ok token t =>
      obtain ⟨q, -, -, hwithin'⟩ := hgoes.of_ok hnext
      exact ⟨q, ps, hwithin'⟩
    | error e t => exact (hgoes.of_error hnext).2
  | read n =>
    have hgoes := nexts_goes hI n p ps l hwithin
    show Stands I d (Run.leaves (nexts n l))
    cases hread : nexts n l with
    | ok tokens t =>
      obtain ⟨q, -, -, hwithin'⟩ := hgoes.of_ok hread
      exact ⟨q, ps, hwithin'⟩
    | error e t => exact (hgoes.of_error hread).2
  | register op => exact ⟨p, ps, hwithin.register op⟩
  | reset source table =>
    obtain ⟨k, hk⟩ := hbegins source hr
    exact ⟨_, _, hwithin.reset hk table⟩

theorem performAll_keeps (hI : Ebbs I)
    (hbegins : ∀ source, Source.endMarker source = endOfInput → ∃ k, I k source)
    {requests : List (Request σ)} (hproper : ∀ r ∈ requests, r.Proper) (h : Stands I d l) :
    Stands I d (performAll requests l) := by
  induction requests generalizing l with
  | nil => exact h
  | cons r rest ih =>
    exact ih (fun r' hr' => hproper r' (List.mem_cons_of_mem _ hr'))
      (r.keeps hI hbegins (hproper r (List.mem_cons_self ..)) h)

end Lexer

/-! ### Parsers -/

namespace Parser

/-- What a parser can be asked. -/
inductive Request (σ : Type) where
  /-- The next statement. -/
  | statement
  /-- All statements up to the end. -/
  | all
  /-- To know a further operator. -/
  | register (op : Operator)
  /-- To tell another netlist from now on. -/
  | tell (netlist : Netlist)
  /-- To go on with another source and other operators. -/
  | reset (source : σ) (table : Operator.Table)

variable {σ : Type} [Source σ Char]

namespace Request

/-- The session behind the request, also if it could not be fulfilled. -/
def perform (s : Session σ) : Request σ → Session σ
  | statement => Run.leaves (parseStatement s)
  | all => Run.leaves (parseAll s)
  | register op => s.insertOperator op
  | tell netlist => { s with netlist }
  | reset source table => s.reset source table

/-- A further source ends like every source of characters. -/
def Proper : Request σ → Prop
  | reset source _ => Source.endMarker source = endOfInput
  | _ => True

end Request

/-- The session behind a number of requests. -/
def performAll (requests : List (Request σ)) (s : Session σ) : Session σ :=
  requests.foldl Request.perform s

variable {I : Nat → σ → Prop} {d : Lexer.Dialect} {s : Session σ}

/-- What lasts leaves a session with its footing, and breaks no rule. -/
theorem firm_of_lasts {β : Type} {v : Sight σ} {Q : β → List Token → Sight σ → Prop}
    {r : EStateM.Result Failure (Session σ) β} (hI : Ebbs I) (hv : v.Secure I d) (h : Lasts I d v Q r) :
    (Run.leaves r).tokens.Firm I d ∧ ∀ e t, r = .error e t → e.Orderly d := by
  have hends := h hv
  cases r with
  | ok b t =>
    obtain ⟨tokens, w, hreaches, hw, -⟩ := hends
    refine ⟨⟨w, hw, hreaches.secure hI hv⟩, ?_⟩
    intro e' t' hr
    cases hr
  | error e t =>
    refine ⟨hends.2, ?_⟩
    intro e' t' hr
    cases hr
    exact hends.1

/-- A request costs a session nothing, even if it fails. -/
theorem Request.keeps (hI : Ebbs I) (hbegins : ∀ source, Source.endMarker source = endOfInput → ∃ k, I k source)
    {r : Request σ} (hr : r.Proper) (h : s.tokens.Firm I d) : (r.perform s).tokens.Firm I d := by
  obtain ⟨v, hv, hsecure⟩ := h
  cases r with
  | statement => exact (firm_of_lasts hI hsecure (parseStatement_survives hI hv)).1
  | all => exact (firm_of_lasts hI hsecure (parseAll_lasts hI hv)).1
  | register op =>
    obtain ⟨p, ps, hwithin⟩ := hsecure
    exact ⟨_, Cursor.Sees.register hv op, p, ps, hwithin.register op⟩
  | tell netlist => exact ⟨v, hv, hsecure⟩
  | reset source table =>
    obtain ⟨k, hk⟩ := hbegins source hr
    have hdialect : s.lexer.dialect = d := by
      obtain ⟨p, ps, hwithin⟩ := hsecure
      obtain ⟨limits, o, hshows, hsource, -⟩ := hv
      show s.tokens.buffer.source.dialect = d
      rw [hshows.source, hsource]
      exact hwithin.dialect
    refine ⟨_, Cursor.Sees.reset hv _, ⟨k, {}⟩, [], ?_⟩
    exact hdialect ▸ Lexer.within_ofSource hk d table

theorem performAll_keeps (hI : Ebbs I)
    (hbegins : ∀ source, Source.endMarker source = endOfInput → ∃ k, I k source)
    {requests : List (Request σ)} (hproper : ∀ r ∈ requests, r.Proper) (h : s.tokens.Firm I d) :
    (performAll requests s).tokens.Firm I d := by
  induction requests generalizing s with
  | nil => exact h
  | cons r rest ih =>
    exact ih (fun r' hr' => hproper r' (List.mem_cons_of_mem _ hr'))
      (r.keeps hI hbegins (hproper r (List.mem_cons_self ..)) h)

end Parser

/-! ### All of it -/

/-- The run breaks no rule of use. -/
def Run.Lawful {σ β : Type} (r : EStateM.Result Failure σ β) : Prop :=
  ∀ v t, r ≠ .error (.violation v) t

theorem Run.lawful_of_ends {σ β : Type} {r : EStateM.Result Failure σ β} {Q : β → σ → Prop}
    {E : Failure → σ → Prop} (h : Run.Ends Q E r) (hE : ∀ e t, E e t → ∀ v, e ≠ .violation v) :
    Run.Lawful r := by
  intro v t hr
  exact hE _ t (h.of_error hr) v rfl

theorem Failure.Orderly.ne_violation {d : Lexer.Dialect} {e : Failure} (h : e.Orderly d) (v : Violation) :
    e ≠ .violation v := by
  rintro rfl
  rcases h with ⟨error, h⟩ | ⟨h, -⟩ <;> cases h

/-- **No assertion fires.** Over any text and any reader of bytes, with any dialect, operators and limits,
and after whatever requests, fulfilled or not: a lexer that is asked for tokens and a parser that is asked
for statements break no rule of use. Elements are written to slots that their ring has, each fixity has
its slot, and each number of a pin is the number of a place. -/
theorem no_violation (source : Paced Feed) (d : Lexer.Dialect) (table : Operator.Table)
    (hsource : Source.endMarker source = endOfInput) :
    (∀ requests : List (Lexer.Request (Paced Feed)), (∀ r ∈ requests, r.Proper) →
      Run.Lawful (Lexer.next (Lexer.performAll requests (Lexer.ofSource source d table))) ∧
      ∀ n, Run.Lawful (Lexer.nexts n (Lexer.performAll requests (Lexer.ofSource source d table)))) ∧
    (∀ requests : List (Parser.Request (Paced Feed)), (∀ r ∈ requests, r.Proper) →
      Run.Lawful (Parser.parseStatement (Parser.performAll requests (Session.ofSource source d table))) ∧
      Run.Lawful (Parser.parseAll (Parser.performAll requests (Session.ofSource source d table))) ∧
      ∀ k, Run.Lawful
        (Cursor.lookahead k (Parser.performAll requests (Session.ofSource source d table)).tokens)) ∧
    (∀ (σ α : Type) [Source σ α] (b t : Buffer σ α) (i : Nat), b.size ≤ i →
      Buffer.grow (i + 1) b = .ok () t →
      (∀ region ∈ t.ring.regions (i + 1 - b.size), region.2 ≤ t.ring.slots.size) ∧
      ∀ k < i + 1 - b.size, ∃ region ∈ t.ring.regions (i + 1 - b.size),
        region.1 ≤ t.ring.slot (b.size + k) ∧ t.ring.slot (b.size + k) < region.2) ∧
    (∀ (slots : Operator.Slots) (f : Fixity), slots.array[f.index]? = some (slots.get? f)) ∧
    ∀ (side : Side) (entity : String) (pins : List String) (bindings : List Binding),
      bindChecked side entity pins bindings.length bindings 0 (pins.map fun _ => none) =
        some (bindPins side entity pins bindings) := by
  have hbegins : ∀ source : Paced Feed, Source.endMarker source = endOfInput → ∃ k, Remaining k source :=
    fun source h => ⟨_, h, Nat.le_refl _⟩
  refine ⟨fun requests hproper => ?_, fun requests hproper => ?_, ?_, Operator.Slots.getElem?_array, ?_⟩
  · have hstart : Lexer.Stands Remaining d (Lexer.ofSource source d table) :=
      ⟨_, _, Lexer.within_ofSource ⟨hsource, Nat.le_refl _⟩ d table⟩
    obtain ⟨p, ps, hwithin⟩ := Lexer.performAll_keeps Paced.ebbs hbegins hproper hstart
    have herror : ∀ (e : Failure) (l : Lexer (Paced Feed)), Lexer.Upset Remaining d e l →
        ∀ v, e ≠ .violation v := by
      rintro e l ⟨⟨error, rfl⟩, -⟩ v
      exact nofun
    exact ⟨Run.lawful_of_ends (Lexer.next_goes Paced.ebbs p ps _ hwithin) herror,
      fun n => Run.lawful_of_ends (Lexer.nexts_goes Paced.ebbs n p ps _ hwithin) herror⟩
  · have hstart : (Session.ofSource source d table).tokens.Firm Remaining d :=
      ⟨_, Cursor.sees_ofSource _ _, _, _, Lexer.within_ofSource ⟨hsource, Nat.le_refl _⟩ d table⟩
    have hfirm := Parser.performAll_keeps Paced.ebbs hbegins hproper hstart
    obtain ⟨v, hv, hsecure⟩ := hfirm
    refine ⟨?_, ?_, fun k => ?_⟩
    · exact Run.lawful_of_ends (Parser.parseStatement_survives Paced.ebbs hv hsecure)
        fun _ _ he => he.1.ne_violation
    · exact Run.lawful_of_ends (Parser.parseAll_lasts Paced.ebbs hv hsecure)
        fun _ _ he => he.1.ne_violation
    · refine Run.lawful_of_ends (Cursor.Firm.lookahead Paced.ebbs ⟨v, hv, hsecure⟩ k) ?_
      rintro _ _ ⟨⟨error, rfl⟩, -⟩ v
      exact nofun
  · intro σ α _ b t i hi hgrow
    obtain ⟨hsize, hroom⟩ := (Buffer.room_of_grow b (i + 1)).of_ok hgrow
    have hfits : t.ring.size + (i + 1 - b.size) ≤ t.ring.capacity := by
      show t.size + (i + 1 - b.size) ≤ t.capacity
      omega
    refine ⟨Ring.regions_le hfits, fun k hk => ?_⟩
    rw [show b.size = t.ring.size from hsize.symm] at hk hfits ⊢
    exact Ring.slot_mem_regions hfits hk
  · intro side entity pins bindings
    exact bindChecked_eq side entity pins _ bindings 0 (by rw [List.length_map])

/-- A reader fails behind a target and a separator, and a group does not end; lexer and parser go on. -/
theorem no_violation_behind_errors : ∃ (source further : Paced Feed) (op : Operator),
    Source.endMarker source = endOfInput ∧ Source.endMarker further = endOfInput ∧
    (Run.answer? (Parser.parseStatement (Session.ofSource source {} .standard))).isNone = true ∧
    (∀ r ∈ [Lexer.Request.next, .read 2, .register op, .reset further .standard], r.Proper) ∧
    Run.Lawful (Lexer.next (Lexer.performAll [.next, .read 2, .register op, .reset further .standard]
      (Lexer.ofSource source {} .standard))) ∧
    (∀ r ∈ [Parser.Request.statement, .register op, .all, .reset further .standard, .statement], r.Proper) ∧
    Run.Lawful (Parser.parseStatement
      (Parser.performAll [.statement, .register op, .all, .reset further .standard, .statement]
        (Session.ofSource source {} .standard))) := by
  have h := no_violation ⟨.reader { arrivals := [.bytes [97, 44], .failed "gone", .bytes [98, 59]] }, some 1⟩
    {} .standard rfl
  have hlexer : ∀ r ∈ [Lexer.Request.next, .read 2, .register ⟨"%", "Ring", .infixLeft, 3, none⟩,
      .reset (⟨.text (.ofText "a <- (b, c"), none⟩ : Paced Feed) .standard], r.Proper := by
    simp only [List.forall_mem_cons, List.not_mem_nil, false_imp_iff, implies_true]
    exact ⟨trivial, trivial, trivial, rfl, trivial⟩
  have hparser : ∀ r ∈ [Parser.Request.statement, .register ⟨"%", "Ring", .infixLeft, 3, none⟩, .all,
      .reset (⟨.text (.ofText "a <- (b, c"), none⟩ : Paced Feed) .standard, .statement], r.Proper := by
    simp only [List.forall_mem_cons, List.not_mem_nil, false_imp_iff, implies_true]
    exact ⟨trivial, trivial, trivial, rfl, trivial, trivial⟩
  exact ⟨_, _, _, rfl, rfl, by decide +kernel, hlexer, (h.1 _ hlexer).1, hparser, (h.2.1 _ hparser).1⟩

end Dataflow
