import Dataflow.Parser.Session
import Dataflow.Proofs.LexerMatching
import Dataflow.Proofs.Outlook
import Dataflow.Proofs.Retention
import Dataflow.Reading.ByteReader

/-!
# Dataflow.Proofs.Troubles

**Whose trouble it is.** Where tokens cannot be had, the error is one of the source, of a buffer or of the
lexer (`Error.ofReading`); what a parser and a netlist report is something else. Tokens are only looked at
and taken between two marks, and whether that fails or not, the marks stay as they are.

* `Run.Troubled` — a computation that fails with nothing but such errors;
* `Source.Troubled` — a supply that reads like that: texts, readers of bytes and lexers do;
* `Buffer.narrow` — whether a window is for ever too small for two elements. No access changes that;
* `Cursor.Framed` — a computation on a cursor that leaves its marks and its room alone.
-/

namespace Dataflow

open Reading Text

/-- The error of a source, a buffer or a lexer. -/
def Error.ofReading : Error → Bool
  | .capacityExceeded .. | .unexpectedCharacter .. | .unterminatedLiteral _ | .input _ => true
  | .mismatch .. | .unexpectedOperand .. | .build _ => false

/-- If the failure is an error, it is one of reading. -/
def Failure.OfReading (e : Failure) : Prop := ∀ error, e = .error error → error.ofReading = true

theorem Failure.ofReading_error {e : Error} (h : e.ofReading = true) : (Failure.error e).OfReading := by
  intro error herror
  cases herror
  exact h

theorem Failure.ofReading_violation (v : Violation) : (Failure.violation v).OfReading := nofun

theorem Failure.ofReading_stalled : Failure.stalled.OfReading := nofun

namespace Run

variable {σ α β : Type}

/-- A computation that fails with no errors but those of reading. -/
abbrev Troubled (x : Run σ α) : Prop :=
  Leads (fun e _ => e.OfReading) (fun _ => True) (fun _ _ => True) x

theorem Troubled.of_ok {x : Run σ α} (hx : ∀ s, ∃ a t, x s = .ok a t) : Troubled x := by
  intro s _
  obtain ⟨a, t, h⟩ := hx s
  rw [h]
  exact trivial

end Run

/-! ### Sources -/

namespace Reading

variable {σ α κ β : Type}

/-- Reading from the source fails with no errors but those of reading. -/
def Source.Troubled (σ : Type) {α : Type} [Source σ α] : Prop :=
  ∀ n, Run.Troubled (Source.read n : Run σ (List α))

theorem Source.Troubled.readPortions [Source σ α] (h : Source.Troubled σ) (portions wanted : Nat) :
    Run.Troubled (Source.readPortions portions wanted : Run σ (List α)) := by
  induction portions generalizing wanted with
  | zero => exact .pure []
  | succ portions ih =>
    unfold Source.readPortions
    refine .ite (.pure []) ((h wanted).bind fun portion => .ite (.pure []) ?_)
    exact (ih _).bind fun rest => .pure _

theorem ByteReader.request_troubled (arrivals : List Arrival) :
    Run.Ends (fun _ _ => True) (fun e _ => e.OfReading) (request arrivals) := by
  induction arrivals with
  | nil => exact trivial
  | cons a rest ih =>
    cases a with
    | interrupted => exact ih
    | failed message => exact Failure.ofReading_error rfl
    | bytes portion => cases portion <;> exact trivial

theorem ByteReader.nextByte_troubled : Run.Troubled nextByte := by
  rintro ⟨held, arrivals, ended⟩ -
  cases held with
  | nil => exact request_troubled arrivals
  | cons b held => exact trivial

theorem ByteReader.fail_troubled (cause : InputError) :
    Run.Troubled (Run.fail (.input cause) : Run ByteReader β) :=
  fun _ _ => Failure.ofReading_error rfl

theorem ByteReader.continuation_troubled (n : Nat) : Run.Troubled (continuation n) := by
  induction n with
  | zero => exact .pure []
  | succ n ih =>
    refine nextByte_troubled.bind fun found => ?_
    cases found with
    | none => exact fail_troubled _
    | some b => exact ih.bind fun bytes => .pure _

theorem ByteReader.nextChar_troubled : Run.Troubled nextChar := by
  refine nextByte_troubled.bind fun found => ?_
  cases found with
  | none => exact .pure none
  | some lead =>
    dsimp only
    cases Utf8.width? lead with
    | none => exact fail_troubled _
    | some width =>
      refine (continuation_troubled _).bind fun bytes => ?_
      cases Utf8.decode lead bytes with
      | error e => exact fail_troubled _
      | ok c => exact .pure _

theorem ByteReader.troubled : Source.Troubled ByteReader := by
  intro n
  show Run.Troubled (readChars n)
  induction n with
  | zero => exact .pure []
  | succ n ih =>
    unfold readChars
    refine .get fun r _ => .ite (.pure []) (nextChar_troubled.bind fun found => ?_)
    cases found with
    | none => exact Run.Troubled.of_ok fun r => ⟨_, _, rfl⟩
    | some c => exact ih.bind fun cs => .pure _

theorem Feed.troubled : Source.Troubled Feed := by
  intro n s _
  cases s with
  | text items => exact trivial
  | reader bytes =>
    have hbytes := ByteReader.troubled n bytes trivial
    show Run.Ends _ _ (read n (.reader bytes))
    unfold read
    dsimp only
    cases hr : (Source.read n : Run ByteReader (List Char)) bytes with
    | ok cs t => exact trivial
    | error e t => exact hbytes.of_error hr

theorem Paced.troubled [Source σ α] (h : Source.Troubled σ) : Source.Troubled (Paced σ) := by
  rintro n ⟨source, pace⟩ -
  have hsource := h (portion pace n) source trivial
  show Run.Ends _ _ (onSource (Source.read (portion pace n)) ⟨source, pace⟩)
  unfold onSource
  dsimp only
  cases hr : (Source.read (portion pace n) : Run σ (List α)) source with
  | ok cs t => exact trivial
  | error e t => exact hsource.of_error hr

/-! ### Buffers -/

namespace Buffer

/-- The limit of a window that has room for one element and will never have more. -/
def narrow (b : Buffer σ α) : Option Nat :=
  if b.capacity = 1 ∧ b.limit < 2 then some b.limit else none

theorem narrow_eq_some {b : Buffer σ α} {limit : Nat} :
    b.narrow = some limit ↔ b.capacity = 1 ∧ b.limit < 2 ∧ b.limit = limit := by
  unfold narrow
  split
  · next h => simp [h]
  · next h =>
    simp only [reduceCtorEq, false_iff]
    exact fun h' => h ⟨h'.1, h'.2.1⟩

/-- Whether a window is narrow depends on its capacity and limit only. -/
theorem narrow_congr {b b' : Buffer σ α} (hcapacity : b'.capacity = b.capacity) (hlimit : b'.limit = b.limit) :
    b'.narrow = b.narrow := by
  unfold narrow
  rw [hcapacity, hlimit]

variable [Source σ α]

/-- A window that can grow was not narrow, and is not afterwards. -/
theorem grow_narrow (needed : Nat) (b : Buffer σ α) :
    Run.Ends (fun _ b' => b'.narrow = b.narrow) (fun e _ => e.OfReading) (grow needed b) := by
  generalize hr : grow needed b = r
  cases growth hr with
  | roomy => exact rfl
  | refused => exact Failure.ofReading_error rfl
  | @grown ring hsmall hfits _ hcapacity =>
    have hpos : 0 < b.capacity := b.ring.capacity_pos
    have hdoubled : needed ≤ doubledTo b.capacity needed := le_doubledTo b.ring.capacity_pos needed
    have hwide : ¬ (b.capacity = 1 ∧ b.limit < 2) := by omega
    have hwide' : ¬ (ring.capacity = 1 ∧ b.limit < 2) := by omega
    show (if _ then _ else _) = if _ then _ else _
    rw [if_neg hwide]
    exact if_neg hwide'

theorem pull_narrow (h : Source.Troubled σ) (n : Nat) (b : Buffer σ α) :
    Run.Ends (fun _ b' => b'.narrow = b.narrow) (fun e _ => e.OfReading) (pull n b) := by
  generalize hr : pull n b = r
  cases pulled hr with
  | read => exact narrow_congr (Ring.capacity_pushAll _ _) rfl
  | failed _ hread => exact (h.readPortions n n b.source trivial).of_error hread

theorem elementAt_narrow (h : Source.Troubled σ) (i : Nat) (b : Buffer σ α) :
    Run.Ends (fun _ b' => b'.narrow = b.narrow) (fun e _ => e.OfReading) (elementAt i b) := by
  unfold elementAt
  rw [Run.bind_apply, Run.get_apply]
  dsimp only
  split
  · refine (grow_narrow (i + 1) b).bind ?_ fun _ _ he => he
    intro _ b₁ h₁
    refine (pull_narrow h _ b₁).bind ?_ fun _ _ he => he
    intro _ b₂ h₂
    exact h₂.trans h₁
  · exact rfl

end Buffer

/-! ### Cursors -/

namespace Cursor

/-- The limit of a cursor's window that has room for one element and will never have more. -/
def narrow (c : Cursor σ α) : Option Nat := c.buffer.narrow

/-- The cursor has these marks, and this room. -/
def Framed (marks : Marks) (room : Option Nat) (c : Cursor σ α) : Prop := c.marks = marks ∧ c.narrow = room

variable {marks : Marks} {room : Option Nat}

/-- A computation that leaves marks and room alone. Where it fails, it is for an error of reading, and the
marks are the same. -/
abbrev Frames (marks : Marks) (room : Option Nat) (x : Run (Cursor σ α) β) : Prop :=
  Run.Leads (fun e c => e.OfReading ∧ c.marks = marks) (Framed marks room) (fun _ => Framed marks room) x

theorem dropConsumed_frames (keep : Nat) :
    Frames marks room (dropConsumed keep : Run (Cursor σ α) Unit) := by
  rintro c ⟨hmarks, hroom⟩
  refine (dropConsumed_ends keep c).mono ?_ ?_
  · rintro _ c' ⟨ring, hcapacity, rfl⟩
    have hsame : ({ c.buffer with ring } : Buffer σ α).capacity = c.buffer.capacity := hcapacity
    exact ⟨hmarks, (Buffer.narrow_congr hsame rfl).trans hroom⟩
  · rintro e c' ⟨⟨v, rfl⟩, rfl⟩
    exact ⟨Failure.ofReading_violation v, hmarks⟩

theorem makeRoom_frames (k : Nat) : Frames marks room (makeRoom k : Run (Cursor σ α) Unit) :=
  .get fun _ _ => .ite (dropConsumed_frames _) (.pure ())

variable [Source σ α] (h : Source.Troubled σ)

include h

theorem elementAt_frames (i : Nat) : Frames marks room (onBuffer (Buffer.elementAt i) : Run (Cursor σ α) α) := by
  rintro c ⟨hmarks, hroom⟩
  have hends := Buffer.elementAt_narrow h i c.buffer
  cases hr : Buffer.elementAt i c.buffer with
  | ok a b =>
    rw [onBuffer_ok hr]
    exact ⟨hmarks, (hends.of_ok hr).trans hroom⟩
  | error e b =>
    rw [onBuffer_error hr]
    exact ⟨hends.of_error hr, hmarks⟩

theorem lookahead_frames (k : Nat) : Frames marks room (lookahead k : Run (Cursor σ α) α) :=
  (makeRoom_frames k).bind fun _ => .get fun _ _ => elementAt_frames h _

theorem consume_frames : Frames marks room (consume : Run (Cursor σ α) α) := by
  refine (makeRoom_frames 0).bind fun _ => .get fun _ _ => (elementAt_frames h _).bind fun a => ?_
  refine Run.Leads.bind (Q := fun _ => Framed marks room) (fun c hc => hc) fun _ => ?_
  exact .get fun _ _ => .ite ((dropConsumed_frames 0).bind fun _ => .pure a) (.pure a)

omit [Source σ α] h in
/-- Where marks are kept, only rules of use are broken. -/
theorem marks_troubled : Run.Troubled (mark : Run (Cursor σ α) Unit) ∧
    Run.Troubled (commit : Run (Cursor σ α) Unit) ∧ Run.Troubled (rollback : Run (Cursor σ α) Unit) := by
  refine ⟨.of_ok fun c => ⟨_, _, rfl⟩, ?_, ?_⟩
  · rintro ⟨buffer, marks, offset, consumed, compactAfter⟩ -
    cases marks with
    | nil => exact Failure.ofReading_violation _
    | cons m outer => exact trivial
  · rintro ⟨buffer, marks, offset, consumed, compactAfter⟩ -
    cases marks with
    | nil => exact Failure.ofReading_violation _
    | cons m outer => exact trivial

end Cursor

/-- What leaves the frame alone fails for errors of reading only. -/
theorem Cursor.troubled_of_frames {x : Run (Cursor σ α) β}
    (hx : ∀ (marks : Marks) (room : Option Nat), Frames marks room x) : Run.Troubled x :=
  fun c _ => (hx c.marks c.narrow c ⟨rfl, rfl⟩).mono (fun _ _ _ => trivial) fun _ _ he => he.1

end Reading

/-! ### Lexers -/

namespace Lexer

variable {σ β : Type}

theorem onInput_troubled {x : Run (Cursor σ Char) β} (hx : Run.Troubled x) : Run.Troubled (onInput x) := by
  intro l _
  have hends := hx l.input trivial
  cases hr : x l.input with
  | ok b input =>
    rw [onInput_ok hr]
    exact trivial
  | error e input =>
    rw [onInput_error hr]
    exact hends.of_error hr

variable [Source σ Char]

theorem respected_troubled (h : Source.Troubled σ) :
    Respected (σ := σ) (.alone fun e _ => e.OfReading) fun _ => Run.Both fun _ => True where
  peek _ n := .of_leads (onInput_troubled (Cursor.troubled_of_frames fun _ _ => Cursor.lookahead_frames h n))
  bump _ := by
    refine .of_leads <| .bind (onInput_troubled (Cursor.troubled_of_frames fun _ _ =>
      Cursor.consume_frames h)) fun c => ?_
    exact .ite (Run.Troubled.of_ok fun l => ⟨_, _, rfl⟩) (.pure c)
  mark _ := .of_leads <| (onInput_troubled Cursor.marks_troubled.1).bind fun _ =>
    Run.Troubled.of_ok fun l => ⟨_, _, rfl⟩
  commit _ := .of_leads <| (onInput_troubled Cursor.marks_troubled.2.1).bind fun _ =>
    Run.Troubled.of_ok fun l => ⟨_, _, rfl⟩
  rollback _ := .of_leads <| (onInput_troubled Cursor.marks_troubled.2.2).bind fun _ =>
    Run.Troubled.of_ok fun l => ⟨_, _, rfl⟩
  tally := by
    rintro l _ ⟨rfl, -⟩
    exact ⟨rfl, trivial⟩
  dialect h := by rw [h.1]
  table h := by rw [h.1]
  position h := by rw [h.1]
  rounds _ := .inr fun l l' h => ⟨by rw [h.1], rfl, h.1, Failure.ofReading_stalled⟩
  failed h e he := by
    have hreading : e.ofReading = true := by cases e <;> first | rfl | cases he
    exact ⟨rfl, h.1, Failure.ofReading_error hreading⟩

/-- **A lexer** fails for errors of reading only, as the source that it reads does. -/
theorem troubled (h : Source.Troubled σ) : Source.Troubled (Lexer σ) :=
  fun n => (nexts_kept (respected_troubled h) n).leads

end Lexer

end Dataflow
