import Dataflow.Proofs.Composition
import Dataflow.Proofs.Twins

/-!
# Dataflow.Proofs.Buffering

**Buffering is invisible.** What a lexer and a session answer depends on the text, the dialect and
the operators only, not on where the characters come from, in what portions, and how large the
buffers may grow, as long as they are large enough.

Two lexers on the text are `Lexer.Twin`s. Two sessions are `Coupled`, with the same text for both of
them and no border in it, and so give replies that are alike; with no lines in between, that is the
same replies, the contexts in messages aside.
-/

namespace Dataflow

open Reading Text Circuit

/-! ### No lines further down -/

@[simp] theorem Text.Span.down_zero : Span.down 0 = id := rfl

theorem Error.down_zero (e : Error) : e.down 0 = e := by
  cases e <;> simp [down, Position.down]

/-- The failure in whatever context. -/
def Failure.bare (e : Failure) : Failure := e.map Error.bare

theorem Failure.Alike.bare_eq {e e' : Failure} (h : Alike 0 e e') : e.bare = e'.bare := by
  have hdown : e'.map (Error.down 0) = e' := by
    cases e' with
    | error e => exact congrArg Failure.error e.down_zero
    | violation v => rfl
    | stalled => rfl
  rw [Alike, hdown] at h
  exact h

namespace Parser

/-- The reply without what stands around an error. -/
def Reply.bare (r : Reply) : Reply where
  answer := r.answer.mapError Failure.bare
  trace := r.trace

theorem Reply.Alike.bare_eq {r r' : Reply} (h : Reply.Alike 0 [] r r') : r.bare = r'.bare := by
  obtain ⟨answer, trace⟩ := r
  obtain ⟨answer', trace'⟩ := r'
  obtain ⟨⟨x, rfl, rfl⟩ | ⟨e, e', rfl, rfl, halike⟩, rfl⟩ := h
  · rfl
  · exact congrArg (fun e => (⟨.error e, _⟩ : Reply)) halike.bare_eq

theorem map_bare_eq {replies replies' : List Reply}
    (h : List.Forall₂ (Reply.Alike 0 []) replies replies') :
    replies.map Reply.bare = replies'.map Reply.bare := by
  induction h with
  | nil => rfl
  | cons hreply _ ih => rw [List.map_cons, List.map_cons, hreply.bare_eq, ih]

end Parser

/-! ### The same text for both -/

section

variable {σ : Type} [Supply σ Char] {source source' : σ} {stream : List Char}

/-- Sessions on the same text reply the same, contexts aside. -/
theorem Parser.transcripts_eq (hsource : Supply.Delivers source stream)
    (hsource' : Supply.Delivers source' stream) (hmarker : Source.endMarker source = endOfInput)
    (hmarker' : Source.endMarker source' = endOfInput) (hne : ∀ c ∈ stream, c ≠ endOfInput)
    (d : Lexer.Dialect) (limits : Limits) (table : Operator.Table) (netlist : Netlist) (n : Nat) :
    Exceeds (transcript n { Session.ofSource source d table with netlist }) ∨
      Exceeds (transcript n { Session.ofSource source' { d with limits } table with netlist }) ∨
      (transcript n { Session.ofSource source d table with netlist }).map Reply.bare =
        (transcript n { Session.ofSource source' { d with limits } table with netlist }).map
          Reply.bare := by
  have hfaces := Cursor.faces_ofSource (d := d) (t := table) hsource hmarker hne
  have hfaces' := Cursor.faces_ofSource (d := { d with limits }) (t := table) hsource' hmarker' hne
  have hcoupled : Coupled (.same d limits ⟨stream, {}⟩) { pending := stream.length }
      { Session.ofSource source d table with netlist }
      { Session.ofSource source' { d with limits } table with netlist } := by
    refine Coupled.ofSame ?_ ?_ ?_ hfaces hfaces' ?_ ?_ <;> rfl
  exact (transcripts_alike hcoupled rfl n).imp_right (Or.imp_right map_bare_eq)

end

/-- **Buffering is invisible.** Where two supplies carry the same text, whatever their portions, and
whatever the limits of the buffers, two lexers answer the same, and so do two sessions, contexts in
messages aside; unless one of them needs too large a buffer. -/
theorem answers_of_text {text : String} {source source' : Paced Feed} (hsource : source.Carries text)
    (hsource' : source'.Carries text) (d : Lexer.Dialect) (limits : Limits) (table : Operator.Table)
    (netlist : Netlist) (n : Nat) :
    (¬ Lexer.Exceeds (Lexer.answers n (Lexer.ofSource source d table)) →
      ¬ Lexer.Exceeds (Lexer.answers n (Lexer.ofSource source' { d with limits } table)) →
      Lexer.answers n (Lexer.ofSource source d table) =
        Lexer.answers n (Lexer.ofSource source' { d with limits } table)) ∧
    (¬ Parser.Exceeds (Parser.transcript n { Session.ofSource source d table with netlist }) →
      ¬ Parser.Exceeds (Parser.transcript n
        { Session.ofSource source' { d with limits } table with netlist }) →
      (Parser.transcript n { Session.ofSource source d table with netlist }).map Parser.Reply.bare =
        (Parser.transcript n { Session.ofSource source' { d with limits } table with netlist }).map
          Parser.Reply.bare) := by
  have hne : ∀ c ∈ text.toList.map admitted, c ≠ endOfInput := by
    intro c hc
    obtain ⟨b, -, rfl⟩ := List.mem_map.1 hc
    exact admitted_ne_endOfInput b
  constructor
  · intro hexceeds hexceeds'
    have htwin := Lexer.twin_ofSource hsource.delivers hsource'.delivers hsource.endMarker_eq
      hsource'.endMarker_eq d d.limits limits table
    exact ((Lexer.answers_eq htwin hne n).resolve_left hexceeds).resolve_left hexceeds'
  · intro hexceeds hexceeds'
    exact ((Parser.transcripts_eq hsource.delivers hsource'.delivers hsource.endMarker_eq
      hsource'.endMarker_eq hne d limits table netlist n).resolve_left hexceeds).resolve_left
      hexceeds'

/-- The text at hand, and its bytes one character at a time, with an interruption inside a character,
in small buffers. The last request ends with an error. -/
theorem answers_of_interrupted_text :
    Lexer.answers 10 (Lexer.ofSource (⟨.text (.ofText "a, é <- 1.5e3 ; )"), none⟩ : Paced Feed)
          (.standard {}) .standard) =
        Lexer.answers 10 (Lexer.ofSource (⟨.reader { arrivals := [.bytes [97, 44, 32, 195], .interrupted,
            .bytes [169, 32, 60, 45, 32, 49, 46, 53, 101, 51, 32, 59, 32, 41]] }, some 1⟩ : Paced Feed)
          (.standard { initial := 2, largest := 8 }) .standard) ∧
      (Parser.transcript 3 (Session.ofSource (⟨.text (.ofText "a, é <- 1.5e3 ; )"), none⟩ : Paced Feed)
          (.standard {}) .standard)).map Parser.Reply.bare =
        (Parser.transcript 3 (Session.ofSource (⟨.reader { arrivals := [.bytes [97, 44, 32, 195],
            .interrupted, .bytes [169, 32, 60, 45, 32, 49, 46, 53, 101, 51, 32, 59, 32, 41]] }, some 1⟩ :
          Paced Feed) (.standard { initial := 2, largest := 8 }) .standard)).map Parser.Reply.bare := by
  have hbytes : "a, é <- 1.5e3 ; )".toUTF8.data.toList = [97, 44, 32, 195] ++
      ([169, 32, 60, 45, 32, 49, 46, 53, 101, 51, 32, 59, 32, 41] ++ []) := by
    decide +kernel
  have hsource : Paced.Carries "a, é <- 1.5e3 ; )" ⟨.text (.ofText "a, é <- 1.5e3 ; )"), none⟩ :=
    ⟨.text, nofun⟩
  have hsource' : Paced.Carries "a, é <- 1.5e3 ; )" ⟨.reader { arrivals := [.bytes [97, 44, 32, 195],
      .interrupted, .bytes [169, 32, 60, 45, 32, 49, 46, 53, 101, 51, 32, 59, 32, 41]] }, some 1⟩ := by
    refine ⟨.reader ?_, fun most h => by cases h; decide⟩
    rw [hbytes]
    exact .portion nofun (.interrupted (.portion nofun .ended))
  have h := answers_of_text hsource hsource' (.standard {}) { initial := 2, largest := 8 } .standard {}
  exact ⟨(h 10).1 (by decide +kernel) (by decide +kernel), (h 3).2 (by decide +kernel)
    (by decide +kernel)⟩

end Dataflow
