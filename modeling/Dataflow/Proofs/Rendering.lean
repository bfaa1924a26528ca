import Dataflow.Proofs.Dictating
import Dataflow.Proofs.Overlong
import Dataflow.Proofs.SessionMemory
import Dataflow.Proofs.Termination
import Dataflow.Proofs.Writing

/-!
# Dataflow.Proofs.Rendering

**A program is read as it is meant.** Take any program in function form, whose names are names where
they stand, write it down with any blanks between its words, and read it into an empty netlist: the
statements are those that come of dictating the program, the netlist is told what is dictated, in the
same order, and holds the same in the end (`statements_of_spread`). The proviso is room: the buffers of a
lexer and a parser are limited, and a text that is longer than they are may have an exponent, a symbol
or a row of targets in it that does not fit (`not_parsed_of_long_exponent`).

* `Parser.Overflows` — the proviso;
* `Parser.parseAll_of_enacts` — from a script for all statements to what comes of a text.
-/

namespace Dataflow

open Reading Lexer Circuit
open Token (Word)

namespace Parser

variable {σ : Type} [Supply σ Char] {d : Dialect} {t : Operator.Table}

/-- Reading stops for lack of room. That takes a text that is longer than the buffers, and in it an
exponent, a symbol or a row of targets that is longer than the buffers are meant for. -/
structure Overflows (d : Dialect) (total : Nat) (e : Failure) (s : Session σ) : Prop where
  exceeded : e.Exceeded
  long : d.limits.Exceeded (total + 2)
  outgrows : ∀ b : Bounds, b.Fit d.limits → s.Outgrows b

/-- What comes of a text that is laid out as the words of a script. -/
theorem parseAll_of_enacts {Q : List Statement → Prop} {k' : Script} {T : Operator.Table → Prop} {source : σ}
    {text : List Char} {words : List Word} {hd : d.Plain} (ht : T t) (hsource : Supply.Delivers source text)
    (hmarker : Source.endMarker source = endOfInput) (hne : endOfInput ∉ text) (hlaid : Laid d T text words)
    (h : Enacts ⟨text.length, d, hd, T⟩ { words, table := t } Q k'
      (parseAll : Run (Session σ) (List Statement))) :
    (∃ statements s, parseAll (Session.ofSource source d t) = .ok statements s ∧ Q statements ∧
      s.Follows ⟨text.length, d, hd, T⟩ k') ∨
    ∃ e s, parseAll (Session.ofSource source d t) = .error e s ∧ Overflows d text.length e s := by
  have hends := h _ (Session.follows_ofSource (g := ⟨text.length, d, hd, T⟩) hsource hmarker
    (fun c hc => ne_of_mem_of_not_mem hc hne) rfl ht hlaid)
  have hdelivers : Delivering text.length source := ⟨hmarker, text, hsource, Nat.le_refl _⟩
  have hbounded : Sight.Bounded Delivering d text.length { lexer := Lexer.ofSource source d t } :=
    ⟨⟨text.length, {}⟩, [], Lexer.within_ofSource hdelivers d t, Nat.le_of_eq (Nat.zero_add _)⟩
  have hfinishes := parseAll_bounded (s := Session.ofSource source d t) Supply.ebbs hd
    (Cursor.sees_ofSource _ _) hbounded
  cases hr : parseAll (Session.ofSource source d t) with
  | ok statements s =>
    obtain ⟨hQ, hfollows⟩ := hends.of_ok hr
    exact .inl ⟨statements, s, rfl, hQ, hfollows⟩
  | error e s =>
    obtain ⟨error, rfl⟩ := hfinishes.of_error hr
    obtain ⟨hexceeded, hlong⟩ := (hends.of_error hr).resolve_left nofun
    refine .inr ⟨_, s, rfl, hexceeded, hlong, fun b hfit => ?_⟩
    exact (parseAll_frugal hfit _ (Session.calm_ofSource ⟨_, hsource⟩ d t {})).of_error hr hexceeded

/-- **A program is read as it is meant**, if it fits, if its words are spread over the text with any
blanks between them, and if the netlist accepts what it is told. -/
theorem statements_of_spread {program : List Draft} {brief : Bool} {text : String} {source : σ}
    {statements : List Statement} {m : Netlist} {calls : List Call} (hfits : Draft.FitsAll t program)
    (hspread : Spread text.toList (Draft.wordsAll brief program))
    (hdictated : Draft.dictateAll program ({}, []) = .ok statements (m, calls))
    (hsource : Supply.Delivers source (text.toList.map admitted))
    (hmarker : Source.endMarker source = endOfInput) :
    (∃ s, parseAll (Session.ofSource source {} t) = .ok statements s ∧ s.netlist = m ∧
      s.calls = calls ∧ s.table = Draft.afterAll t program) ∨
    ∃ e s, parseAll (Session.ofSource source {} t) = .error e s ∧ Overflows {} text.length e s := by
  obtain ⟨hlaid, hne⟩ := hspread.laid (T := fun _ => True) hfits.writable
  rw [admitted_text hne] at hsource
  have hmirrors := parseAll_mirrors (σ := σ) (g := ⟨text.toList.length, {}, plain_default, fun _ => True⟩)
    (k := { words := Draft.wordsAll brief program, table := t }) (fun _ => trivial) hfits rfl
  refine (parseAll_of_enacts trivial hsource hmarker hne hlaid (hmirrors {} [] _ _ _ hdictated)).imp ?_ id
  rintro ⟨_, s, hparsed, rfl, hfollows⟩
  exact ⟨s, hparsed, hfollows.netlist, hfollows.calls, hfollows.table_eq⟩

/-- Statements of every form, an entity whose symbol is a quote among them. -/
theorem statements_of_spread_forms : ∃ (text : String) (program : List Draft) (statements : List Statement)
    (m : Netlist) (calls : List Call), program = [
      .entity ⟨"Twice", "\x22", .postfixOp, 90, ["in"], ["out"], []⟩, .signals ["a", "b"], .buses ["c"],
      .architecture "Body" "Twice" [.assignment ["out"] (.apply "Sum" [.signal "in", .signal "in"])],
      .instantiation "Twice" [⟨some "in", .signal "a"⟩] [(none, "b")] [],
      .expression (.group .vector [.apply "Twice" [.signal "b"], .literal "\x22", .real "1.5e-3"])] ∧
    Draft.FitsAll .standard program ∧ Spread text.toList (Draft.wordsAll true program) ∧
    Draft.dictateAll program ({}, []) = .ok statements (m, calls) ∧ ∃ s,
      parseAll (Session.ofSource (Items.ofText text) {} .standard) = .ok statements s ∧
      s.netlist = m ∧ s.calls = calls ∧ s.table = Draft.afterAll .standard program := by
  generalize hprogram : ([
    .entity ⟨"Twice", "\x22", .postfixOp, 90, ["in"], ["out"], []⟩, .signals ["a", "b"], .buses ["c"],
    .architecture "Body" "Twice" [.assignment ["out"] (.apply "Sum" [.signal "in", .signal "in"])],
    .instantiation "Twice" [⟨some "in", .signal "a"⟩] [(none, "b")] [],
    .expression (.group .vector [.apply "Twice" [.signal "b"], .literal "\x22", .real "1.5e-3"])] :
      List Draft) = program
  generalize htext : " define entity Twice \x22\x22\x22\x22 postfix 90 in in out out ;" ++
    " signal a , b ; bus c ; define architecture Body Twice \x7b out <- Sum ( in , in ) ; \x7d ;" ++
    " instantiate Twice in in -> a out b ; [ Twice ( b ) , \x22\x22\x22\x22 , 1.5e-3 ] ;" = text
  have hfits : Draft.FitsAll .standard program := by
    rw [← hprogram]
    simp only [Draft.FitsAll, Draft.Fits, Draft.after, Draft.afterAll, Expr.Written, Expr.WrittenAll,
      List.mem_singleton, forall_eq]
    decide +kernel
  have hspread : Spread text.toList (Draft.wordsAll true program) := by
    have hspaced : text.toList = Dialect.spaced {} (Draft.wordsAll true program) := by
      rw [← hprogram, ← htext]
      decide +kernel
    rw [hspaced]
    exact spread_spaced _
  have hshort : ¬ ({} : Dialect).limits.Exceeded (text.length + 2) := by
    rw [← htext, Limits.Exceeded]
    decide +kernel
  have haccepted : (match Draft.dictateAll program ({}, []) with
      | .ok _ _ => true
      | .error _ _ => false) = true := by
    rw [← hprogram]
    decide +kernel
  cases hdictated : Draft.dictateAll program ({}, []) with
  | error e u =>
    rw [hdictated] at haccepted
    cases haccepted
  | ok statements told =>
    refine ⟨text, program, statements, told.1, told.2, rfl, hfits, hspread, hdictated, ?_⟩
    exact (statements_of_spread hfits hspread hdictated (Items.delivers_iff.2 rfl) rfl).resolve_right
      fun ⟨_, _, _, hoverflows⟩ => hshort hoverflows.long

/-- A statement of such a number is laid out like any other. -/
theorem spread_number (number : List Char) :
    Spread (number ++ [' ', ';']) [⟨.real, String.ofList number, none⟩, .executor] := by
  have hbreaks : Breaks [' ', ';'] := by
    intro c hc
    obtain rfl : ' ' = c := Option.some.inj hc
    decide
  have hword : Spread ([] ++ (Dialect.written {} ⟨.real, String.ofList number, none⟩ ++ [' ', ';']))
      [⟨.real, String.ofList number, none⟩, .executor] :=
    .word nofun hbreaks (spread_spaced [.executor])
  have hwritten : Dialect.written {} ⟨.real, String.ofList number, none⟩ = number := String.toList_ofList
  rwa [List.nil_append, hwritten] at hword

theorem parseAll_number {n : Nat} (hn : 1048576 ≤ n) : ∃ e s, parseAll (Session.ofSource
    (Items.ofText (String.ofList (oneWithZeros n ++ [' ', ';']))) {} t) = .error e s := by
  have hbehind : endOfInput ∉ [' ', ';'] := by decide
  have hne : endOfInput ∉ oneWithZeros n ++ [' ', ';'] := fun hend =>
    (List.mem_append.1 hend).elim (endOfInput_not_mem_oneWithZeros n) hbehind
  exact parseAll_oneWithZeros hn (delivers_ofList hne) rfl hbehind rfl t

/-- The proviso is needed: a constant can be too long. -/
theorem not_parsed_of_long_exponent :
    Draft.FitsAll .standard [.expression (.real (String.ofList (oneWithZeros 1048576)))] ∧
    Spread (oneWithZeros 1048576 ++ [' ', ';'])
      (Draft.wordsAll true [.expression (.real (String.ofList (oneWithZeros 1048576)))]) ∧
    (∃ told, Draft.dictateAll [.expression (.real (String.ofList (oneWithZeros 1048576)))] ({}, []) =
      .ok [.expression (.real (String.ofList (oneWithZeros 1048576)))] told) ∧
    ∃ e s, parseAll (Session.ofSource
      (Items.ofText (String.ofList (oneWithZeros 1048576 ++ [' ', ';']))) {} .standard) = .error e s := by
  refine ⟨⟨scansAs_oneWithZeros (by decide), trivial⟩, spread_number _, ⟨_, rfl⟩, ?_⟩
  exact parseAll_number (Nat.le_refl _)

end Parser

end Dataflow
