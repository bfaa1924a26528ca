import Dataflow.Proofs.Assertions

/-!
# Dataflow.Proofs.Termination

**Reading comes to an end.** Behind the end of a text there are end markers without number, so that every
loop could go on for ever. Where no character of the dialect is the end of the input, none does: a lexer
goes on in the text with every token but the one for the end, a parser takes a token for every statement,
and where there is no further statement there will never be one (`Session.Ended`).

`parsing_terminates` says so for every text, also one that ends within a group, a body or a literal.
-/

namespace Dataflow

open Reading Circuit Session

/-- Where the end of the input has no role, an orderly failure is an error. -/
theorem Failure.Orderly.error {d : Lexer.Dialect} {e : Failure} (h : e.Orderly d) (hplain : d.Plain) :
    ∃ error, e = .error error := by
  rcases h with herror | ⟨-, hstalled⟩
  · exact herror
  · exact absurd hplain hstalled

/-! ### Behind the end -/

section

variable {σ : Type} [Source σ Char] {s : Session σ}

/-- The token for the end of the input is next. -/
def Session.Ended (s : Session σ) : Prop :=
  ∃ (v : Sight σ) (token : Token) (rest : List Token), s.Sees v ∧ v.ahead = token :: rest ∧
    token.kind = .endOfFile

namespace Session.Ended

theorem peek (h : s.Ended) :
    ∃ token tokens, Session.peek s = .ok token { s with tokens } ∧ token.kind = .endOfFile ∧
      ({ s with tokens } : Session σ).Ended := by
  obtain ⟨v, token, rest, ⟨limits, o, hshows, hsource, hview, hmarked, hended⟩, hahead, hkind⟩ := h
  obtain ⟨c, hlook, hc⟩ := Cursor.lookahead_held hshows (k := 0) (a := token) (by rw [hview, hahead]; rfl)
  exact ⟨token, c, onTokens_ok hlook, hkind, v, token, rest, ⟨limits, o, hc, hsource, hview, hmarked, hended⟩,
    hahead, hkind⟩

theorem peekKind (h : s.Ended) :
    ∃ tokens, Session.peekKind s = .ok .endOfFile { s with tokens } ∧
      ({ s with tokens } : Session σ).Ended := by
  obtain ⟨token, tokens, hpeek, hkind, ht⟩ := h.peek
  refine ⟨tokens, ?_, ht⟩
  rw [peekKind_eq, Run.bind_apply, hpeek, ← hkind]
  rfl

/-- There is nothing to skip. -/
theorem skip (h : s.Ended) (kind : Token.Kind) (hne : kind ≠ .endOfFile) :
    ∃ tokens, Session.skip kind s = .ok () { s with tokens } ∧
      ({ s with tokens } : Session σ).Ended := by
  obtain ⟨token, tokens, hpeek, hkind, ht⟩ := h.peek
  have haccept : Session.accept kind s = .ok false { s with tokens } := by
    rw [accept_eq, Run.bind_apply, hpeek]
    exact congrFun (if_neg (by rw [hkind]; exact hne.symm)) _
  refine ⟨tokens, ?_, ht⟩
  unfold Session.skip Run.iterate
  rw [Run.iterateFor_succ, Run.bind_apply, haccept]
  rfl

/-- There is no statement, and the netlist is told nothing. -/
theorem parseStatement (h : s.Ended) :
    ∃ t, Parser.parseStatement s = .ok none t ∧ t.Ended ∧ t.calls = s.calls := by
  obtain ⟨c, hskip, h₁⟩ := h.skip .executor nofun
  obtain ⟨c', hpeek, h₂⟩ := h₁.peekKind
  refine ⟨_, ?_, h₂, rfl⟩
  unfold Parser.parseStatement
  rw [Run.bind_apply, hskip]
  dsimp only
  rw [Run.bind_apply, hpeek]
  rfl

theorem parseAll (h : s.Ended) :
    ∃ t, Parser.parseAll s = .ok [] t ∧ t.Ended ∧ t.calls = s.calls := by
  obtain ⟨t, hnone, ht, hcalls⟩ := h.parseStatement
  refine ⟨t, ?_, ht, hcalls⟩
  unfold Parser.parseAll Run.iterate
  rw [Run.iterateFor_succ, Run.bind_apply, hnone]
  rfl

end Session.Ended

namespace Parser

/-- The request is about the same source. -/
def Request.Stays : Request σ → Prop
  | .reset _ _ => False
  | _ => True

/-- As long as the source is the same, the end stays the end. -/
theorem Request.ended {r : Request σ} (hr : r.Stays) (h : s.Ended) :
    (r.perform s).Ended ∧ (r.perform s).calls = s.calls := by
  cases r with
  | statement =>
    obtain ⟨t, hnone, ht, hcalls⟩ := h.parseStatement
    have hperform : perform s .statement = t := congrArg Run.leaves hnone
    rw [hperform]
    exact ⟨ht, hcalls⟩
  | all =>
    obtain ⟨t, hnone, ht, hcalls⟩ := h.parseAll
    have hperform : perform s .all = t := congrArg Run.leaves hnone
    rw [hperform]
    exact ⟨ht, hcalls⟩
  | register op =>
    obtain ⟨v, token, rest, hv, hahead, hkind⟩ := h
    exact ⟨⟨_, token, rest, Cursor.Sees.register hv op, hahead, hkind⟩, rfl⟩
  | tell netlist => exact ⟨h, rfl⟩
  | reset source table => exact hr.elim

theorem performAll_ended {requests : List (Request σ)} (hstays : ∀ r ∈ requests, r.Stays) (h : s.Ended) :
    (performAll requests s).Ended ∧ (performAll requests s).calls = s.calls := by
  induction requests generalizing s with
  | nil => exact ⟨h, rfl⟩
  | cons r rest ih =>
    obtain ⟨hended, hcalls⟩ := r.ended (hstays r (List.mem_cons_self ..)) h
    obtain ⟨hended', hcalls'⟩ := ih (fun r' hr' => hstays r' (List.mem_cons_of_mem _ hr')) hended
    exact ⟨hended', hcalls'.trans hcalls⟩

/-! ### Statements -/

variable {I : Nat → σ → Prop} {d : Lexer.Dialect}

/-- What the next statement comes to: it takes a token, or there never is a statement again. -/
def Progresses (s : Session σ) (reply : Option Statement) (t : Session σ) : Prop :=
  match reply with
  | some _ => ∃ v es w, s.Sees v ∧ v.Becomes es w ∧ t.Sees w ∧ ∃ token ∈ takenIn es, token.kind ≠ .endOfFile
  | none => ∀ requests : List (Request σ), (∀ r ∈ requests, r.Stays) →
    ∃ u, parseStatement (performAll requests t) = .ok none u ∧ u.calls = t.calls

theorem parseStatement_progresses (hI : Ebbs I) (hplain : d.Plain) (h : s.tokens.Firm I d) :
    Run.Ends (Progresses s) (fun e _ => ∃ error, e = .error error) (parseStatement s) := by
  obtain ⟨v, hv, hsecure⟩ := h
  refine (parseStatement_lasts hI hv hsecure).mono ?_ ?_
  · rintro reply t ⟨tokens, w, ⟨es, hes, rfl⟩, hw, hreply⟩
    cases reply with
    | some statement =>
      obtain ⟨token, htoken, hkind⟩ := List.countP_pos_iff.1 hreply
      exact ⟨v, es, w, hv, hes, hw, token, htoken, of_decide_eq_true hkind⟩
    | none =>
      intro requests hstays
      obtain ⟨token, rest, hahead, hkind⟩ := hreply
      obtain ⟨hended, hcalls⟩ := performAll_ended hstays ⟨w, token, rest, hw, hahead, hkind⟩
      obtain ⟨u, hnone, -, hu⟩ := hended.parseStatement
      exact ⟨u, hnone, hu.trans hcalls⟩
  · intro e t he
    exact he.1.error hplain

/-- No more statements are read than tokens are to come. -/
theorem parseAll_bounded (hI : Ebbs I) (hplain : d.Plain) {v : Sight σ} {n : Nat} (hv : s.Sees v)
    (hbounded : v.Bounded I d n) :
    Run.Ends (fun statements _ => statements.length ≤ n) (fun e _ => ∃ error, e = .error error)
      (parseAll s) := by
  refine (parseAll_lasts hI hv hbounded.secure).mono ?_ ?_
  · rintro statements t ⟨tokens, w, ⟨es, hes, rfl⟩, -, hcount, -⟩
    obtain ⟨m, hm, -⟩ := hes.bounded hI hplain hbounded
    omega
  · intro e t he
    exact he.1.error hplain

end Parser

end

/-! ### Texts -/

/-- The run comes to an answer, of which `Q` holds, or to an error. -/
def Run.Finishes {σ β : Type} (Q : β → σ → Prop) (r : EStateM.Result Failure σ β) : Prop :=
  (∃ b t, r = .ok b t ∧ Q b t) ∨ ∃ error t, r = .error (.error error) t

theorem Run.finishes_of_ends {σ β : Type} {Q : β → σ → Prop} {r : EStateM.Result Failure σ β}
    (h : Run.Ends Q (fun e _ => ∃ error, e = .error error) r) : Run.Finishes Q r := by
  cases r with
  | ok b t => exact .inl ⟨b, t, rfl, h⟩
  | error e t =>
    obtain ⟨error, rfl⟩ := h
    exact .inr ⟨error, t, rfl⟩

/-- **Parsing terminates.** Where no character of the dialect is the end of the input, over any text and
whatever has been asked before, in vain or not: the next token is read, and is for the end or takes the
lexer further in the text, or there is an error. The next statement is read, and takes a token that is
not for the end, or there is an error; where there is none, there will be none on this source, and the
netlist will be told nothing. All statements are read, and of a text no more than it has characters. -/
theorem parsing_terminates {text : String} {source : Paced Feed} (hsource : source.Carries text)
    (d : Lexer.Dialect) (hd : endOfInput ∉ d.characters) (table : Operator.Table) :
    (∀ requests : List (Lexer.Request (Paced Feed)), (∀ r ∈ requests, r.Proper) →
      Run.Finishes
        (fun token l => token.kind = .endOfFile ∨
          (Lexer.performAll requests (Lexer.ofSource source d table)).position < l.position)
        (Lexer.next (Lexer.performAll requests (Lexer.ofSource source d table)))) ∧
    (∀ requests : List (Parser.Request (Paced Feed)), (∀ r ∈ requests, r.Proper) →
      Run.Finishes (Parser.Progresses (Parser.performAll requests (Session.ofSource source d table)))
        (Parser.parseStatement (Parser.performAll requests (Session.ofSource source d table))) ∧
      Run.Finishes
        (fun statements _ => statements.length ≤
          (Parser.performAll requests (Session.ofSource source d table)).remaining)
        (Parser.parseAll (Parser.performAll requests (Session.ofSource source d table)))) ∧
    ∀ netlist : Netlist, Run.Finishes (fun statements _ => statements.length ≤ text.length)
      (Parser.parseAll { Session.ofSource source d table with netlist }) := by
  have hplain := Lexer.Dialect.plain_of_characters hd
  have hbegins : ∀ source : Paced Feed, Source.endMarker source = endOfInput → ∃ k, Remaining k source :=
    fun source h => ⟨_, h, Nat.le_refl _⟩
  refine ⟨fun requests hproper => ?_, fun requests hproper => ?_, fun netlist => ?_⟩
  · have hstart : Lexer.Stands Remaining d (Lexer.ofSource source d table) :=
      ⟨_, _, Lexer.within_ofSource ⟨hsource.endMarker_eq, Nat.le_refl _⟩ d table⟩
    obtain ⟨p, ps, hwithin⟩ := Lexer.performAll_keeps Paced.ebbs hbegins hproper hstart
    refine Run.finishes_of_ends ((Lexer.next_goes Paced.ebbs p ps _ hwithin).mono ?_ fun _ _ he => he.1)
    rintro token l ⟨q, -, hbefore, hwithin'⟩
    by_cases hend : token.kind = .endOfFile
    · exact .inl hend
    · rw [hwithin.place, hwithin'.place]
      exact .inr (hbefore ⟨hplain, hend⟩).2
  · have hstart : (Session.ofSource source d table).tokens.Firm Remaining d :=
      ⟨_, Cursor.sees_ofSource _ _, _, _, Lexer.within_ofSource ⟨hsource.endMarker_eq, Nat.le_refl _⟩ d table⟩
    have hfirm := Parser.performAll_keeps Paced.ebbs hbegins hproper hstart
    refine ⟨Run.finishes_of_ends (Parser.parseStatement_progresses Paced.ebbs hplain hfirm), ?_⟩
    obtain ⟨v, hv, hsecure⟩ := hfirm
    obtain ⟨n, hn, hbounded⟩ := Session.Sees.bounded Paced.ebbs hv hsecure
    exact Run.finishes_of_ends ((Parser.parseAll_bounded Paced.ebbs hplain hv hbounded).mono
      (fun _ _ h => Nat.le_trans h hn) fun _ _ he => he)
  · have hdelivers : Delivering text.length source :=
      ⟨hsource.endMarker_eq, _, hsource.delivers, by rw [List.length_map, String.length_toList]⟩
    have hbounded : Sight.Bounded Delivering d text.length { lexer := Lexer.ofSource source d table } :=
      ⟨⟨text.length, {}⟩, [], Lexer.within_ofSource hdelivers d table, Nat.le_of_eq (Nat.zero_add _)⟩
    exact Run.finishes_of_ends (Parser.parseAll_bounded (s := { Session.ofSource source d table with netlist })
      Supply.ebbs hplain (Cursor.sees_ofSource _ _) hbounded)

/-- A text that ends within a group, behind a statement. -/
theorem parsing_terminates_within_group : ∃ source : Paced Feed,
    source.Carries "a ; (b" ∧ endOfInput ∉ ({} : Lexer.Dialect).characters ∧
    (Run.answer? (Parser.parseStatement (Session.ofSource source {} .standard))).isSome = true ∧
    (∀ r ∈ [Parser.Request.statement (σ := Paced Feed)], r.Proper) ∧
    (Run.answer? (Parser.parseStatement
      (Parser.performAll [.statement] (Session.ofSource source {} .standard)))).isNone = true ∧
    Run.Finishes (Parser.Progresses (Parser.performAll [.statement] (Session.ofSource source {} .standard)))
      (Parser.parseStatement (Parser.performAll [.statement] (Session.ofSource source {} .standard))) ∧
    Run.Finishes (fun statements _ => statements.length ≤ "a ; (b".length)
      (Parser.parseAll { Session.ofSource source {} .standard with netlist := {} }) := by
  have hsource : (⟨.text (.ofText "a ; (b"), some 1⟩ : Paced Feed).Carries "a ; (b" :=
    ⟨.text, fun most h => by cases h; exact Nat.one_pos⟩
  have hd : endOfInput ∉ ({} : Lexer.Dialect).characters := by decide +kernel
  have hproper : ∀ r ∈ [Parser.Request.statement (σ := Paced Feed)], r.Proper := by
    intro r hr
    cases List.mem_singleton.1 hr
    exact trivial
  have h := parsing_terminates hsource {} hd .standard
  exact ⟨_, hsource, hd, by decide +kernel, hproper, by decide +kernel, (h.2.1 _ hproper).1, h.2.2 {}⟩

end Dataflow
