import Dataflow.Proofs.Lagging
import Dataflow.Proofs.Undisturbed

/-!
# Dataflow.Proofs.Targets

**Trying for the targets of an assignment** is exact and leaves no trace (`assignment_speculation_exact`). A
statement is an assignment if and only if it begins with names, with separators between them and an arrow behind
them. If it does not, however many names have been scanned by then, what is read next is an expression from the
first token on, and it is read as if nothing had been tried.

* `targetNames?` — the names in front of an arrow, decided from the tokens alone;
* `tryTargets_rules_out` — where the scan stops without an arrow, no further tokens could make it one;
* `Sight.Scans.comparable` — what can be scanned from a sight is one sequence of tokens.
-/

namespace Dataflow

open Reading Circuit

/-! ### Tokens in front of an arrow -/

namespace Parser

/-- The names in front of an arrow, if the tokens begin with such. -/
def targetNames? : List Token → Option (List String)
  | token :: next :: rest =>
    if token.kind.isTextIdentifier then
      if next.kind = .separator then (token.text :: ·) <$> targetNames? rest
      else if next.kind = .assignment then some [token.text]
      else none
    else none
  | _ => none

section TargetNames

variable {token next : Token} {rest : List Token}

theorem targetNames?_of_not_name (h : token.kind.isTextIdentifier ≠ true) : targetNames? (token :: rest) = none := by
  cases rest with
  | nil => rfl
  | cons next rest => rw [targetNames?, if_neg h]

theorem targetNames?_more (h : token.kind.isTextIdentifier = true) (hnext : next.kind = .separator) :
    targetNames? (token :: next :: rest) = (token.text :: ·) <$> targetNames? rest := by
  rw [targetNames?, if_pos h, if_pos hnext]

theorem targetNames?_arrow (h : token.kind.isTextIdentifier = true) (hnext : next.kind = .assignment) :
    targetNames? (token :: next :: rest) = some [token.text] := by
  rw [targetNames?, if_pos h, if_neg (by rw [hnext]; nofun), if_pos hnext]

theorem targetNames?_of_other (hseparator : next.kind ≠ .separator) (harrow : next.kind ≠ .assignment) :
    targetNames? (token :: next :: rest) = none := by
  rw [targetNames?, if_neg hseparator, if_neg harrow, ite_self]

end TargetNames

/-- Names are found in front of what follows them: of an arrow, or of a separator and what is found behind it. -/
theorem targetNames?_append {targets : List Token} {names : List String} (h : Grammar.Names targets names) {next : Token}
    (rest : List Token) :
    (next.kind = .separator → targetNames? (targets ++ next :: rest) = (names ++ ·) <$> targetNames? rest) ∧
      (next.kind = .assignment → targetNames? (targets ++ next :: rest) = some names) := by
  induction h generalizing next rest with
  | one htoken =>
    exact ⟨fun hnext => targetNames?_more htoken hnext, fun hnext => targetNames?_arrow htoken hnext⟩
  | @more targets names separator token row hseparator htoken ih =>
    have hrow : targetNames? (targets ++ separator :: token :: next :: rest) =
        (names ++ ·) <$> targetNames? (token :: next :: rest) := (ih _).1 hseparator
    rw [List.append_assoc]
    refine ⟨fun hnext => ?_, fun hnext => ?_⟩
    · refine hrow.trans ?_
      rw [targetNames?_more htoken hnext]
      cases targetNames? rest with
      | none => rfl
      | some more => simp
    · refine hrow.trans ?_
      rw [targetNames?_arrow htoken hnext]
      rfl

end Parser

/-! ### What can be scanned -/

namespace Sight

variable {σ : Type} [Source σ Char] {v w u : Sight σ} {tokens : List Token}

/-- What is to come begins with these tokens, if no operator is registered in between. -/
def Begins (v : Sight σ) (tokens : List Token) : Prop := ∃ w, v.Passes tokens w

theorem untaken_of_quiet {es : List Event} (h : registeredIn es = []) : untaken es = (scannedIn es).map .scanned := by
  fun_induction untaken es <;> simp_all

/-- Without the taking, tokens that are taken have come into view. -/
theorem Passes.scans (h : v.Passes tokens w) : ∃ u, v.Scans u ∧ u.ahead = tokens ++ w.ahead := by
  obtain ⟨es, hes, hquiet, rfl⟩ := h
  refine ⟨v.extend (scannedIn es) w.lexer, ⟨scannedIn es, ?_⟩, hes.ahead⟩
  rw [← untaken_of_quiet hquiet]
  exact hes.untaken v rfl

/-- **One sequence of tokens** can be scanned from a sight. -/
theorem Scans.comparable (hw : v.Scans w) (hu : v.Scans u) :
    ∃ more more', w.ahead ++ more = u.ahead ++ more' := by
  obtain ⟨tokens, htokens⟩ := hw
  induction tokens generalizing v with
  | nil =>
    cases htokens
    obtain ⟨tokens, htokens⟩ := hu
    refine ⟨tokens, [], ?_⟩
    rw [htokens.eq_extend, List.append_nil]
    rfl
  | cons token rest ih =>
    cases htokens with
    | step hstep hrest =>
      cases hstep with
      | scan hnext =>
        rcases hu.cases with rfl | ⟨token', lexer', hnext', hu', -⟩
        · refine ⟨[], token :: rest, ?_⟩
          rw [hrest.eq_extend]
          simp [extend]
        · rw [hnext] at hnext'
          cases hnext'
          exact ih hu' hrest

/-- **Where no arrow can follow**, the sight does not begin with names and an arrow. -/
theorem Scans.not_begins (h : v.Scans w) (hnone : ∀ more, Parser.targetNames? (w.ahead ++ more) = none)
    {targets : List Token} {names : List String} {arrow : Token} (htargets : Grammar.Names targets names)
    (harrow : arrow.kind = .assignment) : ¬ v.Begins (targets ++ [arrow]) := by
  rintro ⟨x, hx⟩
  obtain ⟨u, hu, hahead⟩ := hx.scans
  obtain ⟨more, more', hmore⟩ := h.comparable hu
  have hfound := (Parser.targetNames?_append htargets (x.ahead ++ more')).2 harrow
  have hnot := hnone more
  rw [hmore, hahead] at hnot
  simp only [List.append_assoc, List.cons_append, List.nil_append] at hnot
  rw [hfound] at hnot
  cases hnot

/-- The names in front of the arrow are determined. -/
theorem Begins.names_eq {targets targets' : List Token} {names names' : List String} {arrow arrow' : Token}
    (h : v.Begins (targets ++ [arrow])) (htargets : Grammar.Names targets names) (harrow : arrow.kind = .assignment)
    (h' : v.Begins (targets' ++ [arrow'])) (htargets' : Grammar.Names targets' names')
    (harrow' : arrow'.kind = .assignment) : names = names' := by
  obtain ⟨x, hx⟩ := h
  obtain ⟨x', hx'⟩ := h'
  obtain ⟨u, hu, hahead⟩ := hx.scans
  obtain ⟨u', hu', hahead'⟩ := hx'.scans
  obtain ⟨more, more', hmore⟩ := hu.comparable hu'
  have hfound := (Parser.targetNames?_append htargets (x.ahead ++ more)).2 harrow
  have hfound' := (Parser.targetNames?_append htargets' (x'.ahead ++ more')).2 harrow'
  rw [hahead, hahead'] at hmore
  simp only [List.append_assoc, List.cons_append, List.nil_append] at hmore
  rw [hmore, hfound'] at hfound
  exact (Option.some.inj hfound).symm

end Sight

/-! ### The attempt -/

namespace Parser

open Session

variable {σ : Type} [Source σ Char] {s t u : Session σ} {v w : Sight σ}

/-- Where the scan stops without an arrow, no further tokens could make it one: what it stopped at is in view or
has been taken. -/
theorem tryTargets_rules_out (h : s.Sees v) :
    Reads v (fun found tokens w => found = none → ∀ more, targetNames? (tokens ++ (w.ahead ++ more)) = none)
      (tryTargets s) := by
  refine Reads.iterate (I := fun _ tokens _ =>
    ∀ rest, targetNames? rest = none → targetNames? (tokens ++ rest) = none) h (fun _ hrest => hrest) ?_
  intro names tokens w t₁ _ hsees₁ hbehind
  refine (peekKind_reads hsees₁).bind ?_
  rintro _ t₂ _ w₂ - hsees₂ ⟨rfl, ⟨token, rest, hrest, rfl⟩, -⟩
  split
  · next hname =>
    refine (consume_known hsees₂ hrest).bind ?_
    rintro _ t₃ _ w₃ - hsees₃ ⟨rfl, rfl, -⟩
    refine (accept_reads hsees₃ _).bind ?_
    intro more t₄ _ w₄ hpasses₄ hsees₄ haccepted
    cases more with
    | true =>
      obtain ⟨separator, rfl, hseparator, -⟩ := haccepted
      refine .pure hsees₄ fun rest' hrest' => ?_
      rw [List.append_assoc]
      refine hbehind _ ?_
      show targetNames? (token :: separator :: rest') = none
      rw [targetNames?_more hname hseparator, hrest']
      rfl
    | false =>
      obtain ⟨rfl, ⟨next, rest₄, hrest₄, hseparator⟩, -⟩ := haccepted
      refine (accept_reads hsees₄ _).bind ?_
      intro ended t₅ _ w₅ hpasses₅ hsees₅ haccepted'
      cases ended with
      | true => exact .pure hsees₅ nofun
      | false =>
        obtain ⟨rfl, ⟨next', rest₅, hrest₅, harrow⟩, -⟩ := haccepted'
        obtain rfl : next' = next := by
          have hhead := hpasses₅.head_eq hrest₄
          rw [hrest₅] at hhead
          exact Option.some.inj hhead
        refine .pure hsees₅ fun _ more => ?_
        rw [hrest₅, List.append_assoc]
        exact hbehind _ (targetNames?_of_other hseparator harrow)
  · next hname =>
    refine .pure hsees₂ fun _ more => ?_
    rw [hrest, List.append_assoc]
    exact hbehind _ (targetNames?_of_not_name hname)

/-- **Without targets** nothing has been taken, and what has been scanned rules them out. -/
theorem assignmentTargets_rules_out (h : t.Sees v) (hr : assignmentTargets t = .ok none u) :
    ∃ w, v.Scans w ∧ u.Sees w ∧ ∀ more, targetNames? (w.ahead ++ more) = none := by
  obtain ⟨c, hmark, hc⟩ := Cursor.Sees.mark h
  unfold assignmentTargets at hr
  rw [Run.bind_apply, onTokens_ok hmark] at hr
  dsimp only at hr
  rw [Run.bind_apply] at hr
  have htry := tryTargets_rules_out (s := { t with tokens := c }) hc
  cases hfound : tryTargets { t with tokens := c } with
  | error e t' =>
    rw [hfound] at hr
    cases hr
  | ok found t' =>
    rw [hfound] at hr htry
    obtain ⟨tokens, x, ⟨es, hes, hquiet, rfl⟩, hsees, hnone⟩ := htry
    cases found with
    | some names =>
      obtain ⟨c', hcommit, -⟩ := Cursor.Sees.commit hsees hes.marked
      dsimp only at hr
      rw [Run.bind_apply, onTokens_ok hcommit] at hr
      cases hr
    | none =>
      obtain ⟨c', hrollback, hc'⟩ := Cursor.Sees.rollback hsees hes.marked
      dsimp only at hr
      rw [Run.bind_apply, onTokens_ok hrollback] at hr
      cases hr
      have hahead : (v.extend (scannedIn es) x.lexer).ahead = takenIn es ++ x.ahead := hes.ahead
      refine ⟨v.extend (scannedIn es) x.lexer, ⟨scannedIn es, ?_⟩, hc', fun more => ?_⟩
      · rw [← Sight.untaken_of_quiet hquiet]
        exact hes.untaken v rfl
      · rw [hahead, List.append_assoc]
        exact hnone rfl more

/-! ### The statement -/

/-- An assignment to these names, from the expression behind the arrow on. -/
def assignTo (names : List String) : Run (Session σ) Statement := do
  let targets ← names.mapM fun name => tell (.useSignal name)
  let value ← expression
  tell (.assign targets value)
  return .assignment targets value

theorem assignmentOrExpression_eq : (assignmentOrExpression : Run (Session σ) Statement) = (do
    match ← assignmentTargets with
    | some names => assignTo names
    | none => Statement.expression <$> expression) := by
  unfold assignmentOrExpression assignTo
  refine congrArg (assignmentTargets >>= ·) (funext fun found => ?_)
  cases found with
  | some names => rfl
  | none => rw [map_eq_pure_bind]

/-- A statement that does not begin with a reserved word is an assignment or an expression. -/
theorem statementBy_of_free {kind : Token.Kind} (read : Run (Session σ) Statement) (hkind : peekKind s = .ok kind t)
    (hfree : kind ∉ [.define, .instantiate, .signal, .bus]) : statementBy read s = assignmentOrExpression t := by
  unfold statementBy
  rw [Run.bind_apply, hkind]
  cases kind with
  | define | instantiate | signal | bus => simp at hfree
  | _ => rfl

/-- What the attempt to read targets has come to behind `t`, which has `v` before it: the netlist has not been told
of it, no mark is outstanding, and names have been found if and only if an arrow is behind them. -/
structure Tried (v : Sight σ) (t : Session σ) (found : Option (List String)) (u : Session σ) : Prop where
  netlist : u.netlist = t.netlist
  calls : u.calls = t.calls
  unmarked : u.Unmarked
  found_iff (names : List String) : found = some names ↔ ∃ targets arrow, Grammar.Names targets names ∧
    arrow.kind = .assignment ∧ v.Begins (targets ++ [arrow])

/-- The computation does the same from both sessions, of which the second one has scanned further: it has the same
answer or, but for the contexts of messages, the same error, behind the same calls and the same tokens. Where the
end of the input has a role, one of them may go on for ever. -/
def Indifferent {β : Type} (d : Lexer.Dialect) (v w : Sight σ) (x : Run (Session σ) β) (t u : Session σ) : Prop :=
  Run.Meet (Session.lagging (fun e => e = .stalled ∧ ¬ d.Plain) v w) (fun _ => Session.Lags v w 0) (x t) (x u)

variable {I : Nat → σ → Prop} {d : Lexer.Dialect}

/-- **An expression is read as if nothing had been tried.** -/
theorem expression_indifferent (hI : Ebbs I) (hσ : Source.Troubled σ) (hv : t.Sees v) (hm : v.marked = [])
    (hsecure : v.Secure I d) (hscans : v.Scans w) (hw : u.Sees w) (hnetlist : u.netlist = t.netlist)
    (hcalls : u.calls = t.calls) (hnarrow : u.tokens.narrow = t.tokens.narrow) :
    Indifferent d v w expression t u := by
  have hlags : Session.Lags v w 0 t u :=
    ⟨hnetlist, hcalls, hnarrow, [], v, w, .refl v, .refl w, hv, hw, hscans, hm, Nat.zero_le _⟩
  obtain ⟨tokens, htokens⟩ := hscans
  have hends := expression_survives hI hv hsecure
  have hends' := expression_survives hI hw (htokens.secure hI hsecure)
  have hplain : ∀ {e : Failure}, e.Orderly d → e = .stalled → e = .stalled ∧ ¬ d.Plain := by
    rintro e (⟨error, rfl⟩ | h) he
    · cases he
    · exact h
  refine (expression_lags hσ v w t u hlags).carry (fun e x y hx hy h => ?_) (fun e e' x y hx hy h => ?_)
    (fun e x hx he => ?_) fun e y hy he => ?_
  · unfold Indifferent
    rw [hx, hy]
    exact .answer h
  · unfold Indifferent
    rw [hx, hy]
    exact .failure h
  · unfold Indifferent
    rw [hx]
    exact .first (hplain (hends.of_error hx).1 he)
  · unfold Indifferent
    rw [hy]
    exact .second (hplain (hends'.of_error hy).1 he)

/-- What is made of an answer is the same, too. -/
theorem Indifferent.map {β γ : Type} {x : Run (Session σ) β} (h : Indifferent d v w x t u) (f : β → γ) :
    Indifferent d v w (f <$> x) t u := by
  unfold Indifferent at h ⊢
  rw [map_eq_pure_bind, Run.bind_apply, Run.bind_apply]
  generalize x t = r at h
  generalize x u = r' at h
  cases h with
  | answer h => exact .answer h
  | failure h => exact .failure h
  | first h => exact .first h
  | second h => exact .second h

/-- **The attempt**, from an undisturbed session. -/
theorem assignmentTargets_exact (hI : Ebbs I) (hσ : Source.Troubled σ) (h : Undisturbed I d t) :
    ∃ v, t.Sees v ∧ Run.Ends
      (fun found u => Tried v t found u ∧ match found with
        | some names => ∃ targets arrow w, Grammar.Names targets names ∧ arrow.kind = .assignment ∧
            v.Passes (targets ++ [arrow]) w ∧ u.Sees w
        | none => ∃ w, v.Scans w ∧ u.Sees w ∧ Indifferent d v w expression t u)
      (fun e _ => (∃ error, e = .error error ∧ error.ofReading = true) ∨ e = .stalled ∧ ¬ d.Plain)
      (assignmentTargets t) := by
  obtain ⟨v, hv, hm, hsecure⟩ := h.exists_sight hI hσ
  refine ⟨v, hv, ?_⟩
  have huntouched : t.Untouched t.netlist t.calls [] t.tokens.narrow := ⟨rfl, rfl, hv.marks_eq_nil.2 hm, rfl⟩
  have hspares := assignmentTargets_spares hσ t huntouched
  have hsurvives := assignmentTargets_survives hI hv hsecure
  have hreads := assignmentTargets_reads hv
  cases hr : assignmentTargets t with
  | error e u =>
    rcases (hsurvives.of_error hr).1 with ⟨error, rfl⟩ | hstalled
    · exact .inl ⟨error, rfl, hspares.of_error hr error rfl⟩
    · exact .inr hstalled
  | ok found u =>
    obtain ⟨hnetlist, hcalls, hunmarked, hnarrow⟩ := hspares.of_ok hr
    cases found with
    | some names =>
      obtain ⟨tokens, w, hpasses, hw, ⟨targets, arrow, rfl, htargets, harrow⟩, -⟩ := hreads.of_ok hr
      refine ⟨⟨hnetlist, hcalls, hunmarked, fun names' => ⟨?_, ?_⟩⟩, targets, arrow, w, htargets, harrow, hpasses, hw⟩
      · intro hsame
        cases hsame
        exact ⟨targets, arrow, htargets, harrow, w, hpasses⟩
      · rintro ⟨targets', arrow', htargets', harrow', hbegins'⟩
        have hbegins : v.Begins (targets ++ [arrow]) := ⟨w, hpasses⟩
        rw [hbegins.names_eq htargets harrow hbegins' htargets' harrow']
    | none =>
      obtain ⟨w, hscans, hw, hnone⟩ := assignmentTargets_rules_out hv hr
      refine ⟨⟨hnetlist, hcalls, hunmarked, fun names => ⟨nofun, ?_⟩⟩, w, hscans, hw,
        expression_indifferent hI hσ hv hm hsecure hscans hw hnetlist hcalls hnarrow⟩
      rintro ⟨targets, arrow, htargets, harrow, hbegins⟩
      exact absurd hbegins (hscans.not_begins hnone htargets harrow)

/-- **Trying for targets is exact and leaves no trace.** From a session in which source, buffers and lexer have
reported no error, a statement is read whose first token is not a reserved word. Unless one of them reports an error
while targets are tried for (or the end of the input has a role, and the names do not end), the netlist has not been
told of the attempt and no mark is outstanding behind it. The statement is an assignment if and only if its tokens
begin with names, single separators between them and an arrow behind them: then exactly these have been taken, and
the expression is read from there on. Otherwise nothing has been taken, and an expression is read as it would have
been without the attempt. -/
theorem assignment_speculation_exact {s t : Session (Paced Feed)} {d : Lexer.Dialect} {kind : Token.Kind}
    (h : Undisturbed Remaining d s) (hkind : peekKind s = .ok kind t)
    (hfree : kind ∉ [.define, .instantiate, .signal, .bus]) (read : Run (Session (Paced Feed)) Statement) :
    ∃ v, t.Sees v ∧ Run.Ends
      (fun found u => Tried v t found u ∧ match found with
        | some names => (∃ targets arrow w, Grammar.Names targets names ∧ arrow.kind = .assignment ∧
            v.Passes (targets ++ [arrow]) w ∧ u.Sees w) ∧ statementBy read s = assignTo names u
        | none => ∃ w, v.Scans w ∧ u.Sees w ∧ statementBy read s = (Statement.expression <$> expression) u ∧
            Indifferent d v w (Statement.expression <$> expression) t u)
      (fun e u => statementBy read s = .error e u ∧
        ((∃ error, e = .error error ∧ error.ofReading = true) ∨ e = .stalled ∧ ¬ d.Plain))
      (assignmentTargets t) := by
  have hσ : Source.Troubled (Paced Feed) := Paced.troubled Feed.troubled
  obtain ⟨v₀, hv₀, -⟩ := h.exists_sight Paced.ebbs hσ
  obtain ⟨_, w₀, ⟨es, hes, -⟩, hw₀, -⟩ := (peekKind_reads hv₀).of_ok hkind
  obtain ⟨v, hv, hends⟩ := assignmentTargets_exact Paced.ebbs hσ (h.inside hv₀ hes hw₀)
  have hstatement := statementBy_of_free read hkind hfree
  rw [assignmentOrExpression_eq, Run.bind_apply] at hstatement
  refine ⟨v, hv, ?_⟩
  cases hr : assignmentTargets t with
  | error e u =>
    rw [hr] at hstatement
    exact ⟨hstatement, hends.of_error hr⟩
  | ok found u =>
    rw [hr] at hstatement
    cases found with
    | some names =>
      obtain ⟨htried, hfound⟩ := hends.of_ok hr
      exact ⟨htried, hfound, hstatement⟩
    | none =>
      obtain ⟨htried, w, hscans, hw, hindifferent⟩ := hends.of_ok hr
      exact ⟨htried, w, hscans, hw, hstatement, hindifferent.map _⟩

/-- Whether the netlist has refused what it was told. -/
def refused {β : Type} : EStateM.Result Failure (Session σ) β → Bool
  | .error (.error (.build _)) _ => true
  | _ => false

omit [Source σ Char] in
theorem exists_of_refused {β : Type} {r : EStateM.Result Failure (Session σ) β} (h : refused r = true) :
    ∃ e, r = .error (.error (.build e)) (Run.leaves r) := by
  unfold refused at h
  split at h
  · exact ⟨_, rfl⟩
  · cases h

/-- A session on a bus and an assignment to it, with more text behind the arrow. -/
def drivingBus (rest : String) : Session (Paced Feed) :=
  Session.ofSource ⟨.text (.ofText ("bus b; b <- " ++ rest)), none⟩ {} .standard

/-- The session whose netlist has refused to drive the bus. -/
def behindRefusal (rest : String) : Session (Paced Feed) :=
  Run.leaves (parseStatement (Run.leaves (parseStatement (drivingBus rest))))

theorem undisturbed_behindRefusal (rest : String)
    (hfirst : (Run.answer? (parseStatement (drivingBus rest))).isSome = true)
    (hsecond : refused (parseStatement (Run.leaves (parseStatement (drivingBus rest)))) = true) :
    Undisturbed Remaining {} (behindRefusal rest) := by
  have hstart : Undisturbed Remaining {} (drivingBus rest) := .start ⟨rfl, Nat.le_refl _⟩ .standard
  obtain ⟨e, hrefused⟩ := exists_of_refused hsecond
  exact (hstart.parsed (Run.eq_ok_of_isSome hfirst)).failed hrefused rfl

theorem exists_attempt (rest : String) (found : Option (List String))
    (hkind : Run.answer? (peekKind (behindRefusal rest)) = some .identifier)
    (hfound : Run.answer? (assignmentTargets (Run.leaves (peekKind (behindRefusal rest)))) = some found) :
    ∃ t u, peekKind (behindRefusal rest) = .ok .identifier t ∧ assignmentTargets t = .ok found u :=
  ⟨_, _, Run.eq_ok_of_answer? hkind, Run.eq_ok_of_answer? hfound⟩

/-- Two names in front of an arrow, and two names without one. -/
theorem assignment_speculation_exact_behind_refusal :
    (∃ (t u : Session (Paced Feed)) (v w : Sight (Paced Feed)),
      Undisturbed Remaining {} (behindRefusal "x, y <- a") ∧ peekKind (behindRefusal "x, y <- a") = .ok .identifier t ∧
      t.Sees v ∧ Tried v t (some ["x", "y"]) u ∧ u.Sees w ∧
      statementBy (statement 1) (behindRefusal "x, y <- a") = assignTo ["x", "y"] u) ∧
    ∃ (t u : Session (Paced Feed)) (v w : Sight (Paced Feed)),
      Undisturbed Remaining {} (behindRefusal "x, y + a") ∧ peekKind (behindRefusal "x, y + a") = .ok .identifier t ∧
      t.Sees v ∧ Tried v t none u ∧ u.Sees w ∧ Indifferent {} v w (Statement.expression <$> expression) t u := by
  have hassigns := undisturbed_behindRefusal "x, y <- a" (by decide +kernel) (by decide +kernel)
  have hexpression := undisturbed_behindRefusal "x, y + a" (by decide +kernel) (by decide +kernel)
  obtain ⟨t, u, hkind, htargets⟩ := exists_attempt "x, y <- a" (some ["x", "y"]) (by decide +kernel)
    (by decide +kernel)
  obtain ⟨t', u', hkind', htargets'⟩ := exists_attempt "x, y + a" none (by decide +kernel)
    (by decide +kernel)
  obtain ⟨v, hv, hends⟩ := assignment_speculation_exact hassigns hkind (by decide) (statement 1)
  obtain ⟨v', hv', hends'⟩ := assignment_speculation_exact hexpression hkind' (by decide) (statement 1)
  obtain ⟨htried, ⟨-, -, w, -, -, -, hw⟩, hstatement⟩ := hends.of_ok htargets
  obtain ⟨htried', w', -, hw', -, hindifferent⟩ := hends'.of_ok htargets'
  exact ⟨⟨t, u, v, w, hassigns, hkind, hv, htried, hw, hstatement⟩,
    t', u', v', w', hexpression, hkind', hv', htried', hw', hindifferent⟩

end Parser

end Dataflow
