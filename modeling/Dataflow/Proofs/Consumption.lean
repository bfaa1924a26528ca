import Dataflow.Proofs.Sentences

/-!
# Dataflow.Proofs.Consumption

**What a statement consumes, and where it stops.** `parseStatement` takes executors, the tokens of one
sentence of the grammar, and the executor that ends it, if there is one
(`sentence_of_parseStatement`). As long as nothing has failed, nothing but these tokens has been scanned
when the statement is returned — or the first token for the end of the input, once
(`scanned_of_parseStatement`). So what is registered between two statements, or by a definition, counts
for all that comes behind it in the text.

* `Reached` — a session at any time, also behind errors and on a further source;
* `Ongoing` — a session on a source since whose start nothing has failed.
-/

namespace Dataflow

open Reading Circuit Session Grammar

namespace Parser

variable {σ : Type} [Source σ Char] {s t : Session σ} {v w : Sight σ}

/-! ### One statement -/

/-- What stands behind a sentence: the executor that ends it, which has been taken, or the end of the
input, which has only been looked at. -/
def Closes (ending : List Token) (w : Sight σ) : Prop :=
  (∃ executor, ending = [executor] ∧ executor.kind = .executor) ∨
    ending = [] ∧ ∃ last rest, w.ahead = last :: rest ∧ last.kind = .endOfFile

/-- The events of a call. -/
def Consumes (v : Sight σ) (reply : Option Statement) (es : List Event) (w : Sight σ) : Prop :=
  match reply with
  | none => (∀ token ∈ takenIn es, token.kind = .executor) ∧
    (∃ last rest, w.ahead = last :: rest ∧ last.kind = .endOfFile) ∧
    (v.ahead.length ≤ 1 → Prompt v.ahead es ∧ w.ahead.length ≤ 1)
  | some _ => ∃ leading tokens ending, takenIn es = leading ++ tokens ++ ending ∧
    (∀ token ∈ leading, token.kind = .executor) ∧
    Sentence .statement v.lexer.table tokens w.lexer.table ∧ Closes ending w ∧
    (v.ahead.length ≤ 1 → Prompt v.ahead es ∧ w.ahead.length + ending.length ≤ 1)

/-- **A statement and its end**, or the end of the input. -/
theorem parseStatement_logs (h : s.Sees v) :
    Logs v (Timely v) (Consumes v) (parseStatement s) := by
  refine (skip_reads h .executor).logs_bind (.quiet rfl) ?_
  rintro ⟨⟩ t₁ es₁ w₁ hes₁ hquiet₁ hsees₁ ⟨hleading, -, hlength₁⟩
  refine (peekKind_reads hsees₁).logs_bind (.quiet (by simp [hquiet₁])) ?_
  rintro _ t₂ es₂ w₂ hes₂ hquiet₂ hsees₂ ⟨htaken₂, ⟨token, rest, hrest, rfl⟩, hlength₂⟩
  split
  · next hend =>
    refine ⟨[], w₂, .refl w₂, hsees₂, ?_, ⟨token, rest, hrest, hend⟩, fun hshort => ⟨?_, by omega⟩⟩
    · simpa [htaken₂] using hleading
    · exact .quiet (by simp [hquiet₁, hquiet₂])
  rw [Run.bind_apply, Run.get_apply]
  have htable : w₂.lexer.table = v.lexer.table := (hes₂.table_eq hquiet₂).trans (hes₁.table_eq hquiet₁)
  -- Only the statement registers operators, and so it has to be prompt by itself.
  have hfront : ∀ es₃, (w₂.ahead.length ≤ 1 → Prompt w₂.ahead es₃) → Timely v (es₁ ++ (es₂ ++ es₃)) :=
    fun es₃ hprompt hshort => (Prompt.quiet hquiet₁).append hes₁ ((Prompt.quiet hquiet₂).append hes₂
      (hprompt (by omega)))
  refine (statement_states _ t₂ w₂ hsees₂).bind hfront ?_
  rintro statement t₃ es₃ w₃ hes₃ hsees₃ ⟨hsentence, hprompt⟩
  rw [htable] at hsentence
  have htimely : ∀ fs, registeredIn fs = [] → Timely v (es₁ ++ (es₂ ++ (es₃ ++ fs))) :=
    fun fs hquiet => hfront _ fun hshort => (hprompt hshort).1.quietly hes₃ hquiet
  have hhalted : v.ahead.length ≤ 1 → Halted w₃ := fun hshort => (hprompt (by omega)).2
  refine (accept_reads hsees₃ _).logs_bind (htimely _ rfl) ?_
  rintro (_ | _) t₄ es₄ w₄ hes₄ hquiet₄ hsees₄ haccepted
  · obtain ⟨htaken₄, -, hlength₄⟩ := haccepted
    refine (peekKind_reads hsees₄).logs_bind (htimely _ (by simp [hquiet₄])) ?_
    rintro _ t₅ es₅ w₅ hes₅ hquiet₅ hsees₅ ⟨htaken₅, ⟨last, rest₅, hrest₅, rfl⟩, hlength₅⟩
    split
    · next hend =>
      refine ⟨[], w₅, .refl w₅, hsees₅, takenIn es₁, takenIn es₃, [], ?_, hleading, ?_,
        .inr ⟨rfl, last, rest₅, hrest₅, hend⟩, fun hshort => ⟨?_, ?_⟩⟩
      · simp [htaken₂, htaken₄, htaken₅]
      · rw [hes₅.table_eq hquiet₅, hes₄.table_eq hquiet₄]
        exact hsentence
      · simpa using htimely (es₄ ++ es₅) (by simp [hquiet₄, hquiet₅]) hshort
      · have hhalted₄ := (hhalted hshort).of_passes ⟨es₄, hes₄, hquiet₄, htaken₄⟩ hlength₄
        have hhalted₅ := hhalted₄.of_passes ⟨es₅, hes₅, hquiet₅, htaken₅⟩ hlength₅
        have hhead : ∀ first ∈ w₅.ahead.head?, first = last := by
          intro first hfirst
          rw [hrest₅] at hfirst
          exact (Option.some.inj hfirst).symm
        exact hhalted₅.length_le hhead (by simp [hend])
    · exact (mismatch_reads (Q := fun _ _ _ => False) hsees₅ _).logs
        (htimely _ (by simp [hquiet₄, hquiet₅])) fun _ _ _ _ _ => False.elim
  · obtain ⟨executor, htaken₄, hexecutor, hahead₄, hhead₄⟩ := haccepted
    refine ⟨[], w₄, .refl w₄, hsees₄, takenIn es₁, takenIn es₃, [executor], ?_, hleading, ?_,
      .inl ⟨executor, rfl, hexecutor⟩, fun hshort => ⟨?_, ?_⟩⟩
    · simp [htaken₂, htaken₄]
    · rw [hes₄.table_eq hquiet₄]
      exact hsentence
    · simpa using htimely es₄ hquiet₄ hshort
    · have := (hhalted hshort).length_le hhead₄ (by simp [hexecutor])
      rw [hahead₄, List.length_tail]
      simp only [List.length_singleton]
      omega

/-! ### Sessions -/

/-- A session that has come about in whatever way: statements have been parsed or have failed, other
netlists have been told of them, operators have been added, and other sources begun. -/
inductive Reached : Session σ → Prop
  | start (source : σ) (dialect : Lexer.Dialect) (table : Operator.Table) :
    Reached (Session.ofSource source dialect table)
  | parsed {s t : Session σ} {reply : Option Statement} (h : Reached s)
    (hparse : parseStatement s = .ok reply t) : Reached t
  | failed {s t : Session σ} {e : Failure} (h : Reached s) (hparse : parseStatement s = .error e t) :
    Reached t
  | told {s : Session σ} (h : Reached s) (netlist : Netlist) : Reached { s with netlist }
  | inserted {s : Session σ} (h : Reached s) (op : Operator) : Reached (s.insertOperator op)
  | restarted {s : Session σ} (h : Reached s) (source : σ) (table : Operator.Table) :
    Reached (s.reset source table)

theorem Reached.exists_sees (h : Reached s) : ∃ v, s.Sees v := by
  induction h with
  | start source dialect table => exact ⟨_, Cursor.sees_ofSource _ _⟩
  | parsed h hparse ih =>
    obtain ⟨v, hv⟩ := ih
    obtain ⟨es, w, -, hw, -⟩ := (parseStatement_logs hv).of_ok hparse
    exact ⟨w, hw⟩
  | failed h hparse ih =>
    obtain ⟨v, hv⟩ := ih
    obtain ⟨es, u, -, ⟨w, hw, -⟩, -⟩ := (parseStatement_logs hv).of_error hparse
    exact ⟨w, hw⟩
  | told h netlist ih => exact ih
  | inserted h op ih =>
    obtain ⟨v, hv⟩ := ih
    exact ⟨_, hv.register op⟩
  | restarted h source table ih =>
    obtain ⟨v, hv⟩ := ih
    exact ⟨_, hv.reset _⟩

/-- **Only sentences are accepted.** Whatever a parser has been through, a statement that it returns has
taken executors, the tokens of a sentence of the grammar, and the executor that ends it unless the input
does. The sentence leads from the operators known before it to those known behind it. Its brackets are
properly nested, its separators stand between items, and the end of the input is never taken. -/
theorem sentence_of_parseStatement {statement : Statement} (hs : Reached s)
    (h : parseStatement s = .ok (some statement) t) :
    ∃ v es w leading tokens ending, s.Sees v ∧ v.Becomes es w ∧ t.Sees w ∧
      takenIn es = leading ++ tokens ++ ending ∧ (∀ token ∈ leading, token.kind = .executor) ∧
      Closes ending w ∧ Sentence .statement s.table tokens t.table ∧ Nested tokens ∧ Ordered tokens ∧
      ∀ token ∈ takenIn es, token.kind ≠ .endOfFile := by
  obtain ⟨v, hv⟩ := hs.exists_sees
  obtain ⟨es, w, hes, hw, leading, tokens, ending, htaken, hleading, hsentence, hcloses, -⟩ :=
    (parseStatement_logs hv).of_ok h
  have hsolid := hsentence.solid
  rw [← hv.table_eq, ← hw.table_eq] at hsentence
  refine ⟨v, es, w, leading, tokens, ending, hv, hes, hw, htaken, hleading, hcloses, hsentence,
    hsolid.nested, hsolid.ordered, ?_⟩
  intro token htoken
  rw [htaken, List.mem_append, List.mem_append] at htoken
  rcases htoken with (htoken | htoken) | htoken
  · simp [hleading token htoken]
  · exact hsolid.ordered.inside token htoken
  · rcases hcloses with ⟨executor, rfl, hexecutor⟩ | ⟨rfl, -⟩
    · rw [List.mem_singleton.1 htoken]
      simp [hexecutor]
    · cases htoken

/-- A statement with brackets, separators, a call, and the operator that the one before it defines. -/
theorem sentence_of_use_behind_definition : ∃ (s t : Session (Items Char)) (v w : Sight (Items Char))
    (es : List Event) (leading tokens ending : List Token), Reached s ∧
      parseStatement s = .ok (some (.assignment [.signal "y", .signal "z"] (.apply "Percent"
        [.apply "mix" [.group .vector [.integer "1", .integer "2"], .signal "b"]]))) t ∧
      s.Sees v ∧ v.Becomes es w ∧ t.Sees w ∧ takenIn es = leading ++ tokens ++ ending ∧
      Sentence .statement s.table tokens t.table ∧ Nested tokens ∧ Ordered tokens := by
  have hfirst := Run.eq_ok_of_answer? (r := parseStatement (Session.ofSource (Items.ofText
    "define entity Percent % postfix ;y, z <- mix([1, 2], b) % ; q") {} .standard))
    (a := some (.entity ⟨"Percent", "%", .postfixOp, 0, [], [], []⟩)) (by decide +kernel)
  have hsecond := Run.eq_ok_of_answer? (r := parseStatement (Run.leaves (parseStatement
    (Session.ofSource (Items.ofText "define entity Percent % postfix ;y, z <- mix([1, 2], b) % ; q") {}
      .standard))))
    (a := some (.assignment [.signal "y", .signal "z"] (.apply "Percent"
      [.apply "mix" [.group .vector [.integer "1", .integer "2"], .signal "b"]]))) (by decide +kernel)
  have hreached := (Reached.start _ _ _).parsed hfirst
  obtain ⟨v, es, w, leading, tokens, ending, hv, hes, hw, htaken, -, -, hsentence, hnested, hordered, -⟩ :=
    sentence_of_parseStatement hreached hsecond
  exact ⟨_, _, v, w, es, leading, tokens, ending, hreached, hsecond, hv, hes, hw, htaken, hsentence,
    hnested, hordered⟩

/-! ### Nothing is read past a statement -/

/-- A session that has begun with a source, a dialect and operators, and in which nothing has failed
since. -/
inductive Ongoing : σ → Lexer.Dialect → Operator.Table → Session σ → Prop
  | start (source : σ) (dialect : Lexer.Dialect) (table : Operator.Table) :
    Ongoing source dialect table (Session.ofSource source dialect table)
  | restarted {s : Session σ} (h : Reached s) (source : σ) (table : Operator.Table) :
    Ongoing source s.lexer.dialect table (s.reset source table)
  | parsed {source : σ} {dialect : Lexer.Dialect} {table : Operator.Table} {s t : Session σ}
    {reply : Option Statement} (h : Ongoing source dialect table s)
    (hparse : parseStatement s = .ok reply t) : Ongoing source dialect table t
  | told {source : σ} {dialect : Lexer.Dialect} {table : Operator.Table} {s : Session σ}
    (h : Ongoing source dialect table s) (netlist : Netlist) :
    Ongoing source dialect table { s with netlist }
  | inserted {source : σ} {dialect : Lexer.Dialect} {table : Operator.Table} {s : Session σ}
    (h : Ongoing source dialect table s) (op : Operator) :
    Ongoing source dialect table (s.insertOperator op)

/-- The tokens that have been scanned are those that have been taken, up to an executor, or one token for
the end of the input comes behind them. -/
def Exact (es : List Event) : Prop :=
  (∀ token ∈ takenIn es, token.kind ≠ .endOfFile) ∧
    ((scannedIn es = takenIn es ∧ ∃ front executor, takenIn es = front ++ [executor] ∧
        executor.kind = .executor) ∨
      ∃ last, scannedIn es = takenIn es ++ [last] ∧ last.kind = .endOfFile)

/-- Every token has been scanned with the operators from the beginning and those that had been
registered by then, by a lexer that goes on where it stopped at the token before. -/
def Governed (v : Sight σ) (es : List Event) (w : Sight σ) : Prop :=
  ∀ before token behind, es = before ++ .scanned token :: behind → ∃ u u' : Sight σ, v.Becomes before u ∧
    u.lexer.table = v.lexer.table.insertAll (registeredIn before) ∧
    Lexer.next u.lexer = .ok token u'.lexer ∧ u'.Becomes behind w

theorem governed {es : List Event} (h : v.Becomes es w) : Governed v es w := by
  rintro before token behind rfl
  obtain ⟨u, hbefore, hbehind⟩ := h.split
  cases hbehind with
  | step hstep hrest =>
    cases hstep with
    | scan hnext => exact ⟨u, _, hbefore, hbefore.table, hnext, hrest⟩

/-- Between two statements nothing is in view, or the token for the end. -/
def Between (past : List Event) (v : Sight σ) : Prop :=
  (∀ token ∈ takenIn past, token.kind ≠ .endOfFile) ∧
    (v.ahead = [] ∨ ∃ last, v.ahead = [last] ∧ last.kind = .endOfFile)

omit [Source σ Char] in
theorem Between.length_le {past : List Event} (h : Between past v) : v.ahead.length ≤ 1 := by
  rcases h.2 with hempty | ⟨last, hlast, -⟩
  · simp [hempty]
  · simp [hlast]

omit [Source σ Char] in
theorem eq_of_head {last : Token} {rest : List Token} (h : w.ahead = last :: rest)
    (hshort : w.ahead.length ≤ 1) : w.ahead = [last] := by
  rw [h, List.length_cons] at hshort
  rw [h, List.eq_nil_of_length_eq_zero (by omega : rest.length = 0)]

omit [Source σ Char] in
/-- What a call keeps between the statements. -/
theorem Between.consumes {past now : List Event} {reply : Option Statement} (h : Between past v)
    (hnow : Consumes v reply now w) : Between (past ++ now) w := by
  have hend : ∀ tokens ending, Sentence .statement v.lexer.table tokens w.lexer.table → Closes ending w →
      ∀ token ∈ tokens ++ ending, token.kind ≠ .endOfFile := by
    intro tokens ending hsentence hcloses token htoken
    rcases List.mem_append.1 htoken with htoken | htoken
    · exact hsentence.solid.ordered.inside token htoken
    · rcases hcloses with ⟨executor, rfl, hexecutor⟩ | ⟨rfl, -⟩
      · rw [List.mem_singleton.1 htoken]
        simp [hexecutor]
      · cases htoken
  refine ⟨fun token htoken => ?_, ?_⟩
  · rw [takenIn_append, List.mem_append] at htoken
    rcases htoken with htoken | htoken
    · exact h.1 token htoken
    · cases reply with
      | none => simp [hnow.1 token htoken]
      | some statement =>
        obtain ⟨leading, tokens, ending, htaken, hleading, hsentence, hcloses, -⟩ := hnow
        rw [htaken, List.append_assoc, List.mem_append] at htoken
        rcases htoken with htoken | htoken
        · simp [hleading token htoken]
        · exact hend tokens ending hsentence hcloses token htoken
  · cases reply with
    | none =>
      obtain ⟨-, ⟨last, rest, hrest, hlast⟩, hshort⟩ := hnow
      exact .inr ⟨last, eq_of_head hrest (hshort h.length_le).2, hlast⟩
    | some statement =>
      obtain ⟨leading, tokens, ending, -, -, -, hcloses, hshort⟩ := hnow
      have hlength := (hshort h.length_le).2
      rcases hcloses with ⟨executor, rfl, -⟩ | ⟨rfl, last, rest, hrest, hlast⟩
      · exact .inl (List.eq_nil_of_length_eq_zero (by simp only [List.length_singleton] at hlength; omega))
      · exact .inr ⟨last, eq_of_head hrest hlength, hlast⟩

/-- The events since the start of the source. -/
theorem Ongoing.exists_past {source : σ} {dialect : Lexer.Dialect} {table : Operator.Table}
    (h : Ongoing source dialect table s) :
    ∃ past v, Sight.Becomes { lexer := Lexer.ofSource source dialect table } past v ∧ s.Sees v ∧
      Between past v := by
  induction h with
  | start source dialect table =>
    exact ⟨[], _, .refl _, Cursor.sees_ofSource _ _, by simp, .inl rfl⟩
  | restarted h source table =>
    obtain ⟨v, hv⟩ := h.exists_sees
    exact ⟨[], _, .refl _, hv.reset _, by simp, .inl rfl⟩
  | parsed h hparse ih =>
    obtain ⟨past, v, hpast, hv, hbetween⟩ := ih
    obtain ⟨now, w, hnow, hw, hconsumes⟩ := (parseStatement_logs hv).of_ok hparse
    exact ⟨past ++ now, w, hpast.trans hnow, hw, hbetween.consumes hconsumes⟩
  | told h netlist ih => exact ih
  | @inserted source dialect table s h op ih =>
    obtain ⟨past, v, hpast, hv, hbetween⟩ := ih
    refine ⟨past ++ [.registered op], _, hpast.trans (.single .register), hv.register op, ?_, hbetween.2⟩
    simpa using hbetween.1

/-- **No token is read past a statement.** In a session in which nothing has failed, all that has been
scanned since the start of the source has been taken when a statement is returned, the executor behind it
last; or the input has ended, and its end has been scanned once. Whenever a definition registers its
operator, also in a call that fails later, the definition has just been taken and one token behind it has
been scanned. So every token has been scanned with the operators that had been registered by then. -/
theorem scanned_of_parseStatement {source : σ} {dialect : Lexer.Dialect} {table : Operator.Table}
    (hs : Ongoing source dialect table s) :
    ∃ past v, Sight.Becomes { lexer := Lexer.ofSource source dialect table } past v ∧ s.Sees v ∧
      (∀ reply t, parseStatement s = .ok reply t → ∃ now w, v.Becomes now w ∧ t.Sees w ∧
        (reply.isSome = true → Exact (past ++ now)) ∧ Prompt v.ahead now ∧
        Governed { lexer := Lexer.ofSource source dialect table } (past ++ now) w) ∧
      ∀ e t, parseStatement s = .error e t → ∃ now w, v.Becomes now w ∧ t.SeesUnder w.lexer.table ∧
        Prompt v.ahead now ∧
        Governed { lexer := Lexer.ofSource source dialect table } (past ++ now) w := by
  obtain ⟨past, v, hpast, hv, hbetween⟩ := hs.exists_past
  refine ⟨past, v, hpast, hv, fun reply t hparse => ?_, fun e t hparse => ?_⟩
  · obtain ⟨now, w, hnow, hw, hconsumes⟩ := (parseStatement_logs hv).of_ok hparse
    have hall := hpast.trans hnow
    have hbehind := hbetween.consumes hconsumes
    have hscanned : scannedIn (past ++ now) = takenIn (past ++ now) ++ w.ahead := hall.ahead
    refine ⟨now, w, hnow, hw, fun hsome => ⟨hbehind.1, ?_⟩, ?_, governed hall⟩
    · obtain ⟨statement, rfl⟩ := Option.isSome_iff_exists.1 hsome
      obtain ⟨leading, tokens, ending, htaken, -, -, hcloses, hshort⟩ := hconsumes
      have hlength := (hshort hbetween.length_le).2
      rcases hcloses with ⟨executor, rfl, hexecutor⟩ | ⟨rfl, last, rest, hrest, hlast⟩
      · have hempty : w.ahead = [] :=
          List.eq_nil_of_length_eq_zero (by simp only [List.length_singleton] at hlength; omega)
        rw [hempty, List.append_nil] at hscanned
        refine .inl ⟨hscanned, takenIn past ++ (leading ++ tokens), executor, ?_, hexecutor⟩
        simp only [takenIn_append, htaken, List.append_assoc]
      · rw [eq_of_head hrest hlength] at hscanned
        exact .inr ⟨last, hscanned, hlast⟩
    · cases reply with
      | none => exact (hconsumes.2.2 hbetween.length_le).1
      | some statement =>
        obtain ⟨_, _, _, -, -, -, -, hshort⟩ := hconsumes
        exact (hshort hbetween.length_le).1
  · obtain ⟨now, w, hnow, hw, htimely⟩ := (parseStatement_logs hv).of_error hparse
    exact ⟨now, w, hnow, hw, htimely hbetween.length_le, governed (hpast.trans hnow)⟩

/-- Behind a definition, up to the executor that ends it. -/
theorem scanned_of_definition : ∃ (s t : Session (Items Char)) (v w : Sight (Items Char))
    (es : List Event), Ongoing (Items.ofText "define entity Percent % postfix ;y%") {} .standard s ∧
      parseStatement s = .ok (some (.entity ⟨"Percent", "%", .postfixOp, 0, [], [], []⟩)) t ∧
      v.Becomes es w ∧ t.Sees w ∧ Exact es ∧ Governed v es w := by
  have hparse := Run.eq_ok_of_answer? (r := parseStatement (Session.ofSource (Items.ofText
    "define entity Percent % postfix ;y%") {} .standard))
    (a := some (.entity ⟨"Percent", "%", .postfixOp, 0, [], [], []⟩)) (by decide +kernel)
  have hongoing := Ongoing.start (Items.ofText "define entity Percent % postfix ;y%") {} .standard
  obtain ⟨past, v, hpast, -, hok, -⟩ := scanned_of_parseStatement hongoing
  obtain ⟨now, w, hnow, hw, hexact, -, hgoverned⟩ := hok _ _ hparse
  exact ⟨_, _, _, w, past ++ now, hongoing, hparse, hpast.trans hnow, hw, hexact rfl, hgoverned⟩

end Parser

end Dataflow
