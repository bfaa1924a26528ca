import Dataflow.Proofs.Events
import Dataflow.Proofs.Standing

/-!
# Dataflow.Proofs.Logging

**The events of a session.** What a parser function does to the tokens is told by the events between
the sight before it and the sight behind it (`Session.Logs`). Most functions register no operator,
and of those it is enough to know the tokens that they take (`Session.Reads`): in a sequence the
tokens of the parts stand one behind the other (`Reads.bind`), in a loop those of the rounds
(`Reads.iterate`).

How many tokens are in view behind a step is part of what is said of it, so that it can be told how
far a production looks ahead. Where a step fails, the session still has a sight before it.
-/

namespace Dataflow

open Reading Circuit

/-- Where at most one element has been added, and only to an empty list, the tail is the same. -/
theorem tail_eq_of_length {α : Type} {first second more : List α} (h : first ++ more = second)
    (hlength : second.length = max first.length 1) : second.tail = first.tail := by
  subst h
  rw [List.length_append] at hlength
  cases first with
  | nil =>
    rw [List.length_nil, Nat.zero_add] at hlength
    rw [List.nil_append]
    exact List.eq_nil_of_length_eq_zero (by rw [List.length_tail]; omega)
  | cons a first =>
    rw [List.length_cons] at hlength
    rw [List.eq_nil_of_length_eq_zero (by omega : more.length = 0), List.append_nil]

/-- The tokens are taken between the two sights, and no operator is registered. -/
def Sight.Passes {σ : Type} [Source σ Char] (v : Sight σ) (tokens : List Token) (w : Sight σ) : Prop :=
  ∃ es, v.Becomes es w ∧ registeredIn es = [] ∧ takenIn es = tokens

namespace Sight.Passes

variable {σ : Type} [Source σ Char] {v u w : Sight σ} {first second : List Token}

theorem refl (v : Sight σ) : v.Passes [] v := ⟨[], .refl v, rfl, rfl⟩

theorem trans (h : v.Passes first u) (h' : u.Passes second w) : v.Passes (first ++ second) w := by
  obtain ⟨es, hes, hquiet, rfl⟩ := h
  obtain ⟨fs, hfs, hquiet', rfl⟩ := h'
  exact ⟨es ++ fs, hes.trans hfs, by simp [hquiet, hquiet'], by simp⟩

theorem table_eq (h : v.Passes first w) : w.lexer.table = v.lexer.table := by
  obtain ⟨es, hes, hquiet, -⟩ := h
  exact hes.table_eq hquiet

/-- What has been taken was in view, or has been scanned. -/
theorem ahead (h : v.Passes first w) : ∃ scanned, v.ahead ++ scanned = first ++ w.ahead := by
  obtain ⟨es, hes, -, rfl⟩ := h
  exact ⟨_, hes.ahead⟩

/-- Without taking anything, what is in view stays in view. -/
theorem head_eq {token : Token} {rest : List Token} (h : v.Passes [] w) (hv : v.ahead = token :: rest) :
    w.ahead.head? = some token := by
  obtain ⟨scanned, hscanned⟩ := h.ahead
  rw [List.nil_append] at hscanned
  rw [← hscanned, hv]
  rfl

end Sight.Passes

namespace Session

variable {σ α β : Type} [Source σ Char] {s : Session σ} {v : Sight σ}

/-- The session has `v` before it. -/
def Sees (s : Session σ) (v : Sight σ) : Prop := s.tokens.Sees v

omit [Source σ Char] in
theorem Sees.of_tokens {t : Session σ} (h : s.Sees v) (ht : t.tokens = s.tokens) : t.Sees v := by
  unfold Sees
  rw [ht]
  exact h

omit [Source σ Char] in
theorem Sees.table_eq (h : s.Sees v) : s.table = v.lexer.table := by
  obtain ⟨limits, o, hshows, hsource, -⟩ := h
  show s.tokens.buffer.source.table = _
  rw [hshows.source, hsource]

/-- The session has something before it, scanned with the operators of the table so far. -/
def SeesUnder (t : Operator.Table) (s : Session σ) : Prop := s.tokens.SeesUnder t

/-- Between the sight `v` and the one behind the run there are events of which `Q` holds. Where the
run fails, they are events of which `E` holds, and the operators are those registered among them. -/
def Logs (v : Sight σ) (E : List Event → Prop) (Q : β → List Event → Sight σ → Prop) :
    EStateM.Result Failure (Session σ) β → Prop :=
  Run.Ends (fun b t => ∃ es w, v.Becomes es w ∧ t.Sees w ∧ Q b es w)
    (fun _ t => ∃ es w, v.Becomes es w ∧ t.SeesUnder w.lexer.table ∧ E es)

/-- Between the sight `v` and the one behind the run, tokens are taken of which `Q` holds, and no
operator is registered. -/
def Reads (v : Sight σ) (Q : β → List Token → Sight σ → Prop) :
    EStateM.Result Failure (Session σ) β → Prop :=
  Run.Ends (fun b t => ∃ tokens w, v.Passes tokens w ∧ t.Sees w ∧ Q b tokens w)
    (fun _ t => t.SeesUnder v.lexer.table)

namespace Reads

variable {Q Q' : β → List Token → Sight σ → Prop} {r : EStateM.Result Failure (Session σ) β}

theorem mono (h : Reads v Q r) (hQ : ∀ b tokens w, v.Passes tokens w → Q b tokens w → Q' b tokens w) :
    Reads v Q' r := by
  refine Run.Ends.mono h ?_ fun _ _ he => he
  rintro b t ⟨tokens, w, hpasses, hsees, hq⟩
  exact ⟨tokens, w, hpasses, hsees, hQ b tokens w hpasses hq⟩

theorem pure (h : s.Sees v) {b : β} (hq : Q b [] v) : Reads v Q ((Pure.pure b : Run (Session σ) β) s) :=
  ⟨[], v, .refl v, h, hq⟩

theorem violate (h : s.Sees v) (e : Violation) : Reads v Q ((Run.violate e : Run (Session σ) β) s) :=
  ⟨v, h, rfl⟩

/-- The tokens of a sequence. -/
theorem bind {Q : α → List Token → Sight σ → Prop} {R : β → List Token → Sight σ → Prop}
    {x : Run (Session σ) α} {f : α → Run (Session σ) β} (hx : Reads v Q (x s))
    (hf : ∀ a t tokens w, v.Passes tokens w → t.Sees w → Q a tokens w →
      Reads w (fun b more => R b (tokens ++ more)) (f a t)) : Reads v R ((x >>= f) s) := by
  refine Run.Ends.bind hx ?_ fun _ _ he => he
  rintro a t ⟨tokens, w, hpasses, hsees, hq⟩
  refine Run.Ends.mono (hf a t tokens w hpasses hsees hq) ?_ fun _ _ he => hpasses.table_eq ▸ he
  rintro b t' ⟨more, u, hpasses', hsees', hr⟩
  exact ⟨tokens ++ more, u, hpasses.trans hpasses', hsees', hr⟩

/-- The tokens of a loop. -/
theorem iterate {I : α → List Token → Sight σ → Prop} {R : β → List Token → Sight σ → Prop}
    {step : α → Run (Session σ) (Run.Round α β)} {bound : Session σ → Nat} {a : α} (h : s.Sees v)
    (hI : I a [] v)
    (hstep : ∀ a tokens w t, v.Passes tokens w → t.Sees w → I a tokens w →
      Reads w (fun round more u => match round with
        | .again a' => I a' (tokens ++ more) u
        | .done b => R b (tokens ++ more) u) (step a t)) :
    Reads v R (Run.iterate bound a step s) := by
  refine Run.Ends.iterate_of (I := fun a t => ∃ tokens w, v.Passes tokens w ∧ t.Sees w ∧ I a tokens w)
    ?_ ?_ ⟨[], v, .refl v, h, hI⟩
  · rintro a t ⟨tokens, w, hpasses, hsees, hinv⟩
    refine Run.Ends.mono (hstep a tokens w t hpasses hsees hinv) ?_ fun _ _ he => hpasses.table_eq ▸ he
    rintro (a' | b) t' ⟨more, u, hpasses', hsees', hr⟩
    · exact ⟨_, u, hpasses.trans hpasses', hsees', hr⟩
    · exact ⟨_, u, hpasses.trans hpasses', hsees', hr⟩
  · rintro a t ⟨tokens, w, hpasses, hsees, -⟩
    exact ⟨w, hsees, hpasses.table_eq⟩

/-- What is read is logged. -/
theorem logs {E : List Event → Prop} {R : β → List Event → Sight σ → Prop} (h : Reads v Q r) (hE : E [])
    (hR : ∀ b es w, v.Becomes es w → registeredIn es = [] → Q b (takenIn es) w → R b es w) :
    Session.Logs v E R r := by
  refine Run.Ends.mono h ?_ fun _ _ he => ⟨[], v, .refl v, he, hE⟩
  rintro b t ⟨tokens, w, ⟨es, hes, hquiet, rfl⟩, hsees, hq⟩
  exact ⟨es, w, hes, hsees, hR b es w hes hquiet hq⟩

end Reads

namespace Logs

variable {E E' : List Event → Prop}

theorem mono {Q Q' : β → List Event → Sight σ → Prop} {r : EStateM.Result Failure (Session σ) β}
    (h : Logs v E Q r) (hE : ∀ es, E es → E' es)
    (hQ : ∀ b es w, v.Becomes es w → Q b es w → Q' b es w) : Logs v E' Q' r := by
  refine Run.Ends.mono h ?_ ?_
  · rintro b t ⟨es, w, hes, hsees, hq⟩
    exact ⟨es, w, hes, hsees, hQ b es w hes hq⟩
  · rintro e t ⟨es, w, hes, hsees, he⟩
    exact ⟨es, w, hes, hsees, hE es he⟩

/-- The events of a sequence. -/
theorem bind {Q : α → List Event → Sight σ → Prop} {R : β → List Event → Sight σ → Prop}
    {x : Run (Session σ) α} {f : α → Run (Session σ) β} (hx : Logs v E Q (x s)) (hE : ∀ es, E es → E' es)
    (hf : ∀ a t es w, v.Becomes es w → t.Sees w → Q a es w →
      Logs w (fun more => E' (es ++ more)) (fun b more => R b (es ++ more)) (f a t)) :
    Logs v E' R ((x >>= f) s) := by
  refine Run.Ends.bind hx ?_ ?_
  · rintro a t ⟨es, w, hes, hsees, hq⟩
    refine Run.Ends.mono (hf a t es w hes hsees hq) ?_ ?_
    · rintro b t' ⟨more, u, hmore, hsees', hr⟩
      exact ⟨es ++ more, u, hes.trans hmore, hsees', hr⟩
    · rintro e t' ⟨more, u, hmore, hsees', he⟩
      exact ⟨es ++ more, u, hes.trans hmore, hsees', he⟩
  · rintro e t ⟨es, w, hes, hsees, he⟩
    exact ⟨es, w, hes, hsees, hE es he⟩

/-- The events of a loop. -/
theorem iterate {I : α → List Event → Sight σ → Prop} {R : β → List Event → Sight σ → Prop}
    {step : α → Run (Session σ) (Run.Round α β)} {bound : Session σ → Nat} {a : α} (h : s.Sees v)
    (hI : I a [] v) (hE : ∀ a es w, I a es w → E es)
    (hstep : ∀ a es w t, v.Becomes es w → t.Sees w → I a es w →
      Logs w (fun more => E (es ++ more)) (fun round more u => match round with
        | .again a' => I a' (es ++ more) u
        | .done b => R b (es ++ more) u) (step a t)) :
    Logs v E R (Run.iterate bound a step s) := by
  refine Run.Ends.iterate_of (I := fun a t => ∃ es w, v.Becomes es w ∧ t.Sees w ∧ I a es w)
    ?_ ?_ ⟨[], v, .refl v, h, hI⟩
  · rintro a t ⟨es, w, hes, hsees, hinv⟩
    refine Run.Ends.mono (hstep a es w t hes hsees hinv) ?_ ?_
    · rintro (a' | b) t' ⟨more, u, hmore, hsees', hr⟩
      · exact ⟨_, u, hes.trans hmore, hsees', hr⟩
      · exact ⟨_, u, hes.trans hmore, hsees', hr⟩
    · rintro e t' ⟨more, u, hmore, hsees', he⟩
      exact ⟨_, u, hes.trans hmore, hsees', he⟩
  · rintro a t ⟨es, w, hes, hsees, hinv⟩
    exact ⟨es, w, hes, ⟨w, hsees, rfl⟩, hE a es w hinv⟩

end Logs

/-- The events of a sequence that begins with something that is read. -/
theorem Reads.logs_bind {E : List Event → Prop} {Q : α → List Token → Sight σ → Prop}
    {R : β → List Event → Sight σ → Prop} {x : Run (Session σ) α} {f : α → Run (Session σ) β}
    (hx : Reads v Q (x s)) (hE : E [])
    (hf : ∀ a t es w, v.Becomes es w → registeredIn es = [] → t.Sees w → Q a (takenIn es) w →
      Logs w (fun more => E (es ++ more)) (fun b more => R b (es ++ more)) (f a t)) :
    Logs v E R ((x >>= f) s) := by
  refine (hx.logs (E := E) (R := fun a es w => registeredIn es = [] ∧ Q a (takenIn es) w) hE
    fun a es w _ hquiet hq => ⟨hquiet, hq⟩).bind (fun _ he => he) ?_
  rintro a t es w hes hsees ⟨hquiet, hq⟩
  exact hf a t es w hes hquiet hsees hq

/-! ### Steps on the tokens -/

/-- Looking ahead takes nothing. -/
theorem lookahead_reads (h : s.Sees v) (k : Nat) :
    Reads v (fun token tokens w => tokens = [] ∧ w.ahead[k]? = some token ∧
      w.ahead.length = max v.ahead.length (k + 1)) (onTokens (Cursor.lookahead k) s) := by
  refine (onTokens_ends (h.lookahead k)).mono ?_ ?_
  · rintro token t ⟨c, ⟨tokens, w, hbecomes, hsees, htoken, hlength⟩, rfl⟩
    exact ⟨[], w, ⟨_, hbecomes, by simp, by simp⟩, hsees, rfl, htoken, hlength⟩
  · rintro e t ⟨c, hsees, rfl⟩
    exact hsees

theorem kindAt_reads (h : s.Sees v) (k : Nat) :
    Reads v (fun kind tokens w => tokens = [] ∧ (∃ token, w.ahead[k]? = some token ∧ token.kind = kind) ∧
      w.ahead.length = max v.ahead.length (k + 1)) (kindAt k s) := by
  rw [kindAt_eq]
  refine (lookahead_reads h k).bind ?_
  rintro token t _ w - hsees ⟨rfl, htoken, hlength⟩
  exact .pure hsees ⟨rfl, ⟨token, htoken, rfl⟩, hlength⟩

theorem peek_reads (h : s.Sees v) :
    Reads v (fun token tokens w => tokens = [] ∧ (∃ rest, w.ahead = token :: rest) ∧
      w.ahead.length = max v.ahead.length 1) (peek s) := by
  refine Reads.mono (lookahead_reads h 0) ?_
  rintro token _ w - ⟨rfl, htoken, hlength⟩
  rw [← List.head?_eq_getElem?] at htoken
  exact ⟨rfl, List.head?_eq_some_iff.1 htoken, hlength⟩

theorem peekKind_reads (h : s.Sees v) :
    Reads v (fun kind tokens w => tokens = [] ∧
      (∃ token rest, w.ahead = token :: rest ∧ token.kind = kind) ∧
      w.ahead.length = max v.ahead.length 1) (peekKind s) := by
  rw [peekKind_eq]
  refine (peek_reads h).bind ?_
  rintro token t _ w - hsees ⟨rfl, ⟨rest, hrest⟩, hlength⟩
  exact .pure hsees ⟨rfl, ⟨token, rest, hrest, rfl⟩, hlength⟩

/-- Consuming takes the token at the cursor. -/
theorem consume_reads (h : s.Sees v) :
    Reads v (fun token tokens w => tokens = [token] ∧ w.ahead = v.ahead.tail ∧
      ∀ t ∈ v.ahead.head?, t = token) (consume s) := by
  refine (onTokens_ends (Cursor.Sees.consume h)).mono ?_ ?_
  · rintro token t ⟨c, ⟨tokens, w, hbecomes, hsees, htoken, hlength⟩, rfl⟩
    obtain ⟨rest, hrest⟩ := List.head?_eq_some_iff.1 htoken
    have hahead := hbecomes.ahead
    rw [takenIn_scanned, List.nil_append] at hahead
    refine ⟨[token], w.pass, ⟨_, hbecomes.trans (.single (.take hrest)), by simp, by simp⟩, hsees, rfl,
      tail_eq_of_length hahead hlength, ?_⟩
    intro first hfirst
    obtain ⟨others, hv⟩ := List.head?_eq_some_iff.1 hfirst
    rw [hv, hrest, List.cons_append, List.cons.injEq] at hahead
    exact hahead.1
  · rintro e t ⟨c, hsees, rfl⟩
    exact hsees

/-- What is consumed is the token at the cursor, where that is known. -/
theorem consume_known {token : Token} {rest : List Token} (h : s.Sees v) (hrest : v.ahead = token :: rest) :
    Reads v (fun token' tokens w => token = token' ∧ tokens = [token] ∧ w.ahead = v.ahead.tail)
      (consume s) := by
  refine (consume_reads h).mono ?_
  rintro token' tokens w - ⟨rfl, hahead, hhead⟩
  obtain rfl := hhead token (by rw [hrest]; exact rfl)
  exact ⟨rfl, rfl, hahead⟩

/-- What is said of the token at the cursor when it is consumed or left there. -/
def Matched (v : Sight σ) (fits : Token → Prop) (accepted : Bool) (tokens : List Token) (w : Sight σ) :
    Prop :=
  match accepted with
  | true => ∃ token, tokens = [token] ∧ fits token ∧ w.ahead = v.ahead.tail ∧
    ∀ t ∈ v.ahead.head?, t = token
  | false => tokens = [] ∧ (∃ token rest, w.ahead = token :: rest ∧ ¬ fits token) ∧
    w.ahead.length = max v.ahead.length 1

/-- Looking at a token, and then consuming it. -/
theorem acceptBy_reads (h : s.Sees v) (fits : Token → Prop) [DecidablePred fits] :
    Reads v (Matched v fits) ((do
      let token ← peek
      if fits token then
        let _ ← consume
        return true
      else
        return false : Run (Session σ) Bool) s) := by
  refine (peek_reads h).bind ?_
  rintro token t _ w hpasses hsees ⟨rfl, ⟨rest, hrest⟩, hlength⟩
  split
  · next hfits =>
    refine (consume_reads hsees).bind ?_
    rintro token' t' _ w' - hsees' ⟨rfl, hahead, hsame⟩
    obtain rfl := hsame token (by rw [hrest]; exact rfl)
    obtain ⟨scanned, hscanned⟩ := hpasses.ahead
    refine .pure hsees' ⟨token, rfl, hfits, hahead.trans (tail_eq_of_length hscanned hlength), ?_⟩
    intro first hfirst
    obtain ⟨others, hv⟩ := List.head?_eq_some_iff.1 hfirst
    exact (Option.some.inj (by rw [← hpasses.head_eq hv, hrest]; rfl))
  · next hfits => exact .pure hsees ⟨rfl, ⟨token, rest, hrest, hfits⟩, hlength⟩

theorem accept_reads (h : s.Sees v) (kind : Token.Kind) :
    Reads v (Matched v (·.kind = kind)) (accept kind s) := by
  rw [accept_eq]
  exact acceptBy_reads h _

theorem acceptWord_reads (h : s.Sees v) (word : String) :
    Reads v (Matched v (·.isWord word = true)) (acceptWord word s) :=
  acceptBy_reads h _

theorem mismatch_reads (h : s.Sees v) (expected : String) {Q : β → List Token → Sight σ → Prop} :
    Reads v Q ((mismatch expected : Run (Session σ) β) s) := by
  obtain ⟨e, c, hmismatch, hsees⟩ := Cursor.SeesUnder.mismatch ⟨v, h, rfl⟩ expected
  unfold mismatch
  rw [Run.bind_apply, onTokens_ok hmismatch]
  exact hsees

theorem unexpectedOperand_reads (h : s.Sees v) {Q : β → List Token → Sight σ → Prop} :
    Reads v Q ((unexpectedOperand : Run (Session σ) β) s) := by
  obtain ⟨e, c, hunexpected, hsees⟩ := Cursor.SeesUnder.unexpectedOperand ⟨v, h, rfl⟩
  unfold unexpectedOperand
  rw [Run.bind_apply, onTokens_ok hunexpected]
  exact hsees

theorem expect_reads (h : s.Sees v) (kind : Token.Kind) :
    Reads v (fun _ tokens w => ∃ token, tokens = [token] ∧ token.kind = kind ∧ w.ahead = v.ahead.tail ∧
      ∀ t ∈ v.ahead.head?, t = token) (expect kind s) := by
  rw [expect_eq]
  refine (accept_reads h kind).bind ?_
  rintro (_ | _) t tokens w - hsees haccepted
  · exact mismatch_reads hsees _
  · exact .pure hsees (by rwa [List.append_nil])

/-- Skipping takes tokens of one kind, and stops at a token of another kind. -/
theorem skip_reads (h : s.Sees v) (kind : Token.Kind) :
    Reads v (fun _ tokens w => (∀ token ∈ tokens, token.kind = kind) ∧
      (∃ token rest, w.ahead = token :: rest ∧ token.kind ≠ kind) ∧
      w.ahead.length ≤ max v.ahead.length 1) (skip kind s) := by
  refine Reads.iterate
    (I := fun _ tokens w => (∀ token ∈ tokens, token.kind = kind) ∧ w.ahead.length ≤ v.ahead.length)
    h ⟨by simp, Nat.le_refl _⟩ ?_
  rintro ⟨⟩ tokens w t - hsees ⟨hall, hlength⟩
  refine (accept_reads hsees kind).bind ?_
  rintro (_ | _) t' _ w' - hsees' haccepted
  · obtain ⟨rfl, hother, hlength'⟩ := haccepted
    refine .pure hsees' ⟨by simpa using hall, hother, ?_⟩
    omega
  · obtain ⟨token, rfl, hkind, hahead, -⟩ := haccepted
    refine .pure hsees' ⟨?_, ?_⟩
    · intro token' htoken'
      rcases List.mem_append.1 htoken' with htoken' | htoken'
      · exact hall token' htoken'
      · simp only [List.append_nil, List.mem_singleton] at htoken'
        rw [htoken']
        exact hkind
    · rw [hahead, List.length_tail]
      omega

/-! ### Computations on the netlist -/

/-- The computation leaves the tokens alone. -/
def Still (x : Run (Session σ) β) : Prop :=
  ∀ tokens, Run.Leads (fun _ t => t.tokens = tokens) (fun t => t.tokens = tokens)
    (fun _ t => t.tokens = tokens) x

namespace Still

omit [Source σ Char]

theorem pure (b : β) : Still (Pure.pure b : Run (Session σ) β) := fun _ => .pure b

theorem violate (e : Violation) : Still (Run.violate e : Run (Session σ) β) := fun _ _ h => h

theorem bind {x : Run (Session σ) α} {f : α → Run (Session σ) β} (hx : Still x)
    (hf : ∀ a, Still (f a)) : Still (x >>= f) :=
  fun tokens => (hx tokens).bind fun a => hf a tokens

theorem ite {c : Prop} [Decidable c] {x y : Run (Session σ) β} (hx : Still x) (hy : Still y) :
    Still (if c then x else y) := by
  split
  · exact hx
  · exact hy

theorem tell (call : Call) : Still (tell call : Run (Session σ) call.Reply) := by
  intro tokens s h
  unfold Session.tell
  dsimp only
  cases Netlist.perform call s.netlist <;> exact h

theorem mapM {f : α → Run (Session σ) β} (hf : ∀ a, Still (f a)) (items : List α) :
    Still (items.mapM f) := by
  induction items with
  | nil => exact .pure []
  | cons a items ih =>
    rw [List.mapM_cons]
    exact (hf a).bind fun b => ih.bind fun bs => .pure (b :: bs)

end Still

theorem Still.reads {x : Run (Session σ) β} (hx : Still x) (h : s.Sees v) :
    Reads v (fun _ tokens w => tokens = [] ∧ w = v) (x s) := by
  refine (hx s.tokens s rfl).mono ?_ ?_
  · intro b t ht
    exact ⟨[], v, .refl v, h.of_tokens ht, rfl, rfl⟩
  · intro e t ht
    exact ⟨v, h.of_tokens ht, rfl⟩

theorem tell_reads (call : Call) (h : s.Sees v) :
    Reads v (fun _ tokens w => tokens = [] ∧ w = v) (tell call s) :=
  (Still.tell call).reads h

end Session

end Dataflow
