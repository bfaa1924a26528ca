import Dataflow.Proofs.Effects
import Dataflow.Proofs.Prospect

/-!
# Dataflow.Proofs.Standing

The steps of a session that stands at a place in a text, told by the tokens of that place. The
netlist takes part only with the entities and the buses that it knows, which an expression leaves
as they are.
-/

namespace Dataflow

open Reading Lexer Circuit

theorem ne_endOfFile_of_isIdentifier {kind : Token.Kind} (h : kind.isIdentifier = true) :
    kind ≠ .endOfFile := by
  rintro rfl
  cases h

/-- The footing behind a token. -/
def Footing.pass (f : Footing) (token : Token) (q : Place) : Footing where
  place := q
  saved := f.saved
  pending := f.pending - covering [token]

/-- The footing with the next token in view. -/
def Footing.view (f : Footing) : Footing := { f with viewed := 1 }

namespace Circuit.Netlist

/-- The netlist accepts the application of an operator to `count` operands. -/
def Accepts (n : Netlist) (op : Operator) (count : Nat) : Prop :=
  ∀ e, n.entity? op.entity = some e → e.inputs ≠ [] → e.inputs.length = count

/-- Only the entities decide on an application. -/
theorem Accepts.of_entities {n m : Netlist} {op : Operator} {count : Nat}
    (hsame : n.entities = m.entities) (h : m.Accepts op count) : n.Accepts op count := by
  have hentity : n.entity? op.entity = m.entity? op.entity := by
    unfold entity?
    rw [hsame]
  unfold Accepts
  rw [hentity]
  exact h

theorem applyOperator_ok {n : Netlist} {op : Operator} {arguments : List Expr}
    (h : n.Accepts op arguments.length) :
    applyOperator op arguments n = .ok (.apply op.entity arguments) n := by
  rw [applyOperator_apply]
  cases he : n.entity? op.entity with
  | none => rfl
  | some e => exact if_neg fun hwrong => hwrong.2 (h e he hwrong.1)

theorem applyOperator_error {n : Netlist} {op : Operator} {arguments : List Expr}
    (h : ¬ n.Accepts op arguments.length) : ∃ e, applyOperator op arguments n = .error e n := by
  obtain ⟨e, h⟩ := Classical.not_forall.1 h
  obtain ⟨he, h⟩ := Classical.not_imp.1 h
  obtain ⟨hsome, hne⟩ := Classical.not_imp.1 h
  rw [applyOperator_apply, he]
  exact ⟨_, if_pos ⟨hsome, hne⟩⟩

theorem useSignal_ok {n : Netlist} {name : String} (h : name ∉ n.buses) :
    useSignal name n = .ok (.signal name) { n with signals := addName name n.signals } :=
  (useSignal_apply n name).trans (if_neg h)

theorem useSignal_error {n : Netlist} {name : String} (h : name ∈ n.buses) :
    ∃ e, useSignal name n = .error e n :=
  ⟨_, (useSignal_apply n name).trans (if_pos h)⟩

end Circuit.Netlist

namespace Session

variable {σ β : Type} [Supply σ Char] {g : Setting} {m : Netlist} {f : Footing} {s : Session σ}

/-- The session stands at a place, and its netlist knows the entities and the buses of `m`. -/
structure Stands (s : Session σ) (g : Setting) (m : Netlist) (f : Footing) : Prop where
  tokens : s.tokens.Stands g f
  entities : s.netlist.entities = m.entities
  buses : s.netlist.buses = m.buses

omit [Supply σ Char] in
theorem onTokens_ends {Q : β → Cursor (Lexer σ) Token → Prop}
    {E : Failure → Cursor (Lexer σ) Token → Prop} {x : Run (Cursor (Lexer σ) Token) β}
    (h : Run.Ends Q E (x s.tokens)) :
    Run.Ends (fun a t => ∃ c, Q a c ∧ t = { s with tokens := c })
      (fun e t => ∃ c, E e c ∧ t = { s with tokens := c }) (onTokens x s) := by
  cases hx : x s.tokens with
  | ok a c =>
    rw [onTokens_ok hx]
    exact ⟨c, h.of_ok hx, rfl⟩
  | error e c =>
    rw [onTokens_error hx]
    exact ⟨c, h.of_error hx, rfl⟩

omit [Supply σ Char] in
/-- A sequence of computations on the cursor. -/
theorem onTokens_bind {γ : Type} (x : Run (Cursor (Lexer σ) Token) β)
    (k : β → Run (Cursor (Lexer σ) Token) γ) :
    onTokens (x >>= k) = onTokens x >>= fun b => onTokens (k b) := by
  funext ⟨tokens, netlist, calls⟩
  rw [Run.bind_apply]
  unfold onTokens
  simp only [Run.bind_apply]
  cases x tokens <;> rfl

omit [Supply σ Char] in
theorem kindAt_eq [Source σ Char] (k : Nat) : (kindAt k : Run (Session σ) Token.Kind) = do
    let token ← onTokens (Cursor.lookahead k)
    return token.kind := by
  unfold kindAt Cursor.kindAt
  rw [onTokens_bind]
  rfl

omit [Supply σ Char] in
theorem peekKind_eq [Source σ Char] : (peekKind : Run (Session σ) Token.Kind) = do return (← peek).kind :=
  kindAt_eq 0

omit [Supply σ Char] in
theorem accept_eq [Source σ Char] (kind : Token.Kind) : (accept kind : Run (Session σ) Bool) = do
    let token ← peek
    if token.kind = kind then
      let _ ← consume
      return true
    else
      return false := by
  unfold accept Cursor.accept
  rw [onTokens_bind, bind_assoc]
  refine congrArg (peek >>= ·) (funext fun token => ?_)
  by_cases hkind : token.kind = kind
  · have hkind' : Reading.Element.kind token = kind := hkind
    rw [if_pos hkind, if_pos hkind', onTokens_bind, bind_assoc]
    rfl
  · have hkind' : ¬ Reading.Element.kind token = kind := hkind
    rw [if_neg hkind, if_neg hkind']
    rfl

omit [Supply σ Char] in
theorem expect_eq [Source σ Char] (kind : Token.Kind) : (expect kind : Run (Session σ) Unit) =
    accept kind >>= fun accepted => if accepted then pure () else mismatch kind.name := by
  unfold expect accept Cursor.expect mismatch
  rw [onTokens_bind, bind_assoc, bind_assoc]
  refine congrArg (_ >>= ·) (funext fun found => ?_)
  cases found with
  | some token => rfl
  | none =>
    rw [onTokens_bind, bind_assoc]
    refine congrArg (_ >>= ·) (funext fun e => ?_)
    rfl

omit [Supply σ Char] in
theorem tell_ok (call : Call) {reply : call.Reply} {n : Netlist}
    (h : Netlist.perform call s.netlist = .ok reply n) :
    tell call s = .ok reply { s with netlist := n, calls := call :: s.calls } := by
  simp only [tell, h]

omit [Supply σ Char] in
theorem tell_error (call : Call) {cause : BuildError} {n : Netlist}
    (h : Netlist.perform call s.netlist = .error cause n) :
    tell call s =
      .error (.error (.build cause)) { s with netlist := n, calls := call :: s.calls } := by
  simp only [tell, h]

/-- A mismatch ends with an error. -/
theorem mismatch_ends (expected : String) (s : Session σ) :
    Run.Ends (fun _ _ => False) (fun _ _ => True) ((mismatch expected : Run (Session σ) β) s) := by
  unfold mismatch
  rw [Run.bind_apply]
  cases onTokens (Cursor.mismatch expected) s <;> exact trivial

theorem unexpectedOperand_ends (s : Session σ) :
    Run.Ends (fun _ _ => False) (fun _ _ => True)
      ((unexpectedOperand : Run (Session σ) β) s) := by
  unfold unexpectedOperand
  rw [Run.bind_apply]
  cases onTokens Cursor.unexpectedOperand s <;> exact trivial

/-- A session at the start of a text. -/
theorem stands_ofSource {source : σ} {text : List Char} {d : Dialect} {t : Operator.Table}
    (hsource : Supply.Delivers source text) (hmarker : Source.endMarker source = endOfInput)
    (hne : ∀ c ∈ text, c ≠ endOfInput) :
    (ofSource source d t).Stands ⟨text.length, d, t⟩ {}
      { place := ⟨text, {}⟩, pending := text.length } :=
  ⟨Cursor.stands_ofSource hsource hmarker hne, rfl, rfl⟩

namespace Stands

theorem withTokens {c : Cursor (Lexer σ) Token} {f' : Footing} (h : s.Stands g m f)
    (hc : c.Stands g f') : Stands { s with tokens := c } g m f' :=
  ⟨hc, h.entities, h.buses⟩

theorem table_eq (h : s.Stands g m f) : s.table = g.table := h.tokens.table_eq

/-- The session itself knows a bound on what is to come. -/
theorem tight (h : s.Stands g m f) :
    ∃ n, n ≤ f.pending ∧ n ≤ s.remaining ∧ s.Stands g m { f with pending := n } := by
  obtain ⟨n, hle, hremaining, hc⟩ := h.tokens.tight
  exact ⟨n, hle, hremaining, hc, h.entities, h.buses⟩

theorem peek (h : s.Stands g m f) :
    Run.Ends
      (fun token t => ∃ q, f.place.next g.dialect g.table = .ok (token, q) ∧
        t.Stands g m f.view)
      (fun e _ => Refuses g f.place e) (Session.peek s) := by
  refine (onTokens_ends h.tokens.peek).mono ?_ ?_
  · rintro token t ⟨c, ⟨q, hq, hc⟩, rfl⟩
    exact ⟨q, hq, h.withTokens (hc.weaken (Nat.le_refl _) (Nat.le_max_left 1 f.viewed))⟩
  · rintro e t ⟨c, he, rfl⟩
    exact he

/-- A token in view is looked at as it is. -/
theorem peek_viewed (h : s.Stands g m f.view) :
    ∃ token q t, f.place.next g.dialect g.table = .ok (token, q) ∧
      Session.peek s = .ok token t ∧ t.Stands g m f.view ∧ covering [token] ≤ f.pending := by
  obtain ⟨token, q, c, hq, hlook, hc, hcovering⟩ := h.tokens.peek_viewed (Nat.le_refl 1)
  exact ⟨token, q, _, hq, onTokens_ok hlook, h.withTokens hc, hcovering⟩

theorem peekKind (h : s.Stands g m f) :
    Run.Ends
      (fun kind t => ∃ token q, f.place.next g.dialect g.table = .ok (token, q) ∧
        kind = token.kind ∧ t.Stands g m f.view)
      (fun e _ => Refuses g f.place e) (Session.peekKind s) := by
  rw [peekKind_eq]
  refine h.peek.bind ?_ (fun _ _ he => he)
  rintro token t ⟨q, hq, ht⟩
  exact ⟨token, q, hq, rfl, ht⟩

/-- The kind of the token behind the next one. -/
theorem secondKind (h : s.Stands g m f.view) {token : Token} {q : Place}
    (hq : f.place.next g.dialect g.table = .ok (token, q)) :
    Run.Ends
      (fun kind t => ∃ second r, q.next g.dialect g.table = .ok (second, r) ∧
        kind = second.kind ∧ t.Stands g m f.view)
      (fun e _ => Refuses g q e) (kindAt 1 s) := by
  rw [kindAt_eq]
  refine (onTokens_ends (h.tokens.second (Nat.le_refl 1) hq)).bind ?_ ?_
  · rintro second t ⟨c, ⟨r, hr, hc⟩, rfl⟩
    exact ⟨second, r, hr, rfl, h.withTokens (hc.weaken (Nat.le_refl _) (Nat.le_max_right 2 1))⟩
  · rintro e t ⟨c, he, rfl⟩
    exact he

/-- The next token is consumed. -/
theorem consume (h : s.Stands g m f) {token : Token} {q : Place}
    (hq : f.place.next g.dialect g.table = .ok (token, q)) (hkind : token.kind ≠ .endOfFile) :
    Run.Ends (fun t s' => t = token ∧ s'.Stands g m (f.pass token q))
      (fun e _ => Lexer.Excused g e) (Session.consume s) := by
  refine (onTokens_ends (h.tokens.take hq hkind)).mono ?_ ?_
  · rintro t s' ⟨c, ⟨rfl, hc⟩, rfl⟩
    exact ⟨rfl, h.withTokens (hc.weaken (Nat.le_refl _) (Nat.zero_le _))⟩
  · rintro e t ⟨c, he, rfl⟩
    exact he

/-- The next token is consumed if it is of the kind. -/
theorem accept (h : s.Stands g m f) {kind : Token.Kind} (hkind : kind ≠ .endOfFile) :
    Run.Ends
      (fun accepted t => ∃ token q, f.place.next g.dialect g.table = .ok (token, q) ∧
        (accepted = true ∧ token.kind = kind ∧ t.Stands g m (f.pass token q) ∨
          accepted = false ∧ token.kind ≠ kind ∧ t.Stands g m f.view))
      (fun e _ => Refuses g f.place e) (Session.accept kind s) := by
  rw [accept_eq]
  refine h.peek.bind ?_ (fun _ _ he => he)
  rintro token t ⟨q, hq, ht⟩
  by_cases hk : token.kind = kind
  · rw [if_pos hk]
    refine (ht.consume hq (by rw [hk]; exact hkind)).bind ?_ (fun _ _ he => .inl he)
    rintro token t' ⟨rfl, ht'⟩
    exact ⟨token, q, hq, .inl ⟨rfl, hk, ht'⟩⟩
  · rw [if_neg hk]
    exact ⟨token, q, hq, .inr ⟨rfl, hk, ht⟩⟩

/-- The next token is consumed if it is of the kind, which it should be. -/
theorem expect (h : s.Stands g m f) {kind : Token.Kind} (hkind : kind ≠ .endOfFile) :
    Run.Ends
      (fun _ t => ∃ token q, f.place.next g.dialect g.table = .ok (token, q) ∧
        token.kind = kind ∧ t.Stands g m (f.pass token q))
      (fun e _ => ∀ token q, f.place.next g.dialect g.table = .ok (token, q) →
        token.kind = kind → Lexer.Excused g e) (Session.expect kind s) := by
  rw [expect_eq]
  refine (h.accept hkind).bind ?_ (fun e _ he token q hq _ => he.excused hq)
  rintro accepted t ⟨token, q, hq, ⟨rfl, hk, ht⟩ | ⟨rfl, hk, ht⟩⟩
  · exact ⟨token, q, hq, hk, ht⟩
  · rw [if_neg Bool.false_ne_true]
    refine (mismatch_ends kind.name t).mono (fun _ _ he => he.elim) ?_
    intro e _ _ token' q' hq' hk'
    rw [hq] at hq'
    cases hq'
    exact absurd hk' hk

/-! ### What the netlist is told -/

theorem tell_constant (h : s.Stands g m f) (kind : ConstantKind) (text : String) :
    ∃ t, tell (.constant kind text) s = .ok (.constant kind text) t ∧ t.Stands g m f :=
  ⟨_, rfl, h.tokens, h.entities, h.buses⟩

theorem tell_encapsulate (h : s.Stands g m f) (container : Container) (items : List Expr) :
    ∃ t, tell (.encapsulate container items) s = .ok (.group container items) t ∧
      t.Stands g m f :=
  ⟨_, rfl, h.tokens, h.entities, h.buses⟩

/-- An operator is applied, unless the netlist knows an entity that takes another number of
operands. -/
theorem tell_applyOperator (h : s.Stands g m f) (op : Operator) (arguments : List Expr) :
    Run.Ends (fun e t => e = Expr.apply op.entity arguments ∧ t.Stands g m f)
      (fun _ _ => ¬ m.Accepts op arguments.length) (tell (.applyOperator op arguments) s) := by
  by_cases haccepts : s.netlist.Accepts op arguments.length
  · rw [tell_ok (.applyOperator op arguments) (Netlist.applyOperator_ok haccepts)]
    exact ⟨rfl, h.tokens, h.entities, h.buses⟩
  · obtain ⟨cause, hcause⟩ := Netlist.applyOperator_error haccepts
    rw [tell_error (.applyOperator op arguments) hcause]
    exact fun hm => haccepts (hm.of_entities h.entities)

/-- A signal is used, unless the netlist knows a bus of that name. -/
theorem tell_useSignal (h : s.Stands g m f) (name : String) :
    Run.Ends (fun e t => e = Expr.signal name ∧ t.Stands g m f) (fun _ _ => name ∈ m.buses)
      (tell (.useSignal name) s) := by
  by_cases hbus : name ∈ s.netlist.buses
  · obtain ⟨cause, hcause⟩ := Netlist.useSignal_error hbus
    rw [tell_error (.useSignal name) hcause]
    exact h.buses ▸ hbus
  · rw [tell_ok (.useSignal name) (Netlist.useSignal_ok hbus)]
    exact ⟨rfl, h.tokens, h.entities, h.buses⟩

end Stands

end Session

end Dataflow
