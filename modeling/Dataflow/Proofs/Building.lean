import Dataflow.Parser.Expression
import Dataflow.Proofs.Standing

/-!
# Dataflow.Proofs.Building

**What an expression is built of.** Whatever a parser answers for an expression has come out of a
few steps: constants and signals from tokens of the text, applications of registered operators or
of names that are called, and groups. A property that these steps hand on (`Closed`) therefore
holds of every expression that is read, however operators, brackets and calls stand inside each
other, and the session then stands further on in the same text, with the same entities and buses.

Errors are left open here: nothing is said of a run that ends with one.
-/

namespace Dataflow.Parser

open Reading Lexer Circuit Session

/-- What the steps of the parser hand on. -/
structure Closed (g : Setting) (P : Expr → Prop) : Prop where
  constant {p q : Place} {token : Token} {kind : ConstantKind} :
    p.next g.dialect g.table = .ok (token, q) → constantKind? token.kind = some kind →
    P (.constant kind token.text)
  signal {p q : Place} {token : Token} :
    p.next g.dialect g.table = .ok (token, q) → token.kind.isTextIdentifier = true →
    g.table.get? token.text .prefixOp = none → P (.signal token.text)
  /-- An operator is applied to one operand or to two. -/
  applied {symbol : String} {fixity : Fixity} {op : Operator} {operands : List Expr} :
    g.table.get? symbol fixity = some op → (∀ e ∈ operands, P e) →
    P (.apply op.entity operands)
  /-- A name is called. -/
  called {p q : Place} {token : Token} {arguments : List Expr} :
    p.next g.dialect g.table = .ok (token, q) → token.kind.isIdentifier = true →
    (g.table.contains token.text = true ∨ token.kind ≠ .symbol) → (∀ e ∈ arguments, P e) →
    P (.apply ((g.table.resolve? token.text arguments.length).getD
      (.adHoc token.text arguments.length)).entity arguments)
  group {container : Container} {items : List Expr} :
    (∀ e ∈ items, P e) → (container = .list → items.length ≠ 1) → P (.group container items)

/-- Every step hands on nothing. -/
theorem closed_true {g : Setting} : Closed g fun _ => True :=
  ⟨fun _ _ => trivial, fun _ _ _ => trivial, fun _ _ => trivial, fun _ _ _ _ => trivial,
    fun _ _ => trivial⟩

variable {σ β γ : Type} [Supply σ Char] {g : Setting} {m : Netlist} {f : Footing} {s : Session σ}
  {P : Expr → Prop} {read : ExprReader σ}

/-- The session stands at the footing or further on in the text. -/
def Past (s : Session σ) (g : Setting) (m : Netlist) (f : Footing) : Prop :=
  ∃ f', s.Stands g m f' ∧ f'.saved = f.saved ∧ f'.pending ≤ f.pending

theorem Past.of_stands (h : s.Stands g m f) : Past s g m f := ⟨f, h, rfl, Nat.le_refl _⟩

theorem Past.of_pass {token : Token} {q : Place} (h : s.Stands g m (f.pass token q)) :
    Past s g m f := ⟨_, h, rfl, Nat.sub_le _ _⟩

theorem Past.of_view (h : s.Stands g m f.view) : Past s g m f := ⟨_, h, rfl, Nat.le_refl _⟩

theorem Past.trans {f' : Footing} (h : Past s g m f') (hsaved : f'.saved = f.saved)
    (hpending : f'.pending ≤ f.pending) : Past s g m f := by
  obtain ⟨f'', hs, hsaved', hpending'⟩ := h
  exact ⟨f'', hs, hsaved'.trans hsaved, Nat.le_trans hpending' hpending⟩

/-- Where a run has an answer, `Q` holds of it and the session is further on. -/
def Finds (g : Setting) (m : Netlist) (f : Footing) (Q : β → Prop)
    (r : EStateM.Result Failure (Session σ) β) : Prop :=
  Run.Ends (fun b t => Q b ∧ Past t g m f) (fun _ _ => True) r

theorem Finds.bind {Q : β → Prop} {R : γ → Prop} {x : Run (Session σ) β}
    {k : β → Run (Session σ) γ} (hx : Finds g m f Q (x s))
    (hk : ∀ b t f', Q b → t.Stands g m f' → f'.saved = f.saved → f'.pending ≤ f.pending →
      Finds g m f' R (k b t)) : Finds g m f R ((x >>= k) s) := by
  refine Run.Ends.bind hx ?_ (fun _ _ _ => trivial)
  rintro b t ⟨hb, f', ht, hsaved, hpending⟩
  refine (hk b t f' hb ht hsaved hpending).mono ?_ (fun _ _ _ => trivial)
  rintro c t' ⟨hc, hpast⟩
  exact ⟨hc, hpast.trans hsaved hpending⟩

/-- A reader of expressions finds what has the property. -/
def ReaderFinds (g : Setting) (m : Netlist) (P : Expr → Prop) (read : ExprReader σ) : Prop :=
  ∀ bound s f, s.Stands g m f → Finds g m f P (read bound s)

theorem Finds.of_ok {Q : β → Prop} {b : β} {t : Session σ}
    {r : EStateM.Result Failure (Session σ) β} (hr : r = .ok b t) (hb : Q b) (h : Past t g m f) :
    Finds g m f Q r := by
  subst hr
  exact ⟨hb, h⟩

theorem Finds.answer {Q : β → Prop} {b : β} {t : Session σ}
    {r : EStateM.Result Failure (Session σ) β} (h : Finds g m f Q r) (hr : r = .ok b t) :
    Q b ∧ Past t g m f := by
  subst hr
  exact h

theorem Finds.of_ends {Q : β → Prop} {R : β → Session σ → Prop} {E : Failure → Session σ → Prop}
    {r : EStateM.Result Failure (Session σ) β} (h : Run.Ends R E r)
    (hR : ∀ b t, R b t → Q b ∧ Past t g m f) : Finds g m f Q r :=
  h.mono hR fun _ _ _ => trivial

theorem Finds.of_pass {Q : β → Prop} {token : Token} {q : Place}
    {r : EStateM.Result Failure (Session σ) β} (h : Finds g m (f.pass token q) Q r) :
    Finds g m f Q r :=
  h.mono (fun _ _ ⟨hb, hpast⟩ => ⟨hb, hpast.trans rfl (Nat.sub_le _ _)⟩) fun _ _ _ => trivial

theorem Finds.get_bind {Q : β → Prop} {k : Session σ → Run (Session σ) β}
    (h : Finds g m f Q (k s s)) : Finds g m f Q ((get >>= k) s) := h

/-- A loop whose rounds keep an invariant of what they pass on. -/
theorem Finds.iterate {α : Type} {I : α → Prop} {Q : β → Prop} {bound : Session σ → Nat} {a : α}
    {step : α → Run (Session σ) (Run.Round α β)}
    (hstep : ∀ a t f', I a → t.Stands g m f' →
      Finds g m f' (fun round => match round with
        | .again a' => I a'
        | .done b => Q b) (step a t))
    (hI : I a) (h : s.Stands g m f) : Finds g m f Q (Run.iterate bound a step s) := by
  refine Run.Ends.iterate (I := fun a t => I a ∧ Past t g m f) ?_ (fun _ => trivial)
    ⟨hI, .of_stands h⟩
  rintro a t ⟨hI, f', ht, hsaved, hpending⟩
  refine (hstep a t f' hI ht).mono ?_ (fun _ _ _ => trivial)
  rintro round t' ⟨hround, hpast⟩
  cases round with
  | again a' => exact ⟨hround, hpast.trans hsaved hpending⟩
  | done b => exact ⟨hround, hpast.trans hsaved hpending⟩

/-! ### Steps -/

theorem accept_finds (h : s.Stands g m f) {kind : Token.Kind} (hkind : kind ≠ .endOfFile) :
    Finds g m f (fun _ => True) (accept kind s) := by
  refine .of_ends (h.accept hkind) ?_
  rintro accepted t ⟨token, q, hq, ⟨rfl, hk, ht⟩ | ⟨rfl, hk, ht⟩⟩
  · exact ⟨trivial, .of_pass ht⟩
  · exact ⟨trivial, .of_view ht⟩

theorem expect_finds (h : s.Stands g m f) {kind : Token.Kind} (hkind : kind ≠ .endOfFile) :
    Finds g m f (fun _ => True) (expect kind s) := by
  refine .of_ends (h.expect hkind) ?_
  rintro _ t ⟨token, q, hq, hk, ht⟩
  exact ⟨trivial, .of_pass ht⟩

theorem consume_finds (h : s.Stands g m f) {token : Token} {q : Place}
    (hq : f.place.next g.dialect g.table = .ok (token, q)) (hkind : token.kind ≠ .endOfFile) :
    Finds g m f (· = token) (consume s) := by
  refine .of_ends (h.consume hq hkind) ?_
  rintro t s' ⟨rfl, hs'⟩
  exact ⟨rfl, .of_pass hs'⟩

theorem applyOperator_finds (h : s.Stands g m f) {op : Operator} {operands : List Expr}
    {Q : Expr → Prop} (hQ : Q (.apply op.entity operands)) :
    Finds g m f Q (tell (.applyOperator op operands) s) := by
  refine .of_ends (h.tell_applyOperator op operands) ?_
  rintro e t ⟨rfl, ht⟩
  exact ⟨hQ, .of_stands ht⟩

theorem operatorAt_ends (h : s.Stands g m f) (fixity : Fixity) :
    Run.Ends
      (fun found t => t.Stands g m f.view ∧ ∃ token q,
        f.place.next g.dialect g.table = .ok (token, q) ∧
        found = if token.kind.isIdentifier then g.table.get? token.text fixity else none)
      (fun e _ => Refuses g f.place e) (operatorAt fixity s) := by
  unfold operatorAt
  refine h.peek.bind ?_ (fun _ _ he => he)
  rintro token t ⟨q, hq, ht⟩
  by_cases hname : token.kind.isIdentifier = true
  · rw [if_pos hname]
    refine ⟨ht, token, q, hq, ?_⟩
    rw [if_pos hname, ht.table_eq]
  · rw [if_neg hname]
    exact ⟨ht, token, q, hq, (if_neg hname).symm⟩

theorem operatorAt_viewed (h : s.Stands g m f.view) (fixity : Fixity) :
    ∃ found t, operatorAt fixity s = .ok found t := by
  obtain ⟨token, q, t, -, hpeek, -⟩ := h.peek_viewed
  unfold operatorAt
  rw [Run.bind_apply, hpeek]
  by_cases hname : token.kind.isIdentifier = true
  · exact ⟨t.table.get? token.text fixity, t, by simp only [if_pos hname, Run.bind_apply,
      Run.get_apply, Run.pure_apply]⟩
  · exact ⟨none, t, by simp only [if_neg hname, Run.pure_apply]⟩

/-- A registered operator is found at a name. -/
theorem some_of_operatorAt {token : Token} {fixity : Fixity} {op : Operator}
    (h : some op =
      if token.kind.isIdentifier then g.table.get? token.text fixity else none) :
    token.kind.isIdentifier = true ∧ g.table.get? token.text fixity = some op := by
  by_cases hname : token.kind.isIdentifier = true
  · rw [if_pos hname] at h
    exact ⟨hname, h.symm⟩
  · rw [if_neg hname] at h
    cases h

theorem operatorAt_finds (h : s.Stands g m f) (fixity : Fixity) :
    Finds g m f (fun _ => True) (operatorAt fixity s) :=
  .of_ends (operatorAt_ends h fixity) fun _ _ ⟨ht, _⟩ => ⟨trivial, .of_view ht⟩

/-! ### Operands -/

theorem itemsBy_finds (hread : ReaderFinds g m P read) (h : s.Stands g m f)
    (container : Container) :
    Finds g m f (fun items => ∀ e ∈ items, P e) (itemsBy read container s) := by
  unfold itemsBy
  refine (accept_finds h (by simp)).bind fun accepted t f' _ ht _ _ => ?_
  cases accepted with
  | true => exact .of_ok rfl (by simp) (.of_stands ht)
  | false =>
    refine Finds.iterate (I := fun items => ∀ e ∈ items, P e) ?_ (by simp) ht
    intro items t f' hitems ht
    refine (hread none t f' ht).bind fun e t f' he ht _ _ => ?_
    have hall : ∀ e' ∈ e :: items, P e' := by
      intro e' he'
      rcases List.mem_cons.1 he' with rfl | he'
      · exact he
      · exact hitems e' he'
    refine (accept_finds ht (by simp)).bind fun accepted t f' _ ht _ _ => ?_
    cases accepted with
    | true => exact .of_ok rfl hall (.of_stands ht)
    | false =>
      refine (expect_finds ht (by simp)).bind fun _ t f' _ ht _ _ => ?_
      exact .of_ok rfl (fun e' he' => hall e' (List.mem_reverse.1 he')) (.of_stands ht)

theorem groupBy_finds (hread : ReaderFinds g m P read) (h : s.Stands g m f) {token : Token}
    {q : Place} {container : Container} (hq : f.place.next g.dialect g.table = .ok (token, q))
    (hkind : token.kind = .opening container) :
    Finds g m f (fun found => ∀ e ∈ found.2, P e) (groupBy read s) := by
  unfold groupBy
  refine (consume_finds h hq (by simp [hkind])).bind ?_
  rintro token t f' rfl ht _ _
  rw [hkind]
  refine (itemsBy_finds hread ht container).bind fun items t f' hitems ht _ _ => ?_
  exact .of_ok rfl hitems (.of_stands ht)

theorem callBy_finds (hP : Closed g P) (hread : ReaderFinds g m P read) (h : s.Stands g m f)
    {token second : Token} {q r : Place} (hq : f.place.next g.dialect g.table = .ok (token, q))
    (hname : token.kind.isIdentifier = true)
    (hknown : g.table.contains token.text = true ∨ token.kind ≠ .symbol)
    (hr : q.next g.dialect g.table = .ok (second, r)) (hsecond : second.kind = .opening .list) :
    Finds g m f P (callBy read s) := by
  unfold callBy
  refine Run.Ends.bind (h.consume hq (ne_endOfFile_of_isIdentifier hname)) ?_
    (fun _ _ _ => trivial)
  rintro token t ⟨rfl, ht⟩
  refine Finds.of_pass ((groupBy_finds hread ht hr hsecond).bind ?_)
  rintro ⟨container, arguments⟩ t f' harguments ht _ _
  show Finds g m f' P (tell (.applyOperator ((t.table.resolve? token.text arguments.length).getD
    (.adHoc token.text arguments.length)) arguments) t)
  rw [ht.table_eq]
  exact applyOperator_finds ht (hP.called hq hname hknown harguments)

theorem prefixedBy_finds (hP : Closed g P) (hread : ReaderFinds g m P read) (h : s.Stands g m f)
    {token : Token} {q : Place} (hq : f.place.next g.dialect g.table = .ok (token, q))
    (hname : token.kind.isIdentifier = true) {op : Operator}
    (hop : g.table.get? token.text .prefixOp = some op) :
    Finds g m f P (prefixedBy read op s) := by
  unfold prefixedBy
  refine (consume_finds h hq (ne_endOfFile_of_isIdentifier hname)).bind fun _ t f' _ ht _ _ => ?_
  refine (hread _ t f' ht).bind fun operand t f' hoperand ht _ _ => ?_
  refine applyOperator_finds ht (hP.applied hop fun e he => ?_)
  rw [List.mem_singleton.1 he]
  exact hoperand

theorem namedBy_finds (hP : Closed g P) (hread : ReaderFinds g m P read) (h : s.Stands g m f)
    {token : Token} {q : Place} (hq : f.place.next g.dialect g.table = .ok (token, q))
    (hname : token.kind.isIdentifier = true) :
    Finds g m f P (namedBy read token.kind s) := by
  unfold namedBy
  refine Run.Ends.bind h.peek ?_ (fun _ _ _ => trivial)
  rintro token' t ⟨q', hq', ht⟩
  rw [hq] at hq'
  cases hq'
  refine Finds.get_bind (Run.Ends.bind (ht.secondKind hq) ?_ (fun _ _ _ => trivial))
  rintro _ t' ⟨second, r, hr, rfl, ht'⟩
  rw [ht.table_eq]
  show Finds g m f.view P _
  by_cases hcall : second.kind = .opening .list ∧
      (g.table.contains token.text = true ∨ token.kind ≠ .symbol)
  · rw [if_pos hcall]
    exact callBy_finds hP hread ht' hq hname hcall.2 hr hcall.1
  · rw [if_neg hcall]
    refine Run.Ends.bind (operatorAt_ends ht' .prefixOp) ?_ (fun _ _ _ => trivial)
    rintro found t'' ⟨ht'', token', q', hq', rfl⟩
    rw [show f.view.place = f.place from rfl, hq] at hq'
    cases hq'
    rw [if_pos hname]
    cases hop : g.table.get? token.text .prefixOp with
    | some op => exact prefixedBy_finds hP hread ht'' hq hname hop
    | none =>
      by_cases hsymbol : token.kind = .symbol
      · simp only [if_pos hsymbol]
        exact (unexpectedOperand_ends t'').mono (fun _ _ hf => hf.elim) fun _ _ _ => trivial
      · simp only [if_neg hsymbol]
        refine (consume_finds ht'' hq (ne_endOfFile_of_isIdentifier hname)).bind ?_
        rintro token t f' rfl ht _ _
        refine .of_ends (ht.tell_useSignal token.text) ?_
        rintro e t ⟨rfl, ht⟩
        refine ⟨hP.signal hq ?_ hop, .of_stands ht⟩
        cases hk : token.kind <;> simp_all [Token.Kind.isIdentifier, Token.Kind.isTextIdentifier]

theorem operandBy_finds (hP : Closed g P) (hread : ReaderFinds g m P read)
    (h : s.Stands g m f) : Finds g m f P (operandBy read s) := by
  unfold operandBy
  refine Run.Ends.bind h.peekKind ?_ (fun _ _ _ => trivial)
  rintro _ t ⟨token, q, hq, rfl, ht⟩
  show Finds g m f.view P _
  cases hconstant : constantKind? token.kind with
  | some constant =>
    have hkind : token.kind ≠ .endOfFile := by
      intro hend
      rw [hend] at hconstant
      cases hconstant
    refine (consume_finds ht hq hkind).bind ?_
    rintro token t f' rfl ht _ _
    obtain ⟨t', htell, ht'⟩ := ht.tell_constant constant token.text
    exact .of_ok htell (hP.constant hq hconstant) (.of_stands ht')
  | none =>
    by_cases hopening : token.kind.isOpening = true
    · simp only [if_pos hopening]
      obtain ⟨container, hkind⟩ : ∃ container, token.kind = .opening container := by
        cases hk : token.kind <;> simp_all [Token.Kind.isOpening]
      refine (groupBy_finds hread ht hq hkind).bind ?_
      rintro ⟨container, items⟩ t f' hitems ht _ _
      have hgroup : (container = .list → items.length ≠ 1) →
          Finds g m f' P (tell (.encapsulate container items) t) := by
        intro hsingle
        obtain ⟨t', htell, ht'⟩ := ht.tell_encapsulate container items
        exact .of_ok htell (hP.group hitems hsingle) (.of_stands ht')
      -- A list of one item is that item, and all other groups go to the netlist.
      cases container with
      | list =>
        match items with
        | [] => exact hgroup (by simp)
        | [item] => exact .of_ok rfl (hitems item List.mem_cons_self) (.of_stands ht)
        | _ :: _ :: _ => exact hgroup (by simp)
      | vector => exact hgroup (by simp)
      | set => exact hgroup (by simp)
      | scalar => exact hgroup (by simp)
    · simp only [if_neg hopening]
      by_cases hname : token.kind.isIdentifier = true
      · rw [if_pos hname]
        exact namedBy_finds hP hread ht hq hname
      · rw [if_neg hname]
        exact (unexpectedOperand_ends t).mono (fun _ _ hf => hf.elim) fun _ _ _ => trivial

/-! ### Expressions -/

/-- What stands on the stacks: expressions with the property, and registered operators. -/
structure Stacked (g : Setting) (P : Expr → Prop) (held : Stacks) : Prop where
  operands : ∀ e ∈ held.operands, P e
  operators : ∀ op ∈ held.operators, ∃ symbol fixity, g.table.get? symbol fixity = some op

/-- Where a run has an answer, `Q` holds of it and the session stands where it stood. -/
def Stays (g : Setting) (m : Netlist) (f : Footing) (Q : β → Prop)
    (r : EStateM.Result Failure (Session σ) β) : Prop :=
  Run.Ends (fun b t => Q b ∧ t.Stands g m f) (fun _ _ => True) r

theorem Stays.bind {Q : β → Prop} {R : γ → Prop} {x : Run (Session σ) β}
    {k : β → Run (Session σ) γ} (hx : Stays g m f Q (x s))
    (hk : ∀ b t, Q b → t.Stands g m f → Stays g m f R (k b t)) :
    Stays g m f R ((x >>= k) s) :=
  Run.Ends.bind hx (fun b t ⟨hb, ht⟩ => hk b t hb ht) fun _ _ _ => trivial

theorem popOperand_stays (h : s.Stands g m f) {operands : List Expr}
    (hoperands : ∀ e ∈ operands, P e) :
    Stays g m f (fun found => P found.1 ∧ ∀ e ∈ found.2, P e) (popOperand operands s) := by
  cases operands with
  | nil => exact trivial
  | cons e rest =>
    exact ⟨⟨hoperands e List.mem_cons_self,
      fun e' he' => hoperands e' (List.mem_cons_of_mem e he')⟩, h⟩

theorem reduce_stays (hP : Closed g P) (h : s.Stands g m f) {held : Stacks}
    (hstacks : Stacked g P held) : Stays g m f (Stacked g P) (reduce held s) := by
  obtain ⟨operands, operators⟩ := held
  unfold reduce
  cases operators with
  | nil => exact trivial
  | cons op operators =>
    obtain ⟨symbol, fixity, hop⟩ := hstacks.operators op List.mem_cons_self
    refine (popOperand_stays h hstacks.operands).bind ?_
    rintro ⟨right, rest⟩ t ⟨hright, hrest⟩ ht
    refine (popOperand_stays ht hrest).bind ?_
    rintro ⟨left, rest⟩ t ⟨hleft, hrest⟩ ht
    refine Run.Ends.bind (ht.tell_applyOperator op [left, right]) ?_ (fun _ _ _ => trivial)
    rintro _ t ⟨rfl, ht⟩
    refine ⟨⟨?_, ?_⟩, ht⟩
    · intro e he
      rcases List.mem_cons.1 he with rfl | he
      · refine hP.applied hop fun e he => ?_
        rcases List.mem_cons.1 he with rfl | he
        · exact hleft
        · rw [List.mem_singleton.1 he]
          exact hright
      · exact hrest e he
    · exact fun op' hop' => hstacks.operators op' (List.mem_cons_of_mem op hop')

theorem reduceWhile_stays (hP : Closed g P) {first : Operator → Bool} {n : Nat}
    (h : s.Stands g m f) {held : Stacks} (hstacks : Stacked g P held) :
    Stays g m f (Stacked g P) (reduceWhile first n held s) := by
  induction n generalizing s held with
  | zero => exact ⟨hstacks, h⟩
  | succ n ih =>
    unfold reduceWhile
    by_cases hfirst : held.operators.head?.any first = true
    · rw [if_pos hfirst]
      exact (reduce_stays hP h hstacks).bind fun held t hstacks ht => ih ht hstacks
    · rw [if_neg hfirst]
      exact ⟨hstacks, h⟩

theorem infixesBy_finds (hP : Closed g P) (hread : ReaderFinds g m P read) (h : s.Stands g m f)
    {bound : Option Nat} {held : Stacks} (hstacks : Stacked g P held) :
    Finds g m f (Stacked g P) (infixesBy read bound held s) := by
  unfold infixesBy
  refine Finds.iterate (I := Stacked g P) ?_ hstacks h
  intro held t f hstacks ht
  refine Run.Ends.bind (operatorAt_ends ht .infixOp) ?_ (fun _ _ _ => trivial)
  rintro found t ⟨ht, token, q, hq, hfound⟩
  show Finds g m f.view _ _
  cases found with
  | none => exact .of_ok rfl hstacks (.of_stands ht)
  | some op =>
    obtain ⟨hname, hop⟩ := some_of_operatorAt hfound
    by_cases hbinds : binds bound op.precedence = true
    · simp only [if_pos hbinds]
      refine Run.Ends.bind (reduceWhile_stays hP ht hstacks) ?_ (fun _ _ _ => trivial)
      rintro held t ⟨hstacks, ht⟩
      refine (consume_finds ht hq (ne_endOfFile_of_isIdentifier hname)).bind
        fun _ t f' _ ht _ _ => ?_
      refine (operandBy_finds hP hread ht).bind fun operand t f' hoperand ht _ _ => ?_
      refine .of_ok rfl ⟨?_, ?_⟩ (.of_stands ht)
      · intro e he
        rcases List.mem_cons.1 he with rfl | he
        · exact hoperand
        · exact hstacks.operands e he
      · intro op' hop'
        rcases List.mem_cons.1 hop' with rfl | hop'
        · exact ⟨_, _, hop⟩
        · exact hstacks.operators op' hop'
    · simp only [if_neg hbinds]
      exact .of_ok rfl hstacks (.of_stands ht)

theorem postfixesBy_finds (hP : Closed g P) (h : s.Stands g m f) {bound : Option Nat}
    {operand : Expr} (hoperand : P operand) :
    Finds g m f (fun found => P found.1) (postfixesBy bound operand s) := by
  unfold postfixesBy
  refine Finds.iterate (I := fun passed => P passed.1) ?_ hoperand h
  rintro ⟨operand, applied⟩ t f hoperand ht
  refine Run.Ends.bind (operatorAt_ends ht .postfixOp) ?_ (fun _ _ _ => trivial)
  rintro found t ⟨ht, token, q, hq, hfound⟩
  show Finds g m f.view _ _
  cases found with
  | none => exact .of_ok rfl hoperand (.of_stands ht)
  | some op =>
    obtain ⟨hname, hop⟩ := some_of_operatorAt hfound
    by_cases hbinds : binds bound op.precedence = true
    · simp only [if_pos hbinds]
      refine (consume_finds ht hq (ne_endOfFile_of_isIdentifier hname)).bind
        fun _ t f' _ ht _ _ => ?_
      refine (applyOperator_finds ht (hP.applied hop fun e he => ?_)).bind
        fun node t f' hnode ht _ _ => .of_ok rfl hnode (.of_stands ht)
      rw [List.mem_singleton.1 he]
      exact hoperand
    · simp only [if_neg hbinds]
      exact .of_ok rfl hoperand (.of_stands ht)

theorem climbBy_finds (hP : Closed g P) (hread : ReaderFinds g m P read) :
    ReaderFinds g m P (climbBy read) := by
  intro bound s f h
  unfold climbBy
  refine (operandBy_finds hP hread h).bind fun first t f' hfirst ht _ _ => ?_
  refine Finds.iterate (I := P) ?_ hfirst ht
  intro first t f hfirst ht
  have hstart : Stacked g P { operands := [first], operators := [] } :=
    ⟨fun e he => by rw [List.mem_singleton.1 he]; exact hfirst, by simp⟩
  refine (infixesBy_finds hP hread ht hstart).bind fun held t f' hstacks ht _ _ => ?_
  refine Run.Ends.bind (reduceWhile_stays hP ht hstacks) ?_ (fun _ _ _ => trivial)
  rintro held t ⟨hstacks, ht⟩
  refine Run.Ends.bind (popOperand_stays ht hstacks.operands) ?_ (fun _ _ _ => trivial)
  rintro ⟨whole, rest⟩ t ⟨⟨hwhole, -⟩, ht⟩
  refine (postfixesBy_finds hP ht hwhole).bind ?_
  rintro ⟨whole, applied⟩ t f' hwhole ht _ _
  refine (operatorAt_finds ht .infixOp).bind fun found t f' _ ht _ _ => ?_
  by_cases hmore : (applied && found.any fun op => binds bound op.precedence) = true
  · rw [if_pos hmore]
    exact .of_ok rfl hwhole (.of_stands ht)
  · rw [if_neg hmore]
    exact .of_ok rfl hwhole (.of_stands ht)

theorem climb_finds (hP : Closed g P) (depth : Nat) :
    ReaderFinds (σ := σ) g m P (climb depth) := by
  induction depth with
  | zero => exact fun _ _ _ _ => trivial
  | succ depth ih => exact climbBy_finds hP ih

/-- **Expressions are built by the steps of the parser.** What these hand on holds of every
expression that is read. -/
theorem expression_finds (hP : Closed g P) (h : s.Stands g m f) :
    Finds g m f P (expression s) :=
  climb_finds hP _ none s f h

end Dataflow.Parser
