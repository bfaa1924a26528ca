import Dataflow.Parser.Expression
import Dataflow.Proofs.Pairing

/-!
# Dataflow.Proofs.PairedExpressions

**Expressions side by side.** Over coupled texts two sessions read the same expression, and tell
their netlists the same of it. An expression never takes the executor or the end, and looks at
most one token past a name; so where the second text ends at the border, both sessions stop in
front of it.

How deep expressions may stand inside each other is bounded by what each session has before it,
which is not the same in both. Neither bound is ever met (`climb_keeps`), unless the end marker
itself opens groups: then both are.
-/

namespace Dataflow.Parser

open Reading Lexer Circuit Session

variable {σ β : Type} [Supply σ Char] {c : Coupling} {n m : Nat} {marks : List Nat}
  {s s' : Session σ} {read read' : ExprReader σ}

/-- The readers of expressions go on together where fewer than `n` tokens are to come, and none of
them comes back from brackets without end. -/
structure ReadersKeep (c : Coupling) (n : Nat) (marks : List Nat) (read read' : ExprReader σ) :
    Prop where
  takes : ∀ bound m s s', m < n → Coupled c { pending := m, marks } s s' →
    Takes c m marks (read bound s) (read' bound s')
  halts : ∀ container s, s.Endless (.opening container) → Halts s.calls (read none s)
  halts' : ∀ container s, s.Endless (.opening container) → Halts s.calls (read' none s)

theorem ReadersKeep.mono (h : ReadersKeep c n marks read read') (hm : m ≤ n) :
    ReadersKeep c m marks read read' :=
  ⟨fun bound k s s' hk => h.takes bound k s s' (Nat.lt_of_lt_of_le hk hm), h.halts, h.halts'⟩

/-- The operators stand for no further entities. -/
def Stacks.Common (c : Coupling) (held : Stacks) : Prop :=
  ∀ op ∈ held.operators, Foreign c.extra op.entity

/-- The registration of a token that both sessions have looked at. -/
theorem registration_together {w : View} {t t' : Token} (h : Coupled c w s s')
    (halike : c.Alike t t') (fixity : Fixity) :
    Together c (fun o o' u u' => o = o' ∧ Coupled c w u u' ∧ (o ≠ none → t'.kind.isSolid = true) ∧
        ∀ op ∈ o, Foreign c.extra op.entity)
      ((if t.kind.isIdentifier then return (← get).table.get? t.text fixity
        else return none : Run (Session σ) (Option Operator)) s)
      ((if t'.kind.isIdentifier then return (← get).table.get? t'.text fixity
        else return none : Run (Session σ) (Option Operator)) s') := by
  have hsame := halike.apply (f := Token.Kind.isIdentifier) rfl
  by_cases hname : t'.kind.isIdentifier = true
  · have hsolid := Token.Kind.isSolid_of_isIdentifier hname
    rw [if_pos (hsame.trans hname), if_pos hname]
    have hdown := halike.eq_down (Token.Kind.ne_endOfFile_of_isSolid hsolid)
    have hfound : s.table.get? t.text fixity = s'.table.get? t'.text fixity := by
      rw [hdown]
      exact h.tables.get? _ _ (halike.named (.inl hname))
    refine .answers ⟨hfound, h, fun _ => hsolid, fun op hop => ?_⟩
    exact h.tables.entity _ _ op (hfound.symm.trans hop)
  · rw [if_neg (fun h => hname (hsame.symm.trans h)), if_neg hname]
    exact .answers ⟨rfl, h, fun hne => absurd rfl hne, nofun⟩

theorem operatorAt_together (h : Coupled c { pending := n, marks } s s') (fixity : Fixity) :
    Together c (fun o o' u u' => o = o' ∧ ∃ t t', Coupled c ⟨n, marks, [(t, t')]⟩ u u' ∧
        (o ≠ none → t'.kind.isSolid = true) ∧ ∀ op ∈ o, Foreign c.extra op.entity)
      (operatorAt fixity s) (operatorAt fixity s') := by
  unfold operatorAt
  refine h.peek.bind fun t t' u u' hu => ?_
  refine (registration_together hu hu.alike fixity).mono ?_
  rintro o o' v v' ⟨ho, hv, hkind, hentity⟩
  exact ⟨ho, t, t', hv, hkind, hentity⟩

theorem operatorAt_known {t t' : Token} {heads : List (Token × Token)}
    (h : Coupled c ⟨n, marks, (t, t') :: heads⟩ s s') (fixity : Fixity) :
    Together c (fun o o' u u' => o = o' ∧ Coupled c ⟨n, marks, (t, t') :: heads⟩ u u' ∧
        ∀ op ∈ o, Foreign c.extra op.entity)
      (operatorAt fixity s) (operatorAt fixity s') := by
  obtain ⟨k, k', hpeek, hpeek', hk⟩ := h.peek_known
  unfold operatorAt
  rw [Run.bind_apply, Run.bind_apply, hpeek, hpeek']
  exact (registration_together hk hk.alike fixity).mono
    fun _ _ _ _ ⟨ho, hv, _, hentity⟩ => ⟨ho, hv, hentity⟩

/-! ### Operands -/

theorem itemsBy_keeps (hread : ReadersKeep c n marks read read')
    (h : Coupled c { pending := m, marks } s s') (hm : m < n) (container : Container) :
    Keeps c { pending := m, marks } (itemsBy read container s) (itemsBy read' container s') := by
  unfold itemsBy
  refine (h.accept (by simp) (by simp)).bind ?_
  rintro b _ t t' ⟨rfl, ⟨rfl, ht⟩ | ⟨rfl, _, ht⟩⟩
  · exact .answers ⟨rfl, ht⟩
  · refine (ht.forget (Nat.le_refl m)).iterate (I := fun items items' _ => items = items')
      (fun _ _ => rfl) ?_
    rintro items _ k u u' hk rfl hu
    refine (hread.takes none k u u' (by omega) hu).bind ?_
    rintro e _ v v' ⟨rfl, hpos, hv⟩
    refine (hv.accept (by simp) (by simp)).bind ?_
    rintro b _ x x' ⟨rfl, ⟨rfl, hx⟩ | ⟨rfl, _, hx⟩⟩
    · exact .answers (.again (Nat.sub_lt hpos Nat.one_pos) rfl hx)
    · refine ((hx.forget (Nat.le_refl _)).expect (by simp) (by simp)).bind ?_
      intro _ _ y y' hy
      exact .answers (.done ⟨rfl, hy.forget (Nat.le_trans (Nat.sub_le k 1) hk)⟩)

/-- A group, whose bracket has been looked at. Where the bracket is the end marker, neither session
comes back. -/
theorem groupBy_takes (hread : ReadersKeep c m marks read read') {t t' : Token}
    {heads : List (Token × Token)} (h : Coupled c ⟨m, marks, (t, t') :: heads⟩ s s')
    {container : Container} (hkind : t'.kind = .opening container) :
    Takes c m marks (groupBy read s) (groupBy read' s') := by
  cases hcovers : t'.span.isEmpty with
  | true =>
    obtain ⟨hs, hs'⟩ := h.endless (by simp [hkind]) hcovers
    rw [hkind] at hs hs'
    exact .of_halts (groupBy_halts (hread.halts container) hs)
      (groupBy_halts (hread.halts' container) hs') h.calls
  | false =>
    obtain ⟨u, u', k, hconsume, hconsume', htoken, -, hless, hu⟩ := h.take (by simp [hkind])
    have hlt := hless hcovers
    have hkind₁ : t.kind = .opening container := by rw [htoken, Token.kind_down, hkind]
    unfold groupBy
    rw [Run.bind_apply, Run.bind_apply, hconsume, hconsume']
    dsimp only
    rw [hkind, hkind₁]
    refine (itemsBy_keeps hread (hu.forget (Nat.le_refl _)) hlt container).bind
      fun items v v' hv => ?_
    exact .answers ⟨rfl, by omega, hv.forget (Nat.le_sub_one_of_lt hlt)⟩

/-- A call, whose name and bracket have been looked at. -/
theorem callBy_takes (hread : ReadersKeep c m marks read read') {t t' r r' : Token}
    (h : Coupled c ⟨m, marks, [(t, t'), (r, r')]⟩ s s') (hname : t'.kind.isIdentifier = true)
    (hkind : r'.kind = .opening .list) :
    Takes c m marks (callBy read s) (callBy read' s') := by
  have hforeign := h.alike.named (.inl hname)
  obtain ⟨u, u', hconsume, hconsume', hpos, rfl, hu⟩ :=
    h.consume (Token.Kind.isSolid_of_isIdentifier hname)
  unfold callBy
  rw [Run.bind_apply, Run.bind_apply, hconsume, hconsume']
  refine (groupBy_takes (hread.mono (Nat.sub_le m 1)) hu hkind).keeps.bind fun found v v' hv => ?_
  obtain ⟨container, arguments⟩ := found
  refine Together.get_bind ?_
  obtain ⟨hsame, hentity⟩ := hv.tables.resolve? hforeign arguments.length
  rw [Token.text_down, hsame]
  refine (hv.tell (.applyOperator _ arguments) fun name hmem => ?_).takes hpos
  cases hmem
  exact hentity

/-- An operator in front of its operand, which has been looked at. -/
theorem prefixedBy_takes (hread : ReadersKeep c m marks read read') {t t' : Token}
    {heads : List (Token × Token)} (h : Coupled c ⟨m, marks, (t, t') :: heads⟩ s s')
    (hsolid : t'.kind.isSolid = true) {op : Operator} (hop : Foreign c.extra op.entity) :
    Takes c m marks (prefixedBy read op s) (prefixedBy read' op s') := by
  obtain ⟨u, u', hconsume, hconsume', hpos, -, hu⟩ := h.consume hsolid
  unfold prefixedBy
  rw [Run.bind_apply, Run.bind_apply, hconsume, hconsume']
  refine (hread.takes _ (m - 1) u u' (Nat.sub_lt hpos Nat.one_pos)
    (hu.forget (Nat.le_refl _))).keeps.bind fun operand v v' hv => ?_
  refine (hv.tell (.applyOperator op [operand]) fun name hmem => ?_).takes hpos
  cases hmem
  exact hop

/-- A name, which has been looked at. -/
theorem namedBy_takes (hread : ReadersKeep c m marks read read') {t t' : Token}
    (h : Coupled c ⟨m, marks, [(t, t')]⟩ s s') (hname : t'.kind.isIdentifier = true) :
    Takes c m marks (namedBy read t.kind s) (namedBy read' t'.kind s') := by
  have hsolid := Token.Kind.isSolid_of_isIdentifier hname
  have hkind := Token.Kind.ne_endOfFile_of_isSolid hsolid
  obtain rfl : t = t'.down c.lines := h.alike.eq_down hkind
  obtain ⟨k, k', hpeek, hpeek', hk⟩ := h.peek_known
  unfold namedBy
  rw [Run.bind_apply, Run.bind_apply, hpeek, hpeek']
  refine Together.get_bind ?_
  have hcontains : k.table.contains (t'.down c.lines).text = k'.table.contains t'.text :=
    hk.tables.contains _ (h.alike.named (.inl hname))
  refine (hk.secondKind hkind).bind ?_
  rintro _ _ u u' ⟨r, r', rfl, rfl, halike, hu⟩
  have hopening : r.kind = .opening .list ↔ r'.kind = .opening .list :=
    iff_of_eq (halike.apply (f := (· = Token.Kind.opening .list)) (by simp))
  have hcalls : (r.kind = .opening .list ∧ (k.table.contains (t'.down c.lines).text = true ∨
      (t'.down c.lines).kind ≠ .symbol)) ↔
      r'.kind = .opening .list ∧ (k'.table.contains t'.text = true ∨ t'.kind ≠ .symbol) := by
    rw [hcontains, Token.kind_down, hopening]
  by_cases hcall : r'.kind = .opening .list ∧
      (k'.table.contains t'.text = true ∨ t'.kind ≠ .symbol)
  · rw [if_pos (hcalls.2 hcall), if_pos hcall]
    exact callBy_takes hread hu hname hcall.1
  · rw [if_neg fun h => hcall (hcalls.1 h), if_neg hcall]
    refine (operatorAt_known hu .prefixOp).bind ?_
    rintro o _ v v' ⟨rfl, hv, hentity⟩
    cases o with
    | some op => exact prefixedBy_takes hread hv hsolid (hentity op rfl)
    | none =>
      dsimp only
      rw [Token.kind_down]
      by_cases hsymbol : t'.kind = .symbol
      · rw [if_pos hsymbol]
        exact hv.unexpectedOperand
      · rw [if_neg hsymbol]
        obtain ⟨x, x', hconsume, hconsume', hpos, -, hx⟩ := hv.consume hsolid
        rw [Run.bind_apply, Run.bind_apply, hconsume, hconsume']
        exact ((hx.forget (Nat.le_refl _)).tell (.useSignal t'.text) nofun).takes hpos

/-- An operand takes something. -/
theorem operandBy_takes (hread : ReadersKeep c m marks read read')
    (h : Coupled c { pending := m, marks } s s') :
    Takes c m marks (operandBy read s) (operandBy read' s') := by
  unfold operandBy
  refine h.peekKind.bind ?_
  rintro _ _ t t' ⟨r, r', rfl, rfl, ht⟩
  have halike := ht.alike
  have hconstant := halike.apply (f := constantKind?) rfl
  rw [hconstant]
  cases hkind : constantKind? r'.kind with
  | some constant =>
    have hsolid : r'.kind.isSolid = true := by
      cases hk : r'.kind <;> first | rfl | (rw [hk] at hkind; cases hkind)
    obtain ⟨u, u', hconsume, hconsume', hpos, rfl, hu⟩ := ht.consume hsolid
    dsimp only
    rw [Run.bind_apply, Run.bind_apply, hconsume, hconsume']
    exact (hu.tell (.constant constant r'.text) nofun).takes hpos
  | none =>
    dsimp only
    rw [halike.apply (f := Token.Kind.isOpening) rfl, halike.apply (f := Token.Kind.isIdentifier) rfl]
    by_cases hopening : r'.kind.isOpening = true
    · rw [if_pos hopening, if_pos hopening]
      obtain ⟨container, hcontainer⟩ : ∃ container, r'.kind = .opening container := by
        cases hk : r'.kind <;> simp_all [Token.Kind.isOpening]
      refine (groupBy_takes hread ht hcontainer).bind ?_
      rintro ⟨container, items⟩ _ u u' ⟨rfl, hpos, hu⟩
      -- A list of one item is that item, and all other groups go to the netlist.
      have hgroup := (hu.tell (.encapsulate container items) nofun).takes hpos
      cases container with
      | list =>
        match items with
        | [] => exact hgroup
        | [item] => exact .answers ⟨rfl, hpos, hu⟩
        | _ :: _ :: _ => exact hgroup
      | vector => exact hgroup
      | set => exact hgroup
      | scalar => exact hgroup
    · rw [if_neg hopening, if_neg hopening]
      by_cases hname : r'.kind.isIdentifier = true
      · rw [if_pos hname, if_pos hname]
        exact namedBy_takes hread ht hname
      · rw [if_neg hname, if_neg hname]
        exact ht.unexpectedOperand

/-! ### Expressions -/

theorem popOperand_keeps {w : View} (h : Coupled c w s s') (operands : List Expr) :
    Keeps c w (popOperand operands s) (popOperand operands s') := by
  cases operands with
  | nil => exact .failures rfl h.calls
  | cons e rest => exact .answers ⟨rfl, h⟩

theorem reduce_together {w : View} (h : Coupled c w s s') {held : Stacks} (hheld : held.Common c) :
    Together c (fun left left' t t' => left = left' ∧ Stacks.Common c left ∧ Coupled c w t t')
      (reduce held s) (reduce held s') := by
  obtain ⟨operands, operators⟩ := held
  unfold reduce
  cases operators with
  | nil => exact .failures rfl h.calls
  | cons op operators =>
    refine (popOperand_keeps h operands).bind fun right t t' ht => ?_
    refine (popOperand_keeps ht right.2).bind fun left u u' hu => ?_
    have hentity : ∀ name ∈ (Call.applyOperator op [left.1, right.1]).reference?,
        Foreign c.extra name := by
      intro name hmem
      cases hmem
      exact hheld op List.mem_cons_self
    refine (hu.tell (.applyOperator op [left.1, right.1]) hentity).bind fun node v v' hv => ?_
    exact .answers ⟨rfl, fun op hop => hheld op (List.mem_cons_of_mem _ hop), hv⟩

theorem reduceWhile_together {w : View} (h : Coupled c w s s') (first : Operator → Bool) (count : Nat)
    {held : Stacks} (hheld : held.Common c) :
    Together c (fun left left' t t' => left = left' ∧ Stacks.Common c left ∧ Coupled c w t t')
      (reduceWhile first count held s) (reduceWhile first count held s') := by
  induction count generalizing held s s' with
  | zero => exact .answers ⟨rfl, hheld, h⟩
  | succ count ih =>
    unfold reduceWhile
    by_cases hfirst : held.operators.head?.any first = true
    · rw [if_pos hfirst]
      refine (reduce_together h hheld).bind ?_
      rintro left _ t t' ⟨rfl, hleft, ht⟩
      exact ih ht hleft
    · rw [if_neg hfirst]
      exact .answers ⟨rfl, hheld, h⟩

theorem infixesBy_together (hread : ReadersKeep c m marks read read')
    (h : Coupled c { pending := m, marks } s s') (bound : Option Nat) {held : Stacks}
    (hheld : held.Common c) :
    Together c (fun left left' t t' => left = left' ∧ Stacks.Common c left ∧
        Coupled c { pending := m, marks } t t')
      (infixesBy read bound held s) (infixesBy read' bound held s') := by
  unfold infixesBy
  refine h.iterate (I := fun held held' _ => held = held' ∧ Stacks.Common c held)
    (fun _ _ => ⟨rfl, hheld⟩) ?_
  rintro held _ k t t' hk ⟨rfl, hheld⟩ ht
  refine (operatorAt_together ht .infixOp).bind ?_
  rintro o _ u u' ⟨rfl, r, r', hu, hkind, hentity⟩
  cases o with
  | none => exact .answers (.done ⟨rfl, hheld, hu.forget hk⟩)
  | some op =>
    dsimp only
    by_cases hbinds : binds bound op.precedence = true
    · rw [if_pos hbinds, if_pos hbinds]
      refine (reduceWhile_together hu _ _ hheld).bind ?_
      rintro held _ v v' ⟨rfl, hheld, hv⟩
      obtain ⟨x, x', hconsume, hconsume', hpos, -, hx⟩ := hv.consume (hkind (by simp))
      rw [Run.bind_apply, Run.bind_apply, hconsume, hconsume']
      refine (operandBy_takes (hread.mono (Nat.le_trans (Nat.sub_le k 1) hk)) hx).keeps.bind
        fun operand y y' hy => ?_
      exact .answers (.again (Nat.sub_lt hpos Nat.one_pos)
        ⟨rfl, List.forall_mem_cons.2 ⟨hentity op rfl, hheld⟩⟩ hy)
    · rw [if_neg hbinds, if_neg hbinds]
      exact .answers (.done ⟨rfl, hheld, hu.forget hk⟩)

/-- Where operators have been applied, they have been consumed. -/
theorem postfixesBy_together (h : Coupled c { pending := m, marks } s s') (bound : Option Nat)
    (operand : Expr) :
    Together c (fun found found' t t' => found = found' ∧ ∃ k, k ≤ m ∧
        (found.2 = true → k < m) ∧ Coupled c { pending := k, marks } t t')
      (postfixesBy bound operand s) (postfixesBy bound operand s') := by
  unfold postfixesBy
  refine h.iterate (I := fun passed passed' k => passed = passed' ∧ (passed.2 = true → k < m))
    (fun k hk => ⟨rfl, by simp⟩) ?_
  rintro ⟨operand, applied⟩ _ k t t' hk ⟨rfl, happlied⟩ ht
  refine (operatorAt_together ht .postfixOp).bind ?_
  rintro o _ u u' ⟨rfl, r, r', hu, hkind, hentity⟩
  have hdone := hu.forget (Nat.le_refl k)
  cases o with
  | none => exact .answers (.done ⟨rfl, k, hk, happlied, hdone⟩)
  | some op =>
    dsimp only
    by_cases hbinds : binds bound op.precedence = true
    · rw [if_pos hbinds]
      obtain ⟨x, x', hconsume, hconsume', hpos, -, hx⟩ := hu.consume (hkind (by simp))
      rw [Run.bind_apply, Run.bind_apply, hconsume, hconsume']
      have hcall : ∀ name ∈ (Call.applyOperator op [operand]).reference?, Foreign c.extra name := by
        intro name hmem
        cases hmem
        exact hentity op rfl
      refine (hx.tell (.applyOperator op [operand]) hcall).bind fun node y y' hy => ?_
      exact .answers (.again (Nat.sub_lt hpos Nat.one_pos) ⟨rfl, fun _ => by omega⟩ hy)
    · rw [if_neg hbinds]
      exact .answers (.done ⟨rfl, k, hk, happlied, hdone⟩)

/-- An expression takes something, because its first operand does. -/
theorem climbBy_takes (hread : ReadersKeep c m marks read read')
    (h : Coupled c { pending := m, marks } s s') (bound : Option Nat) :
    Takes c m marks (climbBy read bound s) (climbBy read' bound s') := by
  unfold climbBy
  refine (operandBy_takes hread h).bind ?_
  rintro first _ t t' ⟨rfl, hpos, ht⟩
  refine Keeps.takes ?_ hpos
  refine ht.iterate (I := fun first first' _ => first = first') (fun _ _ => rfl) ?_
  rintro first _ k u u' hk rfl hu
  have hkm : k ≤ m := Nat.le_trans hk (Nat.sub_le m 1)
  refine (infixesBy_together (hread.mono hkm) hu bound (by simp [Stacks.Common])).bind ?_
  rintro held _ v v' ⟨rfl, hheld, hv⟩
  refine (reduceWhile_together hv _ _ hheld).bind ?_
  rintro held _ v v' ⟨rfl, -, hv⟩
  refine (popOperand_keeps hv held.operands).bind fun whole v v' hv => ?_
  refine (postfixesBy_together hv bound whole.1).bind ?_
  rintro ⟨whole, applied⟩ _ v v' ⟨rfl, i, hi, hless, hv⟩
  refine (operatorAt_together hv .infixOp).bind ?_
  rintro o _ x x' ⟨rfl, r, r', hx, -⟩
  dsimp only
  by_cases hmore : (applied && o.any fun op => binds bound op.precedence) = true
  · rw [if_pos hmore]
    have happlied : applied = true := (Bool.and_eq_true_iff.1 hmore).1
    exact .answers (.again (hless happlied) rfl (hx.forget (Nat.le_refl i)))
  · rw [if_neg hmore]
    exact .answers (.done ⟨rfl, hx.forget (Nat.le_trans hi hk)⟩)

/-- Whatever the depths are, as long as there are more levels than tokens to come. -/
theorem climb_keeps (depth depth' : Nat) :
    ReadersKeep (σ := σ) c (min depth depth') marks (climb depth) (climb depth') := by
  have hhalts : ∀ depth container (s : Session σ), s.Endless (.opening container) →
      Halts s.calls (climb depth none s) := fun depth _ _ => climb_halts depth none
  induction depth generalizing depth' with
  | zero => exact ⟨fun _ m _ _ hm => absurd hm (by simp), hhalts 0, hhalts depth'⟩
  | succ depth ih =>
    cases depth' with
    | zero => exact ⟨fun _ m _ _ hm => absurd hm (by simp), hhalts (depth + 1), hhalts 0⟩
    | succ depth' =>
      refine ⟨fun bound m s s' hm h => ?_, hhalts (depth + 1), hhalts (depth' + 1)⟩
      rw [Nat.succ_min_succ] at hm
      exact climbBy_takes ((ih depth').mono (Nat.le_of_lt_succ hm)) h bound

/-- **The same expression** is read in both sessions. -/
theorem expression_takes (h : Coupled c { pending := m, marks } s s') :
    Takes c m marks (expression s) (expression s') := by
  obtain ⟨k, hk, hremaining, hremaining', htight⟩ := h.tight
  refine ((climb_keeps (s.remaining + 1) (s'.remaining + 1)).takes none k s s' ?_ htight).mono hk
  exact Nat.lt_min.2 ⟨Nat.lt_succ_of_le hremaining, Nat.lt_succ_of_le hremaining'⟩

end Dataflow.Parser
