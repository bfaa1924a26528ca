import Dataflow.Proofs.Filing
import Dataflow.Proofs.Precedence
import Dataflow.Proofs.Respelling
import Dataflow.Proofs.Script

/-!
# Dataflow.Proofs.Spelling

**An expression in function form is read as it is spelled.** Constants, names, calls and groups can be
written down as words without any operator in front of an operand, behind it or between two. Whoever
reads these words gets the expression back, if each name stands for what it stands for in the
expression (`Expr.Reads`), and if the word behind the expression is no operator. The netlist is then
told one call for each node, operands first (`Expr.calls`).

* `Word.ofName`, `Expr.words` — the words of names and of expressions;
* `Operator.Table.applied` — what a name applies that is called;
* `Expr.Reads`, `Expr.calls` — the condition, and the calls;
* `Stops` — words that do not go on with an expression;
* `Expr.climb_enacts` — the theorem, for every way in which an expression may be asked for.
-/

namespace Dataflow

open Reading Lexer Circuit
open Token (Word)

/-! ### Names -/

namespace Lexer

variable {d : Dialect} {t : Operator.Table} {text : List Char} {x : Lexeme} {w : Word}

/-- The kind of the token that stands at the front of a text. No operator decides on that. -/
def frontKind (text : List Char) : Token.Kind :=
  match lexeme {} {} text with
  | .ok x => x.kind
  | .error _ => .symbol

theorem frontKind_eq (h : lexeme {} t text = .ok x) : frontKind text = x.kind := by
  obtain ⟨y, hy, hkind, -⟩ := lexeme_of_table h {}
  unfold frontKind
  rw [hy]
  exact hkind

theorem spacious_default : Dialect.Spacious {} := ⟨by decide, by decide⟩

/-- A word that is no symbol is scanned from its spelling whatever the operators are. -/
theorem Lexes.of_table (h : Lexes d t w) (hkind : w.kind ≠ .symbol) (t' : Operator.Table) :
    Lexes d t' w := by
  refine ⟨h.ne_endOfFile, h.not_skipped, h.written_ne, fun hrest => ?_⟩
  obtain ⟨y, hy, -, hsame⟩ := lexeme_of_table (h.lexeme hrest) t'
  rw [hy, hsame hkind]

end Lexer

namespace Token.Word

/-- The word that a name is, if it is a word. -/
def ofName (name : String) : Word where
  kind := frontKind name.toList
  text := name

def literal (content : String) : Word := ⟨.literal, content, some '\x22'⟩

def opening (c : Container) : Word := ⟨.opening c, (Expr.brackets c).1, none⟩

def closing (c : Container) : Word := ⟨.closing c, (Expr.brackets c).2, none⟩

def separator : Word := ⟨.separator, ",", none⟩

theorem eq_ofName {t : Operator.Table} {w : Word} (h : Lexes {} t w)
    (hname : w.kind.isIdentifier = true) : w = ofName w.text := by
  have hkind : w.kind ≠ .literal := fun hliteral => by rw [hliteral] at hname; cases hname
  have hbehind : Behind {} w [] := spacious_default.behind (.inr rfl)
  have hlexeme := h.lexeme hbehind
  rw [List.append_nil] at hlexeme
  have hwritten : Dialect.written {} w = w.text.toList := if_neg hkind
  have hquote : w.quote = none := by
    rcases content_of_lexeme hlexeme h.written_ne with ⟨-, hquote, -⟩ | ⟨hliteral, -⟩
    · exact hquote
    · exact absurd hliteral hkind
  have hfirst := frontKind_eq hlexeme
  rw [hwritten] at hfirst
  obtain ⟨kind, text, quote⟩ := w
  obtain rfl : quote = none := hquote
  exact congrArg (Word.mk · text none) hfirst.symm

end Token.Word

/-! ### Expressions -/

/-- What a name applies that is called with so many operands: an operator, or an entity of that
name. -/
def Operator.Table.applied (t : Operator.Table) (name : String) (arity : Nat) : Operator :=
  (t.resolve? name arity).getD (.adHoc name arity)

namespace Operator.Table

variable {t : Table} {name : String}

theorem applied_of_not_contains (h : t.contains name = false) (arity : Nat) :
    t.applied name arity = .adHoc name arity := by
  unfold applied resolve?
  simp only [get?_of_not_contains h]
  split <;> rfl

end Operator.Table

namespace Circuit.Expr

mutual

/-- The words of an expression in function form. -/
def words : Expr → List Word
  | literal content => [.literal content]
  | integer digits => [⟨.integer, digits, none⟩]
  | real number => [⟨.real, number, none⟩]
  | signal name | bus name | pin _ name => [.ofName name]
  | apply entity arguments =>
    .ofName entity :: .opening .list :: wordsAll arguments ++ [.closing .list]
  | group container items => .opening container :: wordsAll items ++ [.closing container]

/-- The words of several expressions, with separators between them. -/
def wordsAll : List Expr → List Word
  | [] => []
  | [e] => words e
  | e :: rest => words e ++ .separator :: wordsAll rest

end

mutual

/-- With these operators the words of the expression are read as the expression. -/
def Reads (t : Operator.Table) : Expr → Prop
  | literal _ | integer _ | real _ => True
  | signal name =>
    (Word.ofName name).kind.isTextIdentifier = true ∧ t.get? name .prefixOp = none
  | apply entity arguments =>
    (Word.ofName entity).kind.isIdentifier = true ∧
      (t.contains entity = true ∨ (Word.ofName entity).kind ≠ .symbol) ∧
      (t.applied entity arguments.length).entity = entity ∧ ReadsAll t arguments
  | group container items => (container = .list → items.length ≠ 1) ∧ ReadsAll t items
  | bus _ | pin _ _ => False

/-- The words of all these expressions are read as the expressions. -/
def ReadsAll (t : Operator.Table) : List Expr → Prop
  | [] => True
  | e :: rest => Reads t e ∧ ReadsAll t rest

end

mutual

/-- What a netlist is told of an expression that is read. -/
def calls (t : Operator.Table) : Expr → List Call
  | literal content => [.constant .literal content]
  | integer digits => [.constant .integer digits]
  | real number => [.constant .real number]
  | signal name => [.useSignal name]
  | apply entity arguments =>
    callsAll t arguments ++ [.applyOperator (t.applied entity arguments.length) arguments]
  | group container items => callsAll t items ++ [.encapsulate container items]
  | bus _ | pin _ _ => []

/-- What a netlist is told of several expressions. -/
def callsAll (t : Operator.Table) : List Expr → List Call
  | [] => []
  | e :: rest => calls t e ++ callsAll t rest

end

end Circuit.Expr

/-- What an operand can begin with. -/
def Token.Kind.beginsOperand (kind : Token.Kind) : Bool :=
  kind.isConstant || kind.isOpening || kind.isIdentifier

theorem Token.Kind.ne_of_beginsOperand {kind other : Token.Kind} (h : kind.beginsOperand = true)
    (hother : other.beginsOperand = false) : kind ≠ other := by
  rintro rfl
  rw [h] at hother
  cases hother

theorem Circuit.Expr.exists_words {t : Operator.Table} {e : Expr} (h : e.Reads t) :
    ∃ w words, e.words = w :: words ∧ w.kind.beginsOperand = true := by
  cases e with
  | literal content | integer digits | real number => exact ⟨_, _, rfl, rfl⟩
  | signal name =>
    refine ⟨_, _, rfl, ?_⟩
    have hname := h.1
    cases hkind : (Word.ofName name).kind <;> simp_all [Token.Kind.beginsOperand,
      Token.Kind.isTextIdentifier, Token.Kind.isIdentifier]
  | apply entity arguments =>
    refine ⟨_, _, rfl, ?_⟩
    unfold Token.Kind.beginsOperand
    rw [h.1, Bool.or_true]
  | group container items => exact ⟨_, _, rfl, rfl⟩
  | bus name | pin inst name => exact h.elim

/-- An expression is one word, or it begins with a name and a bracket behind it, or with no name. -/
theorem Circuit.Expr.words_cases {t : Operator.Table} {e : Expr} (h : e.Reads t) :
    (∃ w, e.words = [w]) ∨ (∃ w words, e.words = w :: .opening .list :: words) ∨
      ∃ w words, e.words = w :: words ∧ w.kind.isIdentifier = false := by
  cases e with
  | literal _ | integer _ | real _ | signal _ => exact .inl ⟨_, rfl⟩
  | apply _ _ => exact .inr (.inl ⟨_, _, rfl⟩)
  | group _ _ => exact .inr (.inr ⟨_, _, rfl, rfl⟩)
  | bus _ | pin _ _ => exact h.elim

/-- The next word does not go on with an expression: it opens no list, and it is no operator behind
operands or between them. -/
def Stops (t : Operator.Table) (words : List Word) : Prop :=
  ∀ w ∈ words.head?, w.kind ≠ .opening .list ∧
    (w.kind.isIdentifier = true → t.get? w.text .infixOp = none ∧ t.get? w.text .postfixOp = none)

theorem stops_nil {t : Operator.Table} : Stops t [] := nofun

theorem stops_of_kind {t : Operator.Table} {w : Word} {words : List Word}
    (hlist : w.kind ≠ .opening .list) (hname : w.kind.isIdentifier = false) : Stops t (w :: words) := by
  rintro w' ⟨⟩
  exact ⟨hlist, fun h => absurd h (by rw [hname]; exact Bool.false_ne_true)⟩

/-! ### Reading -/

variable {σ : Type} [Supply σ Char] {g : Stage} {k k' : Script} {rest : List Word} {m : Netlist}
  {read : Parser.ExprReader σ} {bound : Option Nat}

namespace Script

/-- The script behind some of its words, when the netlist has been told something. -/
def past (k : Script) (rest : List Word) (calls : List Call) (m : Netlist) : Script :=
  { k with words := rest, viewed := false, netlist := m, calls := calls.reverse ++ k.calls }

@[simp] theorem past_words (calls : List Call) : (k.past rest calls m).words = rest := rfl

@[simp] theorem past_table (calls : List Call) : (k.past rest calls m).table = k.table := rfl

@[simp] theorem past_netlist (calls : List Call) : (k.past rest calls m).netlist = m := rfl

@[simp] theorem past_past (rest' : List Word) (calls calls' : List Call) (m' : Netlist) :
    (k.past rest calls m).past rest' calls' m' = k.past rest' (calls ++ calls') m' := by
  simp [past]

/-- The registration of the next word, if it is a name and has one. -/
def operatorAt (k : Script) (fixity : Fixity) : Option Operator :=
  k.words.head?.bind fun w =>
    if w.kind.isIdentifier then k.table.get? w.text fixity else none

theorem operatorAt_of_stops (h : Stops k.table k.words) :
    k.operatorAt .infixOp = none ∧ k.operatorAt .postfixOp = none := by
  unfold operatorAt
  cases hwords : k.words with
  | nil => exact ⟨rfl, rfl⟩
  | cons w words =>
    rw [hwords] at h
    by_cases hname : w.kind.isIdentifier = true
    · simpa [hname] using (h w rfl).2 hname
    · simp [hname]

end Script

namespace Parser

theorem operatorAt_enacts (fixity : Fixity) :
    Enacts g k (· = k.operatorAt fixity) { k with viewed := true }
      (operatorAt fixity : Run (Session σ) (Option Operator)) := by
  unfold operatorAt
  refine Session.peek_enacts.bind fun token htoken => ?_
  cases hwords : k.words with
  | nil =>
    rw [hwords] at htoken
    have hname : ¬ token.kind.isIdentifier = true := by rw [show token.kind = .endOfFile from htoken]; decide
    rw [if_neg hname]
    exact .pure (by rw [Script.operatorAt, hwords]; rfl)
  | cons w words =>
    rw [hwords] at htoken
    obtain ⟨rfl, -⟩ := htoken
    have hfound : k.operatorAt fixity =
        if token.kind.isIdentifier then k.table.get? token.text fixity else none := by
      rw [Script.operatorAt, hwords]
      rfl
    by_cases hname : token.kind.isIdentifier = true
    · rw [if_pos hname]
      rw [if_pos hname] at hfound
      refine .get fun s hs => .pure ?_
      rw [hs, hfound]
    · rw [if_neg hname]
      rw [if_neg hname] at hfound
      exact .pure hfound.symm

/-- Where an expression does not go on, it is its first operand. -/
theorem climbRound_enacts (hstops : Stops k.table k.words) (e : Expr) :
    Enacts g k (· = .done e) { k with viewed := true } (climbRound read bound e) := by
  obtain ⟨hbetween, hbehind⟩ := Script.operatorAt_of_stops hstops
  have hreading : Enacts g k (· = ⟨[e], []⟩) { k with viewed := true }
      (infixesBy read bound { operands := [e], operators := [] }) := by
    rw [infixesBy_eq]
    refine .iterate (.done ?_ rfl)
    unfold infixRound
    exact (operatorAt_enacts .infixOp).then_ (by rw [hbetween]; exact .pure rfl)
  have happlied : Enacts g { k with viewed := true } (· = (e, false)) { k with viewed := true }
      (postfixesBy bound e : Run (Session σ) (Expr × Bool)) := by
    unfold postfixesBy
    refine .iterate (.done ((operatorAt_enacts .postfixOp).then_ ?_) rfl)
    rw [show Script.operatorAt { k with viewed := true } .postfixOp = none from hbehind]
    exact .pure rfl
  unfold climbRound
  refine hreading.then_ ?_
  refine Enacts.then_ (b := ⟨[e], []⟩) (.pure rfl) ?_
  refine Enacts.then_ (b := (e, [])) (.pure rfl) ?_
  refine happlied.then_ ((operatorAt_enacts .infixOp).then_ ?_)
  rw [show Script.operatorAt { k with viewed := true } .infixOp = none from hbetween]
  exact .pure rfl

theorem climbBy_enacts {e : Expr} {calls : List Call}
    (h : Enacts g k (· = e) (k.past rest calls m) (operandBy read)) (hstops : Stops k.table rest) :
    Enacts g k (· = e) (k.past rest calls m) (climbBy read bound) := by
  rw [climbBy_eq]
  refine h.then_ (.iterate (.done ?_ rfl))
  exact (climbRound_enacts (k := k.past rest calls m) hstops e).forget

/-- One round of the loop over the items of a group. -/
def itemRound {σ : Type} [Source σ Char] (read : ExprReader σ) (container : Container)
    (items : List Expr) : Run (Session σ) (Run.Round (List Expr) (List Expr)) := do
  let items := (← read none) :: items
  if ← Session.accept .separator then
    return .again items
  else
    Session.expect (.closing container)
    return .done items.reverse

theorem itemsBy_eq {σ : Type} [Source σ Char] (read : ExprReader σ) (container : Container) :
    itemsBy read container = Session.accept (.closing container) >>= fun closed =>
      if closed then pure [] else Run.iterate Session.remaining [] (itemRound read container) := rfl

/-- A call that the netlist accepts. -/
theorem tell_past {call : Call} {Q : call.Reply → Prop} (hwords : k.words = rest)
    (h : Netlist.Performs k.netlist [call] m)
    (hQ : ∀ reply, Netlist.Effect call k.netlist reply m → Q reply) :
    Enacts g k Q (k.past rest [call] m) (Session.tell call : Run (Session σ) call.Reply) := by
  subst hwords
  cases h with
  | cons hcall hnil =>
    cases hnil
    refine ((Session.tell_enacts hcall).mono ?_).forget
    rintro reply rfl
    exact hQ reply (Netlist.effect_of_perform hcall)

theorem constant_enacts {w : Word} {kind : ConstantKind} (hwords : k.words = w :: rest)
    (hkind : constantKind? w.kind = some kind)
    (hcalls : Netlist.Performs k.netlist [.constant kind w.text] m) :
    Enacts g k (· = .constant kind w.text) (k.past rest [.constant kind w.text] m)
      (operandBy read) := by
  have hfirst : k.kindAt 0 = w.kind := by rw [Script.kindAt, hwords]; rfl
  unfold operandBy
  refine Session.peekKind_enacts.then_ ?_
  rw [hfirst, hkind]
  refine (Session.consume_enacts (k := { k with viewed := true }) hwords).bind fun token htoken => ?_
  obtain rfl := htoken
  exact tell_past (k := k.past rest [] k.netlist) rfl hcalls fun _ h => h.1

/-- A name as an operand, if `Q` holds of what is read when it is called and when it is not. -/
theorem operandBy_named {w : Word} {Q : Expr → Prop} (hwords : k.words = w :: rest)
    (hname : w.kind.isIdentifier = true)
    (hcall : k.kindAt 1 = .opening .list ∧ (k.table.contains w.text = true ∨ w.kind ≠ .symbol) →
      Enacts g { k with viewed := true } Q k' (callBy read))
    (hplain : ¬ (k.kindAt 1 = .opening .list ∧
      (k.table.contains w.text = true ∨ w.kind ≠ .symbol)) →
      w.kind ≠ .symbol ∧ k.table.get? w.text .prefixOp = none ∧
        Enacts g (k.past rest [] k.netlist) Q k'
          (Session.tell (.useSignal w.text) : Run (Session σ) Expr)) :
    Enacts g k Q k' (operandBy read) := by
  have hfirst : k.kindAt 0 = w.kind := by rw [Script.kindAt, hwords]; rfl
  have hconstant : constantKind? w.kind = none := by
    cases hkind : w.kind <;> simp_all [Token.Kind.isIdentifier, constantKind?]
  have hopening : ¬ w.kind.isOpening = true := by
    cases hkind : w.kind <;> simp_all [Token.Kind.isIdentifier, Token.Kind.isOpening]
  unfold operandBy
  refine Session.peekKind_enacts.then_ ?_
  rw [hfirst, hconstant]
  simp only [if_neg hopening, if_pos hname]
  unfold namedBy
  refine Session.peek_enacts.bind fun token htoken => ?_
  rw [show k.words[0]? = some w by rw [hwords]; rfl] at htoken
  obtain ⟨rfl, -⟩ := htoken
  refine .get fun s hs => (Session.secondKind_enacts rfl).then_ ?_
  rw [hs]
  by_cases hcalled : k.kindAt 1 = .opening .list ∧
      (k.table.contains token.word.text = true ∨ token.word.kind ≠ .symbol)
  · exact Eq.mpr (congrArg _ (if_pos hcalled)) (hcall hcalled)
  · obtain ⟨hsymbol, hfront, htell⟩ := hplain hcalled
    refine Eq.mpr (congrArg _ (if_neg hcalled)) ?_
    refine (operatorAt_enacts .prefixOp).then_ ?_
    have hnone : Script.operatorAt { k with viewed := true } .prefixOp = none := by
      rw [Script.operatorAt, hwords]
      exact (if_pos hname).trans hfront
    rw [hnone]
    refine Eq.mpr (congrArg _ (if_neg hsymbol)) ?_
    refine (Session.consume_enacts (k := { k with viewed := true }) hwords).bind fun token' htoken => ?_
    rw [← show token'.word.text = token.word.text by rw [htoken]] at htell
    exact htell

/-- A name is a signal if it is not called and is no operator in front of an operand. -/
theorem signal_enacts {w : Word} (hwords : k.words = w :: rest)
    (hname : w.kind.isTextIdentifier = true) (hfront : k.table.get? w.text .prefixOp = none)
    (hcall : k.kindAt 1 ≠ .opening .list)
    (hcalls : Netlist.Performs k.netlist [.useSignal w.text] m) :
    Enacts g k (· = .signal w.text) (k.past rest [.useSignal w.text] m) (operandBy read) := by
  have hidentifier : w.kind.isIdentifier = true := by
    cases hkind : w.kind <;> simp_all [Token.Kind.isTextIdentifier, Token.Kind.isIdentifier]
  have hsymbol : w.kind ≠ .symbol := by
    intro hkind
    rw [hkind] at hname
    cases hname
  refine operandBy_named hwords hidentifier (fun hcalled => absurd hcalled.1 hcall) fun _ => ?_
  exact ⟨hsymbol, hfront, tell_past (k := k.past rest [] k.netlist) rfl hcalls fun _ h => h.1⟩

/-- A name that is called. -/
theorem call_enacts {w : Word} {words : List Word} {arguments : List Expr} {calls : List Call}
    {n : Netlist} (hwords : k.words = w :: words) (hname : w.kind.isIdentifier = true)
    (hknown : k.table.contains w.text = true ∨ w.kind ≠ .symbol)
    (hopening : words.head?.map Word.kind = some (.opening .list))
    (hgroup : Enacts g (k.past words [] k.netlist) (· = (.list, arguments)) (k.past rest calls n)
      (groupBy read))
    (hcalls : Netlist.Performs n
      [.applyOperator (k.table.applied w.text arguments.length) arguments] m) :
    Enacts g k (· = .apply (k.table.applied w.text arguments.length).entity arguments)
      (k.past rest (calls ++ [.applyOperator (k.table.applied w.text arguments.length) arguments]) m)
      (operandBy read) := by
  have hsecond : k.kindAt 1 = .opening .list := by
    unfold Script.kindAt
    rw [hwords, List.getElem?_cons_succ, ← List.head?_eq_getElem?, hopening]
    rfl
  refine operandBy_named hwords hname (fun _ => ?_) fun hplain => absurd ⟨hsecond, hknown⟩ hplain
  unfold callBy
  refine (Session.consume_enacts (k := { k with viewed := true }) hwords).bind fun token htoken => ?_
  obtain rfl := htoken
  refine hgroup.then_ (.get fun s hs => ?_)
  rw [hs, ← Script.past_past]
  exact tell_past (k := k.past rest calls n) rfl hcalls fun _ h => h.1

/-- A group that is not a list of one item. -/
theorem group_enacts {c : Container} {words : List Word} {items : List Expr} {calls : List Call}
    {n : Netlist} (hwords : k.words = .opening c :: words) (hsingle : c = .list → items.length ≠ 1)
    (hgroup : Enacts g { k with viewed := true } (· = (c, items)) (k.past rest calls n) (groupBy read))
    (hcalls : Netlist.Performs n [.encapsulate c items] m) :
    Enacts g k (· = .group c items) (k.past rest (calls ++ [.encapsulate c items]) m)
      (operandBy read) := by
  have hfirst : k.kindAt 0 = .opening c := by rw [Script.kindAt, hwords]; rfl
  have htell := tell_past (σ := σ) (g := g) (k := k.past rest calls n) rfl hcalls fun _ h => h.1
  rw [Script.past_words, Script.past_past] at htell
  unfold operandBy
  refine Session.peekKind_enacts.then_ ?_
  rw [hfirst]
  refine hgroup.then_ ?_
  -- A list of one item only groups, and would not come to the netlist.
  cases c with
  | list =>
    match items, hsingle with
    | [], _ => exact htell
    | [_], hsingle => exact absurd rfl (hsingle rfl)
    | _ :: _ :: _, _ => exact htell
  | vector => exact htell
  | set => exact htell
  | scalar => exact htell

/-- Whoever reads the words of the expression so gets the expression, in front of words that do not go
on with it. -/
def Spells (g : Stage) (read : ExprReader σ) (e : Expr) : Prop :=
  ∀ {k : Script} {rest : List Word} {m : Netlist} (bound : Option Nat), e.Reads k.table →
    k.words = e.words ++ rest → Stops k.table rest →
    Netlist.Performs k.netlist (e.calls k.table) m →
    Enacts g k (· = e) (k.past rest (e.calls k.table) m) (read bound)

theorem kindAt_zero_ne {e : Expr} {t : Operator.Table} {more : List Word} (h : e.Reads t)
    (hwords : k.words = e.words ++ more) {kind : Token.Kind} (hkind : kind.beginsOperand = false) :
    k.kindAt 0 ≠ kind := by
  obtain ⟨w, words, he, hw⟩ := e.exists_words h
  rw [Script.kindAt, hwords, he]
  exact Token.Kind.ne_of_beginsOperand hw hkind

/-- The items of a group behind others, up to the bracket that closes it. -/
theorem items_loop {c : Container} {e : Expr} {items : List Expr}
    (hspells : ∀ e' ∈ e :: items, Spells g read e') (hreads : Expr.ReadsAll k.table (e :: items))
    (hwords : k.words = Expr.wordsAll (e :: items) ++ .closing c :: rest)
    (hcalls : Netlist.Performs k.netlist (Expr.callsAll k.table (e :: items)) m)
    (before : List Expr) :
    Loops g k (· = before.reverse ++ e :: items) (k.past rest (Expr.callsAll k.table (e :: items)) m)
      (itemRound read c) before := by
  induction items generalizing k e before with
  | nil =>
    have hsingle : Expr.callsAll k.table [e] = e.calls k.table := List.append_nil _
    rw [hsingle] at hcalls ⊢
    have hread := hspells e List.mem_cons_self none hreads.1 hwords (stops_of_kind nofun rfl) hcalls
    refine .done (b := (e :: before).reverse) ?_ List.reverse_cons
    have hother : (k.past (.closing c :: rest) (e.calls k.table) m).kindAt 0 ≠ .separator := nofun
    unfold itemRound
    refine hread.then_ ((Session.accept_refused hother).then_ ?_)
    exact (Session.expect_enacts (k := { k.past (.closing c :: rest) (e.calls k.table) m with
      viewed := true }) rfl rfl).bind fun _ _ => .pure rfl
  | cons e' items ih =>
    obtain ⟨n, hfirst, hrest⟩ := hcalls.split
    have hread := hspells e List.mem_cons_self none hreads.1 (hwords.trans (List.append_assoc ..))
      (stops_of_kind nofun rfl) hfirst
    have hloop := ih (k := k.past (Expr.wordsAll (e' :: items) ++ .closing c :: rest)
      (e.calls k.table) n) (fun e'' he => hspells e'' (List.mem_cons_of_mem _ he))
      hreads.2 rfl hrest (e :: before)
    rw [Script.past_past, List.reverse_cons, List.append_assoc] at hloop
    refine .again ?_ hloop
    unfold itemRound
    refine hread.then_ ((Session.accept_enacts (w := .separator) rfl rfl).then_ ?_)
    exact .pure rfl

theorem itemsBy_enacts {c : Container} {items : List Expr} (hspells : ∀ e ∈ items, Spells g read e)
    (hreads : Expr.ReadsAll k.table items)
    (hwords : k.words = Expr.wordsAll items ++ .closing c :: rest)
    (hcalls : Netlist.Performs k.netlist (Expr.callsAll k.table items) m) :
    Enacts g k (· = items) (k.past rest (Expr.callsAll k.table items) m) (itemsBy read c) := by
  rw [itemsBy_eq]
  cases items with
  | nil =>
    cases hcalls
    exact (Session.accept_enacts hwords rfl).then_ (.pure rfl)
  | cons e items =>
    have hclosing : k.kindAt 0 ≠ .closing c := by
      cases items with
      | nil => exact kindAt_zero_ne hreads.1 hwords rfl
      | cons e' items => exact kindAt_zero_ne hreads.1 (hwords.trans (List.append_assoc ..)) rfl
    refine (Session.accept_refused hclosing).then_ (.iterate ?_)
    exact items_loop (k := { k with viewed := true }) hspells hreads hwords hcalls []

theorem groupBy_enacts {c : Container} {items : List Expr} (hspells : ∀ e ∈ items, Spells g read e)
    (hreads : Expr.ReadsAll k.table items)
    (hwords : k.words = .opening c :: (Expr.wordsAll items ++ .closing c :: rest))
    (hcalls : Netlist.Performs k.netlist (Expr.callsAll k.table items) m) :
    Enacts g k (· = (c, items)) (k.past rest (Expr.callsAll k.table items) m) (groupBy read) := by
  unfold groupBy
  refine (Session.consume_enacts hwords).bind fun token htoken => ?_
  rw [show token.kind = .opening c from congrArg Word.kind htoken]
  exact (itemsBy_enacts (k := k.past _ [] k.netlist) hspells hreads rfl hcalls).then_ (.pure rfl)

/-- **An expression is read as it is spelled**, at any depth and with any bound. -/
theorem climb_spells (depth : Nat) (e : Expr) : Spells g (climb depth : ExprReader σ) e := by
  induction depth generalizing e with
  | zero => exact fun _ _ _ _ _ _ _ => .inl rfl
  | succ depth ih =>
    intro k rest m bound hreads hwords hstops hcalls
    refine climbBy_enacts ?_ hstops
    cases e with
    | literal content => exact constant_enacts (w := .literal content) hwords rfl hcalls
    | integer digits => exact constant_enacts (w := ⟨.integer, digits, none⟩) hwords rfl hcalls
    | real number => exact constant_enacts (w := ⟨.real, number, none⟩) hwords rfl hcalls
    | signal name =>
      have hsecond : k.kindAt 1 ≠ .opening .list := by
        rw [Script.kindAt, hwords]
        cases rest with
        | nil => nofun
        | cons w rest => exact (hstops w rfl).1
      exact signal_enacts hwords hreads.1 hreads.2 hsecond hcalls
    | bus name | pin inst name => exact hreads.elim
    | apply entity arguments =>
      obtain ⟨hname, hknown, hentity, harguments⟩ := hreads
      obtain ⟨n, hinner, hlast⟩ := hcalls.split
      have hwords' : k.words = .ofName entity :: .opening .list ::
          (Expr.wordsAll arguments ++ .closing .list :: rest) := by
        simp [hwords, Expr.words]
      have hgroup := groupBy_enacts (g := g) (k := k.past (.opening .list ::
        (Expr.wordsAll arguments ++ .closing .list :: rest)) [] k.netlist) (fun e _ => ih e)
        harguments rfl hinner
      have hcall := call_enacts hwords' hname hknown rfl hgroup hlast
      exact hcall.mono fun e' he' => he'.trans (congrArg (Expr.apply · arguments) hentity)
    | group c items =>
      obtain ⟨hsingle, hitems⟩ := hreads
      obtain ⟨n, hinner, hlast⟩ := hcalls.split
      have hwords' : k.words = .opening c :: (Expr.wordsAll items ++ .closing c :: rest) := by
        simp [hwords, Expr.words]
      have hgroup := groupBy_enacts (k := { k with viewed := true }) (fun e _ => ih e) hitems hwords' hinner
      exact group_enacts hwords' hsingle hgroup hlast

theorem expression_enacts {e : Expr} (hreads : e.Reads k.table) (hwords : k.words = e.words ++ rest)
    (hstops : Stops k.table rest) (hcalls : Netlist.Performs k.netlist (e.calls k.table) m) :
    Enacts g k (· = e) (k.past rest (e.calls k.table) m) (expression : Run (Session σ) Expr) :=
  fun s hs => climb_spells (s.remaining + 1) e none hreads hwords hstops hcalls s hs

end Parser

end Dataflow
