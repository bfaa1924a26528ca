import Dataflow.Parser.Statement
import Dataflow.Proofs.Effects
import Dataflow.Proofs.Runs
import Dataflow.Proofs.Standing

/-!
# Dataflow.Proofs.Telling

**What a parser tells its netlist.** The calls that are made while an expression is read are the nodes
of its tree in post-order: each node behind its children, the left operand in front of the right one,
arguments from left to right, and none of them twice or left out (`calls_of_expression`). Reductions
happen while further operands are still to be read, so the invariant of the parser's loops is about all
operands on the stack at once.

* `Expr.postorder` — the subtrees of a tree in this order;
* `Call.node?` — the node that a call asks for;
* `Turns` — calls that turn a row of trees into another one. Rows of calls compose as the calls follow
  each other;
* `Session.Tells` — what a computation tells, where it has an answer;
* `Statement.Told` — the calls of a whole statement, with the trees in it in post-order.
-/

namespace Dataflow

open Reading

namespace Circuit

/-! ### Trees and calls in order -/

namespace Expr

mutual

/-- The subtrees of a tree, each behind those that it is applied to or that it groups. -/
def postorder : Expr → List Expr
  | apply entity arguments => postorderAll arguments ++ [apply entity arguments]
  | group container items => postorderAll items ++ [group container items]
  | literal text => [literal text]
  | integer text => [integer text]
  | real text => [real text]
  | signal name => [signal name]
  | bus name => [bus name]
  | pin inst name => [pin inst name]

/-- The subtrees of several trees, from left to right. -/
def postorderAll : List Expr → List Expr
  | [] => []
  | e :: rest => postorder e ++ postorderAll rest

end

@[simp] theorem postorderAll_append (first second : List Expr) :
    postorderAll (first ++ second) = postorderAll first ++ postorderAll second := by
  induction first with
  | nil => rfl
  | cons e first ih => simp [postorderAll, ih]

@[simp] theorem postorderAll_singleton (e : Expr) : postorderAll [e] = postorder e := by
  simp [postorderAll]

end Expr

/-- The node that a call asks for, where it is one of the calls that expressions are built by, or names
a bus. -/
def Call.node? : Call → Option Expr
  | .constant kind text => some (.constant kind text)
  | .applyOperator op arguments => some (.apply op.entity arguments)
  | .encapsulate container items => some (.group container items)
  | .useSignal name => some (.signal name)
  | .useBus name => some (.bus name)
  | _ => none

/-- The calls turn one row of trees into another one: the subtrees of the first row and the nodes that
the calls ask for are the subtrees of the second row, in order. -/
def Turns (first : List Expr) (calls : List Call) (second : List Expr) : Prop :=
  (Expr.postorderAll first).map some ++ calls.map Call.node? = (Expr.postorderAll second).map some

namespace Turns

variable {first second third : List Expr} {calls more : List Call}

theorem refl (row : List Expr) : Turns row [] row := by simp [Turns]

theorem trans (h : Turns first calls second) (h' : Turns second more third) :
    Turns first (calls ++ more) third := by
  unfold Turns at *
  rw [List.map_append, ← List.append_assoc, h, h']

/-- What stands further left stays as it is. -/
theorem behind (h : Turns first calls second) (left : List Expr) :
    Turns (left ++ first) calls (left ++ second) := by
  unfold Turns at *
  rw [Expr.postorderAll_append, Expr.postorderAll_append, List.map_append, List.map_append,
    List.append_assoc, h]

/-- Trees that are read one behind the other. -/
theorem append (h : Turns [] calls first) (h' : Turns [] more second) :
    Turns [] (calls ++ more) (first ++ second) := by
  refine h.trans ?_
  simpa using h'.behind first

theorem constant (kind : ConstantKind) (text : String) :
    Turns [] [.constant kind text] [.constant kind text] := by
  cases kind <;> rfl

theorem signal (name : String) : Turns [] [.useSignal name] [.signal name] := rfl

theorem bus (name : String) : Turns [] [.useBus name] [.bus name] := rfl

theorem applied (op : Operator) (arguments : List Expr) :
    Turns arguments [.applyOperator op arguments] [.apply op.entity arguments] := by
  simp [Turns, Expr.postorder, Call.node?]

theorem grouped (container : Container) (items : List Expr) :
    Turns items [.encapsulate container items] [.group container items] := by
  simp [Turns, Expr.postorder, Call.node?]

/-- Names that are looked up one behind the other. -/
theorem names {call : String → Call} {node : String → Expr}
    (hcall : ∀ name, Turns [] [call name] [node name]) (names : List String) :
    Turns [] (names.map call) (names.map node) := by
  induction names with
  | nil => exact refl []
  | cons name names ih => exact (hcall name).append ih

end Turns

mutual

/-- What the netlist is told of a statement. Of an instance, the trees bound to its inputs and outputs
and its buses come in this order, and then the instance itself. -/
inductive Statement.Calls : Statement → List Call → Prop
  | entity (e : Entity) : Calls (.entity e) [.defineEntity e]
  | architecture (name entity : String) {body : List Statement} {inner : List Call}
    (h : Statement.AllCalls body inner) :
    Calls (.architecture name entity body) (.beginArchitecture name entity :: inner ++ [.endArchitecture])
  | instantiation (entity : String) (nodes : List Expr) {inputs outputs : List Binding}
    {buses : List Expr} {calls : List Call}
    (h : Turns [] calls (inputs.map Binding.value ++ outputs.map Binding.value ++ buses)) :
    Calls (.instantiation entity nodes) (calls ++ [.instantiate entity inputs outputs buses])
  | signals (names : List String) : Calls (.signals (names.map .signal)) (names.map .declareSignal)
  | buses (names : List String) : Calls (.buses (names.map .bus)) (names.map .declareBus)
  | assignment (names : List String) {value : Expr} {calls : List Call} (h : Turns [] calls [value]) :
    Calls (.assignment (names.map .signal) value)
      (names.map .useSignal ++ calls ++ [.assign (names.map .signal) value])
  | expression {value : Expr} {calls : List Call} (h : Turns [] calls [value]) :
    Calls (.expression value) calls

/-- What the netlist is told of several statements, one behind the other. -/
inductive Statement.AllCalls : List Statement → List Call → Prop
  | nil : AllCalls [] []
  | cons {statement : Statement} {statements : List Statement} {calls more : List Call}
    (first : Statement.Calls statement calls) (rest : Statement.AllCalls statements more) :
    AllCalls (statement :: statements) (calls ++ more)

end

/-- One more statement at the end. -/
theorem Statement.AllCalls.snoc {statements : List Statement} {statement : Statement}
    {calls more : List Call} (h : AllCalls statements calls) (hlast : Calls statement more) :
    AllCalls (statements ++ [statement]) (calls ++ more) := by
  induction statements generalizing calls with
  | nil =>
    cases h
    simpa using AllCalls.cons hlast .nil
  | cons first statements ih =>
    cases h with
    | cons hfirst hrest =>
      rw [List.append_assoc]
      exact .cons hfirst (ih hrest)

end Circuit

/-! ### Computations that tell the netlist something -/

namespace Session

open Circuit

variable {σ α β γ : Type}

/-- The second session has told its netlist the calls, in this order and on top of what the first one
has told, and none of them has been refused. -/
structure Told (s : Session σ) (calls : List Call) (t : Session σ) : Prop where
  trace : t.trace = s.trace ++ calls
  performs : s.netlist.Performs calls t.netlist

namespace Told

variable {s t u : Session σ} {calls more : List Call}

theorem of_eq (htrace : t.calls = s.calls) (hnetlist : t.netlist = s.netlist) : s.Told [] t where
  trace := by simp [Session.trace, htrace]
  performs := by
    rw [hnetlist]
    exact .nil _

theorem refl (s : Session σ) : s.Told [] s := of_eq rfl rfl

theorem trans (h : s.Told calls t) (h' : t.Told more u) : s.Told (calls ++ more) u where
  trace := by rw [h'.trace, h.trace, List.append_assoc]
  performs := h.performs.trans h'.performs

end Told

/-- Where the computation has an answer, it has told the netlist calls of which `Q` holds. -/
def Tells (x : Run (Session σ) β) (Q : β → List Call → Prop) : Prop :=
  ∀ s, Run.Ends (fun b t => ∃ calls, s.Told calls t ∧ Q b calls) (fun _ _ => True) (x s)

/-- The computation tells the netlist nothing. -/
def Silent (x : Run (Session σ) β) : Prop := Tells x fun _ calls => calls = []

namespace Tells

variable {Q Q' : β → List Call → Prop} {R : γ → List Call → Prop}

theorem mono {x : Run (Session σ) β} (hx : Tells x Q) (hQ : ∀ b calls, Q b calls → Q' b calls) :
    Tells x Q' := by
  intro s
  refine (hx s).mono ?_ fun _ _ _ => trivial
  intro b t ⟨calls, htold, hq⟩
  exact ⟨calls, htold, hQ b calls hq⟩

theorem pure {b : β} (h : Q b []) : Tells (Pure.pure b : Run (Session σ) β) Q :=
  fun s => ⟨[], .refl s, h⟩

theorem fail (e : Error) : Tells (Run.fail e : Run (Session σ) β) Q := fun _ => trivial

theorem violate (v : Violation) : Tells (Run.violate v : Run (Session σ) β) Q := fun _ => trivial

/-- The calls of a sequence. -/
theorem bind {x : Run (Session σ) β} {k : β → Run (Session σ) γ} (hx : Tells x Q)
    (hk : ∀ b calls, Q b calls → Tells (k b) fun c more => R c (calls ++ more)) :
    Tells (x >>= k) R := by
  intro s
  refine (hx s).bind ?_ fun _ _ _ => trivial
  intro b t ⟨calls, htold, hq⟩
  refine (hk b calls hq t).mono ?_ fun _ _ _ => trivial
  intro c u ⟨more, htold', hr⟩
  exact ⟨calls ++ more, htold.trans htold', hr⟩

theorem ite {c : Prop} [Decidable c] {x y : Run (Session σ) β} (hx : c → Tells x Q)
    (hy : ¬ c → Tells y Q) : Tells (if c then x else y) Q := by
  split
  · exact hx ‹_›
  · exact hy ‹_›

/-- A computation may look at the session. -/
theorem get_bind {k : Session σ → Run (Session σ) β} (hk : ∀ s, Tells (k s) Q) :
    Tells (get >>= k) Q := fun s => hk s s

/-- The calls of a loop. -/
theorem iterate {I : α → List Call → Prop} {step : α → Run (Session σ) (Run.Round α β)}
    {bound : Session σ → Nat} {a : α} (hI : I a [])
    (hstep : ∀ a calls, I a calls → Tells (step a) fun round more => match round with
      | .again a' => I a' (calls ++ more)
      | .done b => Q b (calls ++ more)) : Tells (Run.iterate bound a step) Q := by
  intro s
  refine Run.Ends.iterate (I := fun a t => ∃ calls, s.Told calls t ∧ I a calls) ?_
    (fun _ => trivial) ⟨[], .refl s, hI⟩
  intro a t ⟨calls, htold, hinv⟩
  refine (hstep a calls hinv t).mono ?_ fun _ _ _ => trivial
  intro round u ⟨more, htold', hround⟩
  cases round with
  | again a' => exact ⟨_, htold.trans htold', hround⟩
  | done b => exact ⟨_, htold.trans htold', hround⟩

theorem tell {call : Call} {Q : call.Reply → List Call → Prop}
    (h : ∀ n reply m, Netlist.Effect call n reply m → Q reply [call]) :
    Tells (Session.tell call : Run (Session σ) call.Reply) Q := by
  intro ⟨tokens, netlist, calls⟩
  unfold Session.tell
  dsimp only
  cases hcall : Netlist.perform call netlist with
  | error e m => exact trivial
  | ok reply m =>
    exact ⟨[call], ⟨by simp [Session.trace], .single hcall⟩,
      h netlist reply m (Netlist.effect_of_perform hcall)⟩

/-- A call has been told, whatever the answer to it is. -/
theorem told (call : Call) :
    Tells (Session.tell call : Run (Session σ) call.Reply) fun _ calls => calls = [call] :=
  .tell fun _ _ _ _ => rfl

/-- Telling the netlist the same of each of several names. -/
theorem mapM {f : String → Run (Session σ) β} {node : String → β} {call : String → Call}
    (hf : ∀ name, Tells (f name) fun b calls => b = node name ∧ calls = [call name])
    (names : List String) :
    Tells (names.mapM f) fun nodes calls => nodes = names.map node ∧ calls = names.map call := by
  induction names with
  | nil => exact .pure ⟨rfl, rfl⟩
  | cons name names ih =>
    rw [List.mapM_cons]
    refine (hf name).bind ?_
    intro b calls ⟨hb, hcalls⟩
    refine ih.bind ?_
    intro nodes more ⟨hnodes, hmore⟩
    exact .pure (by simp [hb, hcalls, hnodes, hmore])

end Tells

namespace Silent

variable {Q : γ → List Call → Prop}

/-- Nothing is told by looking at the tokens or by taking some. -/
theorem onTokens (x : Run (Cursor (Lexer σ) Token) β) : Silent (onTokens x) := by
  intro s
  unfold Session.onTokens
  dsimp only
  cases x s.tokens with
  | error e tokens => exact trivial
  | ok b tokens => exact ⟨[], .of_eq rfl rfl, rfl⟩

theorem pure (b : β) : Silent (Pure.pure b : Run (Session σ) β) := Tells.pure rfl

/-- Registering an operator does not concern the netlist. -/
theorem insertOperator (op : Operator) :
    Silent (modify fun s => s.insertOperator op : Run (Session σ) PUnit) :=
  fun _ => ⟨[], .of_eq rfl rfl, rfl⟩

/-- What is told behind a computation that tells nothing is all that is told. -/
theorem bind {x : Run (Session σ) β} {k : β → Run (Session σ) γ} (hx : Silent x)
    (hk : ∀ b, Tells (k b) Q) : Tells (x >>= k) Q := by
  refine Tells.bind hx ?_
  intro b calls hcalls
  subst hcalls
  exact hk b

theorem ite {c : Prop} [Decidable c] {x y : Run (Session σ) β} (hx : Silent x) (hy : Silent y) :
    Silent (if c then x else y) := Tells.ite (fun _ => hx) fun _ => hy

theorem iterate {step : α → Run (Session σ) (Run.Round α β)} {bound : Session σ → Nat} {a : α}
    (hstep : ∀ a, Silent (step a)) : Silent (Run.iterate bound a step) := by
  refine Tells.iterate (I := fun _ calls => calls = []) rfl ?_
  intro a calls hcalls
  subst hcalls
  refine (hstep a).mono ?_
  intro round more hmore
  subst hmore
  cases round <;> rfl

end Silent

variable [Source σ Char]

theorem accept_silent (kind : Token.Kind) : Silent (accept kind : Run (Session σ) Bool) :=
  (Silent.onTokens _).bind fun _ => .pure rfl

theorem expect_silent (kind : Token.Kind) : Silent (expect kind : Run (Session σ) Unit) :=
  (Silent.onTokens _).bind fun _ => .pure rfl

theorem acceptWord_silent (word : String) : Silent (acceptWord word : Run (Session σ) Bool) :=
  (Silent.onTokens _).bind fun _ =>
    .ite (fun _ => (Silent.onTokens _).bind fun _ => .pure rfl) fun _ => .pure rfl

theorem mismatch_tells (expected : String) {Q : β → List Call → Prop} :
    Tells (mismatch expected : Run (Session σ) β) Q :=
  (Silent.onTokens _).bind fun e => .fail e

theorem unexpectedOperand_tells {Q : β → List Call → Prop} :
    Tells (unexpectedOperand : Run (Session σ) β) Q :=
  (Silent.onTokens _).bind fun e => .fail e

theorem skip_silent (kind : Token.Kind) : Silent (skip kind : Run (Session σ) Unit) :=
  .iterate fun _ => (accept_silent kind).bind fun _ => Silent.ite (.pure _) (.pure _)

end Session

/-! ### Expressions -/

namespace Parser

open Circuit Session

variable {σ : Type} [Source σ Char] {read : ExprReader σ}

/-- The reader tells the netlist the tree that it answers. -/
def ReaderTells (read : ExprReader σ) : Prop :=
  ∀ bound, Tells (read bound) fun e calls => Turns [] calls [e]

theorem operatorAt_silent (fixity : Fixity) :
    Silent (operatorAt fixity : Run (Session σ) (Option Operator)) :=
  (Silent.onTokens _).bind fun _ => .ite (fun _ => .get_bind fun _ => .pure rfl) fun _ => .pure rfl

omit [Source σ Char] in
theorem apply_tells (op : Operator) (arguments : List Expr) :
    Tells (tell (.applyOperator op arguments) : Run (Session σ) Expr)
      fun e calls => Turns arguments calls [e] := by
  refine .tell fun n e m heffect => ?_
  rw [heffect.1]
  exact .applied op arguments

theorem itemsBy_tells (hread : ReaderTells read) (container : Container) :
    Tells (itemsBy read container) fun items calls => Turns [] calls items := by
  refine (accept_silent _).bind fun closed => .ite (fun _ => .pure (.refl [])) fun _ => ?_
  refine .iterate (I := fun items calls => Turns [] calls items.reverse) (.refl []) ?_
  intro items calls hitems
  refine (hread none).bind fun e more he => ?_
  have hsnoc : Turns [] (calls ++ more) (e :: items).reverse := by
    rw [List.reverse_cons]
    exact hitems.append he
  refine (accept_silent _).bind fun separated => .ite (fun _ => .pure (by simpa using hsnoc)) fun _ => ?_
  exact (expect_silent _).bind fun _ => .pure (by simpa using hsnoc)

theorem groupBy_tells (hread : ReaderTells read) :
    Tells (groupBy read) fun found calls => Turns [] calls found.2 := by
  refine (Silent.onTokens _).bind fun token => ?_
  split
  · refine (itemsBy_tells hread _).bind fun items calls hitems => .pure ?_
    rwa [List.append_nil]
  · exact .violate _

theorem callBy_tells (hread : ReaderTells read) :
    Tells (callBy read) fun e calls => Turns [] calls [e] := by
  refine (Silent.onTokens _).bind fun token => ?_
  refine (groupBy_tells hread).bind fun found calls hfound => .get_bind fun s => ?_
  exact (apply_tells _ _).mono fun e more he => hfound.trans he

theorem prefixedBy_tells (hread : ReaderTells read) (op : Operator) :
    Tells (prefixedBy read op) fun e calls => Turns [] calls [e] := by
  refine (Silent.onTokens _).bind fun token => ?_
  refine (hread _).bind fun operand calls hoperand => ?_
  exact (apply_tells _ _).mono fun e more he => hoperand.trans he

theorem namedBy_tells (hread : ReaderTells read) (kind : Token.Kind) :
    Tells (namedBy read kind) fun e calls => Turns [] calls [e] := by
  refine (Silent.onTokens _).bind fun token => .get_bind fun s => ?_
  refine (Silent.onTokens _).bind fun second => .ite (fun _ => callBy_tells hread) fun _ => ?_
  refine (operatorAt_silent _).bind fun found => ?_
  cases found with
  | some op => exact prefixedBy_tells hread op
  | none =>
    refine .ite (fun _ => unexpectedOperand_tells) fun _ => (Silent.onTokens _).bind fun token => ?_
    refine .tell fun n e m heffect => ?_
    rw [heffect.1]
    exact .signal _

theorem operandBy_tells (hread : ReaderTells read) :
    Tells (operandBy read) fun e calls => Turns [] calls [e] := by
  refine (Silent.onTokens _).bind fun kind => ?_
  split
  · refine (Silent.onTokens _).bind fun token => .tell fun n e m heffect => ?_
    rw [heffect.1]
    exact .constant _ _
  · refine .ite (fun _ => ?_) fun _ => .ite (fun _ => namedBy_tells hread kind) fun _ =>
      unexpectedOperand_tells
    refine (groupBy_tells hread).bind fun found calls hfound => ?_
    split
    · exact .pure (by simpa using hfound)
    · refine .tell fun n e m heffect => ?_
      rw [heffect.1]
      exact hfound.trans (.grouped _ _)

/-- There is one operand more than there are operators. -/
def Stacks.Balanced (s : Stacks) : Prop := s.operands.length = s.operators.length + 1

omit [Source σ Char] in
/-- A reduction puts the last two operands together. The stack has its last operand in front. -/
theorem reduce_tells (s : Stacks) : Tells (reduce s : Run (Session σ) Stacks) fun s' calls =>
    Turns s.operands.reverse calls s'.operands.reverse ∧ s'.operators = s.operators.tail ∧
      (s.Balanced → s'.Balanced) := by
  obtain ⟨operands, operators⟩ := s
  rcases operators with _ | ⟨op, operators⟩
  · exact .violate _
  rcases operands with _ | ⟨right, _ | ⟨left, rest⟩⟩
  · exact .violate _
  · exact .violate _
  refine (apply_tells op [left, right]).bind fun node calls hnode => .pure ⟨?_, rfl, ?_⟩
  · simpa using hnode.behind rest.reverse
  · simp [Stacks.Balanced]

omit [Source σ Char] in
theorem reduceWhile_tells (first : Operator → Bool) (n : Nat) (s : Stacks) :
    Tells (reduceWhile first n s : Run (Session σ) Stacks) fun s' calls =>
      Turns s.operands.reverse calls s'.operands.reverse ∧ (s.Balanced → s'.Balanced) := by
  induction n generalizing s with
  | zero => exact .pure ⟨.refl _, id⟩
  | succ n ih =>
    refine .ite (fun _ => ?_) fun _ => .pure ⟨.refl _, id⟩
    refine (reduce_tells s).bind fun s' calls ⟨hs', _, hbalanced⟩ => (ih s').mono ?_
    intro s'' more ⟨hs'', hbalanced'⟩
    exact ⟨hs'.trans hs'', hbalanced' ∘ hbalanced⟩

omit [Source σ Char] in
/-- Without a condition every operator is applied, and a single operand is left. -/
theorem reduceAll_tells {s : Stacks} (hs : s.Balanced) :
    Tells (reduceAll s : Run (Session σ) Stacks) fun s' calls =>
      ∃ whole, s'.operands = [whole] ∧ Turns s.operands.reverse calls [whole] := by
  unfold reduceAll
  generalize hn : s.operators.length = n
  induction n generalizing s with
  | zero =>
    obtain ⟨whole, hwhole⟩ := List.length_eq_one_iff.1 (hs.trans (congrArg (· + 1) hn))
    exact .pure ⟨whole, hwhole, by simpa [hwhole] using Turns.refl [whole]⟩
  | succ n ih =>
    refine .ite (fun _ => ?_) fun hnone => ?_
    · refine (reduce_tells s).bind fun s' calls ⟨hs', htail, hbalanced⟩ => ?_
      refine (ih (hbalanced hs) (by simp [htail, hn])).mono ?_
      intro s'' more ⟨whole, hwhole, hturns⟩
      exact ⟨whole, hwhole, hs'.trans hturns⟩
    · rcases hoperators : s.operators with _ | ⟨op, operators⟩
      · simp [hoperators] at hn
      · simp [hoperators] at hnone

theorem infixesBy_tells (hread : ReaderTells read) (bound : Option Nat) (s : Stacks) :
    Tells (infixesBy read bound s) fun s' calls =>
      Turns s.operands.reverse calls s'.operands.reverse ∧ (s.Balanced → s'.Balanced) := by
  refine .iterate (I := fun s' calls => Turns s.operands.reverse calls s'.operands.reverse ∧
    (s.Balanced → s'.Balanced)) ⟨.refl _, id⟩ ?_
  intro s' calls ⟨hs', hbalanced⟩
  refine (operatorAt_silent _).bind fun found => ?_
  cases found with
  | none => exact .pure (by simpa using ⟨hs', hbalanced⟩)
  | some op =>
    refine .ite (fun _ => ?_) fun _ => .pure (by simpa using ⟨hs', hbalanced⟩)
    refine (reduceWhile_tells _ _ _).bind fun s'' more ⟨hs'', hbalanced'⟩ =>
      (Silent.onTokens _).bind fun _ => ?_
    refine (operandBy_tells hread).bind fun operand last hoperand => .pure ⟨?_, ?_⟩
    · have hpushed := hoperand.behind s''.operands.reverse
      rw [List.append_nil] at hpushed
      simpa [List.append_assoc] using (hs'.trans hs'').trans hpushed
    · intro hs
      have := hbalanced' (hbalanced hs)
      simpa [Stacks.Balanced] using this

theorem postfixesBy_tells (bound : Option Nat) (operand : Expr) :
    Tells (postfixesBy bound operand : Run (Session σ) (Expr × Bool))
      fun found calls => Turns [operand] calls [found.1] := by
  refine .iterate (I := fun found calls => Turns [operand] calls [found.1]) (.refl _) ?_
  intro ⟨whole, applied⟩ calls hwhole
  refine (operatorAt_silent _).bind fun found => ?_
  cases found with
  | none => exact .pure (by simpa using hwhole)
  | some op =>
    refine .ite (fun _ => (Silent.onTokens _).bind fun _ => ?_) fun _ => .pure (by simpa using hwhole)
    refine (apply_tells _ _).bind fun node more hnode => .pure ?_
    simpa using hwhole.trans hnode

theorem climbBy_tells (hread : ReaderTells read) : ReaderTells (climbBy read) := by
  intro bound
  refine (operandBy_tells hread).bind fun first calls hfirst => ?_
  refine .iterate (I := fun whole more => Turns [] (calls ++ more) [whole]) (by simpa using hfirst) ?_
  intro whole calls₁ hwhole
  refine (infixesBy_tells hread _ _).bind fun s₁ calls₂ ⟨hs₁, hbalanced⟩ => ?_
  refine (reduceAll_tells (hbalanced rfl)).bind fun s₂ calls₃ ⟨last, hlast, hs₂⟩ => ?_
  rw [hlast]
  refine (postfixesBy_tells _ _).bind fun found calls₄ hfound => ?_
  refine (operatorAt_silent _).bind fun next => ?_
  have hall := ((hwhole.trans hs₁).trans hs₂).trans hfound
  refine .ite (fun _ => .pure ?_) fun _ => .pure ?_
  · simpa [List.append_assoc] using hall
  · simpa [List.append_assoc] using hall

theorem climb_tells (depth : Nat) : ReaderTells (climb depth : ExprReader σ) := by
  induction depth with
  | zero => exact fun _ _ => trivial
  | succ depth ih => exact climbBy_tells ih

theorem expression_tells :
    Tells (expression : Run (Session σ) Expr) fun e calls => Turns [] calls [e] :=
  fun s => climb_tells (s.remaining + 1) none s

/-! ### Statements -/

theorem name_silent : Silent (name : Run (Session σ) String) :=
  (Silent.onTokens _).bind fun _ =>
    .ite (fun _ => (Silent.onTokens _).bind fun _ => .pure rfl) fun _ => mismatch_tells _

theorem names_silent : Silent (names : Run (Session σ) (List String)) := by
  refine name_silent.bind fun first => Silent.iterate fun names => ?_
  refine (accept_silent _).bind fun separated => Silent.ite ?_ (.pure _)
  exact name_silent.bind fun _ => .pure rfl

theorem namesAfterWord_silent (word : String) :
    Silent (namesAfterWord word : Run (Session σ) (List String)) :=
  (acceptWord_silent _).bind fun _ => Silent.ite names_silent (.pure _)

theorem busNames_silent : Silent (busNames : Run (Session σ) (List String)) :=
  (accept_silent _).bind fun _ => Silent.ite names_silent (.pure _)

theorem entityReference_silent : Silent (entityReference : Run (Session σ) String) :=
  (Silent.onTokens _).bind fun _ =>
    .ite (fun _ => (Silent.onTokens _).bind fun _ => .pure rfl) fun _ => mismatch_tells _

theorem adjacentSymbols_silent (text : String) (stop : Text.Position) :
    Silent (adjacentSymbols text stop : Run (Session σ) String) :=
  .iterate fun _ => (Silent.onTokens _).bind fun _ =>
    Silent.ite ((Silent.onTokens _).bind fun _ => .pure rfl) (.pure _)

theorem definedSymbol_silent : Silent (definedSymbol : Run (Session σ) String) := by
  refine (Silent.onTokens _).bind fun kind => .ite (fun _ => ?_) fun _ => .ite (fun _ => ?_) fun _ => ?_
  · exact (Silent.onTokens _).bind fun _ => .pure rfl
  · exact (Silent.onTokens _).bind fun _ => adjacentSymbols_silent _ _
  · exact mismatch_tells _

theorem definedNotation_silent : Silent (definedNotation : Run (Session σ) Notation) := by
  refine (Silent.onTokens _).bind fun token => ?_
  split
  · exact .ite (fun _ => (Silent.onTokens _).bind fun _ => .pure rfl) fun _ => mismatch_tells _
  · exact mismatch_tells _

theorem definedPrecedence_silent : Silent (definedPrecedence : Run (Session σ) Nat) := by
  refine (Silent.onTokens _).bind fun kind => .ite (fun _ => ?_) fun _ => .pure rfl
  refine (Silent.onTokens _).bind fun token => .ite (fun _ => ?_) fun _ => mismatch_tells _
  exact (Silent.onTokens _).bind fun _ => .pure rfl

section Names

omit [Source σ Char]

theorem useSignal_tells (name : String) : Tells (tell (.useSignal name) : Run (Session σ) Expr)
    fun e calls => e = .signal name ∧ calls = [.useSignal name] :=
  .tell fun _ _ _ heffect => ⟨heffect.1, rfl⟩

theorem useBus_tells (name : String) : Tells (tell (.useBus name) : Run (Session σ) Expr)
    fun e calls => e = .bus name ∧ calls = [.useBus name] :=
  .tell fun _ _ _ heffect => ⟨heffect.1, rfl⟩

theorem declareSignal_tells (name : String) : Tells (tell (.declareSignal name) : Run (Session σ) Expr)
    fun e calls => e = .signal name ∧ calls = [.declareSignal name] :=
  .tell fun _ _ _ heffect => ⟨heffect.1, rfl⟩

theorem declareBus_tells (name : String) : Tells (tell (.declareBus name) : Run (Session σ) Expr)
    fun e calls => e = .bus name ∧ calls = [.declareBus name] :=
  .tell fun _ _ _ heffect => ⟨heffect.1, rfl⟩

end Names

theorem entityDefinition_tells :
    Tells (entityDefinition : Run (Session σ) Statement) Statement.Calls := by
  refine name_silent.bind fun label => definedSymbol_silent.bind fun symbol => ?_
  refine definedNotation_silent.bind fun form => definedPrecedence_silent.bind fun precedence => ?_
  refine (namesAfterWord_silent _).bind fun inputs => (namesAfterWord_silent _).bind fun outputs => ?_
  refine busNames_silent.bind fun buses => ?_
  generalize ({ label, symbol, form, precedence, inputs, outputs, buses } : Entity) = e
  refine (Tells.told _).bind fun _ calls hcalls => ?_
  subst hcalls
  exact (Silent.insertOperator _).bind fun _ => .pure (.entity e)

theorem bodyBy_tells {read : Run (Session σ) Statement} (hread : Tells read Statement.Calls) :
    Tells (bodyBy read) Statement.AllCalls := by
  refine .iterate (I := fun statements calls => Statement.AllCalls statements.reverse calls) .nil ?_
  intro statements calls hstatements
  refine (skip_silent _).bind fun _ => (accept_silent _).bind fun closed => ?_
  refine .ite (fun _ => .pure (by simpa using hstatements)) fun _ => ?_
  refine hread.bind fun statement more hstatement => (accept_silent _).bind fun ended => ?_
  have hsnoc := hstatements.snoc hstatement
  refine .ite (fun _ => .pure (by simpa using hsnoc)) fun _ => ?_
  exact (expect_silent _).bind fun _ => .pure (by simpa using hsnoc)

theorem architectureBy_tells {read : Run (Session σ) Statement} (hread : Tells read Statement.Calls) :
    Tells (architectureBy read) Statement.Calls := by
  refine name_silent.bind fun name => entityReference_silent.bind fun entity => ?_
  refine (expect_silent _).bind fun _ => ?_
  refine (Tells.told _).bind fun _ begun hbegun => (bodyBy_tells hread).bind fun body inner hbody => ?_
  refine (Tells.told _).bind fun _ ended hended => ?_
  subst hbegun hended
  exact .pure (by simpa using Statement.Calls.architecture name entity hbody)

theorem definitionBy_tells {read : Run (Session σ) Statement} (hread : Tells read Statement.Calls) :
    Tells (definitionBy read) Statement.Calls :=
  (acceptWord_silent _).bind fun _ => .ite (fun _ => entityDefinition_tells) fun _ =>
    (acceptWord_silent _).bind fun _ => .ite (fun _ => architectureBy_tells hread) fun _ =>
      mismatch_tells _

theorem bindingLabel_silent : Silent (bindingLabel : Run (Session σ) (Option String)) := by
  refine (Silent.onTokens _).bind fun kind => Silent.ite ?_ (.pure _)
  refine (Silent.onTokens _).bind fun second => Silent.ite ?_ (.pure _)
  exact (Silent.onTokens _).bind fun _ => (Silent.onTokens _).bind fun _ => .pure rfl

/-- What is told of the values that are bound. -/
theorem bindingsBy_tells {read : Run (Session σ) Expr}
    (hread : Tells read fun e calls => Turns [] calls [e]) :
    Tells (bindingsBy read) fun bindings calls => Turns [] calls (bindings.map Binding.value) := by
  refine .iterate (I := fun bindings calls => Turns [] calls (bindings.reverse.map Binding.value))
    (.refl []) ?_
  intro bindings calls hbindings
  refine bindingLabel_silent.bind fun label => hread.bind fun value more hvalue => ?_
  have hsnoc : Turns [] (calls ++ more) ((⟨label, value⟩ :: bindings).reverse.map Binding.value) := by
    rw [List.reverse_cons, List.map_append]
    exact hbindings.append hvalue
  refine (accept_silent _).bind fun separated => .ite (fun _ => .pure ?_) fun _ => .pure ?_
  · simpa using hsnoc
  · simpa using hsnoc

theorem bindingsAfterWord_tells (word : String) {read : Run (Session σ) Expr}
    (hread : Tells read fun e calls => Turns [] calls [e]) : Tells (bindingsAfterWord word read)
      fun bindings calls => Turns [] calls (bindings.map Binding.value) :=
  (acceptWord_silent _).bind fun _ =>
    .ite (fun _ => bindingsBy_tells hread) fun _ => .pure (.refl [])

theorem outputSignal_tells :
    Tells (outputSignal : Run (Session σ) Expr) fun e calls => Turns [] calls [e] := by
  refine name_silent.bind fun name => (useSignal_tells name).mono ?_
  intro e calls ⟨he, hcalls⟩
  subst he hcalls
  exact .signal name

theorem instantiation_tells : Tells (instantiation : Run (Session σ) Statement) Statement.Calls := by
  refine (expect_silent _).bind fun _ => entityReference_silent.bind fun entity => ?_
  refine (bindingsAfterWord_tells _ expression_tells).bind fun inputs calls₁ hinputs => ?_
  refine (bindingsAfterWord_tells _ outputSignal_tells).bind fun outputs calls₂ houtputs => ?_
  refine busNames_silent.bind fun names => ?_
  refine (Tells.mapM useBus_tells names).bind fun buses calls₃ hbuses => ?_
  obtain ⟨rfl, rfl⟩ := hbuses
  refine (Tells.told _).bind fun nodes calls₄ hcalls₄ => ?_
  subst hcalls₄
  have hall := (hinputs.append houtputs).append (Turns.names Turns.bus names)
  exact .pure (by simpa using Statement.Calls.instantiation entity nodes hall)

theorem tryTargets_silent : Silent (tryTargets : Run (Session σ) (Option (List String))) := by
  refine .iterate fun names => (Silent.onTokens _).bind fun kind => Silent.ite ?_ (.pure _)
  refine (Silent.onTokens _).bind fun token => (accept_silent _).bind fun separated => ?_
  exact Silent.ite (.pure _) ((accept_silent _).bind fun _ => Silent.ite (.pure _) (.pure _))

/-- **Nothing is told while targets are tried**, whether they turn out to be targets or not. -/
theorem assignmentTargets_silent :
    Silent (assignmentTargets : Run (Session σ) (Option (List String))) := by
  refine (Silent.onTokens _).bind fun _ => tryTargets_silent.bind fun found => ?_
  cases found with
  | some names => exact (Silent.onTokens _).bind fun _ => .pure rfl
  | none => exact (Silent.onTokens _).bind fun _ => .pure rfl

theorem assignmentOrExpression_tells :
    Tells (assignmentOrExpression : Run (Session σ) Statement) Statement.Calls := by
  refine assignmentTargets_silent.bind fun found => ?_
  cases found with
  | none =>
    refine expression_tells.bind fun value calls hvalue => .pure ?_
    rw [List.append_nil]
    exact .expression hvalue
  | some names =>
    refine (Tells.mapM useSignal_tells names).bind fun targets calls htargets => ?_
    obtain ⟨rfl, rfl⟩ := htargets
    refine expression_tells.bind fun value more hvalue => ?_
    refine (Tells.told _).bind fun _ last hlast => ?_
    subst hlast
    exact .pure (by simpa using Statement.Calls.assignment names hvalue)

theorem statementBy_tells {read : Run (Session σ) Statement} (hread : Tells read Statement.Calls) :
    Tells (statementBy read) Statement.Calls := by
  refine (Silent.onTokens _).bind fun kind => ?_
  split
  · exact (Silent.onTokens _).bind fun _ => definitionBy_tells hread
  · exact instantiation_tells
  · refine (Silent.onTokens _).bind fun _ => names_silent.bind fun names => ?_
    refine (Tells.mapM declareSignal_tells names).bind fun nodes calls hnodes => ?_
    obtain ⟨rfl, rfl⟩ := hnodes
    exact .pure (by simpa using Statement.Calls.signals names)
  · refine (Silent.onTokens _).bind fun _ => names_silent.bind fun names => ?_
    refine (Tells.mapM declareBus_tells names).bind fun nodes calls hnodes => ?_
    obtain ⟨rfl, rfl⟩ := hnodes
    exact .pure (by simpa using Statement.Calls.buses names)
  · exact assignmentOrExpression_tells

theorem statement_tells (depth : Nat) :
    Tells (statement depth : Run (Session σ) Statement) Statement.Calls := by
  induction depth with
  | zero => exact fun _ => trivial
  | succ depth ih => exact statementBy_tells ih

/-- The calls of a statement that may be missing. -/
theorem parseStatement_tells : Tells (parseStatement : Run (Session σ) (Option Statement))
    fun reply calls => Statement.AllCalls reply.toList calls := by
  refine (skip_silent _).bind fun _ => (Silent.onTokens _).bind fun kind => ?_
  refine .ite (fun _ => .pure .nil) fun _ => .get_bind fun s => ?_
  refine (statement_tells _).bind fun statement calls hstatement => (accept_silent _).bind fun ended => ?_
  have hsingle : Statement.AllCalls [statement] (calls ++ []) := .cons hstatement .nil
  refine .ite (fun _ => .pure hsingle) fun _ => (Silent.onTokens _).bind fun last => ?_
  exact .ite (fun _ => .pure hsingle) fun _ => mismatch_tells _

theorem parseAll_tells :
    Tells (parseAll : Run (Session σ) (List Statement)) Statement.AllCalls := by
  refine .iterate (I := fun statements calls => Statement.AllCalls statements.reverse calls) .nil ?_
  intro statements calls hstatements
  refine parseStatement_tells.bind fun reply more hreply => ?_
  cases reply with
  | none =>
    cases hreply
    exact .pure (by simpa using hstatements)
  | some statement =>
    cases hreply with
    | cons hfirst hrest =>
      cases hrest
      exact .pure (by simpa using hstatements.snoc hfirst)

/-! ### The calls of an expression -/

/-- **The calls are the post-order of the tree.** While an expression is read, its netlist is told the
nodes of the tree that comes out, each behind its children and no other call between them: a constant or
a signal for every leaf, a group for every group, and an application, with the children as arguments, for
every application. Of a statement the netlist is told nothing but such calls for each tree in it, from
left to right, and what the statement does with them. The names that have been tried as targets and were
none leave no trace. -/
theorem calls_of_expression (s t : Session σ) :
    (∀ e, expression s = .ok e t → ∃ calls, t.trace = s.trace ++ calls ∧
      calls.map Call.node? = e.postorder.map some) ∧
    ∀ statement, parseStatement s = .ok (some statement) t → ∃ calls, t.trace = s.trace ++ calls ∧
      Statement.Calls statement calls := by
  constructor
  · intro e h
    obtain ⟨calls, htold, hcalls⟩ := (expression_tells s).of_ok h
    exact ⟨calls, htold.trace, by simpa [Turns, Expr.postorderAll] using hcalls⟩
  · intro statement h
    obtain ⟨calls, htold, hcalls⟩ := (parseStatement_tells s).of_ok h
    cases hcalls with
    | cons hfirst hrest =>
      cases hrest
      exact ⟨_, htold.trace, by simpa using hfirst⟩

/-- An expression in which operators wait on the stack while a call, an operator in front, one behind, and
groups with one item and with two are read; the same as a statement, where `a` is tried as a target
first. -/
theorem calls_of_nested_operands : ∃ (s t u : Session (Items Char)) (e : Expr) (first second : List Call),
    e = .apply "Subtract" [.apply "Add" [.signal "a", .apply "Multiply" [.apply "f"
      [.group .vector [.signal "b", .integer "1"]], .apply "Negate" [.apply "Factorial"
        [.signal "c"]]]], .signal "d"] ∧
    expression s = .ok e t ∧ parseStatement s = .ok (some (.expression e)) u ∧
    t.trace = s.trace ++ first ∧ first.map Call.node? = e.postorder.map some ∧
    u.trace = s.trace ++ second ∧ Statement.Calls (.expression e) second := by
  let s := Session.ofSource (Items.ofText "a + f([b, 1]) * -c! - (d)") {} .standard
  have hfirst := Run.eq_ok_of_answer? (r := expression s) (a := .apply "Subtract" [.apply "Add"
    [.signal "a", .apply "Multiply" [.apply "f" [.group .vector [.signal "b", .integer "1"]],
      .apply "Negate" [.apply "Factorial" [.signal "c"]]]], .signal "d"]) (by decide +kernel)
  have hsecond := Run.eq_ok_of_answer? (r := parseStatement s) (a := some (.expression (.apply "Subtract"
    [.apply "Add" [.signal "a", .apply "Multiply" [.apply "f" [.group .vector [.signal "b", .integer "1"]],
      .apply "Negate" [.apply "Factorial" [.signal "c"]]]], .signal "d"]))) (by decide +kernel)
  obtain ⟨first, htrace, hcalls⟩ := (calls_of_expression s _).1 _ hfirst
  obtain ⟨second, htrace', hcalls'⟩ := (calls_of_expression s _).2 _ hsecond
  exact ⟨s, _, _, _, first, second, rfl, hfirst, hsecond, htrace, hcalls, htrace', hcalls'⟩

end Parser

end Dataflow
