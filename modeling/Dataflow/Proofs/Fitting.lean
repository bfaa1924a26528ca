import Dataflow.Proofs.Assertions
import Dataflow.Proofs.Filing
import Dataflow.Proofs.SessionMatching

/-!
# Dataflow.Proofs.Fitting

**Every application fits its operator.** A parser looks an operator up when it comes to a symbol, may keep
it on a stack while it reads on, and applies it in the end; a call is looked up only when its operands are
there. In between, tokens are taken, further operators are applied, and bodies of architectures define new
ones. What the netlist is told is set against the history of the run: the tokens taken so far, and the
operators of the entities defined so far (`Fits`).

Two facts carry the proof. Inside an expression nothing is registered, so that an operator that was found
is still the registered one when it is applied. And what has been taken stays taken: an invariant says
which tokens a production may refer to later (`Poised`), and goes through the productions inside it.

* `Table.Applies` — what may be applied behind the tokens that have been taken;
* `Applies.accepts` — every filled slot holds an operator of its own fixity, so such an application has
  as many operands as the operator accepts;
* `Parser.Live`, `Parser.Stopped` — the invariant of a run, and what is left of it when the run fails;
* `applications_fit` — all that a parser applies, behind any requests.
-/

namespace Dataflow

open Reading Circuit

/-! ### Histories -/

/-- Something that a parser does: to its tokens, or by telling its netlist. -/
inductive Deed where
  | event (e : Event)
  | told (call : Call)

def Deed.event? : Deed → Option Event
  | .event e => some e
  | .told _ => none

def Deed.call? : Deed → Option Call
  | .event _ => none
  | .told call => some call

/-- What has happened to the tokens. -/
def eventsIn (h : List Deed) : List Event := h.filterMap Deed.event?

/-- What the netlist has been told. -/
def callsIn (h : List Deed) : List Call := h.filterMap Deed.call?

/-- The operator of the entity that a call defines. -/
def Circuit.Call.operator? : Call → Option Operator
  | .defineEntity e => some e.operator
  | _ => none

/-- The operators of the entities that have been defined. -/
def definedIn (calls : List Call) : List Operator := calls.filterMap Call.operator?

section Histories

variable (h : List Deed) (es : List Event)

@[simp] theorem eventsIn_append (g : List Deed) : eventsIn (h ++ g) = eventsIn h ++ eventsIn g :=
  List.filterMap_append

@[simp] theorem callsIn_append (g : List Deed) : callsIn (h ++ g) = callsIn h ++ callsIn g :=
  List.filterMap_append

@[simp] theorem definedIn_append (calls more : List Call) :
    definedIn (calls ++ more) = definedIn calls ++ definedIn more :=
  List.filterMap_append

@[simp] theorem eventsIn_events : eventsIn (es.map .event) = es := by
  simp [eventsIn, Deed.event?, Function.comp_def]

@[simp] theorem callsIn_events : callsIn (es.map .event) = [] := by
  simp [callsIn, Deed.call?, Function.comp_def]

@[simp] theorem eventsIn_told (call : Call) : eventsIn [.told call] = [] := rfl

@[simp] theorem callsIn_told (call : Call) : callsIn [.told call] = [call] := rfl

theorem definedIn_single {call : Call} (h : call.defines = false) : definedIn [call] = [] := by
  cases call <;> first | rfl | cases h

end Histories

/-! ### What may be applied -/

namespace Operator.Table

/-- What a name applies that is called with `n` operands: its function form if that accepts so many, and
otherwise the operator in front of one operand or between two. Where there is none of them, it is an entity
of that name. -/
inductive Resolves (t : Table) (name : String) : Nat → Operator → Prop
  | function {n : Nat} {op : Operator} (h : t.get? name .function = some op) (haccepts : op.accepts n = true) :
    Resolves t name n op
  | prefixed {op : Operator} (hnone : ∀ f ∈ t.get? name .function, f.accepts 1 = false)
    (h : t.get? name .prefixOp = some op) : Resolves t name 1 op
  | infixed {op : Operator} (hnone : ∀ f ∈ t.get? name .function, f.accepts 2 = false)
    (h : t.get? name .infixOp = some op) : Resolves t name 2 op
  | adHoc {n : Nat} (hnone : ∀ f ∈ t.get? name .function, f.accepts n = false)
    (hone : n = 1 → t.get? name .prefixOp = none) (htwo : n = 2 → t.get? name .infixOp = none) :
    Resolves t name n (.adHoc name n)

/-- An operator that may be applied to `n` operands behind the tokens that have been taken. -/
inductive Applies (t : Table) (taken : List Token) : Operator → Nat → Prop
  | prefixed {token : Token} {op : Operator} (htaken : token ∈ taken) (hkind : token.kind.isIdentifier = true)
    (h : t.get? token.text .prefixOp = some op) : Applies t taken op 1
  /-- An operator behind an operand is applied right behind its token. -/
  | postfixed {token : Token} {op : Operator} (htaken : [token] <:+ taken) (hkind : token.kind.isIdentifier = true)
    (h : t.get? token.text .postfixOp = some op) : Applies t taken op 1
  | infixed {token : Token} {op : Operator} (htaken : token ∈ taken) (hkind : token.kind.isIdentifier = true)
    (h : t.get? token.text .infixOp = some op) : Applies t taken op 2
  /-- A name with the bracket of a list right behind it. -/
  | called {name opening : Token} {op : Operator} {n : Nat} (htaken : [name, opening] <:+: taken)
    (hkind : name.kind.isIdentifier = true) (hopening : opening.kind = .opening .list)
    (h : t.Resolves name.text n op) : Applies t taken op n

variable {t : Table} {op : Operator} {n : Nat}

theorem resolves_getD (t : Table) (name : String) (n : Nat) :
    t.Resolves name n ((t.resolve? name n).getD (.adHoc name n)) := by
  unfold resolve?
  cases hfunction : (t.get? name .function).filter fun op => op.accepts n with
  | some op =>
    obtain ⟨hget, haccepts⟩ := Option.filter_eq_some_iff.1 hfunction
    exact .function hget haccepts
  | none =>
    have hnone : ∀ f ∈ t.get? name .function, f.accepts n = false := by
      simpa [Option.filter_eq_none_iff] using hfunction
    rw [Option.none_or]
    split
    · cases hone : t.get? name .prefixOp with
      | some op => exact .prefixed hnone hone
      | none => exact .adHoc hnone (fun _ => hone) (fun h => by cases h)
    · cases htwo : t.get? name .infixOp with
      | some op => exact .infixed hnone htwo
      | none => exact .adHoc hnone (fun h => by cases h) fun _ => htwo
    · next hone htwo => exact .adHoc hnone (fun h => (hone h).elim) fun h => (htwo h).elim

theorem accepts_of_fixity (h : op.fixity.requiredArity = some n) : op.accepts n = true := by
  simp [accepts, h]

/-- What is found at the place of a fixity accepts as many operands as the fixity leaves room for. -/
theorem Filed.accepts (h : t.Filed) {symbol : String} {f : Fixity} (hget : t.get? symbol f = some op)
    (hf : f.requiredArity = some n) : op.accepts n = true :=
  accepts_of_fixity ((place_eq.1 (h.place hget)).2 ▸ hf)

theorem Resolves.accepts (h : t.Filed) {name : String} (hop : t.Resolves name n op) :
    op.accepts n = true := by
  cases hop with
  | function hget haccepts => exact haccepts
  | prefixed hnone hget => exact h.accepts hget rfl
  | infixed hnone hget => exact h.accepts hget rfl
  | adHoc => exact accepts_adHoc name n

/-- **What may be applied fits.** -/
theorem Applies.accepts (h : t.Filed) {taken : List Token} (hop : t.Applies taken op n) :
    op.accepts n = true := by
  cases hop with
  | prefixed htaken hkind hget => exact h.accepts hget rfl
  | postfixed htaken hkind hget => exact h.accepts hget rfl
  | infixed htaken hkind hget => exact h.accepts hget rfl
  | called htaken hkind hopening hresolves => exact hresolves.accepts h

end Operator.Table

/-! ### Runs -/

namespace Parser

open Session

/-- Whatever has been applied could be applied at that time: with the operators from the start and those of
the entities that had been defined, behind the tokens that had been taken. -/
def Fits (start : Operator.Table) (h : List Deed) : Prop :=
  ∀ before op arguments, before ++ [.told (.applyOperator op arguments)] <+: h →
    (start.insertAll (definedIn (callsIn before))).Applies (takenIn (eventsIn before)) op arguments.length

section Fits

variable {start : Operator.Table} {h : List Deed}

theorem Fits.nil (start : Operator.Table) : Fits start [] := fun before _ _ hbefore =>
  absurd (List.prefix_nil.1 hbefore) (by simp)

theorem Fits.snoc {d : Deed} (hfits : Fits start h)
    (hd : ∀ op arguments, d = .told (.applyOperator op arguments) →
      (start.insertAll (definedIn (callsIn h))).Applies (takenIn (eventsIn h)) op arguments.length) :
    Fits start (h ++ [d]) := by
  intro before op arguments hbefore
  -- The application is the last deed, or it fitted before.
  rcases List.prefix_concat_iff.1 hbefore with hlast | hbefore
  · obtain ⟨rfl, hd'⟩ := List.append_inj' hlast rfl
    exact hd op arguments (List.singleton_inj.1 hd').symm
  · exact hfits before op arguments hbefore

theorem Fits.events (hfits : Fits start h) (es : List Event) : Fits start (h ++ es.map .event) := by
  induction es generalizing h with
  | nil => simpa using hfits
  | cons e es ih => simpa using ih (hfits.snoc (d := .event e) nofun)

end Fits

variable {σ α β : Type} [Source σ Char]

section Invariant

variable (v : Sight σ) (past : List Call)

/-- Since a session had `v` before it and had told `past`, `h` has happened, and `w` is before it now. -/
structure Did (h : List Deed) (w : Sight σ) (s : Session σ) : Prop where
  becomes : v.Becomes (eventsIn h) w
  trace : s.trace = past ++ callsIn h
  fits : Fits v.lexer.table h

/-- A run goes on, and `J` holds of the tokens that it has taken and of what it sees. The operators are those
of the start and of the entities that it has defined. -/
def Live (J : List Token → Sight σ → Prop) (s : Session σ) : Prop :=
  ∃ h w, Did v past h w s ∧ s.Sees w ∧ registeredIn (eventsIn h) = definedIn (callsIn h) ∧
    J (takenIn (eventsIn h)) w

/-- A run has failed. -/
def Stopped (s : Session σ) : Prop := ∃ h w, Did v past h w s ∧ s.SeesUnder w.lexer.table

/-- A computation leads a run from `J` on. -/
abbrev Carries (J : List Token → Sight σ → Prop) (J' : β → List Token → Sight σ → Prop)
    (x : Run (Session σ) β) : Prop :=
  Run.Leads (fun _ => Stopped v past) (Live v past J) (fun b => Live v past (J' b)) x

/-- The calls stay as they are, whatever comes of the computation. -/
def Mute (x : Run (Session σ) β) : Prop :=
  ∀ s, Run.Ends (fun _ t => t.calls = s.calls) (fun _ t => t.calls = s.calls) (x s)

end Invariant

variable {v : Sight σ} {past : List Call} {J J' : List Token → Sight σ → Prop} {s : Session σ}

theorem Live.stopped (h : Live v past J s) : Stopped v past s := by
  obtain ⟨h, w, hdid, hw, -⟩ := h
  exact ⟨h, w, hdid, w, hw, rfl⟩

theorem Live.mono (h : Live v past J s) (hJ : ∀ taken w, J taken w → J' taken w) : Live v past J' s := by
  obtain ⟨h, w, hdid, hw, hregistered, hj⟩ := h
  exact ⟨h, w, hdid, hw, hregistered, hJ _ _ hj⟩

theorem carries_of_exists {ι : Type} {J : ι → List Token → Sight σ → Prop} {J' : β → List Token → Sight σ → Prop}
    {x : Run (Session σ) β} (hx : ∀ i, Carries v past (J i) J' x) :
    Carries v past (fun taken w => ∃ i, J i taken w) J' x := by
  rintro s ⟨h, w, hdid, hw, hregistered, i, hj⟩
  exact hx i s ⟨h, w, hdid, hw, hregistered, hj⟩

theorem carries_of_and {p : Prop} {J' : β → List Token → Sight σ → Prop} {x : Run (Session σ) β}
    (hx : p → Carries v past J J' x) : Carries v past (fun taken w => p ∧ J taken w) J' x := by
  rintro s ⟨h, w, hdid, hw, hregistered, hp, hj⟩
  exact hx hp s ⟨h, w, hdid, hw, hregistered, hj⟩

/-- What is carried on may be weakened at both ends. -/
theorem Carries.mono {P Q : β → List Token → Sight σ → Prop} {x : Run (Session σ) β}
    (hx : Carries v past J P x) (hJ : ∀ taken w, J' taken w → J taken w)
    (hQ : ∀ b taken w, P b taken w → Q b taken w) : Carries v past J' Q x :=
  Run.Leads.mono hx (fun _ h => h.mono hJ) fun b _ h => h.mono (hQ b)

theorem carries_pure {J' : β → List Token → Sight σ → Prop} {b : β} (h : ∀ taken w, J taken w → J' b taken w) :
    Carries v past J J' (pure b) := fun _ hs => Live.mono hs h

/-- A loop, with an invariant about what it passes on. -/
theorem carries_iterate {I : α → List Token → Sight σ → Prop} {J' : β → List Token → Sight σ → Prop}
    {step : α → Run (Session σ) (Run.Round α β)} (bound : Session σ → Nat) (a : α)
    (hstep : ∀ a, Carries v past (I a) (fun round => match round with
      | .again a' => I a'
      | .done b => J' b) (step a)) : Carries v past (I a) J' (Run.iterate bound a step) := by
  refine fun s hs => Run.Ends.iterate_of (I := fun a => Live v past (I a)) (fun a s hs => ?_)
    (fun _ _ h => h.stopped) hs
  refine (hstep a s hs).mono (fun round u h => ?_) fun _ _ h => h
  cases round <;> exact h

namespace Mute

omit [Source σ Char]

theorem pure (b : β) : Mute (Pure.pure b : Run (Session σ) β) := fun _ => rfl

theorem onTokens (x : Run (Cursor (Lexer σ) Token) β) : Mute (onTokens x) := by
  rintro ⟨tokens, netlist, calls⟩
  unfold Session.onTokens
  dsimp only
  cases x tokens <;> exact rfl

theorem fail (e : Error) : Mute (Run.fail e : Run (Session σ) β) := fun _ => rfl

theorem bind {x : Run (Session σ) α} {f : α → Run (Session σ) β} (hx : Mute x) (hf : ∀ a, Mute (f a)) :
    Mute (x >>= f) := fun s =>
  (hx s).bind (fun a t ht => (hf a t).mono (fun _ _ h => h.trans ht) fun _ _ h => h.trans ht) fun _ _ h => h

theorem ite {c : Prop} [Decidable c] {x y : Run (Session σ) β} (hx : Mute x) (hy : Mute y) :
    Mute (if c then x else y) := by
  split
  · exact hx
  · exact hy

theorem iterate {step : α → Run (Session σ) (Run.Round α β)} (bound : Session σ → Nat) (a : α)
    (hstep : ∀ a, Mute (step a)) : Mute (Run.iterate bound a step) := by
  intro s
  refine Run.Ends.iterate_of (I := fun _ t => t.calls = s.calls) (fun a t ht => ?_) (fun _ _ h => h) rfl
  refine (hstep a t).mono (fun round u h => ?_) fun _ _ h => h.trans ht
  cases round <;> exact h.trans ht

theorem kindAt [Source σ Char] (k : Nat) : Mute (kindAt k : Run (Session σ) Token.Kind) := onTokens _

theorem accept [Source σ Char] (kind : Token.Kind) : Mute (accept kind : Run (Session σ) Bool) :=
  (onTokens _).bind fun _ => .pure _

end Mute

theorem Mute.tryTargets : Mute (tryTargets : Run (Session σ) (Option (List String))) :=
  .iterate _ _ fun _ => (Mute.kindAt 0).bind fun _ => .ite
    ((Mute.onTokens _).bind fun _ => (Mute.accept _).bind fun _ => .ite (.pure _)
      ((Mute.accept _).bind fun _ => .ite (.pure _) (.pure _)))
    (.pure _)

/-! ### Steps -/

/-- What a computation on the tokens leads to follows from the tokens that it takes. -/
theorem carries_of_reads {J' : β → List Token → Sight σ → Prop} {Q : Sight σ → β → List Token → Sight σ → Prop}
    {x : Run (Session σ) β} (hreads : ∀ {s w}, s.Sees w → Reads w (Q w) (x s)) (hmute : Mute x)
    (hJ : ∀ taken w b tokens w', J taken w → w.Passes tokens w' → Q w b tokens w' → J' b (taken ++ tokens) w') :
    Carries v past J J' x := by
  rintro s ⟨h, w, ⟨hbecomes, htrace, hfits⟩, hw, hregistered, hj⟩
  refine ((hreads hw).and (hmute s)).mono ?_ ?_
  · rintro b t ⟨⟨_, w', ⟨es, hes, hquiet, rfl⟩, hw', hq⟩, hcalls⟩
    refine ⟨h ++ es.map .event, w', ⟨by simpa using hbecomes.trans hes, ?_, hfits.events es⟩, hw', ?_, ?_⟩
    · simpa [trace, hcalls] using htrace
    · simpa [hquiet] using hregistered
    · simpa using hJ _ _ _ _ _ hj ⟨es, hes, hquiet, rfl⟩ hq
  · rintro e t ⟨hw', hcalls⟩
    exact ⟨h, w, ⟨hbecomes, by simpa [trace, hcalls] using htrace, hfits⟩, hw'⟩

/-- A call goes into the history, where it may be made. -/
theorem tell_ends (call : Call) (hs : Live v past J s)
    (hcall : ∀ op arguments, call = .applyOperator op arguments →
      ∀ taken w, J taken w → w.lexer.table.Applies taken op arguments.length) :
    Run.Ends (fun _ t => ∃ h w, Did v past (h ++ [.told call]) w t ∧ t.Sees w ∧
        registeredIn (eventsIn h) = definedIn (callsIn h) ∧ J (takenIn (eventsIn h)) w)
      (fun _ => Stopped v past) (tell call s) := by
  obtain ⟨h, w, ⟨hbecomes, htrace, hfits⟩, hw, hregistered, hj⟩ := hs
  have hfits' : Fits v.lexer.table (h ++ [.told call]) := hfits.snoc fun op arguments hd => by
    rw [← hregistered, ← hbecomes.table]
    exact hcall op arguments (Deed.told.inj hd) _ _ hj
  have hbecomes' : v.Becomes (eventsIn (h ++ [.told call])) w := by simpa using hbecomes
  have htrace' : (call :: s.calls).reverse = past ++ callsIn (h ++ [.told call]) := by
    rw [callsIn_append, ← List.append_assoc, ← htrace, List.reverse_cons]
    rfl
  -- A call that the netlist refuses has been made all the same.
  cases hperform : Netlist.perform call s.netlist with
  | ok reply m =>
    rw [tell_ok call hperform]
    exact ⟨h, w, ⟨hbecomes', htrace', hfits'⟩, hw, hregistered, hj⟩
  | error cause m =>
    rw [tell_error call hperform]
    exact ⟨_, w, ⟨hbecomes', htrace', hfits'⟩, w, hw, rfl⟩

theorem tell_carries {call : Call} (hdefines : call.defines = false)
    (hcall : ∀ op arguments, call = .applyOperator op arguments →
      ∀ taken w, J taken w → w.lexer.table.Applies taken op arguments.length) :
    Carries v past J (fun _ => J) (tell call) := by
  refine fun s hs => (tell_ends call hs hcall).mono ?_ fun _ _ h => h
  rintro reply t ⟨h, w, hdid, hw, hregistered, hj⟩
  exact ⟨_, w, hdid, hw, by simpa [definedIn_single hdefines] using hregistered, by simpa using hj⟩

/-- Other calls may be made at any time. -/
theorem tell_carries_of_not {call : Call} (hdefines : call.defines = false) (happlies : call.applies = false) :
    Carries v past J (fun _ => J) (tell call) :=
  tell_carries hdefines fun op arguments hcall => by
    subst hcall
    cases happlies

/-- An operator is applied where it may be. -/
theorem apply_carries (op : Operator) (arguments : List Expr)
    (happlies : ∀ taken w, J taken w → w.lexer.table.Applies taken op arguments.length) :
    Carries v past J (fun _ => J) (tell (.applyOperator op arguments)) :=
  tell_carries rfl fun _ _ hcall => by
    cases hcall
    exact happlies

/-- Behind the definition of an entity its operator is registered. -/
theorem define_carries (e : Entity) :
    Carries v past (fun _ _ => True) (fun _ _ _ => True) (define e) := by
  intro s hs
  refine (tell_ends (.defineEntity e) hs fun _ _ h => by cases h).bind ?_ fun _ _ h => h
  rintro _ t ⟨h, w, ⟨hbecomes, htrace, hfits⟩, hw, hregistered, -⟩
  refine ⟨_ ++ [Event.registered e.operator].map .event, w.register e.operator,
    ⟨?_, ?_, hfits.events _⟩, Cursor.Sees.register hw e.operator, ?_, trivial⟩
  · rw [eventsIn_append, eventsIn_events]
    exact hbecomes.trans (.single .register)
  · rw [callsIn_append, callsIn_events, List.append_nil]
    exact htrace
  · simp only [eventsIn_append, callsIn_append, registeredIn_append, definedIn_append, hregistered,
      List.append_assoc]
    rfl

/-! ### Tokens -/

/-- The cursor stands between `front`, which has just been taken, and `next`, which is in view. The operators
are those of `t`, and each part in `known` has been taken at some time. -/
structure Poised (t : Operator.Table) (known : List (List Token)) (front next taken : List Token)
    (w : Sight σ) : Prop where
  table : w.lexer.table = t
  known : ∀ part ∈ known, part <:+: taken
  front : front <:+ taken
  next : next <+: w.ahead

/-- Nothing but the operators, and what has been taken before. -/
abbrev Recalls (t : Operator.Table) (known : List (List Token)) : List Token → Sight σ → Prop :=
  Poised t known [] []

section Poised

variable {t : Operator.Table} {known : List (List Token)} {front next taken tokens : List Token}
  {w w' : Sight σ} {token : Token}

omit [Source σ Char] in
theorem Poised.recalls (h : Poised t known front next taken w) : Recalls t known taken w :=
  ⟨h.table, h.known, List.nil_suffix, List.nil_prefix⟩

omit [Source σ Char] in
/-- What has just been taken is known from then on. -/
theorem Poised.learn (h : Poised t known front next taken w) :
    Recalls t (front :: known) taken w where
  table := h.table
  known part hpart := by
    rcases List.mem_cons.1 hpart with rfl | hpart
    · exact h.front.isInfix
    · exact h.known part hpart
  front := List.nil_suffix
  next := List.nil_prefix

omit [Source σ Char] in
theorem Poised.forget {known' : List (List Token)} (h : Recalls t known' taken w) (hknown : known ⊆ known') :
    Recalls t known taken w :=
  ⟨h.table, fun part hpart => h.known part (hknown hpart), h.front, h.next⟩

theorem Live.table_eq (h : Live v past (Poised t known front next) s) : s.table = t := by
  obtain ⟨h, w, -, hw, -, hpoised⟩ := h
  exact (Session.Sees.table_eq hw).trans hpoised.table

/-- Taking tokens keeps what is known. -/
theorem Poised.passes (h : Poised t known front next taken w) (hpasses : w.Passes tokens w')
    {next' : List Token} (hnext : next' <+: w'.ahead) :
    Poised t known (front ++ tokens) next' (taken ++ tokens) w' where
  table := hpasses.table_eq.trans h.table
  known part hpart := (h.known part hpart).trans (List.prefix_append _ _).isInfix
  front := by
    obtain ⟨before, rfl⟩ := h.front
    exact ⟨before, by rw [List.append_assoc]⟩
  next := hnext

omit [Source σ Char] in
theorem Poised.mem (h : Poised t known front next taken w) (htoken : [token] ∈ known) : token ∈ taken :=
  (h.known _ htoken).subset (List.mem_singleton_self token)

/-- So does looking ahead. -/
theorem Poised.looks (h : Poised t known front next taken w) (hpasses : w.Passes [] w') {next' : List Token}
    (hnext : next' <+: w'.ahead) : Poised t known front next' taken w' := by
  simpa using h.passes hpasses hnext

/-- Looking at the token at the cursor. -/
theorem peek_carries : Carries v past (Poised t known front next) (fun token => Poised t known front [token])
    peek := by
  refine carries_of_reads peek_reads (Mute.onTokens _) ?_
  rintro taken w token _ w' h hpasses ⟨rfl, ⟨rest, hrest⟩, -⟩
  rw [List.append_nil]
  exact h.looks hpasses ⟨rest, hrest.symm⟩

/-- What is in view stays in view. -/
theorem peek_keeps : Carries v past (Poised t known front next) (fun _ => Poised t known front next) peek := by
  refine carries_of_reads peek_reads (Mute.onTokens _) ?_
  rintro taken w _ _ w' h hpasses ⟨rfl, -⟩
  obtain ⟨scanned, hscanned⟩ := hpasses.ahead
  rw [List.append_nil]
  exact h.looks hpasses (h.next.trans ⟨scanned, hscanned⟩)

/-- Looking at the second token in view. -/
theorem kindAt_one_carries : Carries v past (Poised t known front [token])
    (fun kind taken w => ∃ second, second.kind = kind ∧ Poised t known front [token, second] taken w)
    (kindAt 1) := by
  refine carries_of_reads (kindAt_reads · 1) (Mute.kindAt 1) ?_
  rintro taken w kind _ w' h hpasses ⟨rfl, ⟨second, hsecond, hkind⟩, -⟩
  obtain ⟨rest, hrest⟩ := h.next
  obtain ⟨rest', hrest'⟩ := List.head?_eq_some_iff.1 (hpasses.head_eq hrest.symm)
  rw [List.append_nil]
  refine ⟨second, hkind, h.looks hpasses ?_⟩
  rw [hrest'] at hsecond ⊢
  cases rest' with
  | nil => cases hsecond
  | cons third rest' =>
    obtain rfl : third = second := by simpa using hsecond
    exact ⟨rest', rfl⟩

/-- Consuming a token of which nothing is known. -/
theorem consume_carries : Carries v past (Poised t known front next)
    (fun token => Poised t known (front ++ [token]) []) consume := by
  refine carries_of_reads consume_reads (Mute.onTokens _) ?_
  rintro taken w token _ w' h hpasses ⟨rfl, -, -⟩
  exact h.passes hpasses List.nil_prefix

/-- Consuming the token that is in view. -/
theorem consume_next_carries : Carries v past (Poised t known front (token :: next))
    (fun token' taken w => token' = token ∧ Poised t known (front ++ [token]) next taken w) consume := by
  refine carries_of_reads consume_reads (Mute.onTokens _) ?_
  rintro taken w token' _ w' h hpasses ⟨rfl, hahead, hhead⟩
  obtain ⟨rest, hrest⟩ := h.next
  -- What is in view has been scanned, so that no other token can come out.
  obtain rfl := hhead token (by rw [← hrest]; rfl)
  refine ⟨rfl, h.passes hpasses ?_⟩
  rw [hahead, ← hrest]
  exact List.prefix_append _ _

/-- An operator is found by the token at the cursor, and what comes then may refer to that token. -/
theorem operatorAt_bind {f : Fixity} {k : Option Operator → Run (Session σ) β}
    {J' : β → List Token → Sight σ → Prop} (hnone : Carries v past (Poised t known front []) J' (k none))
    (hsome : ∀ op token, token.kind.isIdentifier = true → t.get? token.text f = some op →
      Carries v past (Poised t known front [token]) J' (k (some op))) :
    Carries v past (Poised t known front next) J' (operatorAt f >>= k) := by
  have hfound : Carries v past (Poised t known front next)
      (fun found taken w => ∃ token, (∀ op, found = some op → token.kind.isIdentifier = true ∧
        t.get? token.text f = some op) ∧ Poised t known front [token] taken w) (operatorAt f) := by
    refine carries_of_reads (operatorAt_reads · f) ?_ ?_
    · exact (Mute.onTokens _).bind fun token => .ite (fun s => rfl) (.pure _)
    · rintro taken w found _ w' h hpasses ⟨rfl, -, token, rest, hrest, hfound⟩
      rw [h.table] at hfound
      rw [List.append_nil]
      exact ⟨token, hfound, h.looks hpasses ⟨rest, hrest.symm⟩⟩
  refine hfound.bind fun found => carries_of_exists fun token => carries_of_and fun htoken => ?_
  cases found with
  | none => exact hnone.mono (fun _ _ h => ⟨h.table, h.known, h.front, List.nil_prefix⟩) fun _ _ _ h => h
  | some op => exact hsome op token (htoken op rfl).1 (htoken op rfl).2

/-- What holds however many tokens are taken. -/
def Stable (J : List Token → Sight σ → Prop) : Prop :=
  ∀ taken w tokens w', J taken w → w.Passes tokens w' → J (taken ++ tokens) w'

theorem stable_recalls : Stable (σ := σ) (Recalls t known) :=
  fun _ _ _ _ h hpasses => (h.passes hpasses List.nil_prefix).recalls

theorem stable_true : Stable fun (_ : List Token) (_ : Sight σ) => True := fun _ _ _ _ _ _ => trivial

theorem Stable.carries (hJ : Stable J) {Q : Sight σ → β → List Token → Sight σ → Prop} {x : Run (Session σ) β}
    (hreads : ∀ {s w}, s.Sees w → Reads w (Q w) (x s)) (hmute : Mute x) : Carries v past J (fun _ => J) x :=
  carries_of_reads hreads hmute fun _ _ _ _ _ hj hpasses _ => hJ _ _ _ _ hj hpasses

theorem mismatch_carries (expected : String) :
    Carries v past J (fun _ _ _ => False) (mismatch expected : Run (Session σ) β) :=
  carries_of_reads (Q := fun _ _ _ _ => False) (mismatch_reads · expected)
    ((Mute.onTokens _).bind fun _ => .fail _) fun _ _ _ _ _ _ _ h => h

theorem unexpectedOperand_carries :
    Carries v past J (fun _ _ _ => False) (unexpectedOperand : Run (Session σ) β) :=
  carries_of_reads (Q := fun _ _ _ _ => False) (fun hw => unexpectedOperand_reads hw)
    ((Mute.onTokens _).bind fun _ => .fail _) fun _ _ _ _ _ _ _ h => h

theorem violate_carries {J' : β → List Token → Sight σ → Prop} (e : Violation) :
    Carries v past J J' (Run.violate e) := fun _ hs => hs.stopped

/-- A session has the bounds that it has alongside itself. -/
theorem stalled_live {s u : Session σ} (h : Run.Both (Live v past J) s u) : u.remaining = s.remaining ∧
    (Run.Tolerance.alone fun _ => Stopped v past).alike .stalled .stalled s u :=
  ⟨by rw [h.1], rfl, h.1, h.2.stopped⟩

/-- **The steps on the tokens** keep what is stable. -/
theorem Stable.compared (hJ : Stable J) : ComparedTokens (σ := σ)
    (Run.Tolerance.alone fun _ => Stopped v past).comparison (Run.Both (Live v past J))
    (Run.Both (Live v past J)) where
  loosen := id
  peek := .of_leads (hJ.carries peek_reads (Mute.onTokens _))
  second := .of_leads (hJ.carries (kindAt_reads · 1) (Mute.kindAt 1))
  consume := .of_leads (hJ.carries consume_reads (Mute.onTokens _))
  mismatch _ expected := (Run.Matches.of_leads (mismatch_carries expected)).mono (fun _ _ h => h)
    fun _ _ _ ⟨_, _, _, _, _, _, h⟩ => h.elim
  unexpectedOperand _ := (Run.Matches.of_leads unexpectedOperand_carries).mono (fun _ _ h => h)
    fun _ _ _ ⟨_, _, _, _, _, _, h⟩ => h.elim
  violate _ e s t h := .failure ⟨rfl, h.1, h.2.stopped⟩
  table s t h := by rw [h.1]
  iterate a hstep := Run.Matches.iterate (.inr fun _ _ => stalled_live) a hstep
  descend := Kept.descend (fun _ _ h => (stalled_live h).1) fun _ _ h => (stalled_live h).2

end Poised

/-! ### What stays known -/

section Expressions

variable {t : Operator.Table} {known : List (List Token)} {front next : List Token} {token : Token}
  {read : ExprReader σ}

/-- Whatever is known stays known while the computation reads on. -/
abbrev Retains (v : Sight σ) (past : List Call) (t : Operator.Table) (x : Run (Session σ) β) : Prop :=
  ∀ known, Carries v past (Recalls t known) (fun _ => Recalls t known) x

/-- What has just been taken may be referred to from then on. -/
theorem carries_of_keeping {x : Run (Session σ) β}
    (hx : Carries v past (Recalls t (front :: known)) (fun _ => Recalls t (front :: known)) x) :
    Carries v past (Poised t known front next) (fun _ => Recalls t known) x :=
  hx.mono (fun _ _ h => h.learn) fun _ _ _ h => h.forget (List.subset_cons_self ..)

theorem tell_retains (call : Call) (hdefines : call.defines = false) (happlies : call.applies = false) :
    Carries v past (Poised t known front next) (fun _ => Recalls t known) (tell call) :=
  Carries.mono (tell_carries_of_not hdefines happlies) (fun _ _ h => h.recalls) fun _ _ _ h => h

theorem accept_retains (kind : Token.Kind) : Retains v past t (accept kind) := fun _ =>
  Run.Matches.leads (accept_keptBy stable_recalls.compared kind)

theorem expect_retains (kind : Token.Kind) : Retains v past t (expect kind) := fun _ =>
  Run.Matches.leads (expect_keptBy stable_recalls.compared kind)

/-! ### Operands -/

theorem itemsBy_retains (hread : ∀ bound, Retains v past t (read bound)) (container : Container) :
    Retains v past t (itemsBy read container) := by
  intro known
  refine (accept_retains _ known).bind fun closed => .ite (.pure []) ?_
  refine Run.Leads.iterate_of _ _ (fun items => ?_) fun _ h => h.stopped
  refine (hread none known).bind fun e => (accept_retains _ known).bind fun more => .ite (.pure _) ?_
  exact (expect_retains _ known).bind fun _ => .pure _

/-- A group, whose bracket is known from then on together with what has been taken in front of it. -/
theorem groupBy_carries (hread : ∀ bound, Retains v past t (read bound)) {opening : Token} :
    Carries v past (Poised t known front [opening])
      (fun _ => Recalls t ((front ++ [opening]) :: known)) (groupBy read) := by
  refine consume_next_carries.bind fun token => carries_of_and fun htoken => ?_
  refine Carries.mono ?_ (fun _ _ h => h.learn) fun _ _ _ h => h
  split
  · exact (itemsBy_retains hread _ _).bind fun items => .pure _
  · exact violate_carries _

/-- A call. The table is asked when the operands have been read. -/
theorem callBy_carries (hread : ∀ bound, Retains v past t (read bound)) {name opening : Token}
    (hname : name.kind.isIdentifier = true) (hopening : opening.kind = .opening .list) :
    Carries v past (Poised t known [] [name, opening]) (fun _ => Recalls t known) (callBy read) := by
  refine consume_next_carries.bind fun name' => carries_of_and ?_
  rintro rfl
  refine (groupBy_carries hread).bind fun (container, arguments) => .get fun s hs => ?_
  -- No operand has registered anything, so that these are still the operators from the start.
  have htable : s.table = t := hs.table_eq
  refine Carries.mono (apply_carries _ _ fun taken w hrecalls => ?_) (fun _ _ h => h)
    fun _ _ _ h => h.forget (List.subset_cons_self ..)
  rw [hrecalls.table, htable]
  exact .called (hrecalls.known _ (List.mem_cons_self ..)) hname hopening
    (Operator.Table.resolves_getD t name'.text arguments.length)

/-- An operator in front of an operand that has been found and is in view. -/
theorem prefixedBy_carries (hread : ∀ bound, Retains v past t (read bound)) {op : Operator}
    (hkind : token.kind.isIdentifier = true) (hop : t.get? token.text .prefixOp = some op) :
    Carries v past (Poised t known [] [token]) (fun _ => Recalls t known) (prefixedBy read op) := by
  refine consume_next_carries.bind fun _ => carries_of_and fun _ => carries_of_keeping ?_
  refine (hread _ _).bind fun operand => apply_carries _ _ fun taken w hrecalls => ?_
  rw [hrecalls.table]
  exact .prefixed (hrecalls.mem (List.mem_cons_self ..)) hkind hop

/-- A name as an operand. -/
theorem namedBy_carries (hread : ∀ bound, Retains v past t (read bound)) (hkind : token.kind.isIdentifier = true)
    (kind : Token.Kind) :
    Carries v past (Poised t known [] [token]) (fun _ => Recalls t known) (namedBy read kind) := by
  refine peek_keeps.bind fun token' => .get fun s _ => ?_
  refine kindAt_one_carries.bind fun _ => carries_of_exists fun second => carries_of_and ?_
  rintro rfl
  split
  · next hcall => exact callBy_carries hread hkind hcall.1
  refine operatorAt_bind ?_ fun op token hkind hop => prefixedBy_carries hread hkind hop
  refine .ite (unexpectedOperand_carries.mono (fun _ _ h => h) fun _ _ _ h => h.elim) ?_
  exact consume_carries.bind fun name => tell_retains (.useSignal name.text) rfl rfl

/-- **An operand.** -/
theorem operandBy_retains (hread : ∀ bound, Retains v past t (read bound)) : Retains v past t (operandBy read) := by
  intro known
  unfold operandBy
  rw [peekKind_eq, bind_assoc]
  refine peek_carries.bind fun token => ?_
  rw [pure_bind]
  split
  · next constant _ =>
    exact Run.Leads.bind consume_carries fun token => tell_retains (.constant constant token.text) rfl rfl
  refine .ite ?_ ?_
  · refine (groupBy_carries hread).bind fun group => ?_
    refine Carries.mono (J := Recalls t known) ?_ (fun _ _ h => h.forget (List.subset_cons_self ..))
      fun _ _ _ h => h
    split
    · exact .pure _
    · next container items _ => exact tell_retains (.encapsulate container items) rfl rfl
  split
  · next hkind => exact namedBy_carries hread hkind token.kind
  · exact unexpectedOperand_carries.mono (fun _ _ h => h) fun _ _ _ h => h.elim

/-! ### Expressions -/

theorem popOperand_carries (operands : List Expr) :
    Carries v past J (fun _ => J) (popOperand operands : Run (Session σ) (Expr × List Expr)) := by
  cases operands with
  | nil => exact violate_carries _
  | cons e rest => exact .pure _

/-- The operators on the stack have been found between operands, by tokens that are known. -/
def Stacks.Found (t : Operator.Table) (known : List (List Token)) (held : Stacks) : Prop :=
  ∀ op ∈ held.operators, ∃ token, [token] ∈ known ∧ token.kind.isIdentifier = true ∧
    t.get? token.text .infixOp = some op

/-- The operator that was found is applied; no other has been registered since. -/
theorem reduce_carries {held : Stacks} (hheld : held.Found t known) :
    Carries v past (Poised t known front next)
      (fun held' taken w => held'.Found t known ∧ Poised t known front next taken w) (reduce held) := by
  unfold reduce
  split
  · exact violate_carries _
  · next op operators hoperators =>
    refine (popOperand_carries _).bind fun (right, rest) => (popOperand_carries _).bind fun (left, rest) => ?_
    obtain ⟨token, htoken, hkind, hop⟩ := hheld op (by rw [hoperators]; exact List.mem_cons_self ..)
    refine (apply_carries op [left, right] fun taken w hpoised => ?_).bind fun node => ?_
    · rw [hpoised.table]
      exact .infixed (hpoised.mem htoken) hkind hop
    · have hrest : Stacks.Found t known { operands := node :: rest, operators } := fun op' hop' =>
        hheld op' (by rw [hoperators]; exact List.mem_cons_of_mem _ hop')
      exact carries_pure fun _ _ h => ⟨hrest, h⟩

theorem reduceWhile_carries (first : Operator → Bool) (n : Nat) {held : Stacks} (hheld : held.Found t known) :
    Carries v past (Poised t known front next)
      (fun held' taken w => held'.Found t known ∧ Poised t known front next taken w)
      (reduceWhile first n held) := by
  induction n generalizing held with
  | zero => exact carries_pure fun _ _ h => ⟨hheld, h⟩
  | succ n ih =>
    exact .ite ((reduce_carries hheld).bind fun held' => carries_of_and ih)
      (carries_pure fun _ _ h => ⟨hheld, h⟩)

/-- The operators behind an operand, each applied as soon as it is taken. -/
theorem postfixesBy_retains (bound : Option Nat) (operand : Expr) :
    Retains v past t (postfixesBy bound operand : Run (Session σ) (Expr × Bool)) := by
  refine fun known => Run.Leads.iterate_of _ _ (fun (operand, applied) => ?_) fun _ h => h.stopped
  refine operatorAt_bind (carries_pure fun _ _ h => h) fun op token hkind hop =>
    .ite ?_ (carries_pure fun _ _ h => h.recalls)
  refine consume_next_carries.bind fun _ => carries_of_and fun _ => ?_
  refine (apply_carries op [operand] fun taken w hpoised => ?_).bind fun node =>
    carries_pure fun _ _ h => h.recalls
  rw [hpoised.table]
  exact .postfixed hpoised.front hkind hop

/-- Further tokens may be known, by which the operators on the stack have been found. -/
def Holding (t : Operator.Table) (known : List (List Token)) (held : Stacks) (taken : List Token) (w : Sight σ) :
    Prop :=
  ∃ more, held.Found t (more ++ known) ∧ Recalls t (more ++ known) taken w

/-- The operators between operands. Each is kept on the stack, and the token that it was found by is
remembered with it. -/
theorem infixesBy_carries (hread : ∀ bound, Retains v past t (read bound)) (bound : Option Nat) (held : Stacks) :
    Carries v past (Holding t known held) (Holding t known) (infixesBy read bound held) := by
  refine carries_iterate _ _ fun held => carries_of_exists fun more => carries_of_and fun hheld => ?_
  refine operatorAt_bind (carries_pure fun _ _ h => ⟨more, hheld, h⟩) fun op token hkind hop =>
    .ite ?_ (carries_pure fun _ _ h => ⟨more, hheld, h.recalls⟩)
  -- The operators on the stack are applied while the token of the next one is still in view.
  refine (reduceWhile_carries _ _ hheld).bind fun held' => carries_of_and fun hheld' => ?_
  refine consume_next_carries.bind fun _ => carries_of_and fun _ => ?_
  refine Run.Leads.bind (Carries.mono (operandBy_retains hread _) (fun _ _ h => h.learn) fun _ _ _ h => h)
    fun operand => carries_pure fun _ _ h => ⟨[token] :: more, ?_, h⟩
  intro op' hop'
  rcases List.mem_cons.1 hop' with rfl | hop'
  · exact ⟨token, List.mem_cons_self .., hkind, hop⟩
  · obtain ⟨token', htoken', hfound'⟩ := hheld' op' hop'
    exact ⟨token', List.mem_cons_of_mem _ htoken', hfound'⟩

theorem climbBy_retains (hread : ∀ bound, Retains v past t (read bound)) (bound : Option Nat) :
    Retains v past t (climbBy read bound) := by
  refine fun known => (operandBy_retains hread known).bind fun first => Run.Leads.iterate_of _ _ (fun first => ?_)
    fun _ h => h.stopped
  refine Run.Leads.bind (Carries.mono (infixesBy_carries hread bound { operands := [first], operators := [] })
    (fun _ _ h => ⟨[], nofun, h⟩) fun _ _ _ h => h) fun reading => ?_
  refine carries_of_exists fun more => carries_of_and fun hreading => ?_
  -- Once the stack is empty the tokens of its operators need not be known any more.
  refine Carries.mono (P := fun _ => Recalls t (more ++ known)) ?_ (fun _ _ h => h)
    fun _ _ _ h => h.forget (List.subset_append_right ..)
  refine (reduceWhile_carries _ _ hreading).bind fun reduced => carries_of_and fun _ => ?_
  refine (popOperand_carries _).bind fun (whole, _) => ?_
  refine (postfixesBy_retains bound whole _).bind fun (whole, applied) => ?_
  exact operatorAt_bind (.ite (carries_pure fun _ _ h => h) (carries_pure fun _ _ h => h)) fun op token _ _ =>
    .ite (carries_pure fun _ _ h => h.recalls) (carries_pure fun _ _ h => h.recalls)

theorem climb_retains (depth : Nat) (bound : Option Nat) :
    Retains v past t (climb depth bound : Run (Session σ) Expr) := by
  induction depth generalizing bound with
  | zero => exact fun known s hs => hs.stopped
  | succ depth ih => exact climbBy_retains ih bound

/-- **An expression.** -/
theorem expression_retains : Retains v past t (expression : Run (Session σ) Expr) :=
  fun known s hs => climb_retains _ none known s hs

end Expressions

/-! ### Statements -/

/-- Anything may have been taken and defined. -/
abbrev Going (v : Sight σ) (past : List Call) : Session σ → Prop := Live v past fun _ _ => True

/-- **The steps of statements**: only a definition changes the operators, and only an expression applies them. -/
theorem compared_going : ComparedRules (σ := σ) (Run.Tolerance.alone fun _ => Stopped v past).comparison
    (Run.Both (Going v past)) (Run.Both (Going v past)) where
  tokens := stable_true.compared
  tell call hdefines happlies := .of_leads (tell_carries_of_not hdefines happlies)
  expression := .of_leads <| by
    rintro s ⟨h, w, hdid, hw, hregistered, -⟩
    -- The operators at the beginning of an expression are those at its end.
    have hrecalls : Live v past (Recalls w.lexer.table []) s :=
      ⟨h, w, hdid, hw, hregistered, rfl, nofun, List.nil_suffix, List.nil_prefix⟩
    exact (expression_retains [] s hrecalls).mono (fun _ _ h => h.mono fun _ _ _ => trivial) fun _ _ h => h
  targets := .of_leads <| stable_true.carries assignmentTargets_reads <|
    (Mute.onTokens _).bind fun _ => Mute.tryTargets.bind fun found => by
      cases found with
      | some names => exact (Mute.onTokens _).bind fun _ => .pure _
      | none => exact (Mute.onTokens _).bind fun _ => .pure _
  define e := .of_leads (define_carries e)

theorem parseStatement_carries : Run.Leads (fun _ => Stopped v past) (Going v past) (fun _ => Going v past)
    (parseStatement : Run (Session σ) (Option Statement)) :=
  Run.Matches.leads (parseStatement_keptBy compared_going)

theorem parseAll_carries : Run.Leads (fun _ => Stopped v past) (Going v past) (fun _ => Going v past)
    (parseAll : Run (Session σ) (List Statement)) :=
  Run.Matches.leads (parseAll_keptBy compared_going)

/-! ### All requests -/

/-- The operators that come with a further source have been registered one after the other. -/
def Request.Registers : Request σ → Prop
  | .reset _ table => ∃ ops, table = Operator.Table.insertAll {} ops
  | _ => True

/-- Of the history of a run, as far as it got: the session has a sight before it, the calls that it has told in
the run are those of the history, and what it knows are the operators from the start and the registered ones. -/
theorem exists_history {x : Run (Session σ) β} (hs : s.Sees v)
    (hx : Run.Leads (fun _ => Stopped v s.trace) (Going v s.trace) (fun _ => Going v s.trace) x) :
    ∃ h w, Did v s.trace h w (Run.leaves (x s)) ∧ (Run.leaves (x s)).SeesUnder w.lexer.table := by
  have hstart : Going v s.trace s :=
    ⟨[], v, ⟨.refl v, (List.append_nil _).symm, .nil _⟩, hs, rfl, trivial⟩
  have hends := hx s hstart
  cases hr : x s with
  | ok b t => exact (hends.of_ok hr).stopped
  | error e t => exact hends.of_error hr

/-- **Every operator stands at its own place**, behind any requests. -/
theorem filed_performAll {requests : List (Request σ)} (hrequests : ∀ r ∈ requests, r.Registers)
    (hs : ∃ v, s.Sees v ∧ v.lexer.table.Filed) :
    ∃ v, (performAll requests s).Sees v ∧ v.lexer.table.Filed := by
  induction requests generalizing s with
  | nil => exact hs
  | cons r rest ih =>
    refine ih (fun r' hr' => hrequests r' (List.mem_cons_of_mem _ hr')) ?_
    obtain ⟨v, hv, hfiled⟩ := hs
    have hbehind : ∀ {β : Type} {x : Run (Session σ) β},
        Run.Leads (fun _ => Stopped v s.trace) (Going v s.trace) (fun _ => Going v s.trace) x →
        ∃ w, (Run.leaves (x s)).Sees w ∧ w.lexer.table.Filed := by
      intro β x hx
      obtain ⟨h, w, hdid, u, hu, htable⟩ := exists_history hv hx
      exact ⟨u, hu, by rw [htable, hdid.becomes.table]; exact hfiled.insertAll _⟩
    cases r with
    | statement => exact hbehind parseStatement_carries
    | all => exact hbehind parseAll_carries
    | register op => exact ⟨_, Cursor.Sees.register hv op, hfiled.insert op⟩
    | tell netlist => exact ⟨v, hv, hfiled⟩
    | reset source table =>
      obtain ⟨ops, rfl⟩ := hrequests _ (List.mem_cons_self ..)
      exact ⟨_, Cursor.Sees.reset hv _, Operator.Table.Filed.empty.insertAll ops⟩

/-- **Every application fits.** Take a parser over any source, with any dialect and any operators registered at
the start and later, behind any requests, fulfilled or not. Every operator that it knows stands at its own
place, and so do those that are defined on top of them. When it is asked for a statement or for all of them,
and whether or not it fails at that, each operator that it tells its netlist to apply accepts the number of
operands. It is one that could be applied at that time (`Table.Applies`): the operator before one operand,
behind one or between two that is registered for a token that has been taken; or, where a name has been taken
with the bracket of a list behind it, what that name resolves to for that many operands. -/
theorem applications_fit (source : σ) (dialect : Lexer.Dialect) (ops : List Operator)
    (requests : List (Request σ)) (hrequests : ∀ r ∈ requests, r.Registers) :
    let s := performAll requests (Session.ofSource source dialect (Operator.Table.insertAll {} ops))
    (∀ defined, (s.table.insertAll defined).Filed) ∧
    ∀ t, t = Run.leaves (parseStatement s) ∨ t = Run.leaves (parseAll s) →
      ∃ v h w, s.Sees v ∧ v.Becomes (eventsIn h) w ∧ t.table = w.lexer.table ∧
        t.trace = s.trace ++ callsIn h ∧
        ∀ before op arguments, before ++ [.told (.applyOperator op arguments)] <+: h →
          op.accepts arguments.length = true ∧
          (s.table.insertAll (definedIn (callsIn before))).Applies (takenIn (eventsIn before)) op
            arguments.length := by
  intro s
  obtain ⟨v, hv, hfiled⟩ := filed_performAll
    (s := Session.ofSource source dialect (Operator.Table.insertAll {} ops)) hrequests
    ⟨_, Cursor.sees_ofSource (Lexer.ofSource source dialect (Operator.Table.insertAll {} ops)) dialect.limits,
      Operator.Table.Filed.empty.insertAll ops⟩
  have htable : s.table = v.lexer.table := hv.table_eq
  rw [htable]
  refine ⟨fun defined => hfiled.insertAll defined, fun t ht => ?_⟩
  obtain ⟨h, w, hdid, u, hu, hw⟩ : ∃ h w, Did v s.trace h w t ∧ t.SeesUnder w.lexer.table := by
    rcases ht with rfl | rfl
    · exact exists_history hv parseStatement_carries
    · exact exists_history hv parseAll_carries
  refine ⟨v, h, w, hv, hdid.becomes, (Session.Sees.table_eq hu).trans hw, hdid.trace, ?_⟩
  intro before op arguments hbefore
  have happlies := hdid.fits before op arguments hbefore
  exact ⟨happlies.accepts (hfiled.insertAll _), happlies⟩

/-- A statement that cannot be read, then a text that defines `+` anew, and a function of two operands. -/
def redefining : List (Request (Items Char)) := [
  .statement,
  .reset (Items.ofText "1 + 2; define entity Sum + leftinfix 60 in a, b; 1 + -2!; max(1, 2); max(1)") .standard,
  .register ⟨"max", "Max", .function, 0, some 2⟩]

/-- `+` is applied before and after it is defined anew, an operator behind an operand inside one in front of it,
and a function both with the number of operands that it is registered for and with another one. -/
theorem applications_fit_redefined : (∀ r ∈ redefining, r.Registers) ∧ ∃ (t : Session (Items Char)) (h : List Deed),
    t = Run.leaves (parseAll (performAll redefining
      (Session.ofSource (Items.ofText "a +") {} (Operator.Table.insertAll {} [])))) ∧
    t.trace.filterMap (fun | .applyOperator op arguments => some (op, arguments.length) | _ => none) =
      [(⟨"+", "Add", .infixLeft, 60, none⟩, 2), (⟨"!", "Factorial", .postfixOp, 5, none⟩, 1),
        (⟨"-", "Negate", .prefixOp, 10, none⟩, 1), (⟨"+", "Sum", .infixLeft, 60, none⟩, 2),
        (⟨"max", "Max", .function, 0, some 2⟩, 2), (⟨"max", "max", .function, 0, some 1⟩, 1)] ∧
    t.trace = [.useSignal "a"] ++ callsIn h ∧
    ∀ before op arguments, before ++ [.told (.applyOperator op arguments)] <+: h →
      op.accepts arguments.length = true := by
  have hrequests : ∀ r ∈ redefining, r.Registers := by
    simp only [redefining, List.forall_mem_cons, List.not_mem_nil, false_imp_iff, implies_true]
    exact ⟨trivial, ⟨_, rfl⟩, trivial, trivial⟩
  obtain ⟨v, h, w, -, -, -, htrace, hfits⟩ :=
    (applications_fit (Items.ofText "a +") {} [] redefining hrequests).2 _ (.inr rfl)
  refine ⟨hrequests, _, h, rfl, by decide +kernel, htrace.trans ?_, fun before op arguments hbefore =>
    (hfits before op arguments hbefore).1⟩
  exact congrArg (· ++ callsIn h) (by decide +kernel)

end Parser

end Dataflow
