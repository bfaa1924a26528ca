import Dataflow.Circuit.Call
import Dataflow.Proofs.Effects
import Dataflow.Proofs.Tiling

/-!
# Dataflow.Proofs.Mentions

**What a text does not mention has no part in it.** Of two sessions, one may know some entities more than
the other, and the operators that stand for them. As long as only names come up that are foreign to these
entities, no one can tell the two apart.

* `Circuit.Foreign` — a name that none of the entities goes by;
* `Lexer.Mentions` — a text has a name in it, as it is or as the content of a literal. Every name that is
  scanned is mentioned (`Place.mentions_of_next`);
* `Place.next_congr` — tables in which the same of the names in a text are registered lead to the same
  tokens. The search for a symbol goes on as long as some registered symbol begins like that, and so even
  a symbol that is not in the text can make it longer; but what it finds is in the text;
* `Operator.Table.AgreesOn` — two tables agree on some names;
* `Netlist.perform_enriched` — a netlist with more entities does the same.
-/

namespace Dataflow

open Reading Lexer Text Circuit

/-! ### Names -/

/-- None of the entities goes by the name. -/
def Circuit.Foreign (extra : List Entity) (name : String) : Prop :=
  ∀ e ∈ extra, name ≠ e.label ∧ name ≠ e.symbol

theorem Circuit.foreign_nil (name : String) : Foreign [] name := nofun

namespace Lexer

/-- The name stands in the text, as it is or as the content of a literal. -/
def Mentions (quote : Char) (text : List Char) (name : String) : Prop :=
  name.toList <:+: text ∨ name.toList.flatMap (doubled quote) <:+: text

instance (quote : Char) (text : List Char) (name : String) : Decidable (Mentions quote text name) :=
  inferInstanceAs (Decidable (_ ∨ _))

theorem Mentions.mono {quote : Char} {text more : List Char} {name : String}
    (h : Mentions quote text name) (hsub : text <:+: more) : Mentions quote more name :=
  h.imp (·.trans hsub) (·.trans hsub)

variable {d : Dialect} {t t' : Operator.Table} {text : List Char} {p q : Place} {token : Token}

/-- A token that is no single character is mentioned by the text that it is scanned from. -/
theorem Place.mentions_of_next (h : p.next d t = .ok (token, q)) (hsolid : token.kind.isSolid = true) :
    Mentions d.quote p.text token.text := by
  obtain ⟨x, hx, rfl, rfl⟩ := Place.next_ok h
  have hne : (p.skip (blankLength d p.text)).text ≠ [] := by
    intro hnil
    rw [hnil] at hx
    exact Bool.false_ne_true ((isSolid_of_nil hx).symm.trans hsolid)
  have hsub : (p.skip (blankLength d p.text)).text <:+: p.text := (List.drop_suffix _ _).isInfix
  refine Mentions.mono ?_ hsub
  show Mentions d.quote _ (String.ofList x.content)
  unfold Mentions
  rw [String.toList_ofList]
  rcases content_of_lexeme hx hne with ⟨-, -, hcontent⟩ | ⟨-, -, hcontent⟩
  · left
    rw [hcontent]
    exact (List.take_prefix _ _).isInfix
  · right
    refine List.IsInfix.trans ?_ (List.take_prefix x.length _).isInfix
    rw [← hcontent]
    exact ⟨[d.quote], [d.quote], rfl⟩

/-! ### Symbols -/

theorem extendsToSymbol_of_contains {run more : List Char}
    (h : t.contains (String.ofList (run ++ more)) = true) :
    t.extendsToSymbol (String.ofList run) = true := by
  unfold Operator.Table.extendsToSymbol
  refine List.any_eq_true.2 ⟨_, List.contains_iff_mem.1 h, ?_⟩
  rw [String.toList_ofList, String.toList_ofList, List.isPrefixOf_iff_prefix]
  exact List.prefix_append run more

/-- Where nothing longer is registered, nothing longer is found, however long the search goes on. -/
theorem symbolLengthFrom_of_not_contains {run : List Char} (best : Nat)
    (h : ∀ m, 0 < m → t.contains (String.ofList (run ++ text.take m)) = false) :
    symbolLengthFrom t run best text = best := by
  induction text generalizing run with
  | nil => rfl
  | cons c rest ih =>
    have hfirst : t.contains (String.ofList (run ++ [c])) = false := h 1 Nat.one_pos
    have hrest (m : Nat) (_ : 0 < m) : t.contains (String.ofList (run ++ [c] ++ rest.take m)) = false := by
      have := h (m + 1) (Nat.succ_pos m)
      rwa [List.take_succ_cons, List.append_cons] at this
    rw [symbolLengthFrom, hfirst, if_neg Bool.false_ne_true, ih hrest]
    exact ite_self best

/-- Only the beginnings of the text count, and not what else is registered. -/
theorem symbolLengthFrom_congr {run : List Char} (best : Nat)
    (h : ∀ m, 0 < m → t.contains (String.ofList (run ++ text.take m)) =
      t'.contains (String.ofList (run ++ text.take m))) :
    symbolLengthFrom t run best text = symbolLengthFrom t' run best text := by
  induction text generalizing run best with
  | nil => rfl
  | cons c rest ih =>
    have hfirst : t.contains (String.ofList (run ++ [c])) = t'.contains (String.ofList (run ++ [c])) :=
      h 1 Nat.one_pos
    have hrest (m : Nat) (_ : 0 < m) : t.contains (String.ofList (run ++ [c] ++ rest.take m)) =
        t'.contains (String.ofList (run ++ [c] ++ rest.take m)) := by
      have := h (m + 1) (Nat.succ_pos m)
      rwa [List.take_succ_cons, List.append_cons] at this
    have hnone {u : Operator.Table} (hends : u.extendsToSymbol (String.ofList (run ++ [c])) = false)
        (m : Nat) : u.contains (String.ofList (run ++ [c] ++ rest.take m)) = false := by
      refine Bool.eq_false_iff.2 fun hcontains => ?_
      exact Bool.false_ne_true (hends.symm.trans (extendsToSymbol_of_contains hcontains))
    rw [symbolLengthFrom, symbolLengthFrom, hfirst, ih _ hrest]
    -- Where one search ends and the other goes on, that finds nothing more either.
    cases hends : t.extendsToSymbol (String.ofList (run ++ [c])) with
    | true =>
      cases hends' : t'.extendsToSymbol (String.ofList (run ++ [c])) with
      | true => rfl
      | false =>
        have hlast : t'.contains (String.ofList (run ++ [c])) = false := by simpa using hnone hends' 0
        rw [symbolLengthFrom_of_not_contains _ fun m _ => hnone hends' m, hlast]
        simp
    | false =>
      have hlast : t'.contains (String.ofList (run ++ [c])) = false := by
        rw [← hfirst]
        simpa using hnone hends 0
      rw [symbolLengthFrom_of_not_contains _ fun m hm => (hrest m hm).symm.trans (hnone hends m), hlast]
      simp

/-- **The same token** is at the front where the same of its beginnings are registered. -/
theorem lexeme_congr (d : Dialect)
    (h : ∀ name : String, name.toList <+: text → t.contains name = t'.contains name) :
    lexeme d t text = lexeme d t' text := by
  have hsymbol : symbolLexeme t text = symbolLexeme t' text := by
    cases text with
    | nil => rfl
    | cons c rest =>
      have hlength : symbolLengthFrom t [c] 1 rest = symbolLengthFrom t' [c] 1 rest := by
        refine symbolLengthFrom_congr 1 fun m _ => h _ ?_
        rw [String.toList_ofList]
        exact List.prefix_cons_inj c |>.2 (List.take_prefix m rest)
      exact congrArg (Lexeme.plain .symbol (c :: rest)) hlength
  unfold lexeme punctuationLexeme
  simp only [hsymbol]

theorem Place.next_congr (d : Dialect)
    (h : ∀ name : String, name.toList <:+: p.text → t.contains name = t'.contains name) :
    p.next d t = p.next d t' := by
  have hsame : lexeme d t (p.skip (blankLength d p.text)).text =
      lexeme d t' (p.skip (blankLength d p.text)).text :=
    lexeme_congr d fun name hname => h name (hname.isInfix.trans (List.drop_suffix _ _).isInfix)
  unfold Place.next
  dsimp only
  rw [hsame]

end Lexer

/-! ### Tables -/

namespace Operator.Table

/-- The tables agree on the names that `known` holds of, and all operators of the second one stand for
entities with such names. -/
structure AgreesOn (t : Table) (known : String → Prop) (t' : Table) : Prop where
  get? : ∀ name f, known name → t.get? name f = t'.get? name f
  contains : ∀ name, known name → t.contains name = t'.contains name
  entity : ∀ name f op, t'.get? name f = some op → known op.entity

theorem contains_insert (t : Table) (op : Operator) (name : String) :
    (t.insert op).contains name = (decide (name = op.symbol) || t.contains name) := by
  obtain ⟨entries⟩ := t
  unfold insert contains symbols
  induction entries with
  | nil => simp [putIn]
  | cons e entries ih =>
    by_cases hkey : e.1 = op.symbol
    · simp only [putIn, List.map_cons, List.contains_cons, hkey]
      by_cases hname : name = op.symbol <;> simp [hname]
    · simp only [putIn, if_neg hkey, List.map_cons, List.contains_cons] at ih ⊢
      rw [ih, Bool.or_left_comm]

variable {known : String → Prop} {t t' : Table} {op : Operator}

namespace AgreesOn

theorem refl (h : ∀ name f op, t.get? name f = some op → known op.entity) : t.AgreesOn known t :=
  ⟨fun _ _ _ => rfl, fun _ _ => rfl, h⟩

/-- Both tables learn an operator. -/
theorem insert (h : t.AgreesOn known t') (hop : known op.entity) :
    (t.insert op).AgreesOn known (t'.insert op) where
  get? name f hname := by rw [get?_insert, get?_insert, h.get? name f hname]
  contains name hname := by rw [contains_insert, contains_insert, h.contains name hname]
  entity name f found hfound := by
    rw [get?_insert] at hfound
    split at hfound
    · cases hfound
      exact hop
    · exact h.entity name f found hfound

/-- Only the first table learns an operator, with a symbol that does not count. -/
theorem insert_left (h : t.AgreesOn known t') (hop : ¬ known op.symbol) : (t.insert op).AgreesOn known t' where
  get? name f hname := by
    have hother : ¬ (name = op.symbol ∧ f = op.fixity) := fun hsame => hop (hsame.1 ▸ hname)
    rw [get?_insert, if_neg hother, h.get? name f hname]
  contains name hname := by
    have hother : name ≠ op.symbol := fun hsame => hop (hsame ▸ hname)
    rw [contains_insert, decide_eq_false hother, Bool.false_or, h.contains name hname]
  entity := h.entity

/-- What a name stands for that is called. -/
theorem resolve? (h : t.AgreesOn known t') {name : String} (hname : known name) (arity : Nat) :
    t.resolve? name arity = t'.resolve? name arity ∧
      known ((t'.resolve? name arity).getD (.adHoc name arity)).entity := by
  have hsame : t.resolve? name arity = t'.resolve? name arity := by
    unfold Table.resolve?
    simp only [h.get? name _ hname]
  refine ⟨hsame, ?_⟩
  cases hfound : t'.resolve? name arity with
  | none => exact hname
  | some op =>
    unfold Table.resolve? at hfound
    rcases Option.or_eq_some_iff.1 hfound with hfunction | ⟨-, hother⟩
    · exact h.entity name _ op (Option.filter_eq_some_iff.1 hfunction).1
    · split at hother
      · exact h.entity name _ op hother
      · exact h.entity name _ op hother
      · cases hother

end AgreesOn

end Operator.Table

/-! ### Netlists -/

namespace Circuit

/-- What a call refers to by a name. -/
def Call.reference? : Call → Option String
  | .applyOperator op _ => some op.entity
  | .defineEntity e => some e.label
  | .beginArchitecture _ entity => some entity
  | .instantiate entity .. => some entity
  | _ => none

namespace Netlist

variable {extra : List Entity} {name : String}

/-- The netlist with further entities, which had been defined before. -/
def enriched (extra : List Entity) (n : Netlist) : Netlist := { n with entities := extra ++ n.entities }

@[simp] theorem enriched_nil (n : Netlist) : n.enriched [] = n := rfl

section Enriched

variable (n : Netlist)

theorem current_enriched : (n.enriched extra).current = n.current := rfl

theorem countStatement_enriched :
    (n.enriched extra).countStatement = n.countStatement.enriched extra := by
  obtain ⟨_, _, _, _, current, _, _⟩ := n
  cases current <;> rfl

theorem recordAssignment_enriched (targets : List Expr) (value : Expr) :
    (n.enriched extra).recordAssignment targets value = (n.recordAssignment targets value).enriched extra := by
  unfold recordAssignment
  rw [countStatement_enriched]
  rfl

theorem recordInstance_enriched (label : String) (inputs outputs : List Binding) (buses : List Expr) :
    (n.enriched extra).recordInstance label inputs outputs buses =
      (n.recordInstance label inputs outputs buses).enriched extra := by
  unfold recordInstance
  rw [countStatement_enriched]
  rfl

end Enriched

/-- A foreign name is that of the same entity. -/
theorem entity?_enriched (h : Foreign extra name) (n : Netlist) :
    (n.enriched extra).entity? name = n.entity? name := by
  have hlabel : extra.find? (fun e => e.label = name) = none :=
    List.find?_eq_none.2 fun e he => by simpa using (h e he).1.symm
  have hsymbol : extra.find? (fun e => e.symbol = name) = none :=
    List.find?_eq_none.2 fun e he => by simpa using (h e he).2.symm
  unfold entity? enriched
  rw [List.find?_append, List.find?_append, hlabel, hsymbol, Option.none_or, Option.none_or]

/-- Further entities do not take a foreign label. -/
theorem any_label_enriched {e : Entity} (h : Foreign extra e.label) (n : Netlist) :
    (n.enriched extra).entities.any (fun d => d.label = e.label) =
      n.entities.any (fun d => d.label = e.label) := by
  have hfree : ¬ extra.any (fun d => d.label = e.label) = true := by
    rw [List.any_eq_true]
    rintro ⟨d, hd, hlabel⟩
    exact (h d hd).1 (of_decide_eq_true hlabel).symm
  show (extra ++ n.entities).any _ = _
  rw [List.any_append, Bool.eq_false_iff.2 hfree, Bool.false_or]

/-- What came of a change, with the further entities in the netlist behind it. -/
def enrichedResult {α : Type} (extra : List Entity) :
    EStateM.Result BuildError Netlist α → EStateM.Result BuildError Netlist α
  | .ok reply m => .ok reply (m.enriched extra)
  | .error cause m => .error cause (m.enriched extra)

/-- A change with one check in front: what goes wrong here goes wrong there. -/
theorem checked_enriched {α : Type} {wrong wrong' : Prop} {_ : Decidable wrong} {_ : Decidable wrong'}
    {cause : BuildError} {reply : α} {n m m' : Netlist} (hwrong : wrong' ↔ wrong)
    (hdone : m' = m.enriched extra) :
    (if wrong' then .error cause (n.enriched extra) else .ok reply m') =
      enrichedResult extra (if wrong then .error cause n else .ok reply m) := by
  by_cases h : wrong
  · rw [if_pos h, if_pos (hwrong.2 h)]
    rfl
  · rw [if_neg h, if_neg (mt hwrong.1 h), hdone]
    rfl

/-- **A netlist with further entities does the same** with a call that does not refer to them. -/
theorem perform_enriched {call : Call} (h : ∀ name ∈ call.reference?, Foreign extra name) (n : Netlist) :
    perform call (n.enriched extra) = enrichedResult extra (perform call n) := by
  cases call with
  | constant | encapsulate => rfl
  | applyOperator op arguments =>
    simp only [perform, applyOperator_apply, entity?_enriched (h op.entity rfl)]
    cases n.entity? op.entity with
    | none => rfl
    | some e => exact checked_enriched (by rfl) (by rfl)
  | useSignal name =>
    simp only [perform, useSignal_apply]
    exact checked_enriched (by rfl) (by rfl)
  | useBus name =>
    simp only [perform, useBus_apply]
    exact checked_enriched (by rfl) (by rfl)
  | declareSignal name =>
    simp only [perform, declareSignal_apply]
    exact checked_enriched (by rfl) (by rfl)
  | declareBus name =>
    simp only [perform, declareBus_apply]
    exact checked_enriched (by rfl) (by rfl)
  | assign targets value =>
    simp only [perform, assign_apply]
    cases targets.find? (fun t => !t.isSignal) with
    | some node => rfl
    | none => exact congrArg (EStateM.Result.ok ()) (recordAssignment_enriched n targets value)
  | defineEntity e =>
    simp only [perform, defineEntity_apply]
    exact checked_enriched (iff_of_eq (congrArg (· = true) (any_label_enriched (h e.label rfl) n)))
      (by simp only [enriched, List.append_assoc])
  | beginArchitecture name entity =>
    simp only [perform, beginArchitecture_apply, entity?_enriched (h entity rfl), current_enriched]
    cases n.current with
    | some outer => rfl
    | none =>
      cases n.entity? entity with
      | none => rfl
      | some e => exact checked_enriched (by rfl) (by rfl)
  | endArchitecture =>
    simp only [perform, endArchitecture_apply]
    exact checked_enriched (by rfl) (by rfl)
  | instantiate entity inputs outputs buses =>
    simp only [perform, instantiate_apply, entity?_enriched (h entity rfl)]
    cases n.entity? entity with
    | none => rfl
    | some e =>
      dsimp only
      cases bindPins .input e.label e.inputs inputs with
      | error cause => rfl
      | ok taken =>
        cases bindPins .output e.label e.outputs outputs with
        | error cause => rfl
        | ok bound => exact checked_enriched Iff.rfl (recordInstance_enriched n e.label inputs outputs buses)

end Netlist

end Circuit

end Dataflow
