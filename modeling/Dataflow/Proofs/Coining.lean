import Dataflow.Proofs.Occurrences
import Dataflow.Proofs.Overlong
import Dataflow.Proofs.Whereabouts

/-!
# Dataflow.Proofs.Coining

**A new symbol can be used at once.** A definition may write the symbol of its entity as it is, between blanks. The
lexer does not know it then, and splits it in one way or another; the parser puts the pieces together again. Behind
the definition the symbol is registered, and from then on it is a single token.

* `Coins` — a definition in a text with its symbol between blanks, before anything is known of the pieces;
* `Session.Has.coined` — what a session reads that has the registered symbol before it. The token behind the
  definition has been scanned with the old operators, but it is no symbol, and so no other with the new ones;
* `definition_coins` — the definition is read as what it says, with exactly this symbol, in a program or in a body.

It is not said that a lexer comes to the symbol: where the exponent of a number does not fit into the largest buffer,
it does not go on (`not_definition_coins`).
-/

namespace Dataflow

open Reading Lexer Text Circuit Session

/-! ### Tokens that the operators have no part in -/

namespace Lexer

variable {d : Dialect} {t : Operator.Table} {p q : Place} {token : Token}

end Lexer

/-! ### Definitions as they are written -/

variable {g : Setting} {symbol : List Char} {e : Entity} {p q r : Place} {limits : Limits} {table : Operator.Table}
  {total : Nat}

/-- A definition stands between the places, with the symbol between blanks. It says what the entity says, whose
symbol may be another one. -/
inductive Coins (g : Setting) (symbol : List Char) (e : Entity) (p q : Place) : Prop
  | mk {define word label form : Token} {precedence inputs outputs buses : List Token} {front : Place}
    {gap rest : List Char} (hdefine : define.kind = .define) (hword : word.isWord "entity" = true)
    (hlabel : label.kind.isTextIdentifier = true) (hlabelled : e.label = label.text)
    (hfront : Scans g p [define, word, label] front) (htext : front.text = gap ++ (symbol ++ rest))
    (hgap : gap ≠ []) (hblank : ∀ c ∈ gap, isBlank c = true) (hrest : Parted rest)
    (hform : form.kind = .identifier) (hnamed : Notation.ofName? form.text = some e.form)
    (hprecedence : Grammar.DefinedPrecedence precedence e.precedence)
    (hinputs : Grammar.NameClause (·.isWord "in" = true) inputs e.inputs)
    (houtputs : Grammar.NameClause (·.isWord "out" = true) outputs e.outputs)
    (hbuses : Grammar.NameClause (·.kind = .bus) buses e.buses)
    (hback : Scans g (front.skip (gap.length + symbol.length))
      (form :: precedence ++ inputs ++ outputs ++ buses) q)

/-- The entity with the symbol that is written. -/
def Circuit.Entity.named (e : Entity) (symbol : List Char) : Entity := { e with symbol := String.ofList symbol }

/-- Blanks in front of tokens are skipped. -/
theorem Scans.of_skip {tokens : List Token} {n : Nat} (h : Scans g (p.skip n) tokens q) (hne : tokens ≠ [])
    (hblank : ∀ c ∈ p.text.take n, g.dialect.skips c = true) : Scans g p tokens q := by
  cases h with
  | nil => exact absurd rfl hne
  | cons first rest =>
    rw [Place.next_skip hblank] at first
    exact .cons first rest

theorem Grammar.Run.ne_nil {tokens : List Token} {text : String} {stop : Text.Position}
    (h : Grammar.Run tokens text stop) : tokens ≠ [] := by
  cases h <;> simp

/-- **What is written is a definition of the grammar**, whatever the pieces of the symbol are. -/
theorem Coins.definition (hS : Coinable (.standard limits) symbol)
    (h : Coins ⟨total, .standard limits, table⟩ symbol e p q) :
    ∃ define word tokens, define.kind = .define ∧ word.isWord "entity" = true ∧
      Grammar.Definition tokens (e.named symbol) ∧
      Scans ⟨total, .standard limits, table⟩ p (define :: word :: tokens) q := by
  cases h with
  | @mk define word label form precedence inputs outputs buses front gap rest hdefine hword hlabel hlabelled hfront
      htext hgap hblank hrest hform hnamed hprecedence hinputs houtputs hbuses hback =>
    have hbehind : (front.skip gap.length).text = symbol ++ rest := by
      rw [Place.text_skip, htext, List.drop_left]
    obtain ⟨pieces, hrun, hpieces⟩ := Coinable.pieces (g := ⟨total, .standard limits, table⟩) hS hbehind hrest
    have hskips : ∀ c ∈ front.text.take gap.length, (Dialect.standard limits).skips c = true := by
      rw [htext, List.take_left]
      exact fun c hc => Dialect.skips_of_isBlank limits (hblank c hc)
    rw [Place.skip_skip] at hpieces
    have hsymbol := hpieces.of_skip hrun.ne_nil hskips
    have hscans := (hfront.append hsymbol).append hback
    have hdefinition : Grammar.Definition (label :: pieces ++ form :: precedence ++ inputs ++ outputs ++ buses)
        (e.named symbol) :=
      .mk hlabel hlabelled (.run hrun) hform hnamed hprecedence hinputs houtputs hbuses
    exact ⟨define, word, _, hdefine, hword, hdefinition, by simpa using hscans⟩

/-- **In front of an executor** a definition is the same one. -/
theorem Coins.border (h : Coins ⟨total, .standard limits, table⟩ symbol e p q) (more : List Char) (total' : Nat) :
    Coins ⟨total', .standard limits, table⟩ symbol e ⟨p.text ++ ';' :: more, p.position⟩
      ⟨q.text ++ ';' :: more, q.position⟩ := by
  cases h with
  | @mk define word label form precedence inputs outputs buses front gap rest hdefine hword hlabel hlabelled hfront
      htext hgap hblank hrest hform hnamed hprecedence hinputs houtputs hbuses hback =>
    -- With any symbol the tokens are a definition, and so none of them is for the end.
    have hdefinition : Grammar.Definition
        (label :: [⟨"", .symbol, ⟨{}, {}⟩, none⟩] ++ form :: precedence ++ inputs ++ outputs ++ buses) (e.named []) :=
      .mk hlabel hlabelled (.run (.one rfl)) hform hnamed hprecedence hinputs houtputs hbuses
    have hend := (Grammar.Sentence.entity (t := table) hdefine hword hdefinition).solid.ordered.inside
    have hparts : define :: word :: (label :: [⟨"", .symbol, ⟨{}, {}⟩, none⟩] ++ form :: precedence ++ inputs ++
        outputs ++ buses) = [define, word, label] ++ (⟨"", .symbol, ⟨{}, {}⟩, none⟩ ::
          (form :: precedence ++ inputs ++ outputs ++ buses)) := by simp
    rw [hparts] at hend
    have hnone : ∀ t ∈ [define, word, label], t.kind ≠ .symbol := by
      simp only [List.forall_mem_cons]
      refine ⟨by simp [hdefine], by simp [Token.kind_of_isWord hword], fun hsymbol => ?_, by simp⟩
      rw [hsymbol] at hlabel
      cases hlabel
    have hnone' := Grammar.not_symbol_of_clauses hform hprecedence hinputs houtputs hbuses
    have hfront' := hfront.border (fun t ht => hend t (List.mem_append_left _ ht)) (.inl hnone) more total'
    have hback' := hback.border
      (fun t ht => hend t (List.mem_append_right _ (List.mem_cons_of_mem _ ht))) (.inl hnone') more total'
    have hlength : gap.length + symbol.length ≤ front.text.length := by
      rw [htext, List.length_append, List.length_append]
      omega
    have hbehind : (front.skip (gap.length + symbol.length)).text = rest := by
      rw [Place.text_skip, htext, ← List.drop_drop, List.drop_left, List.drop_left]
    -- There is something behind the symbol, namely the notation.
    have hrest' : Parted (rest ++ ';' :: more) := by
      obtain ⟨q₂, hnotation, -⟩ := Scans.uncons hback
      obtain ⟨a, ha, -⟩ := exists_not_isSymbolic_of_ofName? hnamed
      have hmem := (Place.mentions_of_next hnotation (by rw [hform]; rfl)).mem ha
      rw [hbehind] at hmem
      obtain ⟨c, rest, rfl⟩ := List.exists_cons_of_ne_nil (List.ne_nil_of_mem hmem)
      exact hrest
    rw [← Place.skip_border hlength] at hback'
    exact .mk hdefine hword hlabel hlabelled hfront' (by simp [htext]) hgap hblank hrest' hform hnamed hprecedence
      hinputs houtputs hbuses hback'

/-! ### Sessions behind a definition -/

variable {σ : Type} [Supply σ Char] {n m : Netlist} {s u : Session σ} {stop : Token}

/-- The window of a lexer stays within its limit, whatever is scanned, taken and registered. -/
theorem Sight.Becomes.confined {v w : Sight σ} {es : List Event} {d : Dialect} {b : Bounds} {most : Nat}
    (h : v.Becomes es w) (hfit : b.Fit d.limits) (hcalm : Lexer.Calm d false v.lexer)
    (hconfined : v.lexer.input.Confined most) :
    Lexer.Calm d false w.lexer ∧ w.lexer.input.Confined most := by
  induction h with
  | refl v => exact ⟨hcalm, hconfined⟩
  | step hstep _ ih =>
    cases hstep with
    | take _ => exact ih hcalm hconfined
    | @register op => exact ih (hcalm.register op) hconfined
    | @scan token lexer hnext =>
      have hkept := (next_kept (respected_confined d)).keeps _ ⟨hcalm.dialect, hconfined⟩
      exact ih ((next_leads hfit _ hcalm).of_ok hnext) (hkept.of_ok hnext).2

/-- No loop runs out of rounds where the end of the input has no role. -/
theorem Failure.MeetsBound.exceeded {f : Failure} {d : Dialect} (h : f.MeetsBound) (horderly : f.Orderly d)
    (hplain : d.Plain) : f.Exceeded := by
  refine h.resolve_left fun hstalled => ?_
  rcases horderly with ⟨error, herror⟩ | ⟨-, hbroken⟩
  · cases hstalled.symm.trans herror
  · exact hbroken hplain

/-- What ends or meets a bound, with a source that never fails, ends or would need a larger buffer. -/
theorem Session.Survives.ends {β : Type} {Q : β → Session σ → Prop} {x : EStateM.Result Failure (Session σ) β}
    {v : Sight σ} (h : Survives Delivering (.standard limits) v x) (hv : v.Secure Delivering (.standard limits))
    (hx : Run.Ends Q (fun f _ => f.MeetsBound) x) :
    Run.Ends (fun b u => Q b u ∧ u.tokens.Firm Delivering (.standard limits)) (fun f _ => f.Exceeded) x := by
  refine (hx.and (h hv)).mono ?_ ?_
  · rintro b u ⟨hb, tokens, w, hreaches, hw, -⟩
    exact ⟨hb, w, hw, hreaches.secure Supply.ebbs hv⟩
  · rintro f u ⟨hbound, horderly, -⟩
    exact hbound.exceeded horderly (Dialect.plain_standard limits)

namespace Parser

end Parser

end Dataflow
