import Dataflow.Proofs.Drafts

/-!
# Dataflow.Proofs.Dictating

**Reading a draft is dictating it.** A parser that has the words of a draft before it tells its netlist
what the draft says, call by call, and answers with the statement that comes of it (`Mirrors`). Each
function that reads a part of a statement is followed here along the words of that part.
-/

namespace Dataflow

open Reading Lexer Circuit
open Token (Word)

/-! ### Dictations -/

namespace Circuit

variable {β γ : Type} {x : Dictation β} {f : β → Dictation γ} {n m : Netlist} {calls calls' : List Call}

theorem Dictation.exists_of_bind {c : γ} {s t : Netlist × List Call} (h : (x >>= f) s = .ok c t) :
    ∃ b s', x s = .ok b s' ∧ f b s' = .ok c t := by
  change EStateM.bind x f s = _ at h
  unfold EStateM.bind at h
  cases hx : x s with
  | ok b s' =>
    rw [hx] at h
    exact ⟨b, s', rfl, h⟩
  | error e s' =>
    rw [hx] at h
    cases h

theorem Dictation.map_ok {b : β} {s t : Netlist × List Call} (h : x s = .ok b t) (f : β → γ) :
    (f <$> x) s = .ok (f b) t := by
  rw [map_eq_pure_bind]
  change EStateM.bind x _ s = _
  unfold EStateM.bind
  rw [h]
  rfl

theorem Call.perform_of_dictate {call : Call} {reply : call.Reply}
    (h : call.dictate (n, calls) = .ok reply (m, calls')) :
    Netlist.perform call n = .ok reply m ∧ calls' = call :: calls := by
  unfold dictate at h
  dsimp only at h
  cases hcall : Netlist.perform call n with
  | ok reply' m' =>
    rw [hcall] at h
    cases h
    exact ⟨rfl, rfl⟩
  | error e m' =>
    rw [hcall] at h
    cases h

theorem Call.performs_of_dictateAll {told : List Call}
    (h : Call.dictateAll told (n, calls) = .ok () (m, calls')) :
    Netlist.Performs n told m ∧ calls' = told.reverse ++ calls := by
  induction told generalizing n calls with
  | nil =>
    cases h
    exact ⟨.nil _, rfl⟩
  | cons call told ih =>
    obtain ⟨reply, ⟨n', calls₁⟩, hcall, hrest⟩ := Dictation.exists_of_bind h
    obtain ⟨hperform, rfl⟩ := perform_of_dictate hcall
    obtain ⟨hperforms, rfl⟩ := ih hrest
    exact ⟨.cons hperform hperforms, by simp⟩

theorem Call.dictateAll_of_performs {told : List Call} (h : Netlist.Performs n told m) (calls : List Call) :
    Call.dictateAll told (n, calls) = .ok () (m, told.reverse ++ calls) := by
  induction h generalizing calls with
  | nil n => rfl
  | @cons n n' m call told reply hperform _ ih =>
    have hcall : call.dictate (n, calls) = .ok reply (n', call :: calls) := by
      unfold dictate
      dsimp only
      rw [hperform]
    show EStateM.bind call.dictate _ (n, calls) = _
    unfold EStateM.bind
    rw [hcall]
    show Call.dictateAll told (n', call :: calls) = _
    rw [ih, List.reverse_cons, List.append_assoc]
    rfl

/-- An expression is dictated if the netlist accepts what it is told. -/
theorem Expr.dictate_of_performs {e : Expr} {t : Operator.Table} (h : Netlist.Performs n (e.calls t) m)
    (calls : List Call) : e.dictate t (n, calls) = .ok e (m, (e.calls t).reverse ++ calls) := by
  have htold := Dictation.map_ok (Call.dictateAll_of_performs h calls) fun _ => e
  rwa [map_eq_pure_bind] at htold

end Circuit

/-! ### Mirroring -/

variable {σ β γ : Type} [Supply σ Char] {g : Stage} {k k' k'' : Script}

namespace Script

/-- The script with another netlist that has been told something else. -/
def told (k : Script) (netlist : Netlist) (calls : List Call) : Script := { k with netlist, calls }

/-- The script with fewer words. -/
def on (k : Script) (rest : List Word) : Script := { k with words := rest, viewed := false }

end Script

/-- The computation leads from one script to another one, and tells the netlist on the way what the
dictation tells it. -/
def Mirrors (g : Stage) (k k' : Script) (x : Run (Session σ) β) (y : Dictation β) : Prop :=
  ∀ n calls b m calls', y (n, calls) = .ok b (m, calls') →
    Enacts g (k.told n calls) (· = b) (k'.told m calls') x

namespace Mirrors

variable {x : Run (Session σ) β} {y : Dictation β} {f : β → Run (Session σ) γ} {h : β → Dictation γ}
  {Q : β → Prop}

theorem pure (b : β) : Mirrors g k k (Pure.pure b : Run (Session σ) β) (Pure.pure b) := by
  intro n calls b' m calls' hb
  cases hb
  exact .pure rfl

theorem bind (hx : Mirrors g k k' x y) (hf : ∀ b, Mirrors g k' k'' (f b) (h b)) :
    Mirrors g k k'' (x >>= f) (y >>= h) := by
  intro n calls c m calls' hc
  obtain ⟨b, ⟨n', calls₁⟩, hb, hc⟩ := Dictation.exists_of_bind hc
  exact (hx _ _ _ _ _ hb).then_ (hf b _ _ _ _ _ hc)

theorem bind_map {α : Type} {y : Dictation α} {wrap : α → β} {z : α → Dictation γ}
    (hx : Mirrors g k k' x (wrap <$> y)) (hf : ∀ a, Mirrors g k' k'' (f (wrap a)) (z a)) :
    Mirrors g k k'' (x >>= f) (y >>= z) := by
  intro n calls c m calls' hc
  obtain ⟨a, ⟨n', calls₁⟩, ha, hc⟩ := Dictation.exists_of_bind hc
  exact (hx _ _ _ _ _ (Dictation.map_ok ha wrap)).then_ (hf a _ _ _ _ _ hc)

/-- A step of which the netlist hears nothing. -/
theorem after {z : Dictation γ} {rest : List Word}
    (hx : ∀ k₁ : Script, k₁.words = k.words → Enacts g k₁ Q (k₁.on rest) x)
    (hf : ∀ b, Q b → Mirrors g (k.on rest) k'' (f b) z) : Mirrors g k k'' (x >>= f) z :=
  fun n calls c m calls' hc =>
    (hx (k.told n calls) rfl).bind fun b hb => hf b hb n calls c m calls' hc

/-- An operator is registered. -/
theorem register {z : Dictation γ} {op : Operator} {f : PUnit → Run (Session σ) γ}
    (ht : g.tables (k.table.insert op))
    (hf : Mirrors g { k with table := k.table.insert op } k'' (f ⟨⟩) z) :
    Mirrors g k k'' (modify (fun s => s.insertOperator op) >>= f) z :=
  fun n calls c m calls' hc =>
    (Session.insertOperator_enacts (k := k.told n calls) ht).bind fun _ _ => hf n calls c m calls' hc

theorem get {f : Session σ → Run (Session σ) γ} {z : Dictation γ}
    (hf : ∀ s, Mirrors g k k' (f s) z) : Mirrors g k k' (MonadState.get >>= f) z :=
  fun n calls c m calls' hc => .get fun s _ => hf s n calls c m calls' hc

theorem mapM {α : Type} {step : α → Run (Session σ) β} {dictate : α → Dictation β} {as : List α}
    (hstep : ∀ a ∈ as, Mirrors g k k (step a) (dictate a)) :
    Mirrors g k k (as.mapM step) (as.mapM dictate) := by
  induction as with
  | nil => exact pure []
  | cons a as ih =>
    rw [List.mapM_cons, List.mapM_cons]
    refine (hstep a List.mem_cons_self).bind fun b => ?_
    exact (ih fun a' ha' => hstep a' (List.mem_cons_of_mem a ha')).bind fun bs => pure (b :: bs)

end Mirrors

/-- The loop leads from one script to another one, however many rounds it is given, and tells the
netlist on the way what the dictation tells it. -/
def MirrorsLoop {α : Type} (g : Stage) (k k' : Script) (step : α → Run (Session σ) (Run.Round α β)) (a : α)
    (y : Dictation β) : Prop :=
  ∀ rounds, Mirrors g k k' (Run.iterateFor step rounds a) y

namespace MirrorsLoop

variable {α : Type} {step : α → Run (Session σ) (Run.Round α β)} {a : α} {y : Dictation β}

theorem stalled : Mirrors g k k' (Run.iterateFor step 0 a) y :=
  fun _ _ _ _ _ _ _ _ => .inl rfl

/-- A round that is not the last. -/
theorem again {z : Dictation α} {h : α → Dictation β}
    (hstep : Mirrors g k k' (step a) (Run.Round.again <$> z))
    (hrest : ∀ a', MirrorsLoop g k' k'' step a' (h a')) : MirrorsLoop g k k'' step a (z >>= h) := by
  intro rounds
  cases rounds with
  | zero => exact stalled
  | succ rounds =>
    rintro n calls c m calls' hc
    obtain ⟨a', ⟨n', calls₁⟩, ha', hc⟩ := Dictation.exists_of_bind hc
    exact (hstep _ _ _ _ _ (Dictation.map_ok ha' _)).then_ (hrest a' rounds _ _ _ _ _ hc)

/-- The last round. -/
theorem done (hstep : Mirrors g k k' (step a) (Run.Round.done <$> y)) : MirrorsLoop g k k' step a y := by
  intro rounds
  cases rounds with
  | zero => exact stalled
  | succ rounds =>
    rintro n calls c m calls' hc
    exact (hstep _ _ _ _ _ (Dictation.map_ok hc _)).then_ (.pure rfl)

theorem iterate {bound : Session σ → Nat} (h : MirrorsLoop g k k' step a y) :
    Mirrors g k k' (Run.iterate bound a step) y :=
  fun n calls c m calls' hc s hs => h _ n calls c m calls' hc s hs

end MirrorsLoop

theorem Session.tell_mirrors (call : Call) :
    Mirrors g k k (tell call : Run (Session σ) call.Reply) call.dictate := by
  intro n calls reply m calls' hreply
  obtain ⟨hperform, rfl⟩ := Call.perform_of_dictate hreply
  exact tell_enacts hperform

/-! ### Words -/

variable {w : Word} {rest : List Word}

theorem Lexer.IsName.isTextIdentifier {name : String} (h : IsName name) :
    (Word.ofName name).kind.isTextIdentifier = true := by
  obtain ⟨token, q, hnext, rfl, hkind⟩ := h
  have hidentifier : token.kind.isIdentifier = true := by
    cases hk : token.kind <;> simp_all [Token.Kind.isTextIdentifier, Token.Kind.isIdentifier]
  have hlexes := (lexes_of_next hnext (Dialect.plain_of_characters spacious_default.marker)
    (ne_endOfFile_of_isIdentifier hidentifier)).1
  have hname := Word.eq_ofName hlexes hidentifier
  rw [show token.text = token.word.text from rfl, ← hname]
  exact hkind

/-- What holds of the first word of a part that may be left out, and of the first word behind it. -/
theorem head_announced {P : Word → Prop} {parts : List (List Word)} (hw : P w)
    (hrest : ∀ w' ∈ rest.head?, P w') : ∀ w' ∈ (Word.announced w parts ++ rest).head?, P w' := by
  cases parts with
  | nil => exact hrest
  | cons part parts =>
    rintro w' ⟨⟩
    exact hw

theorem Script.kindAt_zero_ne {kind : Token.Kind} (h : ∀ w ∈ k.words.head?, w.kind ≠ kind)
    (hend : kind ≠ .endOfFile) : k.kindAt 0 ≠ kind := by
  unfold kindAt
  cases hwords : k.words with
  | nil => exact hend.symm
  | cons w words => exact h w (by rw [hwords]; rfl)

theorem Enacts.on {x : Run (Session σ) β} {Q : β → Prop} (h : Enacts g k Q k' x)
    (hwords : k'.words = rest) : Enacts g k Q (k'.on rest) x := by
  subst hwords
  exact h.forget

namespace Session

/-- The next word is of another kind. -/
theorem accept_absent {kind : Token.Kind} (hwords : k.words = rest)
    (hrest : ∀ w ∈ rest.head?, w.kind ≠ kind) (hend : kind ≠ .endOfFile) :
    Enacts g k (· = false) (k.on rest) (accept kind : Run (Session σ) Bool) :=
  (accept_refused (Script.kindAt_zero_ne (hwords ▸ hrest) hend)).on hwords

/-- The next word is another one. -/
theorem acceptWord_absent {word : String} (hwords : k.words = rest)
    (hrest : ∀ w ∈ rest.head?, w.kind = .identifier → w.text ≠ word) :
    Enacts g k (· = false) (k.on rest) (acceptWord word : Run (Session σ) Bool) :=
  (acceptWord_refused (hwords ▸ hrest)).on hwords

end Session

namespace Circuit.Expr

mutual

/-- What can be written is read as it is spelled. -/
theorem reads_of_written : {e : Expr} → {t : Operator.Table} → e.Written t → e.Reads t
  | literal _, _, _ | integer _, _, _ | real _, _, _ => trivial
  | signal _, _, ⟨hname, hfree⟩ => ⟨hname.isTextIdentifier, Operator.Table.get?_of_not_contains hfree _⟩
  | bus _, _, h | pin _ _, _, h => h.elim
  | apply entity arguments, t, ⟨hname, hfree, harguments⟩ => by
    have hkind := hname.isTextIdentifier
    refine ⟨?_, .inr ?_, ?_, readsAll_of_written harguments⟩
    · cases hk : (Word.ofName entity).kind <;> simp_all [Token.Kind.isTextIdentifier, Token.Kind.isIdentifier]
    · intro hsymbol
      rw [hsymbol] at hkind
      cases hkind
    · rw [Operator.Table.applied_of_not_contains hfree]
      rfl
  | group _ _, _, ⟨hsingle, hitems⟩ => ⟨hsingle, readsAll_of_written hitems⟩

theorem readsAll_of_written : {es : List Expr} → {t : Operator.Table} → WrittenAll t es → ReadsAll t es
  | [], _, _ => trivial
  | _ :: _, _, ⟨he, hes⟩ => ⟨reads_of_written he, readsAll_of_written hes⟩

end

mutual

/-- No operator takes part in what can be written. -/
theorem calls_of_written : {e : Expr} → {t : Operator.Table} → e.Written t → e.calls t = e.calls {}
  | literal _, _, _ | integer _, _, _ | real _, _, _ | signal _, _, _ | bus _, _, _
  | pin _ _, _, _ => rfl
  | apply entity arguments, t, ⟨_, hfree, harguments⟩ => by
    unfold calls
    rw [callsAll_of_written harguments, Operator.Table.applied_of_not_contains hfree,
      Operator.Table.applied_of_not_contains rfl]
  | group _ _, _, ⟨_, hitems⟩ => by
    unfold calls
    rw [callsAll_of_written hitems]

theorem callsAll_of_written : {es : List Expr} → {t : Operator.Table} → WrittenAll t es →
    callsAll t es = callsAll {} es
  | [], _, _ => rfl
  | _ :: _, _, ⟨he, hes⟩ => by
    unfold callsAll
    rw [calls_of_written he, callsAll_of_written hes]

end

end Circuit.Expr

namespace Parser

open Session

theorem name_enacts (hwords : k.words = w :: rest) (hname : w.kind.isTextIdentifier = true) :
    Enacts g k (· = w.text) (k.on rest) (name : Run (Session σ) String) := by
  have hfirst : k.kindAt 0 = w.kind := by rw [Script.kindAt, hwords]; rfl
  unfold name
  refine peekKind_enacts.then_ ?_
  rw [hfirst, if_pos hname]
  exact (consume_enacts (k := { k with viewed := true }) hwords).bind
    fun token htoken => .pure (congrArg Word.text htoken)

/-- One round of the loop over names. -/
def nameRound {σ : Type} [Source σ Char] (before : List String) :
    Run (Session σ) (Run.Round (List String) (List String)) := do
  if ← accept .separator then
    return .again ((← name) :: before)
  else
    return .done before.reverse

theorem names_eq {σ : Type} [Source σ Char] : (names : Run (Session σ) (List String)) =
    name >>= fun first => Run.iterate remaining [first] nameRound := rfl

theorem names_loop {more : List String} (hnames : ∀ n ∈ more, IsName n) (before : List String)
    (hwords : k.words = (Draft.nameWords more).flatMap (Word.separator :: ·) ++ rest)
    (hrest : ∀ w ∈ rest.head?, w.kind ≠ .separator) :
    Loops g k (· = before.reverse ++ more) (k.on rest)
      (nameRound : List String → Run (Session σ) (Run.Round (List String) (List String))) before := by
  induction more generalizing k before with
  | nil =>
    refine .done (b := before.reverse) ?_ (List.append_nil _).symm
    unfold nameRound
    exact (accept_absent hwords hrest nofun).then_ (.pure rfl)
  | cons n more ih =>
    have hname := (hnames n List.mem_cons_self).isTextIdentifier
    have hloop := ih (k := k.on ((Draft.nameWords more).flatMap (Word.separator :: ·) ++ rest))
      (fun n' hn' => hnames n' (List.mem_cons_of_mem n hn')) (n :: before) rfl
    rw [List.reverse_cons, List.append_assoc] at hloop
    refine .again ?_ hloop
    unfold nameRound
    refine (accept_enacts (w := .separator) hwords rfl).then_ ?_
    exact (name_enacts (w := .ofName n) rfl hname).then_ (.pure rfl)

theorem names_enacts {all : List String} (hne : all ≠ []) (hnames : ∀ n ∈ all, IsName n)
    (hwords : k.words = Word.separated (Draft.nameWords all) ++ rest)
    (hrest : ∀ w ∈ rest.head?, w.kind ≠ .separator) :
    Enacts g k (· = all) (k.on rest) (names : Run (Session σ) (List String)) := by
  obtain ⟨n, more, rfl⟩ := List.exists_cons_of_ne_nil hne
  rw [names_eq]
  refine (name_enacts (w := .ofName n) hwords (hnames n List.mem_cons_self).isTextIdentifier).then_ ?_
  exact .iterate (names_loop (k := k.on _) (fun n' hn' => hnames n' (List.mem_cons_of_mem n hn'))
    [n] rfl hrest)

/-- Names behind a word, or nothing where the next word is another one. -/
theorem namesAfterWord_enacts {word : String} {all : List String} (hnames : ∀ n ∈ all, IsName n)
    (hwords : k.words = Word.announced (.plain word) (Draft.nameWords all) ++ rest)
    (hrest : ∀ w ∈ rest.head?, w.kind ≠ .separator ∧ (w.kind = .identifier → w.text ≠ word)) :
    Enacts g k (· = all) (k.on rest) (namesAfterWord word : Run (Session σ) (List String)) := by
  unfold namesAfterWord
  cases all with
  | nil =>
    exact (acceptWord_absent hwords fun w hw => (hrest w hw).2).then_ (.pure rfl)
  | cons n more =>
    refine (acceptWord_enacts hwords).then_ ?_
    exact names_enacts (k := k.on _) (List.cons_ne_nil n more) hnames rfl fun w hw => (hrest w hw).1

/-- Names behind the reserved word for buses, or nothing. -/
theorem busNames_enacts {all : List String} (hnames : ∀ n ∈ all, IsName n)
    (hwords : k.words = Word.announced ⟨.bus, "bus", none⟩ (Draft.nameWords all) ++ rest)
    (hrest : ∀ w ∈ rest.head?, w.kind ≠ .separator ∧ w.kind ≠ .bus) :
    Enacts g k (· = all) (k.on rest) (busNames : Run (Session σ) (List String)) := by
  unfold busNames
  cases all with
  | nil =>
    exact (accept_absent hwords (fun w hw => (hrest w hw).2) nofun).then_ (.pure rfl)
  | cons n more =>
    refine (accept_enacts hwords rfl).then_ ?_
    exact names_enacts (k := k.on _) (List.cons_ne_nil n more) hnames rfl fun w hw => (hrest w hw).1

theorem entityReference_enacts (hwords : k.words = w :: rest) (hname : w.kind.isTextIdentifier = true) :
    Enacts g k (· = w.text) (k.on rest) (entityReference : Run (Session σ) String) := by
  have hfirst : k.kindAt 0 = w.kind := by rw [Script.kindAt, hwords]; rfl
  have hidentifier : w.kind.isIdentifier = true ∨ w.kind = .literal := by
    cases hkind : w.kind <;> simp_all [Token.Kind.isTextIdentifier, Token.Kind.isIdentifier]
  unfold entityReference
  refine peekKind_enacts.then_ ?_
  rw [hfirst, if_pos hidentifier]
  exact (consume_enacts (k := { k with viewed := true }) hwords).bind
    fun token htoken => .pure (congrArg Word.text htoken)

/-! ### Definitions -/

/-- A number is what its digits write. -/
theorem decimal_toString (n : Nat) : decimal (toString n) = n := by
  unfold decimal
  rw [Nat.toString_eq_ofList_toDigits, String.toList_ofList, ← Nat.ofDigitChars_eq_foldl,
    Nat.ofDigitChars_ten_toDigits]

theorem definedSymbol_enacts {content : String} (hwords : k.words = .literal content :: rest) :
    Enacts g k (· = content) (k.on rest) (definedSymbol : Run (Session σ) String) := by
  have hfirst : k.kindAt 0 = .literal := by rw [Script.kindAt, hwords]; rfl
  unfold definedSymbol
  refine peekKind_enacts.then_ ?_
  rw [hfirst, if_pos (.inl rfl)]
  exact (consume_enacts (k := { k with viewed := true }) hwords).bind
    fun token htoken => .pure (congrArg Word.text htoken)

theorem definedNotation_enacts {form : Notation} (hwords : k.words = .plain form.name :: rest) :
    Enacts g k (· = form) (k.on rest) (definedNotation : Run (Session σ) Notation) := by
  unfold definedNotation
  refine peek_enacts.bind fun token htoken => ?_
  rw [hwords] at htoken
  have htext : token.text = form.name := congrArg Word.text htoken.1
  rw [htext, Notation.ofName?_name]
  refine Eq.mpr (congrArg _ (if_pos (congrArg Word.kind htoken.1))) ?_
  exact (consume_enacts (k := { k with viewed := true }) hwords).bind fun _ _ => .pure rfl

theorem definedPrecedence_enacts {brief : Bool} {precedence : Nat} (hbound : precedence < precedenceLimit)
    (hwords : k.words = Draft.precedenceWords brief precedence ++ rest)
    (hrest : ∀ w ∈ rest.head?, w.kind ≠ .integer) :
    Enacts g k (· = precedence) (k.on rest) (definedPrecedence : Run (Session σ) Nat) := by
  unfold definedPrecedence
  refine peekKind_enacts.then_ ?_
  by_cases hbrief : brief = true ∧ precedence = 0
  · rw [Draft.precedenceWords, if_pos hbrief] at hwords
    have hother : k.kindAt 0 ≠ .integer := Script.kindAt_zero_ne (by rw [hwords]; exact hrest) nofun
    rw [if_neg hother]
    exact (Enacts.pure hbrief.2.symm).on hwords
  · rw [Draft.precedenceWords, if_neg hbrief] at hwords
    have hfirst : k.kindAt 0 = .integer := by rw [Script.kindAt, hwords]; rfl
    rw [if_pos hfirst]
    refine peek_enacts.bind fun token htoken => ?_
    rw [show Script.words { k with viewed := true } = _ from hwords] at htoken
    have hvalue : decimal token.text = precedence := by
      rw [show token.text = toString precedence from congrArg Word.text htoken.1, decimal_toString]
    rw [hvalue]
    refine Eq.mpr (congrArg _ (if_pos hbound)) ?_
    exact (consume_enacts (k := { k with viewed := true }) hwords).bind fun _ _ => .pure rfl

/-- The definition of an entity is read as the entity. -/
theorem entityDefinition_mirrors {brief : Bool} {e : Entity} (hfits : (Draft.entity e).Fits k.table)
    (hwords : k.words = .ofName e.label :: .literal e.symbol :: .plain e.form.name ::
      (Draft.precedenceWords brief e.precedence ++
        (Word.announced (.plain "in") (Draft.nameWords e.inputs) ++
          (Word.announced (.plain "out") (Draft.nameWords e.outputs) ++
            (Word.announced ⟨.bus, "bus", none⟩ (Draft.nameWords e.buses) ++ rest)))))
    (hrest : ∀ w ∈ rest.head?, w.kind = .executor) (ht : g.tables (k.table.insert e.operator)) :
    Mirrors g k { k.on rest with table := k.table.insert e.operator }
      (entityDefinition : Run (Session σ) Statement) (Draft.entity e).dictate := by
  obtain ⟨hlabel, -, hbound, hinputs, houtputs, hbuses⟩ := hfits
  have hend : ∀ w ∈ rest.head?, w.kind ≠ .separator ∧ w.kind ≠ .bus := by
    intro w hw
    rw [hrest w hw]
    exact ⟨nofun, nofun⟩
  have hout : ∀ w ∈ (Word.announced ⟨.bus, "bus", none⟩ (Draft.nameWords e.buses) ++ rest).head?,
      w.kind ≠ .separator ∧ (w.kind = .identifier → w.text ≠ "out") := by
    refine head_announced ⟨nofun, nofun⟩ fun w hw => ?_
    rw [hrest w hw]
    exact ⟨nofun, nofun⟩
  have hin : ∀ w ∈ (Word.announced (.plain "out") (Draft.nameWords e.outputs) ++
      (Word.announced ⟨.bus, "bus", none⟩ (Draft.nameWords e.buses) ++ rest)).head?,
      w.kind ≠ .separator ∧ (w.kind = .identifier → w.text ≠ "in") := by
    refine head_announced ⟨nofun, fun _ => by decide⟩ (head_announced ⟨nofun, nofun⟩ fun w hw => ?_)
    rw [hrest w hw]
    exact ⟨nofun, nofun⟩
  have hdigits : ∀ w ∈ (Word.announced (.plain "in") (Draft.nameWords e.inputs) ++
      (Word.announced (.plain "out") (Draft.nameWords e.outputs) ++
        (Word.announced ⟨.bus, "bus", none⟩ (Draft.nameWords e.buses) ++ rest))).head?,
      w.kind ≠ .integer := by
    refine head_announced nofun (head_announced nofun (head_announced nofun fun w hw => ?_))
    rw [hrest w hw]
    nofun
  unfold entityDefinition
  refine .after (fun _ hk => name_enacts (hk.trans hwords) hlabel.isTextIdentifier) ?_
  rintro _ rfl
  refine .after (fun _ hk => definedSymbol_enacts hk) ?_
  rintro _ rfl
  refine .after (fun _ hk => definedNotation_enacts hk) ?_
  rintro _ rfl
  refine .after (fun _ hk => definedPrecedence_enacts hbound hk hdigits) ?_
  rintro _ rfl
  refine .after (fun _ hk => namesAfterWord_enacts hinputs hk hin) ?_
  rintro _ rfl
  refine .after (fun _ hk => namesAfterWord_enacts houtputs hk hout) ?_
  rintro _ rfl
  refine .after (fun _ hk => busNames_enacts hbuses hk hend) ?_
  rintro _ rfl
  refine (tell_mirrors (.defineEntity e)).bind fun _ => ?_
  exact .register ht (.pure (Statement.entity e))

/-! ### Declarations and expressions -/

/-- Names, of each of which the netlist is told the same. -/
theorem declaration_mirrors {all : List String} {declare : String → Run (Session σ) Expr}
    {dictate : String → Dictation Expr} (hdeclare : ∀ name, Mirrors g (k.on rest) (k.on rest)
      (declare name) (dictate name)) (hne : all ≠ []) (hnames : ∀ n ∈ all, IsName n)
    (hwords : k.words = Word.separated (Draft.nameWords all) ++ rest)
    (hrest : ∀ w ∈ rest.head?, w.kind = .executor) (statement : List Expr → Statement) :
    Mirrors g k (k.on rest) (do return statement (← (← names).mapM declare))
      (do return statement (← all.mapM dictate)) := by
  have hother : ∀ w ∈ rest.head?, w.kind ≠ .separator := fun w hw => by rw [hrest w hw]; nofun
  refine .after (fun _ hk => names_enacts hne hnames (hk.trans hwords) hother) ?_
  rintro _ rfl
  exact (Mirrors.mapM fun name _ => hdeclare name).bind fun nodes => .pure (statement nodes)

/-- An expression, in front of what does not go on with it. -/
theorem expression_mirrors {e : Expr} (hreads : e.Reads k.table) (hwords : k.words = e.words ++ rest)
    (hstops : Stops k.table rest) :
    Mirrors g k (k.on rest) (expression : Run (Session σ) Expr) (e.dictate k.table) := by
  rintro n calls _ m calls' he
  obtain ⟨⟨⟩, ⟨m', calls₁⟩, htold, he⟩ := Dictation.exists_of_bind he
  cases he
  obtain ⟨hperforms, rfl⟩ := Call.performs_of_dictateAll htold
  exact expression_enacts (k := k.told n calls) hreads hwords hstops hperforms

/-- An expression without operators. -/
theorem written_mirrors {e : Expr} (hwritten : e.Written k.table) (hwords : k.words = e.words ++ rest)
    (hstops : Stops k.table rest) :
    Mirrors g k (k.on rest) (expression : Run (Session σ) Expr) (e.dictate {}) := by
  have hsame : e.dictate k.table = e.dictate {} := by
    unfold Expr.dictate
    rw [Expr.calls_of_written hwritten]
  rw [← hsame]
  exact expression_mirrors (Expr.reads_of_written hwritten) hwords hstops

/-! ### Assignments -/

/-- One round of the loop over names that may be targets. -/
def targetRound {σ : Type} [Source σ Char] (before : List String) :
    Run (Session σ) (Run.Round (List String) (Option (List String))) := do
  if (← peekKind).isTextIdentifier then
    let before := (← consume).text :: before
    if ← accept .separator then
      return .again before
    else if ← accept .assignment then
      return .done (some before.reverse)
    else
      return .done none
  else
    return .done none

theorem tryTargets_eq {σ : Type} [Source σ Char] :
    (tryTargets : Run (Session σ) (Option (List String))) =
      Run.iterate Session.remaining [] targetRound := rfl

theorem targets_loop {n : String} {more : List String} (hnames : ∀ n' ∈ n :: more, IsName n')
    (before : List String)
    (hwords : k.words = Word.separated (Draft.nameWords (n :: more)) ++ ⟨.assignment, "<-", none⟩ :: rest) :
    Loops g k (· = some (before.reverse ++ n :: more)) (k.on rest)
      (targetRound : List String → Run (Session σ) (Run.Round (List String) (Option (List String))))
      before := by
  induction more generalizing k n before with
  | nil =>
    have hfirst : k.kindAt 0 = (Word.ofName n).kind := by rw [Script.kindAt, hwords]; rfl
    have hother : (k.on (⟨.assignment, "<-", none⟩ :: rest)).kindAt 0 ≠ .separator := by
      show Token.Kind.assignment ≠ .separator
      decide
    refine .done (b := some (n :: before).reverse) ?_ (congrArg some List.reverse_cons)
    unfold targetRound
    refine peekKind_enacts.then_ ?_
    rw [hfirst, if_pos (hnames n List.mem_cons_self).isTextIdentifier]
    refine (consume_enacts (k := { k with viewed := true }) hwords).bind fun token htoken => ?_
    rw [show token.text = n from congrArg Word.text htoken]
    refine (accept_refused (k := k.on _) hother).then_ ?_
    exact (accept_enacts (k := { k.on (⟨.assignment, "<-", none⟩ :: rest) with viewed := true }) rfl
      rfl).then_ (.pure rfl)
  | cons n' more ih =>
    have hfirst : k.kindAt 0 = (Word.ofName n).kind := by rw [Script.kindAt, hwords]; rfl
    have hloop := ih (k := k.on (Word.separated (Draft.nameWords (n' :: more)) ++
      ⟨.assignment, "<-", none⟩ :: rest)) (fun n'' hn => hnames n'' (List.mem_cons_of_mem n hn))
      (n :: before) rfl
    rw [List.reverse_cons, List.append_assoc] at hloop
    refine .again ?_ hloop
    unfold targetRound
    refine peekKind_enacts.then_ ?_
    rw [hfirst, if_pos (hnames n List.mem_cons_self).isTextIdentifier]
    refine (consume_enacts (k := { k with viewed := true }) hwords).bind fun token htoken => ?_
    rw [show token.text = n from congrArg Word.text htoken]
    exact (accept_enacts (w := .separator) rfl rfl).then_ (.pure rfl)

theorem assignmentTargets_enacts {targets : List String} (hne : targets ≠ [])
    (hnames : ∀ n ∈ targets, IsName n)
    (hwords : k.words = Word.separated (Draft.nameWords targets) ++ ⟨.assignment, "<-", none⟩ :: rest) :
    Enacts g k (· = some targets) (k.on rest)
      (assignmentTargets : Run (Session σ) (Option (List String))) := by
  obtain ⟨n, more, rfl⟩ := List.exists_cons_of_ne_nil hne
  unfold assignmentTargets
  refine mark_enacts.bind fun _ _ => ?_
  rw [tryTargets_eq]
  refine (Enacts.iterate (targets_loop (k := { k with saved := k.words :: k.saved, viewed := false })
    hnames [] hwords)).then_ ?_
  exact (commit_enacts rfl).bind fun _ _ => .pure rfl

/-- An expression in front of the end of a statement begins with no targets. -/
theorem tryTargets_none {e : Expr} {t : Operator.Table} (hreads : e.Reads t)
    (hwords : k.words = e.words ++ rest)
    (hrest : ∀ w ∈ rest.head?, w.kind = .executor) :
    ∃ words, Enacts g k (· = none) (k.on words)
      (tryTargets : Run (Session σ) (Option (List String))) := by
  obtain ⟨w, words, he, -⟩ := e.exists_words hreads
  have hfirst : k.kindAt 0 = w.kind := by rw [Script.kindAt, hwords, he]; rfl
  rw [tryTargets_eq]
  by_cases hname : w.kind.isTextIdentifier = true
  · refine ⟨words ++ rest, .iterate (.done (b := none) ?_ rfl)⟩
    have hother : ∀ w' ∈ (words ++ rest).head?, w'.kind ≠ .separator ∧ w'.kind ≠ .assignment := by
      have hbehind : ∀ w' ∈ rest.head?, w'.kind ≠ .separator ∧ w'.kind ≠ .assignment := by
        intro w' hw'
        rw [hrest w' hw']
        exact ⟨by decide, by decide⟩
      obtain ⟨w', hw'⟩ | ⟨w', more, hmore⟩ | ⟨w', more, hmore, hplain⟩ := e.words_cases hreads
      · obtain ⟨rfl, rfl⟩ := List.cons.inj (he.symm.trans hw')
        exact hbehind
      · obtain ⟨rfl, rfl⟩ := List.cons.inj (he.symm.trans hmore)
        rintro _ ⟨⟩
        exact ⟨by decide, by decide⟩
      · obtain ⟨rfl, rfl⟩ := List.cons.inj (he.symm.trans hmore)
        cases hkind : w.kind <;> simp_all [Token.Kind.isTextIdentifier, Token.Kind.isIdentifier]
    unfold targetRound
    refine peekKind_enacts.then_ ?_
    rw [hfirst, if_pos hname]
    refine (consume_enacts (k := { k with viewed := true })
      (hwords.trans (congrArg (· ++ rest) he))).bind fun token htoken => ?_
    refine (accept_refused (k := k.on _)
      (Script.kindAt_zero_ne (fun w' hw' => (hother w' hw').1) (by decide))).then_ ?_
    refine (accept_refused (k := { k.on _ with viewed := true })
      (Script.kindAt_zero_ne (fun w' hw' => (hother w' hw').2) (by decide))).forget.then_ ?_
    exact .pure rfl
  · refine ⟨k.words, .iterate (.done (b := none) ?_ rfl)⟩
    unfold targetRound
    refine peekKind_enacts.forget.then_ ?_
    rw [hfirst, if_neg hname]
    exact .pure rfl

/-- Where there are no targets, all words are still to come. -/
theorem assignmentTargets_none {e : Expr} {t : Operator.Table} (hreads : e.Reads t)
    (hwords : k.words = e.words ++ rest) (hrest : ∀ w ∈ rest.head?, w.kind = .executor) :
    Enacts g k (· = none) (k.on (e.words ++ rest))
      (assignmentTargets : Run (Session σ) (Option (List String))) := by
  rw [← hwords]
  unfold assignmentTargets
  refine mark_enacts.bind fun _ _ => ?_
  obtain ⟨words, htry⟩ := tryTargets_none (σ := σ) (g := g)
    (k := { k with saved := k.words :: k.saved, viewed := false }) hreads hwords hrest
  refine htry.then_ ?_
  exact (rollback_enacts rfl).bind fun _ _ => .pure rfl

/-- At the end of a statement no expression goes on. -/
theorem stops_of_executor {t : Operator.Table} (hrest : ∀ w ∈ rest.head?, w.kind = .executor) :
    Stops t rest := by
  intro w hw
  rw [hrest w hw]
  exact ⟨nofun, nofun⟩

theorem assignment_mirrors {targets : List String} {value : Expr}
    (hfits : (Draft.assignment targets value).Fits k.table)
    (hwords : k.words = Word.separated (Draft.nameWords targets) ++
      ⟨.assignment, "<-", none⟩ :: (value.words ++ rest))
    (hrest : ∀ w ∈ rest.head?, w.kind = .executor) :
    Mirrors g k (k.on rest) (assignmentOrExpression : Run (Session σ) Statement)
      (Draft.assignment targets value).dictate := by
  obtain ⟨hne, hnames, hvalue⟩ := hfits
  unfold assignmentOrExpression
  refine .after (fun _ hk => assignmentTargets_enacts hne hnames (hk.trans hwords)) ?_
  rintro _ rfl
  refine (Mirrors.mapM fun name _ => tell_mirrors (.useSignal name)).bind fun nodes => ?_
  refine (written_mirrors (k := k.on _) hvalue rfl (stops_of_executor hrest)).bind fun e => ?_
  exact (tell_mirrors (.assign nodes e)).bind fun _ => .pure (Statement.assignment nodes e)

/-- An expression that is a statement, given how the netlist is told of it. -/
theorem expressionStatement_mirrors {e : Expr} {y : Dictation Expr} (hreads : e.Reads k.table)
    (hwords : k.words = e.words ++ rest) (hrest : ∀ w ∈ rest.head?, w.kind = .executor)
    (hread : Mirrors g (k.on (e.words ++ rest)) (k.on rest) (expression : Run (Session σ) Expr) y) :
    Mirrors g k (k.on rest) (assignmentOrExpression : Run (Session σ) Statement)
      (do return .expression (← y)) := by
  unfold assignmentOrExpression
  refine .after (fun _ hk => assignmentTargets_none hreads (hk.trans hwords) hrest) ?_
  rintro _ rfl
  exact hread.bind fun e => .pure (Statement.expression e)

/-! ### Instances -/

/-- What follows does not begin with a label and an arrow. -/
def Unlabelled (words : List Word) : Prop :=
  ∀ w ∈ words.head?, w.kind = .identifier → ∀ w' ∈ words[1]?, w'.kind ≠ .association

theorem bindingLabel_enacts {label : Option String} {more : List Word}
    (hwords : k.words = Word.labelled label ++ more) (hmore : Unlabelled more) :
    Enacts g k (· = label) (k.on more) (bindingLabel : Run (Session σ) (Option String)) := by
  unfold bindingLabel
  refine peekKind_enacts.then_ ?_
  cases label with
  | none =>
    have hwords : k.words = more := hwords
    by_cases hfirst : k.kindAt 0 = .identifier
    · have hsecond : k.kindAt 1 ≠ .association := by
        unfold Script.kindAt at hfirst ⊢
        rw [hwords] at hfirst ⊢
        cases hmore1 : more[1]? with
        | none => nofun
        | some w' =>
          cases more with
          | nil => cases hmore1
          | cons w words => exact hmore w rfl hfirst w' hmore1
      rw [if_pos hfirst]
      refine (secondKind_enacts rfl).then_ ?_
      rw [show Script.kindAt { k with viewed := true } 1 = k.kindAt 1 from rfl, if_neg hsecond]
      exact (Enacts.pure rfl).on hwords
    · rw [if_neg hfirst]
      exact (Enacts.pure rfl).on hwords
  | some label =>
    have hfirst : k.kindAt 0 = .identifier := by rw [Script.kindAt, hwords]; rfl
    have hsecond : k.kindAt 1 = .association := by rw [Script.kindAt, hwords]; rfl
    rw [if_pos hfirst]
    refine (secondKind_enacts rfl).then_ ?_
    rw [show Script.kindAt { k with viewed := true } 1 = k.kindAt 1 from rfl, if_pos hsecond]
    refine (consume_enacts (k := { k with viewed := true }) hwords).bind fun token htoken => ?_
    rw [show token.text = label from congrArg Word.text htoken]
    exact (consume_enacts (w := ⟨.association, "->", none⟩) rfl).bind fun _ _ => .pure rfl

/-- One round of the loop over bindings. -/
def bindingRound {σ : Type} [Source σ Char] (read : Run (Session σ) Expr) (before : List Binding) :
    Run (Session σ) (Run.Round (List Binding) (List Binding)) := do
  let label ← bindingLabel
  let value ← read
  let before := { label, value } :: before
  if ← accept .separator then
    return .again before
  else
    return .done before.reverse

section Bindings

variable {α : Type} {label : α → Option String} {words : α → List Word} {dictate : α → Dictation Expr}
  {read : Run (Session σ) Expr} {a : α} {more : List α}

/-- The words of items with labels in front of them. -/
def bindingWords (label : α → Option String) (words : α → List Word) (items : List α) : List Word :=
  Word.separated (items.map fun a => Word.labelled (label a) ++ words a)

/-- Dictates items with labels in front of them, behind bindings that have been read before. -/
def dictateBindings (label : α → Option String) (dictate : α → Dictation Expr) (items : List α)
    (before : List Binding) : Dictation (List Binding) :=
  (before.reverse ++ ·) <$> items.mapM fun a => return { label := label a, value := ← dictate a }

theorem dictateBindings_cons (before : List Binding) :
    dictateBindings label dictate (a :: more) before =
      ((fun v => ⟨label a, v⟩ :: before) <$> dictate a) >>= dictateBindings label dictate more := by
  unfold dictateBindings
  simp only [List.mapM_cons, map_eq_pure_bind, bind_assoc, pure_bind, List.reverse_cons,
    List.append_assoc, List.cons_append, List.nil_append]

/-- Bindings, if each is read in front of a separator and of what follows the last one. -/
theorem bindings_loop
    (hitem : ∀ a' ∈ a :: more, ∀ rest', rest'.head? = some Word.separator ∨ rest' = rest →
      Unlabelled (words a' ++ rest') ∧
        ∀ k₁ : Script, k₁.table = k.table → k₁.words = words a' ++ rest' →
          Mirrors g k₁ (k₁.on rest') read (dictate a'))
    (hwords : k.words = bindingWords label words (a :: more) ++ rest)
    (hrest : ∀ w ∈ rest.head?, w.kind ≠ .separator) (before : List Binding) :
    MirrorsLoop g k (k.on rest) (bindingRound read) before
      (dictateBindings label dictate (a :: more) before) := by
  induction more generalizing k a before with
  | nil =>
    have hfirst : k.words = Word.labelled (label a) ++ (words a ++ rest) := by
      simp [hwords, bindingWords, Word.separated]
    obtain ⟨hunlabelled, hread⟩ := hitem a List.mem_cons_self rest (.inr rfl)
    refine .done ?_
    unfold dictateBindings bindingRound
    simp only [List.mapM_cons, List.mapM_nil, map_eq_pure_bind, bind_assoc, pure_bind]
    refine .after (fun _ hk => bindingLabel_enacts (hk.trans hfirst) hunlabelled) ?_
    rintro _ rfl
    refine (hread (k.on _) rfl rfl).bind fun v => ?_
    refine .after (fun _ hk => accept_absent hk hrest nofun) ?_
    rintro _ rfl
    rw [← List.reverse_cons]
    exact .pure _
  | cons a' more ih =>
    have hfirst : k.words = Word.labelled (label a) ++
        (words a ++ .separator :: (bindingWords label words (a' :: more) ++ rest)) := by
      simp [hwords, bindingWords, Word.separated]
    obtain ⟨hunlabelled, hread⟩ := hitem a List.mem_cons_self
      (.separator :: (bindingWords label words (a' :: more) ++ rest)) (.inl rfl)
    rw [dictateBindings_cons]
    refine .again ?_ (ih (k := k.on _) (fun a'' ha => hitem a'' (List.mem_cons_of_mem a ha)) rfl)
    rw [Functor.map_map, map_eq_pure_bind]
    unfold bindingRound
    refine .after (fun _ hk => bindingLabel_enacts (hk.trans hfirst) hunlabelled) ?_
    rintro _ rfl
    refine (hread (k.on _) rfl rfl).bind fun v => ?_
    refine .after (fun _ hk => accept_enacts (w := .separator) hk rfl) ?_
    rintro _ rfl
    exact .pure _

end Bindings

/-- Bindings behind a word, or nothing. -/
theorem bindingsAfterWord_mirrors {α : Type} {label : α → Option String} {words : α → List Word}
    {dictate : α → Dictation Expr} {read : Run (Session σ) Expr} {items : List α} {word : String}
    (hitem : ∀ a ∈ items, ∀ rest', rest'.head? = some Word.separator ∨ rest' = rest →
      Unlabelled (words a ++ rest') ∧
        ∀ k₁ : Script, k₁.table = k.table → k₁.words = words a ++ rest' →
          Mirrors g k₁ (k₁.on rest') read (dictate a))
    (hwords : k.words = Word.announced (.plain word)
      (items.map fun a => Word.labelled (label a) ++ words a) ++ rest)
    (hrest : ∀ w ∈ rest.head?, w.kind ≠ .separator ∧ (w.kind = .identifier → w.text ≠ word)) :
    Mirrors g k (k.on rest) (bindingsAfterWord word read)
      (items.mapM fun a => return { label := label a, value := ← dictate a }) := by
  unfold bindingsAfterWord
  cases items with
  | nil =>
    refine .after (fun _ hk => acceptWord_absent (hk.trans hwords) fun w hw => (hrest w hw).2) ?_
    rintro _ rfl
    exact .pure []
  | cons a more =>
    refine .after (fun _ hk => acceptWord_enacts (hk.trans hwords)) ?_
    rintro _ rfl
    have hloop := bindings_loop (k := k.on (bindingWords label words (a :: more) ++ rest)) hitem rfl
      (fun w hw => (hrest w hw).1) []
    unfold dictateBindings at hloop
    simp only [List.reverse_nil, List.nil_append, id_map'] at hloop
    exact hloop.iterate

/-- An expression does not begin with a label, whatever follows but an arrow. -/
theorem unlabelled_words {e : Expr} {t : Operator.Table} (hreads : e.Reads t)
    (hrest : ∀ w ∈ rest.head?, w.kind ≠ .association) : Unlabelled (e.words ++ rest) := by
  intro w hw hname w' hw'
  obtain ⟨v, hv⟩ | ⟨v, more, hmore⟩ | ⟨v, more, hmore, hplain⟩ := e.words_cases hreads
  · rw [hv] at hw'
    exact hrest w' (List.head?_eq_getElem?.trans hw')
  · rw [hmore] at hw'
    cases hw'
    nofun
  · rw [hmore] at hw
    cases hw
    rw [hname] at hplain
    cases hplain

theorem kind_of_separator {kind : Token.Kind} (h : rest.head? = some Word.separator)
    (hkind : Token.Kind.separator ≠ kind) : ∀ w ∈ rest.head?, w.kind ≠ kind := by
  rw [h]
  rintro w ⟨⟩
  exact hkind

theorem stops_of_separator {t : Operator.Table} (h : rest.head? = some Word.separator) :
    Stops t rest := by
  intro w hw
  rw [h] at hw
  cases hw
  exact ⟨nofun, nofun⟩

theorem outputSignal_mirrors {name : String} (hname : IsName name) (hwords : k.words = .ofName name :: rest) :
    Mirrors g k (k.on rest) (outputSignal : Run (Session σ) Expr) (Call.useSignal name).dictate := by
  unfold outputSignal
  refine .after (fun _ hk => name_enacts (hk.trans hwords) hname.isTextIdentifier) ?_
  rintro _ rfl
  exact tell_mirrors (.useSignal _)

theorem instantiation_mirrors {reference : String} {inputs : List Binding}
    {outputs : List (Option String × String)} {channels : List String}
    (hfits : (Draft.instantiation reference inputs outputs channels).Fits k.table)
    (hwords : k.words = ⟨.instantiate, "instantiate", none⟩ :: .ofName reference ::
      (Word.announced (.plain "in") (inputs.map fun b => Word.labelled b.label ++ b.value.words) ++
        (Word.announced (.plain "out") (outputs.map fun b => Word.labelled b.1 ++ [.ofName b.2]) ++
          (Word.announced ⟨.bus, "bus", none⟩ (Draft.nameWords channels) ++ rest))))
    (hrest : ∀ w ∈ rest.head?, w.kind = .executor) :
    Mirrors g k (k.on rest) (instantiation : Run (Session σ) Statement)
      (Draft.instantiation reference inputs outputs channels).dictate := by
  obtain ⟨hreference, hinputs, houtputs, hchannels, hfree⟩ := hfits
  have hend : ∀ w ∈ rest.head?, w.kind ≠ .separator ∧ w.kind ≠ .bus := by
    intro w hw
    rw [hrest w hw]
    exact ⟨nofun, nofun⟩
  have hout : ∀ w ∈ (Word.announced ⟨.bus, "bus", none⟩ (Draft.nameWords channels) ++ rest).head?,
      (w.kind ≠ .separator ∧ (w.kind = .identifier → w.text ≠ "out")) ∧ w.kind ≠ .association := by
    refine head_announced ⟨⟨nofun, nofun⟩, nofun⟩ fun w hw => ?_
    rw [hrest w hw]
    exact ⟨⟨nofun, nofun⟩, nofun⟩
  have hin : ∀ w ∈ (Word.announced (.plain "out")
      (outputs.map fun b => Word.labelled b.1 ++ [.ofName b.2]) ++
      (Word.announced ⟨.bus, "bus", none⟩ (Draft.nameWords channels) ++ rest)).head?,
      (w.kind ≠ .separator ∧ (w.kind = .identifier → w.text ≠ "in")) ∧ w.kind ≠ .association := by
    refine head_announced ⟨⟨nofun, fun _ => by decide⟩, nofun⟩
      (head_announced ⟨⟨nofun, nofun⟩, nofun⟩ fun w hw => ?_)
    rw [hrest w hw]
    exact ⟨⟨nofun, nofun⟩, nofun⟩
  -- The word for outputs is a name, so that it has to be no operator.
  have hstops : Stops k.table (Word.announced (.plain "out")
      (outputs.map fun b => Word.labelled b.1 ++ [.ofName b.2]) ++
      (Word.announced ⟨.bus, "bus", none⟩ (Draft.nameWords channels) ++ rest)) := by
    have hnone := Operator.Table.get?_of_not_contains hfree
    exact head_announced ⟨nofun, fun _ => ⟨hnone _, hnone _⟩⟩
      (head_announced ⟨nofun, nofun⟩ (stops_of_executor hrest))
  unfold instantiation
  refine .after (fun _ hk => (expect_enacts (hk.trans hwords) rfl)) fun _ _ => ?_
  refine .after (fun _ hk => entityReference_enacts hk hreference.isTextIdentifier) ?_
  rintro _ rfl
  refine (bindingsAfterWord_mirrors (k := k.on _) (fun b hb rest' hrest' => ?_) rfl
    fun w hw => (hin w hw).1).bind fun inputs' => ?_
  · obtain ⟨-, hvalue⟩ := hinputs b hb
    have hbehind : ∀ w ∈ rest'.head?, w.kind ≠ .association := by
      rcases hrest' with hcomma | rfl
      · exact kind_of_separator hcomma nofun
      · exact fun w hw => (hin w hw).2
    refine ⟨unlabelled_words (Expr.reads_of_written hvalue) hbehind, fun k₁ htable hk => ?_⟩
    have htable : k₁.table = k.table := htable
    refine written_mirrors (htable ▸ hvalue) hk ?_
    rw [htable]
    rcases hrest' with hcomma | rfl
    · exact stops_of_separator hcomma
    · exact hstops
  refine (bindingsAfterWord_mirrors (k := k.on _) (fun b hb rest' hrest' => ?_) rfl
    fun w hw => (hout w hw).1).bind fun outputs' => ?_
  · have hbehind : ∀ w ∈ rest'.head?, w.kind ≠ .association := by
      rcases hrest' with hcomma | rfl
      · exact kind_of_separator hcomma nofun
      · exact fun w hw => (hout w hw).2
    refine ⟨?_, fun k₁ _ hk => outputSignal_mirrors (houtputs b hb).2 hk⟩
    exact fun w _ _ w' hw' => hbehind w' (List.head?_eq_getElem?.trans hw')
  refine .after (fun _ hk => busNames_enacts hchannels hk hend) ?_
  rintro _ rfl
  refine (Mirrors.mapM fun name _ => tell_mirrors (.useBus name)).bind fun channels' => ?_
  refine (tell_mirrors (.instantiate _ inputs' outputs' channels')).bind fun nodes => ?_
  exact .pure (Statement.instantiation _ nodes)

/-! ### Statements -/

/-- What a statement begins with. -/
def beginsStatement (kind : Token.Kind) : Bool :=
  kind.isKeyword || kind.beginsOperand

theorem ne_of_beginsStatement {kind other : Token.Kind} (h : beginsStatement kind = true)
    (hother : beginsStatement other = false) : kind ≠ other := by
  rintro rfl
  rw [h] at hother
  cases hother

theorem exists_draftWords {b : Bool} {d : Draft} {t : Operator.Table} (h : d.Fits t) :
    ∃ w words, d.words b = w :: words ∧ beginsStatement w.kind = true := by
  cases d with
  | entity _ | architecture _ _ _ | instantiation _ _ _ _ | signals _ | buses _ => exact ⟨_, _, rfl, rfl⟩
  | assignment targets value =>
    obtain ⟨hne, hnames, -⟩ := h
    obtain ⟨n, more, rfl⟩ := List.exists_cons_of_ne_nil hne
    refine ⟨_, _, rfl, ?_⟩
    have hname := (hnames n List.mem_cons_self).isTextIdentifier
    cases hkind : (Word.ofName n).kind <;> simp_all [beginsStatement, Token.Kind.beginsOperand,
      Token.Kind.isTextIdentifier, Token.Kind.isIdentifier]
  | expression value =>
    obtain ⟨w, words, he, hw⟩ := value.exists_words (Expr.reads_of_written h)
    exact ⟨w, words, he, by unfold beginsStatement; rw [hw, Bool.or_true]⟩

/-- Whoever reads the words of the draft so tells the netlist what it says. -/
def Recites (g : Stage) (brief : Bool) (read : Run (Session σ) Statement) (d : Draft) : Prop :=
  ∀ {k : Script} {rest : List Word}, d.Fits k.table → k.words = d.words brief ++ rest →
    (∀ w ∈ rest.head?, w.kind = .executor) →
    Mirrors g k { k.on rest with table := d.after k.table } read d.dictate

/-- Dictates several statements behind those that have been read before. -/
def dictateBehind (body : List Draft) (before : List Statement) : Dictation (List Statement) :=
  (before.reverse ++ ·) <$> Draft.dictateAll body

theorem dictateBehind_nil (before : List Statement) :
    dictateBehind [] before = pure before.reverse := by
  unfold dictateBehind Draft.dictateAll
  rw [map_pure, List.append_nil]

theorem dictateBehind_cons {d : Draft} {body : List Draft} (before : List Statement) :
    dictateBehind (d :: body) before =
      ((· :: before) <$> d.dictate) >>= dictateBehind body := by
  unfold dictateBehind
  rw [Draft.dictateAll]
  simp only [map_eq_pure_bind, bind_assoc, pure_bind, List.reverse_cons, List.append_assoc,
    List.cons_append, List.nil_append]

/-- One round of the loop over the statements of a body. -/
def bodyRound {σ : Type} [Source σ Char] (read : Run (Session σ) Statement) (before : List Statement) :
    Run (Session σ) (Run.Round (List Statement) (List Statement)) := do
  skip .executor
  if ← accept (.closing .set) then
    return .done before.reverse
  let before := (← read) :: before
  if ← accept .executor then
    return .again before
  else
    expect (.closing .set)
    return .done before.reverse

theorem bodyBy_eq {σ : Type} [Source σ Char] (read : Run (Session σ) Statement) :
    bodyBy read = Run.iterate Session.remaining [] (bodyRound read) := rfl

theorem skip_absent {kind : Token.Kind} (hwords : k.words = rest)
    (hrest : ∀ w ∈ rest.head?, w.kind ≠ kind) (hend : kind ≠ .endOfFile) :
    Enacts g k (fun _ => True) (k.on rest) (skip kind : Run (Session σ) Unit) :=
  (skip_enacts (Script.kindAt_zero_ne (hwords ▸ hrest) hend)).on hwords

variable {brief : Bool} {readStatement : Run (Session σ) Statement}

theorem body_loop {body : List Draft} (hread : ∀ d ∈ body, Recites g brief readStatement d)
    (hfits : Draft.FitsAll k.table body)
    (hwords : k.words = Draft.wordsAll brief body ++ .closing .set :: rest) (before : List Statement) :
    MirrorsLoop g k { k.on rest with table := Draft.afterAll k.table body } (bodyRound readStatement) before
      (dictateBehind body before) := by
  induction body generalizing k before with
  | nil =>
    rw [dictateBehind_nil]
    refine .done ?_
    rw [map_pure]
    have hfirst : ∀ w ∈ (Word.closing .set :: rest).head?, w.kind ≠ .executor := by
      rintro w ⟨⟩
      nofun
    unfold bodyRound
    refine .after (fun _ hk => skip_absent (hk.trans hwords) hfirst nofun) fun _ _ => ?_
    refine .after (fun _ hk => accept_enacts (w := .closing .set) hk rfl) ?_
    rintro _ rfl
    exact .pure _
  | cons d body ih =>
    obtain ⟨hd, hbody⟩ := hfits
    have hsplit : k.words = d.words brief ++ .executor :: (Draft.wordsAll brief body ++ .closing .set :: rest) := by
      simp [hwords, Draft.wordsAll]
    have hfirst : ∀ kind, beginsStatement kind = false → ∀ w ∈ k.words.head?, w.kind ≠ kind := by
      obtain ⟨w, words, hwords', hw⟩ := exists_draftWords (b := brief) hd
      rw [hsplit, hwords']
      rintro kind hkind _ ⟨⟩
      exact ne_of_beginsStatement hw hkind
    have hloop := ih (k := { k.on (Draft.wordsAll brief body ++ .closing .set :: rest) with
      table := d.after k.table }) (fun d' hd' => hread d' (List.mem_cons_of_mem d hd')) hbody rfl
    rw [dictateBehind_cons]
    refine .again ?_ hloop
    rw [Functor.map_map, map_eq_pure_bind]
    unfold bodyRound
    refine .after (fun _ hk => skip_absent hk (hfirst _ rfl) nofun) fun _ _ => ?_
    refine .after (fun _ hk => accept_absent hk (hfirst _ rfl) nofun) ?_
    rintro _ rfl
    refine (hread d List.mem_cons_self (k := k.on k.words) hd hsplit (by rintro w ⟨⟩; rfl)).bind fun s => ?_
    refine .after (fun _ hk => accept_enacts (w := .executor) hk rfl) ?_
    rintro _ rfl
    exact .pure _

theorem architecture_mirrors {label reference : String} {body : List Draft}
    (hread : ∀ d ∈ body, Recites g brief readStatement d)
    (hfits : (Draft.architecture label reference body).Fits k.table)
    (hwords : k.words = .ofName label :: .ofName reference :: .opening .set ::
      (Draft.wordsAll brief body ++ .closing .set :: rest)) :
    Mirrors g k { k.on rest with table := Draft.afterAll k.table body } (architectureBy readStatement)
      (Draft.architecture label reference body).dictate := by
  obtain ⟨hlabel, hreference, hbody⟩ := hfits
  unfold architectureBy
  refine .after (fun _ hk => name_enacts (hk.trans hwords) hlabel.isTextIdentifier) ?_
  rintro _ rfl
  refine .after (fun _ hk => entityReference_enacts hk hreference.isTextIdentifier) ?_
  rintro _ rfl
  refine .after (fun _ hk => expect_enacts (w := .opening .set) hk rfl) fun _ _ => ?_
  refine (tell_mirrors (.beginArchitecture _ _)).bind fun _ => ?_
  have hloop := body_loop (k := k.on (Draft.wordsAll brief body ++ .closing .set :: rest)) hread hbody rfl []
  unfold dictateBehind at hloop
  simp only [List.reverse_nil, List.nil_append, id_map'] at hloop
  rw [bodyBy_eq]
  refine hloop.iterate.bind fun statements => ?_
  exact (tell_mirrors .endArchitecture).bind fun _ => .pure (Statement.architecture _ _ statements)

theorem peekKind_first {words : List Word} (hwords : k.words = w :: words) :
    Enacts g k (· = w.kind) (k.on (w :: words)) (peekKind : Run (Session σ) Token.Kind) := by
  have hfirst : k.kindAt 0 = w.kind := by rw [Script.kindAt, hwords]; rfl
  rw [← hfirst]
  exact peekKind_enacts.on hwords

/-- A statement that begins with an operand has no reserved word in front of it. -/
theorem statementBy_operand {words : List Word} {y : Dictation Statement} (hwords : k.words = w :: words)
    (hw : w.kind.beginsOperand = true)
    (h : Mirrors g (k.on (w :: words)) k' (assignmentOrExpression : Run (Session σ) Statement) y) :
    Mirrors g k k' (statementBy readStatement) y := by
  unfold statementBy
  refine .after (fun _ hk => peekKind_first (hk.trans hwords)) ?_
  rintro _ rfl
  cases hkind : w.kind <;> first
    | exact h
    | rw [hkind] at hw; cases hw

theorem statementBy_expression {e : Expr} {y : Dictation Expr} (hreads : e.Reads k.table)
    (hwords : k.words = e.words ++ rest) (hrest : ∀ w ∈ rest.head?, w.kind = .executor)
    (hread : Mirrors g (k.on (e.words ++ rest)) (k.on rest) (expression : Run (Session σ) Expr) y) :
    Mirrors g k (k.on rest) (statementBy readStatement) (do return .expression (← y)) := by
  obtain ⟨w, words, he, hbegins⟩ := e.exists_words hreads
  have hsplit : e.words ++ rest = w :: (words ++ rest) := by rw [he, List.cons_append]
  refine statementBy_operand (hwords.trans hsplit) hbegins ?_
  rw [← hsplit]
  exact expressionStatement_mirrors (k := k.on _) hreads rfl hrest hread

/-- **Reading a draft is dictating it**, however deep statements may stand inside each other. -/
theorem statement_recites (brief : Bool) (hg : ∀ t, g.tables t) (depth : Nat) (d : Draft) :
    Recites g brief (statement depth : Run (Session σ) Statement) d := by
  induction depth generalizing d with
  | zero => exact fun _ _ _ _ _ _ _ _ _ _ _ => .inl rfl
  | succ depth ih =>
    intro k rest hfits hwords hrest
    show Mirrors g k _ (statementBy (statement depth)) _
    cases d with
    | entity e =>
      have hsplit : k.words = ⟨.define, "define", none⟩ :: .plain "entity" :: .ofName e.label ::
          .literal e.symbol :: .plain e.form.name :: (Draft.precedenceWords brief e.precedence ++
            (Word.announced (.plain "in") (Draft.nameWords e.inputs) ++
              (Word.announced (.plain "out") (Draft.nameWords e.outputs) ++
                (Word.announced ⟨.bus, "bus", none⟩ (Draft.nameWords e.buses) ++ rest)))) := by
        simp [hwords, Draft.words]
      unfold statementBy
      refine .after (fun _ hk => peekKind_first (hk.trans hsplit)) ?_
      rintro _ rfl
      refine .after (fun _ hk => consume_enacts hk) fun _ _ => ?_
      unfold definitionBy
      refine .after (fun _ hk => acceptWord_enacts hk) ?_
      rintro _ rfl
      exact entityDefinition_mirrors (k := k.on _) hfits rfl hrest (hg _)
    | architecture label reference body =>
      have hsplit : k.words = ⟨.define, "define", none⟩ :: .plain "architecture" :: .ofName label ::
          .ofName reference :: .opening .set ::
            (Draft.wordsAll brief body ++ .closing .set :: rest) := by
        simp [hwords, Draft.words]
      unfold statementBy
      refine .after (fun _ hk => peekKind_first (hk.trans hsplit)) ?_
      rintro _ rfl
      refine .after (fun _ hk => consume_enacts hk) fun _ _ => ?_
      unfold definitionBy
      refine .after (fun _ hk => acceptWord_absent hk (by rintro _ ⟨⟩ _; decide)) ?_
      rintro _ rfl
      refine .after (fun _ hk => acceptWord_enacts hk) ?_
      rintro _ rfl
      exact architecture_mirrors (k := k.on _) (fun d _ => ih d) hfits rfl
    | instantiation reference inputs outputs channels =>
      have hsplit : k.words = ⟨.instantiate, "instantiate", none⟩ :: .ofName reference ::
          (Word.announced (.plain "in") (inputs.map fun b => Word.labelled b.label ++ b.value.words) ++
            (Word.announced (.plain "out") (outputs.map fun b => Word.labelled b.1 ++ [.ofName b.2]) ++
              (Word.announced ⟨.bus, "bus", none⟩ (Draft.nameWords channels) ++ rest))) := by
        simp [hwords, Draft.words]
      unfold statementBy
      refine .after (fun _ hk => peekKind_first (hk.trans hsplit)) ?_
      rintro _ rfl
      exact instantiation_mirrors (k := k.on _) hfits rfl hrest
    | signals all | buses all =>
      have hsplit : k.words = _ :: (Word.separated (Draft.nameWords all) ++ rest) := hwords
      unfold statementBy
      refine .after (fun _ hk => peekKind_first (hk.trans hsplit)) ?_
      rintro _ rfl
      refine .after (fun _ hk => consume_enacts hk) fun _ _ => ?_
      exact declaration_mirrors (fun _ => tell_mirrors _) hfits.1 hfits.2 rfl hrest _
    | assignment targets value =>
      obtain ⟨n, more, rfl⟩ := List.exists_cons_of_ne_nil hfits.1
      have hname := (hfits.2.1 n List.mem_cons_self).isTextIdentifier
      have hbegins : (Word.ofName n).kind.beginsOperand = true := by
        cases hkind : (Word.ofName n).kind <;> simp_all [Token.Kind.beginsOperand,
          Token.Kind.isTextIdentifier, Token.Kind.isIdentifier]
      have hsplit : k.words = Word.separated (Draft.nameWords (n :: more)) ++
          ⟨.assignment, "<-", none⟩ :: (value.words ++ rest) := by
        simp [hwords, Draft.words]
      refine statementBy_operand hsplit hbegins ?_
      exact assignment_mirrors (k := k.on _) hfits rfl hrest
    | expression value =>
      exact statementBy_expression (Expr.reads_of_written hfits) hwords hrest
        (written_mirrors (k := k.on _) hfits rfl (stops_of_executor hrest))

/-! ### Programs -/

theorem peekKind_end (hwords : k.words = []) :
    Enacts g k (· = .endOfFile) (k.on []) (peekKind : Run (Session σ) Token.Kind) := by
  have hfirst : k.kindAt 0 = .endOfFile := by rw [Script.kindAt, hwords]; rfl
  rw [← hfirst]
  exact peekKind_enacts.on hwords

/-- A statement and its end, which is an executor or the end of the input. -/
theorem parseStatement_mirrors {words ending : List Word} {t : Operator.Table} {y : Dictation Statement}
    (hwords : k.words = w :: words) (hbegins : beginsStatement w.kind = true)
    (hending : ending = .executor :: rest ∨ ending = [] ∧ rest = [])
    (hread : ∀ depth, Mirrors g (k.on (w :: words)) { k.on ending with table := t }
      (statement depth : Run (Session σ) Statement) y) :
    Mirrors g k { k.on rest with table := t } (parseStatement : Run (Session σ) (Option Statement))
      (some <$> y) := by
  have hfirst : ∀ w' ∈ (w :: words).head?, w'.kind ≠ .executor := by
    rintro w' ⟨⟩
    exact ne_of_beginsStatement hbegins rfl
  rw [map_eq_pure_bind]
  unfold parseStatement
  refine .after (fun _ hk => skip_absent (hk.trans hwords) hfirst nofun) fun _ _ => ?_
  refine .after (fun _ hk => peekKind_first hk) ?_
  rintro _ rfl
  rw [if_neg (ne_of_beginsStatement hbegins rfl)]
  refine .get fun s => (hread (s.remaining + 1)).bind fun s => ?_
  rcases hending with rfl | ⟨rfl, rfl⟩
  · refine .after (fun _ hk => accept_enacts (w := .executor) hk rfl) ?_
    rintro _ rfl
    exact .pure (some s)
  · have hnone : ∀ w' ∈ ([] : List Word).head?, w'.kind ≠ .executor := nofun
    refine .after (fun _ hk => accept_absent hk hnone nofun) ?_
    rintro _ rfl
    refine .after (fun _ hk => peekKind_end hk) ?_
    rintro _ rfl
    exact .pure (some s)

/-- Behind the last statement there is none. -/
theorem parseStatement_none (hwords : k.words = []) :
    Enacts g k (· = none) (k.on []) (parseStatement : Run (Session σ) (Option Statement)) := by
  have hskip : Enacts g k (fun _ => True) (k.on []) (skip .executor : Run (Session σ) Unit) :=
    skip_absent hwords nofun nofun
  unfold parseStatement
  refine hskip.bind fun _ _ => (peekKind_end (k := k.on []) rfl).then_ ?_
  exact .pure rfl

/-- One round of the loop over statements. -/
def programRound {σ : Type} [Source σ Char] (before : List Statement) :
    Run (Session σ) (Run.Round (List Statement) (List Statement)) := do
  match ← parseStatement with
  | some s => return .again (s :: before)
  | none => return .done before.reverse

/-- Behind the last statement the loop ends. -/
theorem program_end (hwords : k.words = []) (before : List Statement) :
    MirrorsLoop g k (k.on [])
      (programRound : List Statement → Run (Session σ) (Run.Round (List Statement) (List Statement)))
      before (Pure.pure before.reverse) := by
  refine .done ?_
  rw [map_pure]
  unfold programRound
  refine .after (fun _ hk => parseStatement_none (hk.trans hwords)) ?_
  rintro _ rfl
  exact .pure _

theorem program_loop (hg : ∀ t, g.tables t) {program : List Draft} (hfits : Draft.FitsAll k.table program)
    (hwords : k.words = Draft.wordsAll brief program) (before : List Statement) :
    MirrorsLoop g k { k.on [] with table := Draft.afterAll k.table program }
      (programRound : List Statement → Run (Session σ) (Run.Round (List Statement) (List Statement)))
      before (dictateBehind program before) := by
  induction program generalizing k before with
  | nil =>
    rw [dictateBehind_nil]
    exact program_end hwords before
  | cons d program ih =>
    obtain ⟨hd, hprogram⟩ := hfits
    obtain ⟨w, words, hfirst, hbegins⟩ := exists_draftWords (b := brief) hd
    have hsplit : k.words = w :: (words ++ .executor :: Draft.wordsAll brief program) := by
      simp [hwords, Draft.wordsAll, hfirst]
    have hwords' : (k.on (w :: (words ++ .executor :: Draft.wordsAll brief program))).words =
        d.words brief ++ .executor :: Draft.wordsAll brief program := by
      simp [Script.on, hfirst]
    have hending : ∀ w' ∈ (Word.executor :: Draft.wordsAll brief program).head?, w'.kind = .executor := by
      rintro w' ⟨⟩
      rfl
    have hread (depth : Nat) := statement_recites (σ := σ) brief hg depth d (k := k.on _) hd hwords' hending
    rw [dictateBehind_cons]
    refine .again ?_ (ih (k := { k.on (Draft.wordsAll brief program) with table := d.after k.table })
      hprogram rfl)
    rw [Functor.map_map, map_eq_pure_bind]
    exact (parseStatement_mirrors hsplit hbegins (.inl rfl) hread).bind_map fun s => .pure _

/-- **A program is read as it is dictated**, wherever it fits. -/
theorem parseAll_mirrors (hg : ∀ t, g.tables t) {program : List Draft}
    (hfits : Draft.FitsAll k.table program) (hwords : k.words = Draft.wordsAll brief program) :
    Mirrors g k { k.on [] with table := Draft.afterAll k.table program }
      (parseAll : Run (Session σ) (List Statement)) (Draft.dictateAll program) := by
  have hloop := program_loop (σ := σ) hg hfits hwords []
  unfold dictateBehind at hloop
  simp only [List.reverse_nil, List.nil_append, id_map'] at hloop
  exact hloop.iterate

end Parser

end Dataflow
