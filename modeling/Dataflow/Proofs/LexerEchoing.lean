import Dataflow.Lexer.Scan
import Dataflow.Proofs.Abreast
import Dataflow.Proofs.Bordering

/-!
# Dataflow.Proofs.LexerEchoing

**An executor shuts off what is behind it.** Two lexers are before the same text, which ends with an executor;
behind that, one of them meets the end, and the other whatever it likes. Where the one that meets the end scans
a token, the other one scans the same token (`next_echoes`). There is one lemma for each rule.

A rule looks at most one character beyond a character that it has accepted, and takes no executor unless it is
the rule for executors or for literals. So nothing looks beyond the border, which is right behind the last
executor, as long as no registered symbol goes on with an executor (`Tame`). A literal may run over the
executor; then it runs into the end.
-/

namespace Dataflow.Lexer

open Reading Text Run

/-- No registered symbol has an executor behind its first character. -/
def Tame (t : Operator.Table) : Prop := ∀ symbol ∈ t.symbols, ';' ∉ symbol.toList.tail

instance (t : Operator.Table) : Decidable (Tame t) := inferInstanceAs (Decidable (∀ symbol ∈ t.symbols, _))

/-- The text ends with an executor. -/
def Concluded (text : List Char) : Prop := ∃ front, text = front ++ [';']

namespace Concluded

variable {c : Char} {text : List Char}

theorem ne_nil (h : Concluded text) : text ≠ [] := by
  obtain ⟨front, rfl⟩ := h
  simp

theorem exists_cons (h : Concluded text) : ∃ c rest, text = c :: rest :=
  List.exists_cons_of_ne_nil h.ne_nil

/-- Only the last executor ends the text. -/
theorem tail (h : Concluded (c :: text)) (hc : c ≠ ';') : Concluded text := by
  obtain ⟨front, hfront⟩ := h
  cases front with
  | nil =>
    cases hfront
    exact absurd rfl hc
  | cons c' front =>
    cases hfront
    exact ⟨front, rfl⟩

theorem tail_or (h : Concluded (c :: text)) : text = [] ∨ Concluded text := by
  obtain ⟨front, hfront⟩ := h
  cases front with
  | nil =>
    cases hfront
    exact .inl rfl
  | cons c' front =>
    cases hfront
    exact .inr ⟨front, rfl⟩

theorem drop {n : Nat} (h : Concluded text) (hn : n < text.length) : Concluded (text.drop n) := by
  obtain ⟨front, rfl⟩ := h
  rw [List.length_append, List.length_singleton] at hn
  exact ⟨front.drop n, List.drop_append_of_le_length (Nat.le_of_lt_succ hn)⟩

theorem getElem?_last (h : Concluded text) {k : Nat} (hk : k + 1 = text.length) : text[k]? = some ';' := by
  obtain ⟨front, rfl⟩ := h
  rw [List.length_append, List.length_singleton, Nat.succ_inj] at hk
  rw [hk, List.getElem?_append_right (Nat.le_refl _), Nat.sub_self]
  rfl

end Concluded

section

variable {σ τ : Type} [Source σ Char] [Source τ Char]

theorem ok_of_onInput {σ β : Type} {x : Run (Cursor σ Char) β} {l l₁ : Lexer σ} {b : β}
    (h : onInput x l = .ok b l₁) : ∃ input, x l.input = .ok b input ∧ l₁ = { l with input } := by
  cases hx : x l.input with
  | error e input =>
    rw [onInput_error hx] at h
    cases h
  | ok b' input =>
    rw [onInput_ok hx] at h
    cases h
    exact ⟨input, rfl, rfl⟩

/-- Two lexers with the same characters ahead of them, up to the border. -/
structure Level (J : List Char → σ → τ → Prop) (ahead : List Char) (held : List (List Char)) (l : Lexer σ)
    (l' : Lexer τ) : Prop where
  dialect : l.dialect = {} ∧ l'.dialect = {}
  table : l.table = l'.table
  tame : Tame l'.table
  position : l.position = l'.position
  saved : l.saved = l'.saved
  input : l.input.Level endOfInput J ahead held l'.input

variable {J : List Char → σ → τ → Prop} {ahead : List Char} {held : List (List Char)} {c₀ c₁ : Char}

theorem Level.of_input {l : Lexer σ} {l' : Lexer τ} (h : Level J ahead held l l') {input : Cursor σ Char}
    {input' : Cursor τ Char} {ahead' : List Char} {held' : List (List Char)}
    (hinput : input.Level endOfInput J ahead' held' input') :
    Level J ahead' held' { l with input } { l' with input := input' } :=
  ⟨h.dialect, h.table, h.tame, h.position, h.saved, hinput⟩

/-- There is an executor ahead of the lexers, in front of the border. -/
def Fenced (J : List Char → σ → τ → Prop) (held : List (List Char)) (l : Lexer σ) (l' : Lexer τ) : Prop :=
  ∃ ahead, Concluded ahead ∧ Level J ahead held l l'

theorem fenced_echoes {β : Type} {Q : β → Lexer σ → Lexer τ → Prop} {x : Run (Lexer σ) β}
    {x' : Run (Lexer τ) β} (h : ∀ ahead, Concluded ahead → Echoes never (Level J ahead held) Q x x') :
    Echoes never (Fenced J held) Q x x' :=
  .exists_of fun ahead => .assume fun hends => h ahead hends

variable (hJ : Source.Shares endOfInput J)

include hJ

/-! ### Steps -/

theorem Fenced.remaining_le {l : Lexer σ} {l' : Lexer τ} (h : Fenced J held l l') :
    l'.remaining ≤ l.remaining := by
  obtain ⟨ahead, -, h⟩ := h
  exact h.input.remaining_le hJ

theorem peek_echoes {k : Nat} (hk : k < ahead.length) : Echoes never (Level J ahead held)
    (fun c l l' => ahead[k]? = some c ∧ Level J ahead held l l') (peek k) (peek k) := by
  refine .of_run fun l l' h c t' hx => ?_
  obtain ⟨input', hinput', rfl⟩ := ok_of_onInput hx
  obtain ⟨hc, input, hinput, hlevel⟩ := h.input.lookahead hJ hk hinput'
  exact ⟨_, onInput_ok hinput, hc, h.of_input hlevel⟩

theorem peek_first : Echoes never (Level J (c₀ :: ahead) held)
    (fun c l l' => c = c₀ ∧ Level J (c₀ :: ahead) held l l') (peek 0) (peek 0) :=
  (peek_echoes hJ (Nat.zero_lt_succ _)).weaken fun _ _ _ h => ⟨(Option.some.inj h.1).symm, h.2⟩

theorem peek_second : Echoes never (Level J (c₀ :: c₁ :: ahead) held)
    (fun c l l' => c = c₁ ∧ Level J (c₀ :: c₁ :: ahead) held l l') (peek 1) (peek 1) :=
  (peek_echoes hJ (by simp)).weaken fun _ _ _ h => ⟨(Option.some.inj h.1).symm, h.2⟩

/-- No arrow begins with an executor, so that it does not matter what is at the border. -/
theorem arrow_bind {β : Type} {Q : β → Lexer σ → Lexer τ → Prop} (hends : Concluded ahead) {k : Nat}
    (hk : ahead[k]? = some c₀) {f : Option Token.Kind → Run (Lexer σ) β}
    {g : Option Token.Kind → Run (Lexer τ) β}
    (hf : ∀ arrow, (c₀ = ';' → arrow = none) → Echoes never (Level J ahead held) Q (f arrow) (g arrow)) :
    Echoes never (Level J ahead held) Q (peek (k + 1) >>= fun c => f (arrow? c₀ c))
      (peek (k + 1) >>= fun c => g (arrow? c₀ c)) := by
  have hlt := (List.getElem?_eq_some_iff.1 hk).1
  have hnone : ∀ c, arrow? ';' c = none := fun c => by simp [arrow?]
  by_cases hinside : k + 1 < ahead.length
  · exact (peek_echoes hJ hinside).bind fun c => .assume fun _ => hf _ fun hc => by rw [hc, hnone]
  · have hborder : k + 1 = ahead.length := by omega
    rw [hends.getElem?_last hborder] at hk
    cases hk
    simp only [hnone]
    have hseen : Echoes never (Level J ahead held) (fun _ => Level J ahead held)
        ((fun _ => ()) <$> (peek (k + 1) : Run (Lexer σ) Char)) ((fun _ => ()) <$> peek (k + 1)) := by
      refine .of_run fun l l' h u t' hx => ?_
      rw [map_eq_pure_bind, bind_apply] at hx ⊢
      cases hpeek : (peek (k + 1) : Run (Lexer τ) Char) l' with
      | error e t =>
        rw [hpeek] at hx
        cases hx
      | ok c' t =>
        rw [hpeek] at hx
        cases hx
        obtain ⟨input', hinput', rfl⟩ := ok_of_onInput hpeek
        rw [hborder] at hinput'
        obtain ⟨-, -, c, input, hinput, hlevel⟩ := h.input.lookahead_border hJ hinput'
        have hfirst : (peek (k + 1) : Run (Lexer σ) Char) l = .ok c { l with input } := by
          rw [hborder]
          exact onInput_ok hinput
        rw [hfirst]
        exact ⟨_, rfl, h.of_input hlevel⟩
    have hrest := hseen.bind fun _ => hf none fun _ => rfl
    rw [bind_map_left, bind_map_left] at hrest
    exact hrest

theorem bump_echoes : Echoes never (Level J (c₀ :: ahead) held)
    (fun c l l' => c = c₀ ∧ Level J ahead held l l') bump bump := by
  refine Echoes.bind (Q := fun c l l' => c = c₀ ∧ Level J ahead held l l') (.of_run ?_) fun c => ?_
  · intro l l' h c t' hx
    obtain ⟨input', hinput', rfl⟩ := ok_of_onInput hx
    obtain ⟨hc, input, hinput, hlevel⟩ := h.input.consume hJ hinput'
    exact ⟨_, onInput_ok hinput, hc, h.of_input hlevel⟩
  · refine .assume fun hc => ?_
    by_cases hend : c ≠ endOfInput
    · rw [if_pos hend, if_pos hend]
      refine .of_run fun l l' h b t' hx => ?_
      cases hx
      refine ⟨_, rfl, hc, h.dialect, h.table, h.tame, ?_, h.saved, h.input⟩
      show l.position.advance c = l'.position.advance c
      rw [h.position]
    · rw [if_neg hend, if_neg hend]
      exact .pure_of fun _ _ h => ⟨hc, h⟩

/-- At the border the second lexer takes the end marker. -/
theorem bump_border {l : Lexer σ} {l' t' : Lexer τ} (h : Level J [] held l l') {c : Char}
    (hx : bump l' = .ok c t') : c = endOfInput := by
  unfold bump at hx
  rw [bind_apply] at hx
  cases hconsume : onInput (Cursor.consume : Run (Cursor τ Char) Char) l' with
  | error e t =>
    rw [hconsume] at hx
    cases hx
  | ok c' t =>
    rw [hconsume] at hx
    obtain ⟨input', hinput', -⟩ := ok_of_onInput hconsume
    obtain rfl := h.input.consume_border hJ hinput'
    by_cases hc : endOfInput ≠ endOfInput
    · exact absurd rfl hc
    · dsimp only at hx
      rw [if_neg hc] at hx
      cases hx
      rfl

omit hJ

theorem mark_echoes : Echoes never (Level J ahead held) (fun _ => Level J ahead (ahead :: held))
    mark mark := by
  refine .of_run fun l l' h u t' hx => ?_
  obtain ⟨input, input', hinput, hinput', hlevel⟩ := h.input.mark
  unfold mark at hx ⊢
  rw [bind_apply, onInput_ok hinput'] at hx
  rw [bind_apply, onInput_ok hinput]
  cases hx
  refine ⟨_, rfl, h.dialect, h.table, h.tame, h.position, ?_, hlevel⟩
  show l.position :: l.saved = l'.position :: l'.saved
  rw [h.position, h.saved]

theorem commit_echoes {held₀ : List Char} : Echoes never (Level J ahead (held₀ :: held))
    (fun _ => Level J ahead held) commit commit := by
  refine .of_run fun l l' h u t' hx => ?_
  obtain ⟨input, input', hinput, hinput', hlevel⟩ := h.input.commit
  unfold commit at hx ⊢
  rw [bind_apply, onInput_ok hinput'] at hx
  rw [bind_apply, onInput_ok hinput]
  cases hx
  exact ⟨_, rfl, h.dialect, h.table, h.tame, h.position, congrArg List.tail h.saved, hlevel⟩

theorem rollback_echoes {held₀ : List Char} : Echoes never (Level J ahead (held₀ :: held))
    (fun _ => Level J held₀ held) rollback rollback := by
  refine .of_run fun l l' h u t' hx => ?_
  obtain ⟨input, input', hinput, hinput', hlevel⟩ := h.input.rollback
  unfold rollback at hx ⊢
  rw [bind_apply, onInput_ok hinput'] at hx
  rw [bind_apply, onInput_ok hinput]
  cases hx
  refine ⟨_, rfl, h.dialect, h.table, h.tame, ?_, congrArg List.tail h.saved, hlevel⟩
  show l.saved.head?.getD l.position = l'.saved.head?.getD l'.position
  rw [h.saved, h.position]

include hJ

/-! ### Parts of tokens -/

omit hJ in
theorem tokenFrom_echoes (start : Position) (kind : Token.Kind) (text : List Char) :
    Echoes never (Level J ahead held) (fun _ => Level J ahead held) (tokenFrom start kind text)
      (tokenFrom start kind text) := by
  refine .get fun l l' h => ?_
  rw [h.position]
  exact .pure _

omit hJ in
theorem tokenFrom_fenced (start : Position) (kind : Token.Kind) (text : List Char) :
    Echoes never (Fenced J held) (fun _ => Fenced J held) (tokenFrom start kind text)
      (tokenFrom start kind text) :=
  fenced_echoes fun ahead hends =>
    (tokenFrom_echoes start kind text).weaken fun _ _ _ h => ⟨ahead, hends, h⟩

/-- A character that is no executor is taken. -/
theorem bump_fenced (hends : Concluded (c₀ :: ahead)) (hc : c₀ ≠ ';') :
    Echoes never (Level J (c₀ :: ahead) held) (fun c l l' => c = c₀ ∧ Fenced J held l l') bump bump :=
  (bump_echoes hJ).weaken fun _ _ _ h => ⟨h.1, ahead, hends.tail hc, h.2⟩

theorem bumps_echoes {n : Nat} (hn : n ≤ ahead.length) : Echoes never (Level J ahead held)
    (fun _ => Level J (ahead.drop n) held) (bumps n) (bumps n) := by
  induction n generalizing ahead with
  | zero => exact .pure _
  | succ n ih =>
    obtain ⟨c, rest, rfl⟩ : ∃ c rest, ahead = c :: rest :=
      List.exists_cons_of_length_pos (by omega)
    refine (bump_echoes hJ).bind fun c' => .assume fun _ => ?_
    exact (ih (Nat.le_of_succ_le_succ hn)).bind fun cs => .pure _

theorem single_echoes (start : Position) (kind : Token.Kind) :
    Echoes never (Level J (c₀ :: ahead) held) (fun _ => Level J ahead held) (single start kind)
      (single start kind) :=
  (bumps_echoes hJ (by simp)).bind fun text => tokenFrom_echoes start kind text

/-- No executor is of the class. -/
theorem takeRun_echoes {inClass : Char → Bool} (hclass : inClass ';' = false) :
    Echoes never (Fenced J held) (fun _ => Fenced J held) (takeRun inClass) (takeRun inClass) := by
  refine .iterate (fun _ _ h => h.remaining_le hJ) _ fun taken => fenced_echoes fun ahead hends => ?_
  obtain ⟨c, rest, rfl⟩ := hends.exists_cons
  refine (peek_first hJ).bind fun c' => .assume fun hc' => ?_
  subst hc'
  by_cases hc : inClass c' = true
  · rw [if_pos hc, if_pos hc]
    refine (bump_fenced hJ hends ?_).bind fun b => .assume fun _ => .pure _
    rintro rfl
    rw [hclass] at hc
    cases hc
  · rw [if_neg hc, if_neg hc]
    exact .pure_of fun _ _ h => ⟨_, hends, h⟩

/-! ### Rules -/

/-- A literal takes executors as well. When it takes the last one, it meets the border, where the second lexer
fails. -/
theorem literal_echoes (hends : Concluded ahead) (hquote : ahead.head? = some ({} : Dialect).quote) :
    Echoes never (Level J ahead held) (fun _ => Fenced J held) literal literal := by
  obtain ⟨rest, rfl⟩ := List.head?_eq_some_iff.1 hquote
  refine .get fun l l' h => ?_
  rw [h.position]
  refine (bump_echoes hJ).bind fun quote => .assume fun hfirst => ?_
  subst hfirst
  have hrest : Concluded rest := hends.tail (by decide)
  refine Echoes.bind (Q := fun _ => Fenced J held) ?content fun content => .get fun l l' h => ?_
  case content =>
    refine Echoes.of (P := fun l l' => ∃ ahead, (ahead = [] ∨ Concluded ahead) ∧ Level J ahead held l l') ?_
      fun _ _ h => ⟨rest, .inr hrest, h⟩
    refine .iterate_of (I := fun _ l l' => ∃ ahead, (ahead = [] ∨ Concluded ahead) ∧ Level J ahead held l l')
      (fun l l' ⟨ahead, _, h⟩ => h.input.remaining_le hJ) fun content => ?_
    refine .exists_of fun ahead => .assume fun hahead => ?_
    cases ahead with
    | nil =>
      -- the second lexer takes the end marker here
      refine .of_run fun l l' h b t' hx => ?_
      rw [bind_apply] at hx
      cases hbump : (bump : Run (Lexer τ) Char) l' with
      | error e t =>
        rw [hbump] at hx
        cases hx
      | ok c t =>
        obtain rfl := bump_border hJ h hbump
        rw [hbump] at hx
        dsimp only at hx
        rw [if_pos rfl] at hx
        cases hx
    | cons c rest =>
      have hends : Concluded (c :: rest) := hahead.resolve_left (by simp)
      refine (bump_echoes hJ).bind fun c' => .assume fun hc' => ?_
      subst hc'
      refine .ite (.fail _) ?_
      by_cases hc : c' ≠ ({} : Dialect).quote
      · rw [if_pos hc, if_pos hc]
        exact .pure_of fun _ _ h => ⟨rest, hends.tail_or, h⟩
      · rw [if_neg hc, if_neg hc]
        have hmore : Concluded rest := hends.tail (by
          rw [Decidable.not_not.1 hc]
          decide)
        obtain ⟨c₂, rest₂, rfl⟩ := hmore.exists_cons
        refine (peek_first hJ).bind fun c'' => .assume fun hc'' => ?_
        subst hc''
        by_cases hagain : c'' = ({} : Dialect).quote
        · rw [if_pos hagain, if_pos hagain]
          refine (bump_echoes hJ).bind fun _ => .assume fun _ => .pure_of fun _ _ h =>
            ⟨rest₂, hmore.tail_or, h⟩
        · rw [if_neg hagain, if_neg hagain]
          exact .pure_of fun _ _ h => ⟨_, hmore, h⟩
  obtain ⟨ahead, _, h⟩ := h
  rw [h.position]
  exact .pure _

/-- An exponent is tried in front of a marker, and takes none but signs and digits. -/
theorem exponent_echoes (hends : Concluded (c₀ :: ahead))
    (hmarker : ({} : Dialect).numerals.isExponentMarker c₀ = true) :
    Echoes never (Level J (c₀ :: ahead) held) (fun _ => Fenced J held) exponent exponent := by
  refine .get fun l l' h => ?_
  rw [h.dialect.1, h.dialect.2]
  have hrest : Concluded ahead := hends.tail (by
    rintro rfl
    rw [Parts.isExponentMarker (.inr rfl)] at hmarker
    cases hmarker)
  refine mark_echoes.bind fun _ => (bump_echoes hJ).bind fun marker => .assume fun _ => ?_
  -- what is done behind the sign
  have hdigits : ∀ sign : List Char, Echoes never (Fenced J ((c₀ :: ahead) :: held)) (fun _ => Fenced J held)
      (do
        if (← peek 0).isDigit then
          let digits ← takeRun Char.isDigit
          commit
          return marker :: sign ++ digits
        else
          rollback
          return [] : Run (Lexer σ) (List Char))
      (do
        if (← peek 0).isDigit then
          let digits ← takeRun Char.isDigit
          commit
          return marker :: sign ++ digits
        else
          rollback
          return []) := by
    intro sign
    refine fenced_echoes fun ahead₁ hends₁ => ?_
    refine (peek_echoes hJ (List.length_pos_iff.2 hends₁.ne_nil)).bind fun c => .assume fun _ => ?_
    refine .ite ?_ ?_
    · refine ((takeRun_echoes hJ (by decide)).of fun _ _ h => ⟨ahead₁, hends₁, h⟩).bind fun digits => ?_
      refine fenced_echoes fun ahead₂ hends₂ => commit_echoes.bind fun _ => ?_
      exact .pure_of fun _ _ h => ⟨ahead₂, hends₂, h⟩
    · exact rollback_echoes.bind fun _ => .pure_of fun _ _ h => ⟨_, hends, h⟩
  obtain ⟨c₁, rest, rfl⟩ := hrest.exists_cons
  refine (peek_first hJ).bind fun c => .assume fun hc => ?_
  subst hc
  by_cases hsign : c = ({} : Dialect).numerals.negative ∨ c = '+'
  · rw [if_pos hsign, if_pos hsign]
    have hsigned : Concluded rest := hrest.tail (by
      rcases hsign with rfl | rfl <;> decide)
    refine (bumps_echoes hJ (by simp)).bind fun sign => ?_
    exact (hdigits sign).of fun _ _ h => ⟨rest, hsigned, h⟩
  · rw [if_neg hsign, if_neg hsign]
    exact (hdigits []).of fun _ _ h => ⟨_, hrest, h⟩

theorem number_echoes : Echoes never (Fenced J []) (fun _ => Fenced J []) number number := by
  refine .get fun l l' ⟨_, _, h⟩ => .get fun l₁ l₁' ⟨_, _, h₁⟩ => ?_
  rw [h.position, h₁.dialect.1, h₁.dialect.2]
  refine (takeRun_echoes hJ (by decide)).bind fun whole => fenced_echoes fun ahead hends => ?_
  obtain ⟨c, rest, rfl⟩ := hends.exists_cons
  refine (peek_first hJ).bind fun c' => .assume fun hc' => ?_
  subst hc'
  by_cases hdecimal : c' = ({} : Dialect).numerals.decimal
  · rw [if_pos hdecimal, if_pos hdecimal]
    have hrest : Concluded rest := hends.tail (by
      rw [hdecimal]
      decide)
    obtain ⟨c₁, rest₁, rfl⟩ := hrest.exists_cons
    refine Echoes.bind (Q := fun _ => Level J (c' :: c₁ :: rest₁) [])
      ((peek_second hJ).map _ fun _ _ _ h => h.2) fun fractional => .ite ?_ ?_
    · refine (bump_echoes hJ).bind fun separator => .assume fun _ => ?_
      refine ((takeRun_echoes hJ (by decide)).of fun _ _ h => ⟨_, hrest, h⟩).bind fun fraction => ?_
      refine fenced_echoes fun ahead₂ hends₂ => ?_
      obtain ⟨c₂, rest₂, rfl⟩ := hends₂.exists_cons
      refine (peek_first hJ).bind fun c₂' => .assume fun hc₂ => ?_
      subst hc₂
      by_cases hmarker : ({} : Dialect).numerals.isExponentMarker c₂' = true
      · rw [if_pos hmarker, if_pos hmarker]
        exact (exponent_echoes hJ hends₂ hmarker).bind fun power => tokenFrom_fenced _ _ _
      · rw [if_neg hmarker, if_neg hmarker]
        exact (tokenFrom_fenced _ _ _).of fun _ _ h => ⟨_, hends₂, h⟩
    · exact (tokenFrom_fenced _ _ _).of fun _ _ h => ⟨_, hends, h⟩
  · rw [if_neg hdecimal, if_neg hdecimal, pure_bind, pure_bind]
    dsimp only
    rw [if_neg Bool.false_ne_true, if_neg Bool.false_ne_true]
    exact (tokenFrom_fenced _ _ _).of fun _ _ h => ⟨_, hends, h⟩

/-- A part of a name begins with something that is no executor. -/
theorem namePart_echoes (hends : Concluded (c₀ :: ahead)) (hc : c₀ ≠ ';') :
    Echoes never (Level J (c₀ :: ahead) held) (fun _ => Fenced J held) namePart namePart :=
  (bump_fenced hJ hends hc).bind fun first => .assume fun _ =>
    (takeRun_echoes hJ (by rfl)).bind fun rest => .pure _

omit [Source σ Char] [Source τ Char] hJ in
theorem ne_executor_of_isNameStart {c : Char} (h : isNameStart c = true) : c ≠ ';' := by
  rintro rfl
  cases h

theorem dottedParts_echoes : Echoes never (Fenced J []) (fun _ => Fenced J []) dottedParts dottedParts := by
  refine .iterate (fun _ _ h => h.remaining_le hJ) _ fun parts => fenced_echoes fun ahead hends => ?_
  obtain ⟨c, rest, rfl⟩ := hends.exists_cons
  refine (peek_first hJ).bind fun c' => .assume fun hc' => ?_
  subst hc'
  by_cases hdot : c' = '.'
  · rw [if_pos hdot, if_pos hdot]
    have hrest : Concluded rest := hends.tail (by
      rw [hdot]
      decide)
    obtain ⟨c₁, rest₁, rfl⟩ := hrest.exists_cons
    refine Echoes.bind (Q := fun dotted l l' => dotted = isNameStart c₁ ∧ Level J (c' :: c₁ :: rest₁) [] l l')
      ((peek_second hJ).map _ fun _ _ _ h => ⟨congrArg isNameStart h.1, h.2⟩) fun dotted => .assume fun h => ?_
    subst h
    dsimp only
    by_cases hname : isNameStart c₁ = true
    · rw [if_pos hname, if_pos hname]
      refine (bump_echoes hJ).bind fun dot => .assume fun _ => ?_
      exact (namePart_echoes hJ hrest (ne_executor_of_isNameStart hname)).bind fun part => .pure _
    · rw [if_neg hname, if_neg hname]
      exact .pure_of fun _ _ h => ⟨_, hends, h⟩
  · rw [if_neg hdot, if_neg hdot, pure_bind, pure_bind]
    dsimp only
    rw [if_neg Bool.false_ne_true, if_neg Bool.false_ne_true]
    exact .pure_of fun _ _ h => ⟨_, hends, h⟩

theorem identifier_echoes (hends : Concluded (c₀ :: ahead)) (hc : c₀ ≠ ';') (start : Position)
    (sign : List Char) : Echoes never (Level J (c₀ :: ahead) []) (fun _ => Fenced J [])
      (identifier start sign) (identifier start sign) :=
  (namePart_echoes hJ hends hc).bind fun _ => (dottedParts_echoes hJ).bind fun _ => tokenFrom_fenced _ _ _

omit [Source σ Char] [Source τ Char] hJ in
/-- A run that has an executor behind its first character begins no symbol of a tame table. -/
theorem not_extendsToSymbol {t : Operator.Table} (ht : Tame t) {run : List Char} (hrun : run ≠ []) :
    t.extendsToSymbol (String.ofList (run ++ [';'])) = false := by
  obtain ⟨first, rest, rfl⟩ := List.exists_cons_of_ne_nil hrun
  unfold Operator.Table.extendsToSymbol
  refine List.any_eq_false.2 fun symbol hsymbol hbegins => ?_
  rw [List.isPrefixOf_iff_prefix, String.toList_ofList] at hbegins
  obtain ⟨more, hmore⟩ := hbegins
  refine ht symbol hsymbol ?_
  rw [← hmore]
  simp

/-- A run of characters and the length of the symbol found in it, in front of the last of the characters
ahead. -/
def FoundBefore (ahead : List Char) (found : List Char × Nat) : Prop :=
  found.1 ≠ [] ∧ found.1.length < ahead.length ∧ found.2 ≤ found.1.length

/-- One round of the search for a symbol, when it is known which arrow the next character makes. -/
def searchRound (run : List Char) (best : Nat) (c : Char) (arrow : Option Token.Kind) :
    Run (Lexer σ) (Round (List Char × Nat) Nat) := do
  if arrow.isSome then
    return .done best
  let run := run ++ [c]
  let text := String.ofList run
  let table := (← get).table
  if table.extendsToSymbol text then
    return .again (run, if table.contains text then run.length else best)
  else
    return .done best

/-- A symbol is looked for in front of the border, and ends in front of an executor. -/
theorem symbolLength_echoes (hends : Concluded (c₀ :: ahead)) (hc : c₀ ≠ ';') :
    Echoes never (Level J (c₀ :: ahead) held)
      (fun n l l' => n < (c₀ :: ahead).length ∧ Level J (c₀ :: ahead) held l l') symbolLength symbolLength := by
  refine (peek_first hJ).bind fun first => .assume fun hfirst => ?_
  subst hfirst
  have hmore : 1 < (first :: ahead).length :=
    Nat.succ_lt_succ (List.length_pos_iff.2 (hends.tail hc).ne_nil)
  refine Echoes.of (P := fun l l' => FoundBefore (first :: ahead) ([first], 1) ∧
    Level J (first :: ahead) held l l') ?_ fun _ _ h => ⟨⟨List.cons_ne_nil _ _, hmore, Nat.le_refl 1⟩, h⟩
  refine .iterate_of (I := fun found l l' => FoundBefore (first :: ahead) found ∧
    Level J (first :: ahead) held l l') (fun l l' h => h.2.input.remaining_le hJ) ?_
  rintro ⟨run, best⟩
  refine .assume fun hfound => ?_
  obtain ⟨hrun, hlt, hbest⟩ : run ≠ [] ∧ run.length < (first :: ahead).length ∧ best ≤ run.length := hfound
  have hstop : best < (first :: ahead).length := Nat.lt_of_le_of_lt hbest hlt
  refine (peek_echoes hJ hlt).bind fun c => .assume fun hat => ?_
  refine .ite ?_ (.pure_of fun _ _ h => ⟨hstop, h⟩)
  refine arrow_bind hJ hends hat (f := searchRound run best c) (g := searchRound run best c)
    fun arrow _ => ?_
  refine .ite (.pure_of fun _ _ h => ⟨hstop, h⟩) ?_
  refine .get fun l l' hs => ?_
  rw [hs.table]
  by_cases hextends : l'.table.extendsToSymbol (String.ofList (run ++ [c])) = true
  · rw [if_pos hextends, if_pos hextends]
    refine .pure_of fun _ _ h => ⟨⟨by simp, ?_, ?_⟩, h⟩
    · -- the last executor is not in the run
      rw [List.length_append, List.length_singleton]
      refine Nat.lt_of_le_of_ne hlt fun hlast => ?_
      have hexecutor := hends.getElem?_last hlast
      rw [hat] at hexecutor
      cases hexecutor
      rw [not_extendsToSymbol hs.tame hrun] at hextends
      cases hextends
    · dsimp only
      split
      · exact Nat.le_refl _
      · rw [List.length_append]
        exact Nat.le_add_right_of_le hbest
  · rw [if_neg hextends, if_neg hextends]
    exact .pure_of fun _ _ h => ⟨hstop, h⟩

theorem symbol_echoes (hends : Concluded (c₀ :: ahead)) (hc : c₀ ≠ ';') (start : Position) :
    Echoes never (Level J (c₀ :: ahead) held) (fun _ => Fenced J held) (symbol start) (symbol start) := by
  refine (symbolLength_echoes hJ hends hc).bind fun n => .assume fun hn => ?_
  refine (bumps_echoes hJ (Nat.le_of_lt hn)).bind fun text => ?_
  exact (tokenFrom_fenced _ _ _).of fun _ _ h => ⟨_, hends.drop hn, h⟩

/-! ### All rules -/

/-- There may be no more in front of the border. -/
def UpTo (J : List Char → σ → τ → Prop) (l : Lexer σ) (l' : Lexer τ) : Prop :=
  ∃ ahead, (ahead = [] ∨ Concluded ahead) ∧ Level J ahead [] l l'

omit hJ in
theorem Fenced.upTo {l : Lexer σ} {l' : Lexer τ} (h : Fenced J [] l l') : UpTo J l l' := by
  obtain ⟨ahead, hends, h⟩ := h
  exact ⟨ahead, .inr hends, h⟩

/-- How the lexers are related behind a round. -/
def RoundLeaves (J : List Char → σ → τ → Prop) (round : Round Unit Token) (l : Lexer σ) (l' : Lexer τ) : Prop :=
  match round with
  | .again _ => Fenced J [] l l'
  | .done _ => UpTo J l l'

omit hJ in
theorem done_echoes {P : Lexer σ → Lexer τ → Prop} {x : Run (Lexer σ) Token} {x' : Run (Lexer τ) Token}
    (h : Echoes never P (fun _ => UpTo J) x x') :
    Echoes never P (RoundLeaves J) (x >>= fun token => pure (.done token)) (x' >>= fun token => pure (.done token)) :=
  h.bind fun _ => .pure_of fun _ _ h => h

/-- A single character may be the last executor. -/
theorem single_upTo (hends : Concluded (c₀ :: ahead)) (start : Position) (kind : Token.Kind) :
    Echoes never (Level J (c₀ :: ahead) []) (fun _ => UpTo J) (single start kind) (single start kind) :=
  (single_echoes hJ start kind).weaken fun _ _ _ h => ⟨ahead, hends.tail_or, h⟩

/-- The rules behind those for literals, numbers and names, when it is known which arrow there is. -/
def punctuationBehind (dialect : Dialect) (c : Char) (start : Position) (arrow : Option Token.Kind) :
    Run (Lexer σ) (Round Unit Token) := do
  match arrow with
  | some kind => return .done (← tokenFrom start kind (← bumps 2))
  | none =>
  match dialect.opening? c with
  | some container => return .done (← single start (.opening container))
  | none =>
  match dialect.closing? c with
  | some container => return .done (← single start (.closing container))
  | none =>
    if c = dialect.executor then
      return .done (← single start .executor)
    else if c = dialect.separator then
      return .done (← single start .separator)
    else if c = '\n' then
      let _ ← bump
      let _ ← takeRun dialect.isBlank
      return .again ()
    else if c = endOfInput then
      return .done (.endOfFile (.point start))
    else if isSymbolic c then
      return .done (← symbol start)
    else
      Run.fail (.unexpectedCharacter c start)

theorem punctuation_echoes (hends : Concluded (c₀ :: ahead)) (start : Position) :
    Echoes never (Level J (c₀ :: ahead) []) (RoundLeaves J) (punctuation c₀ start) (punctuation c₀ start) := by
  refine .get fun l l' h => ?_
  rw [h.dialect.1, h.dialect.2]
  refine arrow_bind hJ hends (k := 0) rfl (f := punctuationBehind {} c₀ start)
    (g := punctuationBehind {} c₀ start) fun arrow hnone => ?_
  unfold punctuationBehind
  cases arrow with
  | some kind =>
    have hrest := hends.tail (fun hc => nomatch hnone hc)
    obtain ⟨c₁, rest, rfl⟩ := hrest.exists_cons
    refine (bumps_echoes hJ (by simp)).bind fun text => done_echoes ?_
    exact (tokenFrom_echoes start kind _).weaken fun _ _ _ h => ⟨rest, hrest.tail_or, h⟩
  | none =>
    cases ({} : Dialect).opening? c₀ with
    | some container => exact done_echoes (single_upTo hJ hends start _)
    | none =>
    cases ({} : Dialect).closing? c₀ with
    | some container => exact done_echoes (single_upTo hJ hends start _)
    | none =>
    by_cases hexecutor : c₀ = ({} : Dialect).executor
    · rw [if_pos hexecutor, if_pos hexecutor]
      exact done_echoes (single_upTo hJ hends start _)
    rw [if_neg hexecutor, if_neg hexecutor]
    refine .ite (done_echoes (single_upTo hJ hends start _)) (.ite ?_ (.ite ?_ (.ite ?_ (.fail _))))
    · refine (bump_fenced hJ hends hexecutor).bind fun _ => .assume fun _ => ?_
      exact (takeRun_echoes hJ (by decide)).bind fun _ => .pure_of fun _ _ h => h
    · exact .pure_of fun _ _ h => ⟨_, .inr hends, h⟩
    · exact done_echoes ((symbol_echoes hJ hends hexecutor start).weaken fun _ _ _ h => h.upTo)

theorem scanRound_echoes : Echoes never (Fenced J []) (RoundLeaves J) (scanRound ()) (scanRound ()) := by
  refine fenced_echoes fun ahead hends => ?_
  obtain ⟨c, rest, rfl⟩ := hends.exists_cons
  refine (peek_first hJ).bind fun c' => .assume fun hc' => ?_
  subst hc'
  refine .get fun l l' h => .get fun l₁ l₁' h₁ => ?_
  rw [h.position, h₁.dialect.1, h₁.dialect.2]
  by_cases hblank : c' ≠ '\n' ∧ ({} : Dialect).isBlank c' = true
  · rw [if_pos hblank, if_pos hblank]
    refine (bump_fenced hJ hends ?_).bind fun _ => .assume fun _ => .pure_of fun _ _ h => h
    rintro rfl
    exact absurd hblank.2 (by decide)
  rw [if_neg hblank, if_neg hblank]
  by_cases hquote : c' = ({} : Dialect).quote
  · rw [if_pos hquote, if_pos hquote]
    refine done_echoes ((literal_echoes hJ hends ?_).weaken fun _ _ _ h => h.upTo)
    rw [hquote]
    rfl
  rw [if_neg hquote, if_neg hquote]
  refine .ite (done_echoes ?_) ?_
  · exact ((number_echoes hJ).weaken fun _ _ _ h => h.upTo).of fun _ _ h => ⟨_, hends, h⟩
  -- A sign that no name follows is read like any other character.
  have hunsigned : Echoes never (Level J (c' :: rest) []) (RoundLeaves J)
      (if isNameStart c' = true then do
          let token ← identifier l'.position []
          pure (.done token)
        else punctuation c' l'.position : Run (Lexer σ) (Round Unit Token))
      (if isNameStart c' = true then do
          let token ← identifier l'.position []
          pure (.done token)
        else punctuation c' l'.position) := by
    by_cases hname : isNameStart c' = true
    · rw [if_pos hname, if_pos hname]
      refine done_echoes ((identifier_echoes hJ hends ?_ _ []).weaken fun _ _ _ h => h.upTo)
      exact ne_executor_of_isNameStart hname
    · rw [if_neg hname, if_neg hname]
      exact punctuation_echoes hJ hends _
  by_cases hsign : c' = '@' ∨ c' = '#'
  · rw [if_pos hsign, if_pos hsign]
    have hrest : Concluded rest := hends.tail (by
      rcases hsign with rfl | rfl <;> decide)
    obtain ⟨c₁, rest₁, rfl⟩ := hrest.exists_cons
    refine Echoes.bind (Q := fun signed l l' => signed = isNameStart c₁ ∧ Level J (c' :: c₁ :: rest₁) [] l l')
      ((peek_second hJ).map _ fun _ _ _ h => ⟨congrArg isNameStart h.1, h.2⟩) fun signed => .assume fun hs => ?_
    subst hs
    dsimp only
    by_cases hname : isNameStart c₁ = true
    · rw [if_pos hname, if_pos hname]
      refine (bumps_echoes hJ (by simp)).bind fun sign => ?_
      refine done_echoes ((identifier_echoes hJ hrest ?_ _ sign).weaken fun _ _ _ h => h.upTo)
      exact ne_executor_of_isNameStart hname
    · rw [if_neg hname, if_neg hname]
      exact hunsigned
  · rw [if_neg hsign, if_neg hsign, pure_bind, pure_bind]
    dsimp only
    rw [if_neg Bool.false_ne_true, if_neg Bool.false_ne_true]
    exact hunsigned

theorem scan_echoes : Echoes never (Fenced J []) (fun _ => UpTo J) scan scan := by
  refine .iterate_of (I := fun _ => Fenced J []) (fun _ _ h => h.remaining_le hJ) fun _ => ?_
  refine (scanRound_echoes hJ).weaken fun round _ _ h => ?_
  cases round <;> exact h

/-- **A token.** What is behind the border does not show in a token in front of it. -/
theorem next_echoes : Echoes never (Fenced J []) (fun _ => UpTo J) next next := by
  refine (scan_echoes hJ).bind fun token => ?_
  refine .of_run fun l l' h b t' hx => ?_
  cases hx
  obtain ⟨ahead, hends, h⟩ := h
  exact ⟨_, rfl, ahead, hends, h.dialect, h.table, h.tame, h.position, h.saved, h.input⟩

end

end Dataflow.Lexer
