import Dataflow.Proofs.LexerEchoing
import Dataflow.Proofs.Constancy

/-!
# Dataflow.Proofs.LexerEnding

**A lexer that has scanned the end.** For the token at the end of its input, a lexer looks at the end marker
and at one more behind it, and consumes neither (`next_end`). So it can be told from its window that it has been
there (`AtEnd`), and it stays there, token after token. A lexer that has only looked at the border of a text
that ends with an executor has a single end marker in view (`Level.not_atEnd`).

So where two lexers are before such a text, either both scan the same token, or the one that meets the end there
goes astray (`next_echoes_until`). The same goes for any number of tokens (`nexts_echoes`).
-/

namespace Dataflow.Lexer

open Reading Text Run

section

variable {σ τ : Type} [Source σ Char] [Source τ Char]

/-- The lexer has looked at the end of its input, and at one more place behind it. -/
def AtEnd (l : Lexer σ) : Prop :=
  l.dialect = {} ∧ ∃ limits o, l.input.Shows limits o ∧ o.ended = true ∧ 2 ≤ o.ahead.length ∧
    ∀ c ∈ o.ahead, c = endOfInput

theorem not_arrow_endOfInput (c : Char) : arrow? endOfInput c = none := by
  simp [arrow?, endOfInput]

/-- At the end, a round of scanning looks at the two characters at the cursor. -/
theorem scanRound_end {l l₁ : Lexer σ} (hpeek : peek 0 l = .ok endOfInput l₁) (hd : l₁.dialect = {}) :
    scanRound () l =
      (peek 1 >>= fun _ => pure (.done (.endOfFile (.point l₁.position))) :
        Run (Lexer σ) (Round Unit Token)) l₁ := by
  have hblank : ¬ (endOfInput ≠ '\n' ∧ ({} : Dialect).isBlank endOfInput = true) := by decide
  have hquote : endOfInput ≠ ({} : Dialect).quote := by decide
  have hsign : ¬ (endOfInput = '@' ∨ endOfInput = '#') := by decide
  have hname : ¬ isNameStart endOfInput = true := fun h => ne_endOfInput_of_isNameStart h rfl
  have hopening : ({} : Dialect).opening? endOfInput = none := by decide
  have hclosing : ({} : Dialect).closing? endOfInput = none := by decide
  have hrole : endOfInput ≠ ({} : Dialect).executor ∧ endOfInput ≠ ({} : Dialect).separator ∧
    endOfInput ≠ '\n' := by decide
  unfold scanRound
  simp only [bind_apply, hpeek, get_apply, hd, if_neg hblank, if_neg hquote, isDigit_endOfInput,
    Bool.false_eq_true, if_false, if_neg hsign, if_neg hname, pure_apply]
  unfold punctuation
  simp only [bind_apply, get_apply, hd, not_arrow_endOfInput, hopening, hclosing, if_neg hrole.1,
    if_neg hrole.2.1, if_neg hrole.2.2, if_true, pure_apply]

/-- **The token for the end.** -/
theorem next_end {l l₁ : Lexer σ} (hpeek : peek 0 l = .ok endOfInput l₁) (hd : l₁.dialect = {}) :
    next l = match (peek 1 : Run (Lexer σ) Char) l₁ with
      | .ok _ l₂ => .ok (.endOfFile (.point l₁.position))
          { l₂ with statistics := { l₂.statistics with tokens := l₂.statistics.tokens + 1 } }
      | .error e l₂ => .error e l₂ := by
  have hscan : scan l = match (peek 1 : Run (Lexer σ) Char) l₁ with
      | .ok _ l₂ => .ok (.endOfFile (.point l₁.position)) l₂
      | .error e l₂ => .error e l₂ := by
    unfold scan iterate
    rw [iterateFor_succ, scanRound_end hpeek hd, bind_apply]
    cases (peek 1 : Run (Lexer σ) Char) l₁ <;> rfl
  unfold next
  rw [bind_apply, hscan]
  cases (peek 1 : Run (Lexer σ) Char) l₁ <;> rfl

/-- Nothing more comes from a source that has ended. -/
theorem modest_of_ended {o : Outlook σ Char} (h : o.ended = true) (n : Nat) : o.Modest n := by
  intro elements source hportion
  unfold Outlook.portion at hportion
  rw [if_pos h] at hportion
  cases hportion
  exact Nat.zero_le n

/-- What is in view is seen again. -/
theorem peek_shown {limits : Limits} {o : Outlook σ Char} {l : Lexer σ} (h : l.input.Shows limits o) {k : Nat}
    (hk : k < o.ahead.length) (hall : ∀ c ∈ o.ahead, c = endOfInput) :
    ∃ input, peek k l = .ok endOfInput { l with input } ∧ Cursor.Shows limits input o := by
  have hat : o.ahead[k]? = some endOfInput := by
    rw [List.getElem?_eq_getElem hk, hall _ (List.getElem_mem hk)]
  obtain ⟨input, hinput, h'⟩ := Cursor.lookahead_held h hat
  exact ⟨input, onInput_ok hinput, h'⟩

/-- Once there, a lexer stays at the end. -/
theorem AtEnd.next {l l' : Lexer σ} {token : Token} (h : AtEnd l) (hx : next l = .ok token l') : AtEnd l' := by
  obtain ⟨hd, limits, o, ho, hended, hlength, hall⟩ := h
  obtain ⟨input₁, hfirst, h₁⟩ := peek_shown ho (k := 0) (by omega) hall
  obtain ⟨input₂, hsecond, h₂⟩ := peek_shown (l := { l with input := input₁ }) h₁ (k := 1) (by omega) hall
  rw [next_end hfirst hd, hsecond] at hx
  cases hx
  exact ⟨hd, limits, o, h₂, hended, hlength, hall⟩

variable {J : List Char → σ → τ → Prop} {ahead : List Char} {held : List (List Char)}

/-- In front of a text that ends with an executor, and at its end, a lexer has not come to the end. -/
theorem Level.not_atEnd {l : Lexer σ} {l' : Lexer τ} (h : Level J ahead held l l')
    (hahead : ahead = [] ∨ Concluded ahead) : ¬ AtEnd l' := by
  rintro ⟨-, limits, o, ho, hended, hlength, hall⟩
  obtain ⟨limits', o', ho', hview⟩ := h.input.exists_shows
  have hsame : o'.ahead = o.ahead := ho'.ahead.symm.trans ho.ahead
  rcases hview with ⟨hopen, -⟩ | ⟨-, hview, -⟩
  · rw [← ho'.ended, ho.ended, hended] at hopen
    cases hopen
  rw [← hsame, hview] at hlength hall
  rcases hahead with rfl | ⟨front, rfl⟩
  · exact absurd hlength (by simp)
  · exact absurd (hall ';' (by simp)) (by decide)

variable (hJ : Source.Shares endOfInput J)

include hJ

/-- At the border the second lexer scans the end. -/
theorem Level.next_border {l : Lexer σ} {l' t' : Lexer τ} (h : Level J [] held l l') {token : Token}
    (hx : Lexer.next l' = .ok token t') : token.kind = .endOfFile ∧ AtEnd t' := by
  cases hpeek : (peek 0 : Run (Lexer τ) Char) l' with
  | error e l₁ =>
    have hround : scanRound () l' = .error e l₁ := by
      unfold scanRound
      rw [bind_apply, hpeek]
    have hscan : scan l' = .error e l₁ := by
      unfold scan iterate
      rw [iterateFor_succ, hround]
    unfold Lexer.next at hx
    rw [bind_apply, hscan] at hx
    cases hx
  | ok c l₁ =>
    obtain ⟨input₁, hinput, rfl⟩ := ok_of_onInput hpeek
    obtain ⟨rfl, ⟨limits, o, ho, hended, hview, hmarker⟩, -⟩ := h.input.lookahead_border hJ hinput
    rw [next_end hpeek h.dialect.2] at hx
    cases hsecond : (peek 1 : Run (Lexer τ) Char) { l' with input := input₁ } with
    | error e l₂ =>
      rw [hsecond] at hx
      cases hx
    | ok c l₂ =>
      rw [hsecond] at hx
      cases hx
      obtain ⟨input₂, hinput₂, rfl⟩ := ok_of_onInput hsecond
      obtain ⟨source, view, marked, ended, passed⟩ := o
      obtain rfl : ended = true := hended
      obtain rfl : view = [endOfInput] := hview
      have hmore : Source.padded 1 (Source.endMarker source) [] = [endOfInput] := by
        rw [show Source.endMarker source = endOfInput from hmarker]
        rfl
      have hlook : Outlook.look 1 ⟨source, [endOfInput], marked, true, passed⟩ =
          .ok endOfInput (Outlook.extend ⟨source, [endOfInput], marked, true, passed⟩ 1 [] source) := by
        unfold Outlook.look Outlook.portion Outlook.extend
        simp [hmore]
      have hagrees := Cursor.lookahead_agrees ho 1 (modest_of_ended rfl _)
      rw [hinput₂, hlook] at hagrees
      cases hagrees with
      | answer h₂ =>
        refine ⟨rfl, h.dialect.2, limits, _, h₂, rfl, ?_, ?_⟩
        · rw [Outlook.extend, hmore]
          exact Nat.le_refl 2
        · rw [Outlook.extend, hmore]
          simp

omit hJ

/-- The lexer has come to the end, or knows of a symbol that goes on with an executor. -/
def Astray (l : Lexer σ) : Prop := AtEnd l ∨ ¬ Tame l.table

theorem Astray.next {l l' : Lexer σ} {token : Token} (h : Astray l) (hx : next l = .ok token l') : Astray l' :=
  h.imp (fun h => h.next hx) fun h => by rwa [table_of_next hx]

/-- A lexer with something to go along with is not astray. -/
theorem UpTo.not_astray {l : Lexer σ} {l' : Lexer τ} (h : UpTo J l l') : ¬ Astray l' := by
  obtain ⟨ahead, hahead, h⟩ := h
  rintro (hend | huntame)
  · exact h.not_atEnd hahead hend
  · exact huntame h.tame

include hJ

/-- **A token**, or the end. -/
theorem next_echoes_until : Echoes Astray (UpTo J) (fun _ => UpTo J) next next where
  run h token l' hx := by
    obtain ⟨ahead, rfl | hends, h⟩ := h
    · exact .inr (.inl (h.next_border hJ hx).2)
    · exact .inl (((next_echoes hJ).run ⟨ahead, hends, h⟩ hx).resolve_right id)
  keeps h _ _ hx := h.next hx

theorem nexts_echoes (n : Nat) : Echoes Astray (UpTo J) (fun _ => UpTo J) (nexts n) (nexts n) := by
  induction n with
  | zero => exact .pure []
  | succ n ih => exact (next_echoes_until hJ).bind fun _ => ih.bind fun _ => .pure _

end

end Dataflow.Lexer
