import Dataflow.Proofs.CursorEchoing
import Dataflow.Proofs.Events
import Dataflow.Proofs.LexerEnding
import Dataflow.Proofs.Mentions
import Dataflow.Proofs.SessionComparing

/-!
# Dataflow.Proofs.SessionEchoing

**A session on a text that goes on.** Two sessions are alike but for their lexers, which are before the same
text up to an executor, the last one of the text. Whenever the session whose text ends there returns a
statement, the other one returns the same statement, and they are alike again (`parseStatement_echoes`); or the
first of them has scanned the end, or has registered a symbol that goes on with an executor.

All of the parser follows from its steps (`compared_echoes`). Only reading tokens and registering operators have
to do with the lexers.
-/

namespace Dataflow

open Reading Run Lexer Circuit

variable {σ τ β : Type} [Source σ Char] [Source τ Char] {J : List Char → σ → τ → Prop}

/-- Lexers that go along up to an executor, as supplies of tokens. -/
theorem Lexer.echoed (hJ : Source.Shares endOfInput J) :
    Source.Echoed (α := Token) (Astray (σ := τ)) (UpTo J) where
  read n := by
    have hfirst : (Source.readFully n : Run (Lexer σ) (List Token)) = nexts n :=
      funext fun l => Cursor.readFully_eq n l
    have hsecond : (Source.readFully n : Run (Lexer τ) (List Token)) = nexts n :=
      funext fun l => Cursor.readFully_eq n l
    rw [hfirst, hsecond]
    exact nexts_echoes hJ n
  endMarker := by
    rintro l l' ⟨ahead, -, h⟩
    exact congrArg (Token.endOfFile ∘ Text.Span.point) h.position
  remaining := by
    rintro l l' ⟨ahead, -, h⟩
    exact h.input.remaining_le hJ

/-- Registering takes no symbol away. -/
theorem Lexer.Tame.of_insert {t : Operator.Table} {op : Operator} (h : Tame (t.insert op)) : Tame t := by
  intro symbol hsymbol
  refine h symbol (List.contains_iff_mem.1 ?_)
  show (t.insert op).contains symbol = true
  rw [Operator.Table.contains_insert, show t.contains symbol = true from List.contains_iff_mem.2 hsymbol,
    Bool.or_true]

theorem Lexer.Tame.of_insertAll {ops : List Operator} {t : Operator.Table} (h : Tame (t.insertAll ops)) :
    Tame t := by
  induction ops generalizing t with
  | nil => exact h
  | cons op ops ih => exact (ih h).of_insert

omit [Source σ Char] in
theorem Lexer.Astray.register {l : Lexer σ} (h : Astray l) (op : Operator) : Astray (l.register op).2 :=
  h.imp id fun huntame htame => huntame htame.of_insert

/-- Registering goes along where the symbol does not go on with an executor. -/
theorem Lexer.UpTo.register {l : Lexer σ} {l' : Lexer τ} (h : UpTo J l l') {op : Operator}
    (htame : Tame (l'.table.insert op)) : UpTo J (l.register op).2 (l'.register op).2 := by
  obtain ⟨ahead, hahead, h⟩ := h
  refine ⟨ahead, hahead, h.dialect, ?_, htame, h.position, h.saved, h.input⟩
  exact congrArg (Operator.Table.insert · op) h.table

namespace Session

/-- Sessions that are alike but for their lexers, which `L` relates. -/
structure Over (L : Lexer σ → Lexer τ → Prop) (s : Session σ) (t : Session τ) : Prop where
  tokens : s.tokens.Over L t.tokens
  netlist : s.netlist = t.netlist
  calls : s.calls = t.calls

/-- The lexer of the session has gone astray. -/
def Astray (s : Session τ) : Prop := Lexer.Astray s.lexer

variable {L : Lexer σ → Lexer τ → Prop}

section

omit [Source σ Char] [Source τ Char]

theorem onTokens_echoes {x : Run (Cursor (Lexer σ) Token) β} {x' : Run (Cursor (Lexer τ) Token) β}
    (hx : Echoes (Cursor.Lost Lexer.Astray) (Cursor.Over L) (fun _ => Cursor.Over L) x x') :
    Echoes Astray (Over L) (fun _ => Over L) (onTokens x) (onTokens x') where
  run {s t} h b t' ht := by
    cases hr : x' t.tokens with
    | error e tokens =>
      rw [onTokens_error hr] at ht
      cases ht
    | ok a tokens =>
      rw [onTokens_ok hr] at ht
      cases ht
      obtain ⟨s', hs, hL⟩ | hlost := hx.run h.tokens hr
      · exact .inl ⟨_, onTokens_ok hs, hL, h.netlist, h.calls⟩
      · exact .inr hlost
  keeps {t} hlost b t' ht := by
    cases hr : x' t.tokens with
    | error e tokens =>
      rw [onTokens_error hr] at ht
      cases ht
    | ok a tokens =>
      rw [onTokens_ok hr] at ht
      cases ht
      exact hx.keeps hlost hr

theorem tell_echoes (call : Call) : Echoes Astray (Over L) (fun _ => Over L)
    (tell call : Run (Session σ) call.Reply) (tell call) where
  run {s t} h reply t' ht := by
    obtain ⟨tokens, netlist, calls⟩ := s
    obtain ⟨tokens', netlist', calls'⟩ := t
    obtain rfl : netlist = netlist' := h.netlist
    obtain rfl : calls = calls' := h.calls
    unfold tell at ht ⊢
    dsimp only at ht ⊢
    cases hperform : Netlist.perform call netlist with
    | ok reply n =>
      rw [hperform] at ht
      cases ht
      exact .inl ⟨_, rfl, h.tokens, rfl, rfl⟩
    | error e n =>
      rw [hperform] at ht
      cases ht
  keeps {t} hlost reply t' ht := by
    obtain ⟨tokens, netlist, calls⟩ := t
    unfold tell at ht
    dsimp only at ht
    cases hperform : Netlist.perform call netlist with
    | ok reply n =>
      rw [hperform] at ht
      cases ht
      exact hlost
    | error e n =>
      rw [hperform] at ht
      cases ht

end

/-- A definition goes along, unless its symbol goes on with an executor. -/
theorem define_echoes (e : Entity) : Echoes Astray (Over (UpTo J)) (fun _ => Over (UpTo J))
    (Parser.define e : Run (Session σ) Unit) (Parser.define e) := by
  refine (tell_echoes (.defineEntity e)).bind fun _ => ⟨fun {s t} h _ t' ht => ?_, fun {t} hlost _ t' ht => ?_⟩
  · cases ht
    have hsource : UpTo J s.tokens.buffer.source t.tokens.buffer.source := h.tokens.buffer.source
    by_cases htame : Tame (t.tokens.buffer.source.table.insert e.operator)
    · refine .inl ⟨_, rfl, ⟨h.tokens.mapSource (f := fun l => (l.register e.operator).2)
        (g := fun l => (l.register e.operator).2) (hsource.register htame), h.netlist, h.calls⟩⟩
    · exact .inr (.inr htame)
  · cases ht
    exact hlost.register _

variable (hJ : Source.Shares endOfInput J)

include hJ

/-- No less remains of the session that goes on. -/
theorem Over.remaining_le {s : Session σ} {t : Session τ} (h : Over (UpTo J) s t) :
    t.remaining ≤ s.remaining := by
  have hsize : s.tokens.buffer.size = t.tokens.buffer.size := congrArg Ring.size h.tokens.buffer.ring
  have hremaining := (echoed hJ).remaining h.tokens.buffer.source
  unfold Session.remaining Cursor.remaining
  rw [hsize, h.tokens.offset]
  omega

theorem tokens_echoes : Parser.ComparedTokens (Echoes.comparison (Astray (τ := τ)))
    (Over (σ := σ) (UpTo J)) (Over (UpTo J)) where
  loosen := id
  peek := onTokens_echoes (Cursor.lookahead_echoes (echoed hJ) 0)
  second := by
    rw [kindAt_eq, kindAt_eq]
    exact Echoes.bind (onTokens_echoes (Cursor.lookahead_echoes (echoed hJ) 1)) fun _ => .pure _
  consume := onTokens_echoes (Cursor.consume_echoes (echoed hJ))
  mismatch _ expected := .fail_of (onTokens (Cursor.mismatch expected))
  unexpectedOperand _ := .fail_of (onTokens Cursor.unexpectedOperand)
  violate _ v := .violate v
  table s t h := by
    obtain ⟨ahead, -, h⟩ := h.tokens.buffer.source
    exact h.table
  iterate a hstep := Echoes.iterate (fun _ _ h => h.remaining_le hJ) a hstep
  descend {ι β f g} hzero hzero' hsucc i := by
    -- the first session may go deeper, since more remains of it
    have hdepth : ∀ depth' depth i, depth' ≤ depth →
        Echoes Astray (Over (UpTo J)) (fun _ => Over (UpTo J)) (f depth i) (g depth' i) := by
      intro depth'
      induction depth' with
      | zero =>
        intro depth i _
        rw [hzero']
        exact .of_silent fun _ _ _ => nofun
      | succ depth' ih =>
        intro depth i hle
        obtain ⟨depth, rfl⟩ : ∃ n, depth = n + 1 := ⟨depth - 1, by omega⟩
        exact hsucc depth depth' (fun i => ih depth i (Nat.le_of_succ_le_succ hle)) i
    refine ⟨fun {s t} h b t' ht => ?_, fun {t} hlost b t' ht => ?_⟩
    · exact (hdepth _ _ i (Nat.succ_le_succ (h.remaining_le hJ))).run h ht
    · exact (hdepth _ _ i (Nat.le_refl _)).keeps hlost ht

/-- **Sessions go along.** -/
theorem compared_echoes : Parser.Compared (Echoes.comparison (Astray (τ := τ)))
    (Over (σ := σ) (UpTo J)) (Over (UpTo J)) where
  tokens := tokens_echoes hJ
  tell call _ := tell_echoes call
  targets := Parser.assignmentTargets_keptBy (tokens_echoes hJ) (onTokens_echoes Cursor.mark_echoes)
    (onTokens_echoes Cursor.commit_echoes) (onTokens_echoes Cursor.rollback_echoes)
  define e := define_echoes e

/-- **A statement** in front of the last executor. -/
theorem parseStatement_echoes : Echoes (Astray (τ := τ)) (Over (σ := σ) (UpTo J)) (fun _ => Over (UpTo J))
    Parser.parseStatement Parser.parseStatement :=
  Parser.parseStatement_keptBy (compared_echoes hJ).rules

end Session

end Dataflow
