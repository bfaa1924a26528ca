import Dataflow.Proofs.Bordering
import Dataflow.Proofs.Mentions
import Dataflow.Proofs.Prospect

/-!
# Dataflow.Proofs.Coupling

**Two texts that are scanned side by side.** The second text is part of the first one: either its
front, with an executor and more text behind it, or its end, some lines further down. As far as
the second text reaches, both scan to the same tokens, but for the lines. The buffers for them may
have different limits.

* `Position.down`, `Token.down`, `Error.down` — what stands some lines further down;
* `Failure.Alike` — the same failure some lines further down. Contexts, which show what stands
  around, are left out;
* `Coupling` — how the texts belong together;
* `Coupling.Places`, `Coupling.Crossed` — a place in each text: the same place, or the two sides of
  the *border*, which is the executor for the first text and the end for the second one;
* `Coupling.Alike` — a token of each text;
* `Coupling.Places.next` — the next token of each text.
-/

namespace Dataflow

open Reading Lexer Text Circuit

/-! ### Further down -/

/-- The position some lines further down. -/
def Text.Position.down (lines : Nat) (p : Position) : Position := ⟨p.line + lines, p.column⟩

theorem Text.Position.after_down (lines : Nat) (p : Position) (text : List Char) :
    (p.down lines).after text = (p.after text).down lines := by
  induction text generalizing p with
  | nil => rfl
  | cons c text ih =>
    have hadvance : (p.down lines).advance c = (p.advance c).down lines := by
      unfold advance down
      split
      · exact congrArg (Position.mk · 0) (Nat.add_right_comm p.line lines 1)
      · rfl
    rw [after_cons, after_cons, hadvance, ih]

@[simp] theorem Text.Position.down_inj {lines : Nat} {p q : Position} :
    p.down lines = q.down lines ↔ p = q := by
  cases p
  cases q
  simp [down]

/-- The range some lines further down. -/
def Text.Span.down (lines : Nat) (s : Span) : Span := ⟨s.start.down lines, s.stop.down lines⟩

@[simp] theorem Text.Span.isEmpty_down (lines : Nat) (s : Span) :
    (s.down lines).isEmpty = s.isEmpty := by
  simp [isEmpty, down]

/-- The token some lines further down. -/
def Token.down (lines : Nat) (t : Token) : Token := { t with span := t.span.down lines }

namespace Token

variable (lines : Nat) (t : Token)

@[simp] theorem kind_down : (t.down lines).kind = t.kind := rfl

@[simp] theorem text_down : (t.down lines).text = t.text := rfl

@[simp] theorem span_down : (t.down lines).span = t.span.down lines := rfl

end Token

namespace Error

/-- The error some lines further down. -/
def down (lines : Nat) : Error → Error
  | unexpectedCharacter c position => unexpectedCharacter c (position.down lines)
  | unterminatedLiteral position => unterminatedLiteral (position.down lines)
  | mismatch expected found context span =>
    mismatch expected found context (span.map (Span.down lines))
  | unexpectedOperand found context span =>
    unexpectedOperand found context (span.map (Span.down lines))
  | e => e

/-- The error without what stands around it. -/
def bare : Error → Error
  | mismatch expected found _ span => mismatch expected found "" span
  | unexpectedOperand found _ span => unexpectedOperand found "" span
  | e => e

end Error

namespace Failure

/-- The failure with another error. -/
def map (f : Error → Error) : Failure → Failure
  | error e => error (f e)
  | violation v => violation v
  | stalled => stalled

/-- The first failure is the second one some lines further down, in whatever context. -/
def Alike (lines : Nat) (e e' : Failure) : Prop :=
  e.map Error.bare = (e'.map (Error.down lines)).map Error.bare

theorem Alike.of_error (lines : Nat) (e : Error) :
    Alike lines (.error (e.down lines)) (.error e) := rfl

theorem Alike.of_build (lines : Nat) (cause : BuildError) :
    Alike lines (.error (.build cause)) (.error (.build cause)) := rfl

end Failure

namespace Lexer

/-- The place some lines further down. -/
def Place.down (lines : Nat) (p : Place) : Place := ⟨p.text, p.position.down lines⟩

namespace Place

variable (lines : Nat) (p : Place)

@[simp] theorem text_down : (p.down lines).text = p.text := rfl

theorem skip_down (n : Nat) : (p.down lines).skip n = (p.skip n).down lines := by
  unfold skip down
  rw [Position.after_down]

/-- The next token is the same one some lines further down. -/
theorem next_down (d : Dialect) (t : Operator.Table) :
    (p.down lines).next d t = match p.next d t with
      | .ok (token, q) => .ok (token.down lines, q.down lines)
      | .error e => .error (e.down lines) := by
  unfold next
  simp only [skip_down, text_down]
  generalize p.skip (blankLength d p.text) = q
  cases lexeme d t q.text with
  | error fault => cases fault <;> rfl
  | ok x =>
    unfold outcome token
    simp only [skip_down]
    rfl

end Place

/-- Scanning does not change where a text ends. -/
theorem Place.last_of_next {d : Dialect} {t : Operator.Table} {p q : Place} {token : Token}
    (h : p.next d t = .ok (token, q)) : q.position.after q.text = p.position.after p.text := by
  have hskip : ∀ (p : Place) (n : Nat),
      (p.skip n).position.after (p.skip n).text = p.position.after p.text := by
    intro p n
    show (p.position.after (p.text.take n)).after (p.text.drop n) = _
    rw [← Position.after_append, List.take_append_drop]
  obtain ⟨x, -, -, rfl⟩ := Place.next_ok h
  rw [hskip, hskip]

/-- The dialect that is used unless another one is asked for, with the limits of its buffers. -/
def Dialect.standard (limits : Limits) : Dialect := { limits }

/-- The end marker has no role in the standard dialect. -/
theorem Dialect.plain_standard (limits : Limits) : (Dialect.standard limits).Plain where
  executor := show ';' ≠ endOfInput by decide
  separator := show ',' ≠ endOfInput by decide
  quote := show '\x22' ≠ endOfInput by decide
  opening := rfl
  closing := rfl
  negative := show '-' ≠ endOfInput by decide
  exponent := Numerals.isExponentMarker_endOfInput

theorem Dialect.skips_of_isBlank (limits : Limits) {c : Char} (h : Text.isBlank c = true) :
    (Dialect.standard limits).skips c = true := by
  have hroles : c ≠ ';' ∧ c ≠ ',' := by
    apply forall_blank _ h
    decide
  have hbreaks : (Dialect.standard limits).breaksPlainly = true := rfl
  unfold skips isBlank
  rw [h, hbreaks]
  simp [standard, hroles]

theorem Dialect.skips_blank (limits : Limits) : (Dialect.standard limits).skips ' ' = true :=
  skips_of_isBlank limits rfl

theorem Dialect.skips_break (limits : Limits) : (Dialect.standard limits).skips '\n' = true :=
  skips_of_isBlank limits rfl

theorem Dialect.skips_executor (limits : Limits) :
    (Dialect.standard limits).skips ';' = false := by
  simp [skips, isBlank, standard]

/-- The executor of the standard dialect. -/
theorem lexeme_executor (limits : Limits) (t : Operator.Table) (text : List Char) :
    lexeme (.standard limits) t (';' :: text) = .ok (singleLexeme .executor [';']) := by
  have hword : Wordless (.standard limits) (';' :: text) :=
    ⟨show ¬ ';' = '\x22' by decide, show Char.isDigit ';' = false by decide, by simp, rfl⟩
  have hfree : Unbracketed (.standard limits) (';' :: text) := ⟨by simp [arrow?], rfl, rfl⟩
  exact (Rule.punctuation hword (PunctuationRule.executor hfree rfl).eq).eq

end Lexer

/-- How two texts belong together. -/
structure Coupling where
  dialect : Dialect
  /-- The limits of the buffers for the second text. -/
  limits : Limits := dialect.limits
  /-- What stands behind the executor that ends the second text in the first one, if it does not
  end with the first one. -/
  behind : Option (List Char) := none
  /-- How many lines further down the second text stands in the first one. -/
  lines : Nat := 0
  /-- Where the second text ends. -/
  last : Position
  /-- What the netlist has been told in front of the second text. -/
  old : List Call := []
  /-- The entities that are known in front of the second text, and that it does not mention. -/
  extra : List Entity := []
  standard : behind ≠ none → ∃ limits, dialect = .standard limits

namespace Coupling

variable {c : Coupling} {t : Operator.Table} {p q : Place}

/-- The dialect of the second text, which is that of the first one, but for the limits. -/
def narrow (c : Coupling) : Dialect := { c.dialect with limits := c.limits }

theorem next_narrow (c : Coupling) (p : Place) (t : Operator.Table) :
    p.next c.narrow t = p.next c.dialect t := rfl

theorem plain_narrow (c : Coupling) : c.narrow.Plain ↔ c.dialect.Plain :=
  ⟨fun h => ⟨h.executor, h.separator, h.quote, h.opening, h.closing, h.negative, h.exponent⟩,
    fun h => ⟨h.executor, h.separator, h.quote, h.opening, h.closing, h.negative, h.exponent⟩⟩

/-- What the first text has behind the second one. -/
def tail (c : Coupling) : List Char :=
  match c.behind with
  | none => []
  | some more => ' ' :: ';' :: '\n' :: more

/-- The text mentions none of the entities that only the first session knows. -/
def Avoids (c : Coupling) (text : List Char) : Prop :=
  ∀ name, Mentions c.dialect.quote text name → Foreign c.extra name

theorem Avoids.mono {text more : List Char} (h : c.Avoids more) (hsub : text <:+: more) :
    c.Avoids text :=
  fun name hname => h name (hname.mono hsub)

/-- Where there are no such entities, there is nothing to avoid. -/
theorem avoids_of_extra (h : c.extra = []) (text : List Char) : c.Avoids text := by
  intro name _
  rw [h]
  exact foreign_nil name

/-- The places have the rest of the second text ahead. -/
structure Level (c : Coupling) (p q : Place) : Prop where
  text : p.text = q.text ++ c.tail
  position : p.position = q.position.down c.lines
  last : q.position.after q.text = c.last
  text_ne : ∀ a ∈ q.text, a ≠ endOfInput
  avoids : c.Avoids q.text

/-- The places have the rest of the second text ahead, the first one maybe behind some blanks. -/
def Places (c : Coupling) (p q : Place) : Prop :=
  ∃ k, (∀ a ∈ p.text.take k, c.dialect.skips a = true) ∧ c.Level (p.skip k) q

/-- The first place is behind the executor, and the second one at the end. -/
def Crossed (c : Coupling) (p q : Place) : Prop :=
  q.text = [] ∧ ∃ more, c.behind = some more ∧ p.text = '\n' :: more ∧
    p.position.line = c.last.line + c.lines

/-- The tokens are the same one, or the executor in the first text and the end of the second
one. -/
inductive Alike (c : Coupling) : Token → Token → Prop
  | same {token : Token} (covers : token.kind ≠ .endOfFile →
      c.dialect.Plain ∨ token.kind.isSolid = true → token.span.isEmpty = false)
    (last : token.kind = .endOfFile → c.behind = none)
    (named : token.kind.isIdentifier = true ∨ token.kind = .literal → Foreign c.extra token.text) :
    Alike c (token.down c.lines) token
  | border {left right : Token} (parted : c.behind ≠ none) (executor : left.kind = .executor)
    (covers : left.span.isEmpty = false) (last : right.kind = .endOfFile) : Alike c left right

theorem Level.places (h : c.Level p q) : c.Places p q :=
  ⟨0, by simp, by rw [Place.skip_zero]; exact h⟩

/-- Up to the border the places go on side by side. -/
theorem Level.skip (h : c.Level p q) {n : Nat} (hn : n ≤ q.text.length) :
    c.Level (p.skip n) (q.skip n) where
  text := by rw [Place.text_skip, h.text, List.drop_append_of_le_length hn, Place.text_skip]
  position := by
    show p.position.after (p.text.take n) = (q.position.after (q.text.take n)).down c.lines
    rw [h.text, h.position, List.take_append_of_le_length hn, Position.after_down]
  last := by
    show (q.position.after (q.text.take n)).after (q.text.drop n) = c.last
    rw [← Position.after_append, List.take_append_drop, h.last]
  text_ne a ha := h.text_ne a (List.mem_of_mem_drop ha)
  avoids := h.avoids.mono (List.drop_suffix n q.text).isInfix

/-- What the second text names is none of the further entities. -/
theorem Level.named (h : c.Level p q) {token : Token} {q' : Place}
    (hnext : q.next c.dialect t = .ok (token, q'))
    (hkind : token.kind.isIdentifier = true ∨ token.kind = .literal) : Foreign c.extra token.text := by
  refine h.avoids _ (Place.mentions_of_next hnext ?_)
  rcases hkind with hname | hliteral
  · exact Token.Kind.isSolid_of_isIdentifier hname
  · rw [hliteral]
    rfl

/-- The tables do not have to be the same, as long as they agree on what the second text mentions. -/
theorem Places.next_eq {t' : Operator.Table} (h : c.Places p q)
    (htable : t.AgreesOn (Foreign c.extra) t') : q.next c.dialect t' = q.next c.dialect t := by
  obtain ⟨k, -, hlevel⟩ := h
  exact Place.next_congr c.dialect fun name hname =>
    (htable.contains name (hlevel.avoids name (.inl hname))).symm

theorem Level.token (h : c.Level p q) {x : Lexeme} (hx : x.length ≤ q.text.length) :
    p.token x = (q.token x).down c.lines := by
  unfold Place.token Token.down Span.down
  rw [(h.skip hx).position, h.position]

/-- Blanks up to the border: the second text ends here, and the first one goes on with the
executor. -/
theorem Level.next_blank (h : c.Level p q) {more : List Char} (hmore : c.behind = some more)
    (hblank : ∀ a ∈ q.text, c.dialect.skips a = true) :
    ∃ left right p' q', q.next c.dialect t = .ok (right, q') ∧
      p.next c.dialect t = .ok (left, p') ∧ c.Alike left right ∧ right.kind = .endOfFile ∧
      c.Crossed p' q' := by
  have hparted : c.behind ≠ none := by simp [hmore]
  obtain ⟨limits, hd⟩ := c.standard hparted
  have htext : p.text = q.text ++ [' '] ++ ';' :: '\n' :: more := by
    rw [h.text, tail, hmore]
    simp
  have hlength : (q.text ++ [' ']).length = q.text.length + 1 := List.length_append
  have htake : p.text.take (q.text.length + 1) = q.text ++ [' '] := by
    rw [htext, ← hlength, List.take_left]
  have hskips : ∀ a ∈ p.text.take (q.text.length + 1), c.dialect.skips a = true := by
    rw [htake]
    intro a ha
    rcases List.mem_append.1 ha with ha | ha
    · exact hblank a ha
    · rw [List.mem_singleton.1 ha, hd]
      exact Dialect.skips_blank limits
  have hright : q.next c.dialect t = .ok ((q.skip q.text.length).token (.plain .endOfFile [] 0),
      q.skip q.text.length) := by
    have hend : (q.skip q.text.length).text = [] := List.drop_length
    rw [← Place.next_skip (n := q.text.length) (by rw [List.take_length]; exact hblank),
      Place.next_of_not_skips (by rw [hend]; exact skips_endOfInput _), hend, hd,
      lexeme_plain_nil (Dialect.plain_standard limits)]
    rfl
  have hexecutor : (p.skip (q.text.length + 1)).text = ';' :: '\n' :: more := by
    rw [Place.text_skip, htext, ← hlength, List.drop_left]
  have hleft : p.next c.dialect t = .ok ((p.skip (q.text.length + 1)).token
      (singleLexeme .executor [';']), (p.skip (q.text.length + 1)).skip 1) := by
    have hfront : c.dialect.skips (charAt (p.skip (q.text.length + 1)).text 0) = false := by
      rw [hexecutor, hd]
      exact Dialect.skips_executor limits
    rw [← Place.next_skip hskips, Place.next_of_not_skips hfront, hexecutor, hd, lexeme_executor]
    rfl
  refine ⟨_, _, _, _, hright, hleft, .border hparted rfl ?_ rfl, rfl, ?_, more, hmore, ?_, ?_⟩
  · exact Place.covers_of_length Nat.zero_lt_one (by rw [hexecutor]; simp)
  · exact List.drop_length
  · rw [Place.text_skip, hexecutor]
    rfl
  · show ((p.skip (q.text.length + 1)).position.after _).line = _
    rw [hexecutor]
    show ((p.position.after (p.text.take (q.text.length + 1))).after [';']).line = _
    rw [htake, h.position, Position.after_append, Position.after_down, h.last]
    rfl

/-- The next tokens of two places are the same one, or the two sides of the border, or the second text
has no token there. In that case the first one has none either where both texts end together. -/
def Nexts (c : Coupling) (t : Operator.Table) (p q : Place) : Prop :=
  (∃ left right p' q', q.next c.dialect t = .ok (right, q') ∧
    p.next c.dialect t = .ok (left, p') ∧ c.Alike left right ∧
    (c.Places p' q' ∧ (right.kind = .endOfFile → c.behind = none) ∨
      c.Crossed p' q' ∧ right.kind = .endOfFile)) ∨
  ∃ e, q.next c.dialect t = .error e ∧
    (c.behind ≠ none ∨ p.next c.dialect t = .error (e.down c.lines))

/-- Blanks in front make no difference. -/
theorem Nexts.of_skip {j k : Nat} (hp : ∀ a ∈ p.text.take k, c.dialect.skips a = true)
    (hq : ∀ a ∈ q.text.take j, c.dialect.skips a = true) (h : c.Nexts t (p.skip k) (q.skip j)) :
    c.Nexts t p q := by
  unfold Nexts at h ⊢
  rwa [Place.next_skip hp, Place.next_skip hq] at h

/-- Where nothing follows the second text, the texts are the same from here on. -/
theorem Level.nexts_together (h : c.Level p q) (hbehind : c.behind = none) : c.Nexts t p q := by
  have hsame : p = q.down c.lines := by
    have htext := h.text
    have hposition := h.position
    rw [tail, hbehind, List.append_nil] at htext
    cases p
    cases htext
    cases hposition
    rfl
  subst hsame
  unfold Nexts
  rw [Place.next_down]
  cases hq : q.next c.dialect t with
  | error e => exact .inr ⟨e, rfl, .inr rfl⟩
  | ok found =>
    obtain ⟨token, q'⟩ := found
    have hcovers : token.kind ≠ .endOfFile → c.dialect.Plain ∨ token.kind.isSolid = true →
        token.span.isEmpty = false := fun hkind hroles =>
      hroles.elim (Place.covers_of_plain hq · hkind) (Place.covers_of_isSolid hq)
    obtain ⟨n, hn⟩ := Place.text_of_next hq
    refine .inl ⟨_, _, _, _, rfl, rfl, .same hcovers (fun _ => hbehind) (h.named hq),
      .inl ⟨Level.places ⟨?_, rfl, ?_, ?_, ?_⟩, fun _ => hbehind⟩⟩
    · rw [tail, hbehind, List.append_nil]
      rfl
    · rw [Place.last_of_next hq, h.last]
    · rw [hn]
      exact fun a ha => h.text_ne a (List.mem_of_mem_drop ha)
    · rw [hn]
      exact h.avoids.mono (List.drop_suffix n q.text).isInfix

/-- Where a token stands in front of the border, it stands in both texts. -/
theorem Level.nexts_lexeme (h : c.Level p q) {more rest : List Char} {a : Char}
    (hbehind : c.behind = some more) (htext : q.text = a :: rest) (hfront : c.dialect.skips a = false) :
    c.Nexts t p q := by
  have htail : p.text = a :: rest ++ ' ' :: ';' :: '\n' :: more := by
    rw [h.text, htext, tail, hbehind]
  unfold Nexts
  rw [Place.next_of_not_skips (show c.dialect.skips (charAt q.text 0) = false by rw [htext]; exact hfront),
    Place.next_of_not_skips (show c.dialect.skips (charAt p.text 0) = false by rw [htail]; exact hfront),
    htext, htail]
  cases hx : lexeme c.dialect t (a :: rest) with
  | error fault => exact .inr ⟨q.error fault, rfl, .inl (by simp [hbehind])⟩
  | ok x =>
    obtain ⟨limits, hd⟩ := c.standard (by simp [hbehind])
    have hquote : ' ' ≠ c.dialect.quote := by
      rw [hd]
      exact show ' ' ≠ '\x22' by decide
    obtain ⟨hsame, hlength⟩ := lexeme_border (.inl rfl) hquote (by rw [hd]; rfl)
      (';' :: '\n' :: more) (by simp) hx fun _ => halts_of_isBlank rfl _
    rw [← htext] at hlength
    have hcovers : x.kind ≠ .endOfFile → (q.token x).span.isEmpty = false := fun hkind =>
      Place.covers_of_length (lexeme_length_pos hx hkind) (by rw [htext]; simp)
    rw [hsame]
    have hkind : x.kind ≠ .endOfFile := by
      intro hkind
      cases nil_of_kind hx hkind (by rw [← htext]; exact h.text_ne)
    have hnext : q.next c.dialect t = .ok (q.token x, q.skip x.length) := by
      rw [Place.next_of_not_skips (by rw [htext]; exact hfront), htext, hx]
      rfl
    refine .inl ⟨_, _, _, _, rfl, rfl, ?_,
      .inl ⟨(h.skip hlength).places, fun hend => absurd hend hkind⟩⟩
    rw [h.token hlength]
    exact .same (fun hkind _ => hcovers hkind) (fun hend => absurd hend hkind) (h.named hnext)

/-- **The next tokens of two places** belong together. -/
theorem Places.next (h : c.Places p q) (t : Operator.Table) : c.Nexts t p q := by
  obtain ⟨k, hblank, hlevel⟩ := h
  refine Nexts.of_skip (j := 0) hblank nofun ?_
  rw [Place.skip_zero]
  cases hbehind : c.behind with
  | none => exact hlevel.nexts_together hbehind
  | some more =>
    -- Up to its next token the second text is blank, or it is all blank.
    have hle := runLength_le c.dialect.skips q.text
    have hskips : ∀ a ∈ q.text.take (runLength c.dialect.skips q.text), c.dialect.skips a = true := by
      rw [take_runLength]
      exact fun a ha => of_mem_takeWhile ha
    cases hrest : q.text.drop (runLength c.dialect.skips q.text) with
    | nil =>
      have hall : q.text.take (runLength c.dialect.skips q.text) = q.text :=
        List.take_of_length_le (List.drop_eq_nil_iff.1 hrest)
      rw [hall] at hskips
      obtain ⟨left, right, p', q', hright, hleft, halike, hend, hcrossed⟩ :=
        hlevel.next_blank (t := t) hbehind hskips
      exact .inl ⟨left, right, p', q', hright, hleft, halike, .inr ⟨hcrossed, hend⟩⟩
    | cons a rest =>
      have hleft : ∀ b ∈ (p.skip k).text.take (runLength c.dialect.skips q.text), c.dialect.skips b = true := by
        rw [hlevel.text, List.take_append_of_le_length hle]
        exact hskips
      have hfront : c.dialect.skips a = false := by
        rw [drop_runLength] at hrest
        have := List.head?_dropWhile_not c.dialect.skips q.text
        rw [hrest] at this
        simpa using this
      exact ((hlevel.skip hle).nexts_lexeme hbehind hrest hfront).of_skip hleft hskips

end Coupling

end Dataflow
