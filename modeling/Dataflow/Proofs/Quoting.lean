import Dataflow.Proofs.Retention
import Dataflow.Proofs.Tiling

/-!
# Dataflow.Proofs.Quoting

**Literals decode what descriptions encode.** A literal is a body between quotes, in which a quote only
stands doubled. Reading halves the quotes of the body and describing doubles them, so that each takes
back the other, whatever the content is and however many quotes stand next to each other.

* `Stuffs` — the bodies of literals, with their content;
* `Encloses` — a body and the one quote that closes it, behind an opening quote;
* `literalFrom_eq_some_iff` — the rule on the text is this relation. The body is determined, since the
  closing quote is the first that is not doubled;
* `Reading.Cursor.lookahead_fits` — without marks, the element at the cursor always has room. So a
  literal is never too long for a buffer (`literal_unexceeded`);
* `next_at_quote` — the token, or the error for a literal that is not closed;
* `next_of_describe`, `describe_inj` — reading a description, and that it leaves nothing open.
-/

namespace Dataflow

open Reading Text

/-! ### Room for one element -/

namespace Reading

namespace Buffer

variable {σ α : Type} [Source σ α] {l : Limits} {b : Buffer σ α}

/-- What there is room for is read without growing. -/
theorem elementAt_fits {i n : Nat} {elements : List α} {source : σ} (h : Grown l b)
    (hi : b.ring.size ≤ i) (hn : i + 1 - b.ring.size = n) (hfits : i < b.capacity)
    (short : elements.length ≤ n)
    (hread : (if b.exhausted then .ok [] b.source else Source.readFully n b.source) =
      .ok elements source) : ∃ a b', elementAt i b = .ok a b' := by
  subst hn
  obtain ⟨b', hpull, -⟩ := pull_ok h (by omega) short hread
  rw [elementAt_of_le hi, Run.bind_apply, grow_of_le hfits]
  dsimp only
  rw [Run.bind_apply, hpull]
  exact ⟨_, _, rfl⟩

end Buffer

namespace Cursor

variable {σ α : Type} [Supply σ α] {l : Limits} {c : Cursor σ α} {w : Walk α} {o : Outlook σ α}

omit [Supply σ α] in
/-- Without marks, room is made for the element at the cursor. -/
theorem makeRoom_fits (h : c.Shows l o) (hm : c.marks = []) :
    ∃ c', makeRoom 0 c = .ok () c' ∧ c'.Shows l o ∧ c'.offset < c'.buffer.capacity := by
  obtain ⟨c', hroom, hshows⟩ := makeRoom_ok h 0
  refine ⟨c', hroom, hshows, ?_⟩
  have hpos : 0 < c'.buffer.capacity := c'.buffer.ring.capacity_pos
  have hfits := (makeRoom_roomy hm 0).of_ok hroom
  omega

/-- Without marks, the element at the cursor can always be looked at. -/
theorem lookahead_fits (h : c.Tracks l w) (hm : c.marks = []) :
    ∃ a c', lookahead 0 c = .ok a c' := by
  obtain ⟨o, hshows, hfollows⟩ := h
  obtain ⟨c₁, hroom, h₁, hfits⟩ := makeRoom_fits hshows hm
  unfold lookahead
  simp only [Run.bind_apply, hroom, Run.get_apply]
  by_cases hahead : o.ahead = []
  · -- Nothing has been read ahead, so that one element has to be read.
    have hsize := h₁.size_eq
    rw [hahead, List.length_nil, Nat.add_zero] at hsize
    have hone : c₁.offset + 0 + 1 - c₁.buffer.ring.size = 1 := by omega
    obtain ⟨e, hto⟩ := hfollows
    obtain ⟨source, hportion, -⟩ := hto.portion_ok 1
    rw [Outlook.portion, ← h₁.ended, ← h₁.source] at hportion
    obtain ⟨a, b, helement⟩ := Buffer.elementAt_fits h₁.grown (Nat.le_of_eq hsize) hone hfits
      (by rw [List.length_take]; exact Nat.min_le_left _ _) hportion
    exact ⟨a, _, onBuffer_ok helement⟩
  · obtain ⟨a, rest, hcons⟩ := List.exists_cons_of_ne_nil hahead
    exact ⟨a, c₁, elementAt_held h₁ (by rw [hcons]; rfl)⟩

/-- Without marks, the element at the cursor can always be consumed. -/
theorem consume_fits (h : c.Tracks l w) (hm : c.marks = []) : ∃ a c', consume c = .ok a c' := by
  obtain ⟨a, c₁, hlook⟩ := lookahead_fits h hm
  obtain ⟨o, hshows, hfollows⟩ := h
  obtain ⟨o', hlook', hfollows'⟩ := hfollows.look_ok 0
  have hagrees := lookahead_agrees hshows 0 (hfollows.modest _)
  rw [hlook, hlook'] at hagrees
  cases hagrees with
  | answer h₁ =>
    obtain ⟨rest, hrest⟩ := look_zero_ahead hlook'
    obtain ⟨c₂, hconsume, -⟩ := consume_of_ok hlook h₁ hrest
    exact ⟨_, c₂, hconsume⟩

end Cursor

end Reading

namespace Lexer

variable {quote c : Char} {body content rest text : List Char}

/-! ### Bodies of literals -/

/-- The body of a literal, and its content: every character is itself but the quote, which is there
twice. -/
inductive Stuffs (quote : Char) : (body content : List Char) → Prop
  | nil : Stuffs quote [] []
  | plain {c : Char} {body content : List Char} (hc : c ≠ quote) (h : Stuffs quote body content) :
    Stuffs quote (c :: body) (c :: content)
  | doubled {body content : List Char} (h : Stuffs quote body content) :
    Stuffs quote (quote :: quote :: body) (quote :: content)

/-- The text is a body and the quote that closes it, with no other quote behind that. -/
structure Encloses (quote : Char) (text body content rest : List Char) : Prop where
  split : text = body ++ quote :: rest
  stuffs : Stuffs quote body content
  closed : rest.head? ≠ some quote

/-- Every content has its body. -/
theorem stuffs_flatMap (quote : Char) (content : List Char) :
    Stuffs quote (content.flatMap (doubled quote)) content := by
  induction content with
  | nil => exact .nil
  | cons c content ih =>
    by_cases hc : c = quote
    · subst hc
      simpa [doubled] using Stuffs.doubled ih
    · simpa [doubled, hc] using Stuffs.plain hc ih

theorem literalFrom_of_encloses (h : Encloses quote text body content rest) :
    literalFrom quote text = some (content, body.length + 1) := by
  obtain ⟨rfl, hstuffs, hclosed⟩ := h
  induction hstuffs with
  | nil =>
    refine literalFrom_closed fun rest' hrest => hclosed ?_
    rw [hrest, List.head?_cons]
  | plain hc _ ih => rw [List.cons_append, literalFrom_of_ne hc, ih]; rfl
  | doubled _ ih => rw [List.cons_append, List.cons_append, literalFrom_doubled, ih]; rfl

/-- What the rule finds is enclosed. -/
theorem encloses_of_literalFrom {n : Nat} (h : literalFrom quote text = some (content, n)) :
    ∃ body rest, Encloses quote text body content rest ∧ n = body.length + 1 := by
  induction hn : text.length using Nat.strongRecOn generalizing text content n with
  | ind length ih =>
  subst hn
  cases text with
  | nil => cases h
  | cons c text =>
    by_cases hc : c = quote
    · subst hc
      by_cases hnext : ∃ text', text = c :: text'
      · obtain ⟨text', rfl⟩ := hnext
        rw [literalFrom_doubled] at h
        obtain ⟨⟨content', n'⟩, hrest, hsome⟩ := Option.map_eq_some_iff.1 h
        cases hsome
        obtain ⟨body, rest, hencloses, hlength⟩ := ih _ (by simp only [List.length_cons]; omega) hrest rfl
        refine ⟨c :: c :: body, rest, ⟨?_, .doubled hencloses.stuffs, hencloses.closed⟩, ?_⟩
        · rw [hencloses.split]
          rfl
        · rw [hlength]
          rfl
      · rw [literalFrom_closed fun text' htext => hnext ⟨text', htext⟩] at h
        cases h
        refine ⟨[], text, ⟨rfl, .nil, fun hhead => hnext ?_⟩, rfl⟩
        exact List.head?_eq_some_iff.1 hhead
    · rw [literalFrom_of_ne hc] at h
      obtain ⟨⟨content', n'⟩, hrest, hsome⟩ := Option.map_eq_some_iff.1 h
      cases hsome
      obtain ⟨body, rest, hencloses, hlength⟩ := ih _ (by simp) hrest rfl
      refine ⟨c :: body, rest, ⟨?_, .plain hc hencloses.stuffs, hencloses.closed⟩, ?_⟩
      · rw [hencloses.split]
        rfl
      · rw [hlength]
        rfl

/-- The rule for literals is the relation. -/
theorem literalFrom_eq_some_iff {n : Nat} : literalFrom quote text = some (content, n) ↔
    ∃ body rest, Encloses quote text body content rest ∧ n = body.length + 1 := by
  constructor
  · exact encloses_of_literalFrom
  · rintro ⟨body, rest, hencloses, rfl⟩
    exact literalFrom_of_encloses hencloses

/-! ### No literal is too long -/

section Capacity

variable {σ : Type} [Supply σ Char] {g : Setting} {l : Lexer σ} {p : Place} {saved : List Place}

theorem Reads.marks_nil (h : Reads g l p []) : l.input.marks = [] := by
  obtain ⟨w, ⟨o, hshows, e, hfollows⟩, -, -, -, -, hmarks, -⟩ := h.walk
  have hnil : w.marks = [] := List.map_eq_nil_iff.1 hmarks.symm
  have hmarked := hshows.marked
  rw [hfollows.marked, hnil] at hmarked
  exact List.map_eq_nil_iff.1 hmarked

/-- Without places to go back to, the next character can always be looked at. -/
theorem peek_answers (h : Reads g l p []) :
    Run.Ends (fun c l' => c = charAt p.text 0 ∧ Reads g l' p []) (fun _ _ => False) (peek 0 l) := by
  have hreads := peek_reads h (Nat.zero_le _)
  obtain ⟨w, htracks, -⟩ := h.walk
  obtain ⟨c, input, hlook⟩ := Cursor.lookahead_fits htracks h.marks_nil
  unfold peek at hreads ⊢
  rw [onInput_ok hlook] at hreads ⊢
  exact hreads

/-- And it can always be consumed. -/
theorem bump_answers (h : Reads g l p []) :
    Run.Ends (fun c l' => (p.text = [] → c = endOfInput) ∧ (p.text ≠ [] → Reads g l' (p.skip 1) []))
      (fun _ _ => False) (bump l) := by
  obtain ⟨w, htracks, -⟩ := h.walk
  obtain ⟨c, input, hconsume⟩ := Cursor.consume_fits htracks h.marks_nil
  have hok : ∃ l', bump l = .ok c l' := by
    unfold bump
    rw [Run.bind_apply, onInput_ok hconsume]
    dsimp only
    split <;> exact ⟨_, rfl⟩
  obtain ⟨l', hbump⟩ := hok
  rw [hbump]
  refine ⟨fun hnil => (bump_end h hnil).of_ok hbump, fun hne => ?_⟩
  exact (Run.Ends.of_ok (bump_reads h fun _ => hne) hbump).2

/-- Whatever a literal is like, there is room for it. -/
theorem literal_unexceeded (h : Reads g l p []) (hp : p.text ≠ []) :
    Run.Ends (fun _ _ => True) (fun e _ => ¬ e.Exceeded) (literal l) := by
  have hstalled : ¬ Failure.stalled.Exceeded := nofun
  unfold literal
  rw [Run.bind_apply, Run.get_apply]
  dsimp only
  refine (bump_answers h).bind (fun quote l₁ hl₁ => ?_) fun _ _ he => he.elim
  refine Run.Ends.bind (Q := fun _ _ => True) ?_ (fun content l₂ _ => trivial) fun _ _ he => he
  refine Run.Ends.iterate (I := fun _ l' => ∃ p', Reads g l' p' []) ?_ (fun _ => hstalled)
    ⟨_, hl₁.2 hp⟩
  intro content l' hreads
  obtain ⟨p', h'⟩ := hreads
  refine (bump_answers h').bind (fun c l₂ hl₂ => ?_) fun _ _ he => he.elim
  by_cases hc : c = endOfInput
  · rw [if_pos hc]
    exact nofun
  -- There was a character, so that the lexer is behind it now.
  have h₂ := hl₂.2 fun hnil => hc (hl₂.1 hnil)
  rw [if_neg hc]
  by_cases hplain : c ≠ quote
  · rw [if_pos hplain]
    exact ⟨_, h₂⟩
  · rw [if_neg hplain]
    refine (peek_answers h₂).bind (fun c' l₃ hl₃ => ?_) fun _ _ he => he.elim
    obtain ⟨rfl, h₃⟩ := hl₃
    split
    · next hdoubled =>
      refine (bump_answers h₃).bind (fun _ l₄ hl₄ => ?_) fun _ _ he => he.elim
      refine ⟨_, hl₄.2 (ne_nil_of_charAt ?_)⟩
      rw [hdoubled, ← Decidable.not_not.1 hplain]
      exact hc
    · trivial

/-- Where the rule for literals is the first that applies, there is room for the next token. -/
theorem next_unexceeded (h : Reads g l p []) {text : List Char} (hp : p.text = g.dialect.quote :: text)
    (hskips : g.dialect.skips g.dialect.quote = false) :
    Run.Ends (fun _ _ => True) (fun e _ => ¬ e.Exceeded) (next l) := by
  have hchar : charAt p.text 0 = g.dialect.quote := by rw [hp, charAt_cons_zero]
  have hblank : ¬ (charAt p.text 0 ≠ '\n' ∧ g.dialect.isBlank (charAt p.text 0) = true) := by
    intro hand
    rw [hchar] at hand
    rw [(skips_eq_true_iff _ _).2 (.inl hand)] at hskips
    cases hskips
  have hstalled : ¬ Failure.stalled.Exceeded := nofun
  unfold next
  refine Run.Ends.bind (Q := fun _ _ => True) ?_ (fun token l₂ _ => trivial) fun _ _ he => he
  refine Run.Ends.iterate (I := fun _ l' => Reads g l' p []) ?_ (fun _ => hstalled) h
  intro _ l' h'
  unfold scanRound
  refine (peek_answers h').bind (fun c l₁ hl₁ => ?_) fun _ _ he => he.elim
  obtain ⟨rfl, h₁⟩ := hl₁
  rw [Run.bind_apply, Run.get_apply]
  dsimp only
  rw [Run.bind_apply, Run.get_apply]
  dsimp only
  rw [h₁.dialect, if_neg hblank, if_pos hchar]
  refine (literal_unexceeded h₁ (by rw [hp]; exact List.cons_ne_nil _ _)).bind ?_ fun _ _ he => he
  exact fun token l₂ _ => trivial

/-- What there is instead of an answer where the lexer has places to go back to, and no room for them. -/
def Crowded (g : Setting) (saved : List Place) (e : Failure) : Prop := saved ≠ [] ∧ Excused g e

/-- **A literal is decoded**, and the lexer goes on behind its closing quote; or it is not closed, which
is reported where it begins. -/
theorem next_at_quote (h : Reads g l p saved) {text : List Char} (hp : p.text = g.dialect.quote :: text)
    (hskips : g.dialect.skips g.dialect.quote = false) :
    (∀ body content rest, Encloses g.dialect.quote text body content rest →
      Run.Ends
        (fun token l' => token = .literal (String.ofList content) g.dialect.quote
            ⟨p.position, (p.skip (body.length + 2)).position⟩ ∧
          Reads g l' (p.skip (body.length + 2)) saved)
        (fun e _ => Crowded g saved e) (next l)) ∧
    ((∀ body content rest, ¬ Encloses g.dialect.quote text body content rest) →
      Run.Ends (fun _ _ => False)
        (fun e _ => e = .error (.unterminatedLiteral p.position) ∨ Crowded g saved e) (next l)) := by
  have hchar : charAt p.text 0 = g.dialect.quote := by rw [hp, charAt_cons_zero]
  have hcrowded : Run.Ends (fun _ _ => True) (fun e _ => Excused g e → Crowded g saved e) (next l) := by
    by_cases hsaved : saved = []
    · subst hsaved
      refine (next_unexceeded h hp hskips).mono (fun _ _ _ => trivial) ?_
      exact fun e l' he hexcused => absurd hexcused.1 he
    · exact (Run.Ends.of_true _).mono (fun _ _ _ => trivial) fun e l' _ hexcused => ⟨hsaved, hexcused⟩
  have hmeets := (next_reads h).and hcrowded
  rw [Place.next_of_not_skips (by rw [hchar]; exact hskips), lexeme_of_quote hchar, hp,
    List.drop_succ_cons, List.drop_zero] at hmeets
  constructor
  · intro body content rest hencloses
    rw [literalFrom_of_encloses hencloses] at hmeets
    refine hmeets.mono ?_ ?_
    · intro token l' hboth
      obtain ⟨⟨q, hq, hreads⟩, -⟩ := hboth
      cases hq
      exact ⟨rfl, hreads⟩
    · intro e l' hboth
      rcases hboth.1 with hexcused | ⟨cause, hcause, -⟩
      · exact hboth.2 hexcused
      · cases hcause
  · intro hnone
    have hopen : literalFrom g.dialect.quote text = none := by
      cases hfrom : literalFrom g.dialect.quote text with
      | none => rfl
      | some found =>
        obtain ⟨body, rest, hencloses, -⟩ := encloses_of_literalFrom hfrom
        exact absurd hencloses (hnone body found.1 rest)
    rw [hopen] at hmeets
    refine hmeets.mono ?_ ?_
    · intro token l' hboth
      obtain ⟨⟨q, hq, -⟩, -⟩ := hboth
      cases hq
    · intro e l' hboth
      rcases hboth.1 with hexcused | ⟨cause, hcause, he⟩
      · exact .inr (hboth.2 hexcused)
      · cases hcause
        exact .inl he

end Capacity

/-! ### Descriptions -/

theorem describe_literal (text : String) (quote : Char) (span : Span) :
    (Token.literal text quote span).describe.toList =
      quote :: (text.toList.flatMap (doubled quote) ++ [quote]) := by
  show (String.ofList (Token.quoted quote text.toList)).toList = _
  rw [String.toList_ofList]
  rfl

/-- The description of a literal is a body between quotes, also in front of other text. -/
theorem encloses_describe (text : String) (quote : Char) (rest : List Char)
    (hrest : rest.head? ≠ some quote) :
    Encloses quote (text.toList.flatMap (doubled quote) ++ quote :: rest)
      (text.toList.flatMap (doubled quote)) text.toList rest :=
  ⟨rfl, stuffs_flatMap quote text.toList, hrest⟩

/-- Different literals are described differently. -/
theorem describe_inj {text text' : String} {quote quote' : Char} {span span' : Span}
    (h : (Token.literal text quote span).describe = (Token.literal text' quote' span').describe) :
    text = text' ∧ quote = quote' := by
  have hlist := congrArg String.toList h
  rw [describe_literal, describe_literal, List.cons.injEq] at hlist
  obtain ⟨rfl, hbodies⟩ := hlist
  have hfound := literalFrom_of_encloses (encloses_describe text quote [] nofun)
  have hfound' := literalFrom_of_encloses (encloses_describe text' quote [] nofun)
  rw [hbodies, hfound', Option.some.injEq, Prod.mk.injEq] at hfound
  exact ⟨String.toList_injective hfound.1.symm, rfl⟩

section Descriptions

variable {σ : Type} [Supply σ Char] {d : Dialect}

/-- A description holds no end marker if the content and the quote are none. -/
theorem endOfInput_notMem_describe {text : String} {span : Span} (hquote : quote ≠ endOfInput)
    (htext : endOfInput ∉ text.toList) :
    ∀ c ∈ (Token.literal text quote span).describe.toList, c ≠ endOfInput := by
  have hbody : ∀ c ∈ text.toList.flatMap (doubled quote), c ≠ endOfInput := by
    intro c hc
    obtain ⟨a, ha, hca⟩ := List.mem_flatMap.1 hc
    have hne : a ≠ endOfInput := fun h => htext (h ▸ ha)
    unfold doubled at hca
    split at hca <;> simp_all
  intro c hc
  rw [describe_literal] at hc
  simp only [List.mem_cons, List.mem_append, List.not_mem_nil, or_false] at hc
  rcases hc with rfl | hc | rfl
  · exact hquote
  · exact hbody c hc
  · exact hquote

/-- **Reading takes back describing**: a lexer at the start of a description finds the literal, and
nothing is left behind it. -/
theorem next_of_describe {source : σ} {text : String} {span : Span} (t : Operator.Table)
    (hquote : d.quote ≠ endOfInput) (hskips : d.skips d.quote = false)
    (htext : endOfInput ∉ text.toList)
    (hsource : Supply.Delivers source (Token.literal text d.quote span).describe.toList)
    (hmarker : Source.endMarker source = endOfInput) :
    ∃ l' q, next (ofSource source d t) = .ok (.literal text d.quote ⟨{}, q.position⟩) l' ∧
      Reads ⟨(Token.literal text d.quote span).describe.toList.length, d, t⟩ l' q [] ∧ q.text = [] := by
  have hreads := reads_ofSource (d := d) (t := t) hsource hmarker
    (endOfInput_notMem_describe hquote htext)
  have hends := (next_at_quote hreads (describe_literal text d.quote span) hskips).1 _ _ _
    (encloses_describe text d.quote [] nofun)
  cases hnext : next (ofSource source d t) with
  | error e l' =>
    -- There is no place to go back to.
    exact absurd rfl (hends.of_error hnext).1
  | ok token l' =>
    obtain ⟨htoken, hl'⟩ := hends.of_ok hnext
    rw [String.ofList_toList] at htoken
    refine ⟨l', _, congrArg (EStateM.Result.ok · l') htoken, hl', ?_⟩
    rw [Place.text_skip, describe_literal]
    refine List.drop_eq_nil_of_le ?_
    simp only [List.length_cons, List.length_append, List.length_nil]
    omega

/-- **Literals decode exactly, and describing is inverse to that.** At a quote that is not a blank, a body
and the one quote that closes it are the next token, with the content of the body; without a quote that
closes it, the literal is reported where it begins. So the description of a literal is read as that
literal, and no other literal is described like it. -/
theorem literals_decode (hquote : d.quote ≠ endOfInput) (hskips : d.skips d.quote = false) :
    (∀ (g : Setting) (l : Lexer σ) (p : Place) (saved : List Place) (text : List Char),
      g.dialect = d → Reads g l p saved → p.text = d.quote :: text →
      (∀ body content rest, Encloses d.quote text body content rest →
        Run.Ends
          (fun token l' => token = .literal (String.ofList content) d.quote
              ⟨p.position, (p.skip (body.length + 2)).position⟩ ∧
            Reads g l' (p.skip (body.length + 2)) saved)
          (fun e _ => Crowded g saved e) (next l)) ∧
      ((∀ body content rest, ¬ Encloses d.quote text body content rest) →
        Run.Ends (fun _ _ => False)
          (fun e _ => e = .error (.unterminatedLiteral p.position) ∨ Crowded g saved e) (next l))) ∧
    (∀ (source : σ) (text : String) (span : Span) (t : Operator.Table),
      endOfInput ∉ text.toList →
      Supply.Delivers source (Token.literal text d.quote span).describe.toList →
      Source.endMarker source = endOfInput →
      ∃ l' q, next (ofSource source d t) = .ok (.literal text d.quote ⟨{}, q.position⟩) l' ∧
        Reads ⟨(Token.literal text d.quote span).describe.toList.length, d, t⟩ l' q [] ∧
        q.text = []) ∧
    ∀ (text text' : String) (span span' : Span), text ≠ text' →
      (Token.literal text d.quote span).describe ≠ (Token.literal text' d.quote span').describe := by
  refine ⟨?_, ?_, ?_⟩
  · intro g l p saved text hd h hp
    subst hd
    exact next_at_quote h hp hskips
  · intro source text span t htext hsource hmarker
    exact next_of_describe t hquote hskips htext hsource hmarker
  · intro text text' span span' hne hsame
    exact hne (describe_inj hsame).1

/-- A literal of line breaks, whose quote is a line break too, through a buffer for one character. -/
theorem literals_decode_line_breaks :
    let d : Dialect := { quote := '\n', limits := ⟨1, 1⟩ }
    let text := "\n\na \n"
    let source := Items.ofText (Token.literal text '\n' default).describe
    d.quote ≠ endOfInput ∧ d.skips d.quote = false ∧ endOfInput ∉ text.toList ∧
      ∃ l' q, next (ofSource source d .standard) = .ok (.literal text '\n' ⟨{}, q.position⟩) l' ∧
        Reads ⟨(Token.literal text d.quote default).describe.toList.length, d, .standard⟩ l' q [] ∧
        q.text = [] := by
  intro d text source
  have hquote : d.quote ≠ endOfInput := by decide
  have hskips : d.skips d.quote = false := by decide
  have htext : endOfInput ∉ text.toList := by decide
  have hsource : source.rest = (Token.literal text d.quote default).describe.toList := by
    decide +kernel
  exact ⟨hquote, hskips, htext,
    (literals_decode hquote hskips).2.1 source text default .standard htext hsource rfl⟩

end Descriptions

end Lexer

end Dataflow
