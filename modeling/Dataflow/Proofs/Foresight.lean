import Dataflow.Proofs.Consumption
import Dataflow.Proofs.SessionEchoing
import Dataflow.Proofs.Supply
import Dataflow.Proofs.Transcript

/-!
# Dataflow.Proofs.Foresight

**A finished statement does not depend on what follows it.** A parser reads a text that ends with an executor,
and has returned statements for it up to that executor. Whatever bytes come behind the text, and even if reading
them fails, it returns the same statements, and only later requests meet what is there
(`yields_of_continued`).

It takes two things. The first character behind the text has to be readable, if there is one: the lexer looks at
the character behind an executor, as behind everything that could begin an arrow, before it returns the executor.
And no symbol goes on with an executor, or the executor and what is behind it could be the rest of that symbol
(`executor_looks_ahead`).
-/

namespace Dataflow

open Reading Text

/-! ### Readers of bytes -/

namespace Reading.ByteReader

variable {r r' : ByteReader} {bytes more : List UInt8} {text : List Char}

/-- Less than what has been asked for is handed out at the end only. -/
theorem readChars_short {n : Nat} {cs : List Char} (h : readChars n r = .ok cs r') :
    cs.length = n ∨ cs.length < n ∧ r'.ended = true := by
  induction n generalizing r cs with
  | zero =>
    cases h
    exact .inl rfl
  | succ n ih =>
    rw [readChars, Run.bind_apply, Run.get_apply] at h
    dsimp only at h
    cases hended : r.ended with
    | true =>
      rw [hended, if_pos rfl] at h
      cases h
      exact .inr ⟨Nat.zero_lt_succ n, hended⟩
    | false =>
      rw [hended, if_neg Bool.false_ne_true, Run.bind_apply] at h
      cases hchar : nextChar r with
      | error e r₁ =>
        rw [hchar] at h
        cases h
      | ok found r₁ =>
        rw [hchar] at h
        cases found with
        | none =>
          cases h
          exact .inr ⟨Nat.zero_lt_succ n, rfl⟩
        | some c =>
          dsimp only at h
          rw [Run.bind_apply] at h
          cases hrest : readChars n r₁ with
          | error e r₂ =>
            rw [hrest] at h
            cases h
          | ok rest r₂ =>
            rw [hrest] at h
            cases h
            exact (ih hrest).imp (congrArg (· + 1)) fun h => ⟨Nat.succ_lt_succ h.1, h.2⟩

/-- A portion is as long as it has been asked for, unless the text ends. -/
theorem readFully_eq (n : Nat) (r : ByteReader) : Source.readFully n r = readChars n r := by
  unfold Source.readFully
  cases n with
  | zero => rfl
  | succ n =>
    unfold Source.readPortions
    have hportion : (Source.read (n + 1) : Run ByteReader (List Char)) r = readChars (n + 1) r := rfl
    rw [if_neg (Nat.succ_ne_zero n), Run.bind_apply, hportion]
    cases hread : readChars (n + 1) r with
    | error e r' => rfl
    | ok cs r' =>
      dsimp only
      by_cases hempty : cs.isEmpty = true
      · rw [if_pos hempty, List.isEmpty_iff.1 hempty]
        rfl
      have hrest : Source.readPortions n (n + 1 - cs.length) r' = .ok [] r' := by
        rcases readChars_short hread with hfull | ⟨-, hended⟩
        · rw [hfull, Nat.sub_self]
          cases n <;> rfl
        · cases n with
          | zero => rfl
          | succ n =>
            unfold Source.readPortions
            split
            · rfl
            · have hend : (Source.read (n + 1 + 1 - cs.length) : Run ByteReader (List Char)) r' = .ok [] r' :=
                readChars_ended hended _
              rw [Run.bind_apply, hend]
              rfl
      rw [if_neg hempty, Run.bind_apply, hrest]
      show EStateM.Result.ok (cs ++ []) r' = .ok cs r'
      rw [List.append_nil]

/-- The bytes of a text are used up for its characters. -/
theorem Brings.readChars_text (h : r.Brings (text.flatMap String.utf8EncodeChar ++ more)) :
    ∃ r₁, r₁.Brings more ∧ r.Passes (text.flatMap String.utf8EncodeChar).length r₁ ∧
      ∀ n, readChars (text.length + n) r = match readChars n r₁ with
        | .ok cs r₂ => .ok (text.map admitted ++ cs) r₂
        | .error e r₂ => .error e r₂ := by
  induction text generalizing r with
  | nil =>
    refine ⟨r, h, .refl r, fun n => ?_⟩
    rw [List.length_nil, Nat.zero_add]
    cases readChars n r <;> rfl
  | cons c text ih =>
    rw [List.flatMap_cons, List.append_assoc] at h
    obtain ⟨r₁, hchar, h₁, hpasses₁⟩ := h.nextChar_some
    obtain ⟨r₂, h₂, hpasses₂, hread⟩ := ih h₁
    refine ⟨r₂, h₂, ?_, fun n => ?_⟩
    · rw [List.flatMap_cons, List.length_append, Nat.add_comm]
      exact hpasses₁.trans hpasses₂
    · rw [List.length_cons, Nat.add_right_comm, readChars, Run.bind_apply, Run.get_apply]
      dsimp only
      rw [h.ended, if_neg Bool.false_ne_true, Run.bind_apply, hchar]
      dsimp only
      rw [Run.bind_apply, hread n]
      cases readChars n r₂ <;> rfl

theorem Brings.readChars_end (h : r.Brings []) (hunfailing : Unfailing r.arrivals) :
    ∃ r₁, readChars 1 r = .ok [] r₁ ∧ r₁.unused ≤ r.unused := by
  obtain ⟨r₁, hchar, hle⟩ := h.nextChar_none hunfailing
  refine ⟨{ r₁ with ended := true }, ?_, hle⟩
  rw [readChars, Run.bind_apply, Run.get_apply]
  dsimp only
  rw [h.ended, if_neg Bool.false_ne_true, Run.bind_apply, hchar]
  rfl

/-- The reader brings these bytes, and then the end or another character. What is behind that is open. -/
inductive Opens (bytes : List UInt8) (r : ByteReader) : Prop
  | ends (h : r.Holds bytes)
  | goesOn (c : Char) (rest : List UInt8) (h : r.Brings (bytes ++ (String.utf8EncodeChar c ++ rest)))

namespace Opens

variable (h : Opens (text.flatMap String.utf8EncodeChar ++ bytes) r)

include h

theorem exists_brings : ∃ more, r.Brings (text.flatMap String.utf8EncodeChar ++ (bytes ++ more)) := by
  cases h with
  | ends h => exact ⟨[], by rw [List.append_nil]; exact h.brings⟩
  | goesOn c rest h => exact ⟨_, by rw [← List.append_assoc]; exact h⟩

/-- Behind a text the reader opens with what is left. -/
theorem readFully_text : ∃ r₁, Source.readFully text.length r = .ok (text.map admitted) r₁ ∧ Opens bytes r₁ := by
  obtain ⟨r₁, hread, hopens⟩ : ∃ r₁, readChars (text.length + 0) r = .ok (text.map admitted) r₁ ∧
      Opens bytes r₁ := by
    cases h with
    | ends h =>
      obtain ⟨r₁, h₁, hpasses, hread⟩ := h.brings.readChars_text
      refine ⟨r₁, ?_, .ends (.of_passes h₁ hpasses h.unfailing)⟩
      rw [hread]
      exact congrArg (EStateM.Result.ok · r₁) (List.append_nil _)
    | goesOn c rest h =>
      rw [List.append_assoc] at h
      obtain ⟨r₁, h₁, -, hread⟩ := h.readChars_text
      refine ⟨r₁, ?_, .goesOn c rest h₁⟩
      rw [hread]
      exact congrArg (EStateM.Result.ok · r₁) (List.append_nil _)
  refine ⟨r₁, ?_, hopens⟩
  rw [readFully_eq]
  exact hread

end Opens

/-- Whoever asks for one character more than a text has is given another character, or none. -/
theorem Opens.readFully_more (h : Opens (text.flatMap String.utf8EncodeChar) r) :
    ∃ more r₁, Source.readFully (text.length + 1) r = .ok (text.map admitted ++ more) r₁ ∧ more.length ≤ 1 := by
  cases h with
  | ends h =>
    have hbrings := h.brings
    rw [← List.append_nil (text.flatMap String.utf8EncodeChar)] at hbrings
    obtain ⟨r₁, h₁, hpasses, hread⟩ := hbrings.readChars_text
    obtain ⟨r₂, hend, -⟩ := h₁.readChars_end (hpasses.unfailing h.unfailing)
    refine ⟨[], r₂, ?_, Nat.zero_le 1⟩
    rw [readFully_eq, hread, hend]
  | goesOn c rest h =>
    obtain ⟨r₁, h₁, -, hread⟩ := h.readChars_text
    have hchar : r₁.Brings ([c].flatMap String.utf8EncodeChar ++ rest) := by
      rw [List.flatMap_singleton]
      exact h₁
    obtain ⟨r₂, -, -, hread₂⟩ := hchar.readChars_text
    refine ⟨[admitted c], r₂, ?_, Nat.le_refl 1⟩
    rw [readFully_eq, hread, show readChars 1 r₁ = .ok [admitted c] r₂ from hread₂ 0]

/-- The first reader opens with the text whose encoding the second one holds and no more, and the characters
are those of the text. -/
def Shared (x : List Char) (r r' : ByteReader) : Prop :=
  ∃ text : List Char, x = text.map admitted ∧ Opens (text.flatMap String.utf8EncodeChar) r ∧
    r'.Holds (text.flatMap String.utf8EncodeChar) ∧ r'.unused = (text.flatMap String.utf8EncodeChar).length

theorem shares : Source.Shares endOfInput Shared where
  read := by
    rintro x r r' ⟨text, rfl, hopens, hholds, hunused⟩ n hn
    rw [List.length_map] at hn
    obtain ⟨front, back, rfl, rfl⟩ : ∃ front back, text = front ++ back ∧ n = front.length :=
      ⟨text.take n, text.drop n, (List.take_append_drop n text).symm, (List.length_take_of_le hn).symm⟩
    rw [List.flatMap_append] at hopens hholds hunused
    obtain ⟨r₁, hread, hopens₁⟩ := hopens.readFully_text
    obtain ⟨r₁', h₁, hpasses, hread'⟩ := hholds.brings.readChars_text
    refine ⟨r₁, r₁', ?_, ?_, back, ?_, hopens₁, .of_passes h₁ hpasses hholds.unfailing, ?_⟩
    · rw [hread, List.map_append, List.take_left' (List.length_map ..)]
    · rw [readFully_eq, ← Nat.add_zero front.length, hread', List.map_append, Nat.add_zero,
        List.take_left' (List.length_map ..)]
      exact congrArg (EStateM.Result.ok · r₁') (List.append_nil _)
    · rw [List.map_append, List.drop_left' (List.length_map ..)]
    · have hpassed := hpasses.unused
      rw [List.length_append] at hunused
      omega
  last := by
    rintro x r r' ⟨text, rfl, hopens, hholds, hunused⟩
    obtain ⟨more, r₁, hread, hmore⟩ := hopens.readFully_more
    have hbrings := hholds.brings
    rw [← List.append_nil (text.flatMap String.utf8EncodeChar)] at hbrings
    obtain ⟨r₁', h₁, hpasses, hread'⟩ := hbrings.readChars_text
    obtain ⟨r₂', hend, hle⟩ := h₁.readChars_end (hpasses.unfailing hholds.unfailing)
    rw [List.length_map]
    refine ⟨more, r₁, r₂', hread, hmore, ?_, rfl, ?_⟩
    · rw [readFully_eq, hread', hend]
      exact congrArg (EStateM.Result.ok · r₂') (List.append_nil _)
    · have hpassed := hpasses.unused
      show r₂'.unused ≤ r₁.unused
      omega
  remaining := by
    rintro x r r' ⟨text, -, hopens, -, hunused⟩
    rw [← List.append_nil (text.flatMap String.utf8EncodeChar)] at hopens
    obtain ⟨more, hbrings⟩ := hopens.exists_brings
    have hle := hbrings.length_le
    rw [List.length_append] at hle
    show r'.unused ≤ r.unused
    omega

end Reading.ByteReader

/-! ### Sessions -/

namespace Parser

open Lexer Session

section Pairs

variable {σ τ : Type} [Source σ Char] [Source τ Char] {J : List Char → σ → τ → Prop} {text : List Char}

theorem upTo_ofSource {source : σ} {source' : τ} (h : J text source source') (htext : text = [] ∨ Concluded text)
    {table : Operator.Table} (htame : Tame table) :
    UpTo J (Lexer.ofSource source {} table) (Lexer.ofSource source' {} table) :=
  ⟨text, htext, ⟨rfl, rfl⟩, rfl, htame, rfl, rfl, Cursor.level_ofSource h _⟩

theorem over_ofSource {source : σ} {source' : τ} (h : J text source source') (htext : text = [] ∨ Concluded text)
    {table : Operator.Table} (htame : Tame table) :
    Session.Over (UpTo J) (Session.ofSource source {} table) (Session.ofSource source' {} table) :=
  ⟨⟨⟨upTo_ofSource h htext htame, rfl, rfl, rfl⟩, rfl, rfl, rfl, rfl⟩, rfl, rfl⟩

variable (hJ : Source.Shares endOfInput J)

include hJ

/-- A session that has gone astray stays so. -/
theorem astray_of_yields {t u : Session τ} {replies : List Reply} (h : Session.Astray t)
    (hyields : Yields t replies u) : Session.Astray u := by
  induction hyields with
  | nil => exact h
  | cons hparse _ ih => exact ih ((parseStatement_echoes hJ).keeps h hparse)

/-- **Statements** in front of the last executor. -/
theorem yields_echo {s : Session σ} {t u : Session τ} {replies : List Reply} (h : Session.Over (UpTo J) s t)
    (hyields : Yields t replies u) :
    (∃ v, Yields s replies v ∧ Session.Over (UpTo J) v u) ∨ Session.Astray u := by
  induction hyields generalizing s with
  | nil t => exact .inl ⟨s, .nil s, h⟩
  | @cons t t₁ u statement replies hparse hrest ih =>
    obtain ⟨s₁, hs₁, h₁⟩ | hastray := (parseStatement_echoes hJ).run h hparse
    · refine (ih h₁).imp_left fun ⟨v, hyields, hv⟩ => ⟨v, ?_, hv⟩
      have htrace : s₁.trace = t₁.trace := congrArg List.reverse h₁.calls
      rw [← htrace]
      exact .cons hs₁ hyields
    · exact .inr (astray_of_yields hJ hastray hrest)

end Pairs

/-! ### Sessions that stop at an executor -/

section Alone

variable {σ : Type} [Source σ Char] {J : List Char → σ → σ → Prop} {text : List Char}

/-- A lexer that has scanned no end is in front of the last executor, or right behind it. -/
theorem upTo_of_becomes (hJ : Source.Shares endOfInput J) {v w : Sight σ} {es : List Event}
    (h : v.Becomes es w) (hv : UpTo J v.lexer v.lexer) (htame : Tame w.lexer.table)
    (hes : ∀ token ∈ scannedIn es, token.kind ≠ .endOfFile) : UpTo J w.lexer w.lexer := by
  induction h with
  | refl v => exact hv
  | @step v u w e es hstep hrest ih =>
    cases hstep with
    | @scan token lexer hnext =>
      refine ih ?_ htame fun token' htoken' => hes token' (List.mem_cons_of_mem token htoken')
      obtain ⟨ahead, rfl | hends, hlevel⟩ := hv
      · exact absurd (hlevel.next_border hJ hnext).1 (hes token List.mem_cons_self)
      · obtain ⟨lexer', hnext', hupTo⟩ :=
          ((next_echoes hJ).run ⟨ahead, hends, hlevel⟩ hnext).resolve_right id
        rw [hnext] at hnext'
        cases hnext'
        exact hupTo
    | take hahead => exact ih hv htame hes
    | @register op =>
      refine ih (hv.register ?_) htame hes
      have htable : w.lexer.table = (v.lexer.table.insert op).insertAll (registeredIn es) := hrest.table
      rw [htable] at htame
      exact htame.of_insertAll

theorem ongoing_of_yields {source : σ} {dialect : Dialect} {table : Operator.Table} {s t : Session σ}
    {replies : List Reply} (h : Ongoing source dialect table s) (hyields : Yields s replies t) :
    Ongoing source dialect table t := by
  induction hyields with
  | nil => exact h
  | cons hparse _ ih => exact ih (h.parsed hparse)

/-- The operators of the start are not forgotten. -/
theorem tame_of_ongoing {source : σ} {dialect : Dialect} {table : Operator.Table} {t : Session σ}
    (h : Ongoing source dialect table t) (htame : Tame t.table) : Tame table := by
  obtain ⟨past, v, hpast, hsees, -⟩ := h.exists_past
  rw [hsees.table_eq, hpast.table] at htame
  exact htame.of_insertAll

/-- A session with nothing in view behind its statements has scanned no end. -/
theorem not_astray (hJ : Source.Shares endOfInput J) {source : σ} (h : J text source source)
    (htext : text = [] ∨ Concluded text) {table : Operator.Table} {t : Session σ}
    (hongoing : Ongoing source {} table t)
    (hview : t.tokens.buffer.buffered? t.tokens.offset = none) (htame : Tame t.table) :
    ¬ Session.Astray t := by
  -- with nothing in view, all that has been scanned has been taken, and no statement takes the end
  have hstart := tame_of_ongoing hongoing htame
  obtain ⟨past, v, hpast, hsees, hbetween⟩ := hongoing.exists_past
  rw [hsees.table_eq] at htame
  obtain ⟨limits, o, hshows, hsource, hahead, -⟩ := hsees
  have hnone : v.ahead = [] := by
    rw [← hahead, ← hshows.ahead, List.drop_eq_nil_iff]
    refine List.getElem?_eq_none_iff.1 ?_
    rw [Ring.getElem?_toList]
    exact hview
  have hscanned := hpast.ahead
  rw [hnone, List.append_nil] at hscanned
  have hupTo := upTo_of_becomes hJ hpast (upTo_ofSource h htext hstart) htame fun token htoken =>
    hbetween.1 token (by rwa [← hscanned])
  show ¬ Lexer.Astray t.tokens.buffer.source
  rw [hshows.source, hsource]
  exact hupTo.not_astray

end Alone

/-- **A finished statement does not depend on what follows it.** On `text` alone, which ends with an executor, a
parser returns statements, and then has nothing in view: it has completed the last of them with that executor,
and has not looked for more. Then it returns the same statements, with the same calls, on anything that goes on
behind `text` with one more character, or not at all; and what it replies later is what it replies from there on.
-/
theorem yields_of_continued {text : String} {arrivals arrivals' : List Arrival} {table : Operator.Table}
    {replies : List Reply} {t : Session ByteReader} (hends : Concluded text.toList)
    (halone : Arrive text.toUTF8.data.toList arrivals)
    (hyields : Yields (Session.ofSource ({ arrivals } : ByteReader) {} table) replies t)
    (hview : t.tokens.buffer.buffered? t.tokens.offset = none) (htame : Tame t.table)
    (hcontinued : ByteReader.Opens text.toUTF8.data.toList { arrivals := arrivals' }) :
    ∃ t', Yields (Session.ofSource ({ arrivals := arrivals' } : ByteReader) {} table) replies t' ∧
      t'.table = t.table ∧ t'.netlist = t.netlist ∧
      ∀ n, transcript (replies.length + n)
          (Session.ofSource ({ arrivals := arrivals' } : ByteReader) {} table) =
        replies ++ transcript n t' := by
  have hbytes : text.toUTF8.data.toList = text.toList.flatMap String.utf8EncodeChar := by
    simp [← String.utf8Encode_toList, List.utf8Encode]
  rw [hbytes] at halone hcontinued
  -- the reader that goes on goes along with the one that ends, and that one with itself
  have hunused := halone.unused_eq
  have hshared : ByteReader.Shared (text.toList.map admitted) { arrivals := arrivals' } { arrivals } :=
    ⟨text.toList, rfl, hcontinued, halone.holds, hunused⟩
  have hself : ByteReader.Shared (text.toList.map admitted) { arrivals } { arrivals } :=
    ⟨text.toList, rfl, .ends halone.holds, halone.holds, hunused⟩
  have hadmitted : Concluded (text.toList.map admitted) := by
    obtain ⟨front, hfront⟩ := hends
    exact ⟨front.map admitted, by rw [hfront, List.map_append]; rfl⟩
  have hongoing := ongoing_of_yields (.start ({ arrivals } : ByteReader) {} table) hyields
  have hstart := over_ofSource hshared (.inr hadmitted) (tame_of_ongoing hongoing htame)
  obtain ⟨t', hyields', hover⟩ := (yields_echo ByteReader.shares hstart hyields).resolve_right
    (not_astray ByteReader.shares hself (.inr hadmitted) hongoing hview htame)
  refine ⟨t', hyields', ?_, hover.netlist, hyields'.transcript_eq⟩
  obtain ⟨ahead, -, hlevel⟩ := hover.tokens.buffer.source
  exact hlevel.table

/-- A session on bytes, as they arrive. -/
def reading (arrivals : List Arrival) : Session ByteReader :=
  Session.ofSource { arrivals } {} .standard

/-- Behind `define entity Percent % postfix ;5%;` there is a digit, and then the reader fails. -/
theorem yields_in_front_of_failure : ∃ replies t', replies.map Reply.answer =
      [.ok (some (.entity ⟨"Percent", "%", .postfixOp, 0, [], [], []⟩)),
        .ok (some (.expression (.apply "Percent" [.integer "5"])))] ∧
    Yields (reading [.bytes [100, 101, 102, 105, 110, 101, 32, 101, 110, 116, 105, 116, 121, 32, 80, 101, 114,
      99, 101, 110, 116, 32, 37, 32, 112, 111, 115, 116, 102, 105, 120, 32, 59, 53, 37, 59, 50],
      .failed "gone"]) replies t' := by
  let bytes : List UInt8 := [100, 101, 102, 105, 110, 101, 32, 101, 110, 116, 105, 116, 121, 32, 80, 101, 114,
    99, 101, 110, 116, 32, 37, 32, 112, 111, 115, 116, 102, 105, 120, 32, 59, 53, 37, 59]
  have hbytes : "define entity Percent % postfix ;5%;".toUTF8.data.toList = bytes ++ [] := by decide +kernel
  have hfirst := Run.eq_ok_of_answer? (r := parseStatement (reading [.bytes bytes]))
    (a := some (.entity ⟨"Percent", "%", .postfixOp, 0, [], [], []⟩)) (by decide +kernel)
  have hsecond := Run.eq_ok_of_answer?
    (r := parseStatement (Run.leaves (parseStatement (reading [.bytes bytes]))))
    (a := some (.expression (.apply "Percent" [.integer "5"]))) (by decide +kernel)
  have halone : Arrive "define entity Percent % postfix ;5%;".toUTF8.data.toList [.bytes bytes] := by
    rw [hbytes]
    exact .portion nofun .ended
  have hcontinued : ByteReader.Opens "define entity Percent % postfix ;5%;".toUTF8.data.toList
      { arrivals := [.bytes (bytes ++ [50]), .failed "gone"] } :=
    .goesOn '2' [] ⟨by rw [hbytes]; rfl, rfl⟩
  obtain ⟨t', hyields, -⟩ := yields_of_continued
    ⟨"define entity Percent % postfix ;5%".toList, by decide +kernel⟩ halone (.cons hfirst (.cons hsecond (.nil _)))
    (by decide +kernel) (by decide +kernel) hcontinued
  exact ⟨_, t', rfl, hyields⟩

/-- An executor is returned when the character behind it has been looked at. Behind `1;` there is a byte that
begins no character, and the first request fails. And in front of a symbol that goes on with executors, it
takes all of them to tell what has been meant: what `5!;` says changes when one more comes behind it. -/
theorem executor_looks_ahead :
    (∃ replies t, Yields (reading [.bytes [49, 59]]) replies t ∧
      replies.map Reply.answer = [.ok (some (.expression (.integer "1")))] ∧
      t.tokens.buffer.buffered? t.tokens.offset = none ∧
      (transcript 1 (reading [.bytes [49, 59], .bytes [255]])).map Reply.answer =
        [.error (.error (.input (.invalidLead 255)))]) ∧
    (∃ replies t, Yields (reading [.bytes [100, 101, 102, 105, 110, 101, 32, 101, 110, 116, 105, 116, 121, 32,
        69, 32, 34, 33, 59, 59, 34, 32, 112, 111, 115, 116, 102, 105, 120, 32, 59, 53, 33, 59]]) replies t ∧
      replies.map Reply.answer = [.ok (some (.entity ⟨"E", "!;;", .postfixOp, 0, [], [], []⟩)),
        .ok (some (.expression (.apply "Factorial" [.integer "5"])))] ∧
      t.tokens.buffer.buffered? t.tokens.offset = none ∧
      (transcript 2 (reading [.bytes [100, 101, 102, 105, 110, 101, 32, 101, 110, 116, 105, 116, 121, 32,
        69, 32, 34, 33, 59, 59, 34, 32, 112, 111, 115, 116, 102, 105, 120, 32, 59, 53, 33, 59],
        .bytes [59]])).map Reply.answer = [.ok (some (.entity ⟨"E", "!;;", .postfixOp, 0, [], [], []⟩)),
        .ok (some (.expression (.apply "E" [.integer "5"])))]) := by
  have hone := Run.eq_ok_of_answer? (r := parseStatement (reading [.bytes [49, 59]]))
    (a := some (.expression (.integer "1"))) (by decide +kernel)
  let bytes : List UInt8 := [100, 101, 102, 105, 110, 101, 32, 101, 110, 116, 105, 116, 121, 32,
    69, 32, 34, 33, 59, 59, 34, 32, 112, 111, 115, 116, 102, 105, 120, 32, 59, 53, 33, 59]
  have hfirst := Run.eq_ok_of_answer? (r := parseStatement (reading [.bytes bytes]))
    (a := some (.entity ⟨"E", "!;;", .postfixOp, 0, [], [], []⟩)) (by decide +kernel)
  have hsecond := Run.eq_ok_of_answer?
    (r := parseStatement (Run.leaves (parseStatement (reading [.bytes bytes]))))
    (a := some (.expression (.apply "Factorial" [.integer "5"]))) (by decide +kernel)
  refine ⟨⟨_, _, .cons hone (.nil _), rfl, by decide +kernel, by decide +kernel⟩,
    _, _, .cons hfirst (.cons hsecond (.nil _)), rfl, by decide +kernel, by decide +kernel⟩

end Parser

end Dataflow
