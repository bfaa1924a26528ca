import Dataflow.Proofs.Footing
import Dataflow.Proofs.Ledger

/-!
# Dataflow.Proofs.LexerLedger

**The position of a lexer goes with its cursor.** A lexer keeps its position, the positions to go back
to and its count of characters beside the cursor, and moves both in the same steps. An error may end a
token anywhere, with a mark left behind. Even then they agree.

Whatever a lexer has been asked, what it has done is a number of single steps: to look ahead, to take a
character, to mark, to give up a mark or to go back to it, to count a token, to know a further operator
and to go on with another source. Each of them may fail, and the next one may follow anyway.

* `Lexer.follow` — such steps one after the other, with the ledger of the cursor;
* `Lexer.Agrees` — the invariant: position, saved positions and count are those of the characters in
  the ledger. Every step keeps it (`Step.agrees`), and so does every number of them;
* `Lexer.respected_followed` — all rules of the lexer are made of such steps, and with them all
  requests (`Lexer.exists_steps`);
* `Lexer.position_kept` — the result.
-/

namespace Dataflow.Lexer

open Reading Text

/-- The position behind such characters, of which those that stand for the end take no place. -/
def placeOf (cs : List Char) : Position := Position.after {} (cs.filter (· ≠ endOfInput))

@[simp] theorem placeOf_nil : placeOf [] = {} := rfl

theorem placeOf_append (cs more : List Char) :
    placeOf (cs ++ more) = (placeOf cs).after (more.filter (· ≠ endOfInput)) := by
  rw [placeOf, List.filter_append, Position.after_append]
  rfl

/-- A single step of a lexer, or what is done to it from outside. -/
inductive Step (σ : Type) where
  | peek (k : Nat)
  | bump | mark | commit | rollback
  /-- To count a token. -/
  | tally
  | register (op : Operator)
  | reset (source : σ) (table : Operator.Table)

variable {σ : Type} [Source σ Char]

namespace Step

/-- The characters that a step takes. -/
def perform : Step σ → Run (Lexer σ) (List Char)
  | peek k => (fun _ => []) <$> Lexer.peek k
  | bump => (fun c => [c]) <$> Lexer.bump
  | mark => (fun _ => []) <$> Lexer.mark
  | commit => (fun _ => []) <$> Lexer.commit
  | rollback => (fun _ => []) <$> Lexer.rollback
  | tally => (fun _ => []) <$> modify Lexer.tally
  | register op => (fun _ => []) <$> modify fun l => (l.register op).2
  | reset source table => (fun _ => []) <$> modify (Lexer.reset · source table)

omit [Source σ Char] in
/-- What a step comes to that has taken such characters. -/
def note (ledger : Ledger Char) (taken : List Char) : Step σ → Ledger Char
  | mark => ledger.mark
  | commit => ledger.commit
  | rollback => ledger.rollback
  | reset .. => {}
  | _ => ledger.take taken

/-- A step, and what it comes to if it does not fail. -/
def follow (step : Step σ) (l : Lexer σ) (ledger : Ledger Char) : Lexer σ × Ledger Char :=
  match step.perform l with
  | .ok taken l' => (l', step.note ledger taken)
  | .error _ l' => (l', ledger)

end Step

/-- Steps one after the other, whether or not they fail. -/
def follow (steps : List (Step σ)) (l : Lexer σ) (ledger : Ledger Char) : Lexer σ × Ledger Char :=
  steps.foldl (fun s step => step.follow s.1 s.2) (l, ledger)

/-! ### The invariant -/

/-- A lexer that is where the ledger says. -/
structure Agrees (ledger : Ledger Char) (l : Lexer σ) : Prop where
  input : l.input.Recorded l.dialect.limits ledger
  position : l.position = placeOf ledger.consumed
  saved : l.saved = ledger.saved.map placeOf
  /-- What has been gone back over was counted when it was consumed. -/
  characters : l.statistics.characters = proper ledger.consumed + proper ledger.undone

theorem agrees_ofSource (source : σ) (d : Dialect) (table : Operator.Table) :
    Agrees {} (ofSource source d table) where
  input := Cursor.recorded_ofSource source d.limits
  position := rfl
  saved := rfl
  characters := rfl

section Steps

variable {l : Lexer σ} {ledger : Ledger Char} {β : Type}

omit [Source σ Char] in
/-- What is asked of the cursor changes nothing else. -/
theorem onInput_ends {x : Run (Cursor σ Char) β} {Q : β → Cursor σ Char → Prop}
    {E : Failure → Cursor σ Char → Prop} (hx : Run.Ends Q E (x l.input)) :
    Run.Ends (fun b l' => ∃ input, l' = { l with input } ∧ Q b input)
      (fun e l' => ∃ input, l' = { l with input } ∧ E e input) (onInput x l) := by
  cases hr : x l.input with
  | ok b input =>
    rw [onInput_ok hr]
    exact ⟨input, rfl, hx.of_ok hr⟩
  | error e input =>
    rw [onInput_error hr]
    exact ⟨input, rfl, hx.of_error hr⟩

omit [Source σ Char] in
/-- The cursor may be another one that is where the ledger says. -/
theorem Agrees.withInput (h : l.Agrees ledger) {input : Cursor σ Char}
    (hinput : input.Recorded l.dialect.limits ledger) : Agrees ledger { l with input } :=
  ⟨hinput, h.position, h.saved, h.characters⟩

theorem peek_agrees (h : l.Agrees ledger) (k : Nat) :
    Run.Ends (fun _ => Agrees ledger) (fun _ => Agrees ledger) (peek k l) := by
  refine (onInput_ends (Cursor.lookahead_proceeds h.input.inOrder k)).mono ?_ ?_
  · rintro c _ ⟨input, rfl, h', hproceeds⟩
    exact h.withInput (h.input.stays h' hproceeds)
  · rintro e _ ⟨input, rfl, h', hproceeds⟩
    exact h.withInput (h.input.stays h' hproceeds)

/-- A character that is consumed moves the position and is counted, and the end does neither. -/
theorem bump_agrees (h : l.Agrees ledger) :
    Run.Ends (fun c => Agrees (ledger.take [c])) (fun _ => Agrees ledger) (bump l) := by
  unfold bump
  refine (onInput_ends (Cursor.consume_proceeds h.input.inOrder)).bind ?_ ?_
  · rintro c _ ⟨input, rfl, h', hproceeds⟩
    have hinput := h.input.proceeds h' hproceeds
    by_cases hc : c ≠ endOfInput
    · rw [if_pos hc]
      have hone : proper [c] = 1 := proper_of_forall (by simpa using hc)
      refine ⟨hinput, ?_, h.saved, ?_⟩
      · show l.position.advance c = placeOf (ledger.consumed ++ [c])
        rw [placeOf_append, h.position, List.filter_singleton, decide_eq_true hc]
        rfl
      · show l.statistics.characters + 1 = proper (ledger.consumed ++ [c]) + proper ledger.undone
        rw [proper_append, h.characters]
        omega
    · -- The cursor goes over end markers as over any element, and the ledger has them.
      rw [if_neg hc]
      obtain rfl : c = endOfInput := not_not.1 hc
      refine ⟨hinput, ?_, h.saved, ?_⟩
      · show l.position = placeOf (ledger.consumed ++ [endOfInput])
        rw [placeOf_append, h.position]
        rfl
      · show l.statistics.characters = proper (ledger.consumed ++ [endOfInput]) + proper ledger.undone
        rw [proper_append, h.characters]
        rfl
  · rintro e _ ⟨input, rfl, h', hproceeds⟩
    exact h.withInput (h.input.stays h' hproceeds)

omit [Source σ Char] in
theorem mark_agrees (h : l.Agrees ledger) :
    Run.Ends (fun _ => Agrees ledger.mark) (fun _ => Agrees ledger) (mark l) := by
  unfold mark
  refine (onInput_ends (Cursor.mark_recorded h.input)).bind ?_ ?_
  · rintro _ _ ⟨input, rfl, hinput⟩
    refine ⟨hinput, h.position, ?_, h.characters⟩
    show l.position :: l.saved = (ledger.consumed :: ledger.saved).map placeOf
    rw [List.map_cons, h.position, h.saved]
  · rintro e _ ⟨input, rfl, hinput⟩
    exact h.withInput hinput

omit [Source σ Char] in
theorem commit_agrees (h : l.Agrees ledger) :
    Run.Ends (fun _ => Agrees ledger.commit) (fun _ => Agrees ledger) (commit l) := by
  unfold commit
  refine (onInput_ends (Cursor.commit_recorded h.input)).bind ?_ ?_
  · rintro _ _ ⟨input, rfl, hinput⟩
    refine ⟨hinput, h.position, ?_, h.characters⟩
    show l.saved.tail = ledger.saved.tail.map placeOf
    rw [h.saved, List.map_tail]
  · rintro e _ ⟨input, rfl, hinput⟩
    exact h.withInput hinput

omit [Source σ Char] in
/-- Going back to a mark only takes away what has been consumed since. -/
theorem rollback_agrees (h : l.Agrees ledger) :
    Run.Ends (fun _ => Agrees ledger.rollback) (fun _ => Agrees ledger) (rollback l) := by
  unfold rollback
  refine (onInput_ends (Cursor.rollback_recorded h.input)).bind ?_ ?_
  · rintro _ _ ⟨input, rfl, hinput⟩
    have hsaved := h.saved
    cases hm : ledger.saved with
    | nil =>
      -- Without marks the cursor refuses, and this case is only about what a ledger would say.
      have hledger : ledger.rollback = ledger := by rw [Ledger.rollback, hm]
      rw [hm] at hsaved
      rw [hledger] at hinput ⊢
      refine ⟨hinput, ?_, ?_, h.characters⟩
      · show l.saved.head?.getD l.position = placeOf ledger.consumed
        rw [hsaved]
        exact h.position
      · show l.saved.tail = ledger.saved.map placeOf
        rw [hsaved, hm]
        rfl
    | cons before saved =>
      have hledger : ledger.rollback =
          ⟨before, saved, ledger.undone ++ ledger.consumed.drop before.length⟩ := by
        rw [Ledger.rollback, hm]
      rw [hm] at hsaved
      rw [hledger] at hinput ⊢
      refine ⟨hinput, ?_, ?_, ?_⟩
      · show l.saved.head?.getD l.position = placeOf before
        rw [hsaved]
        rfl
      · show l.saved.tail = saved.map placeOf
        rw [hsaved]
        rfl
      · have hbefore : before ++ ledger.consumed.drop before.length = ledger.consumed :=
          List.prefix_append_drop (h.input.prefix_of_saved (hm ▸ List.mem_cons_self ..)) |>.symm
        have hsplit := proper_append before (ledger.consumed.drop before.length)
        rw [hbefore] at hsplit
        show l.statistics.characters =
          proper before + proper (ledger.undone ++ ledger.consumed.drop before.length)
        rw [h.characters, proper_append]
        omega
  · rintro e _ ⟨input, rfl, hinput⟩
    exact h.withInput hinput

/-- **The step.** -/
theorem Step.agrees (step : Step σ) (h : l.Agrees ledger) :
    Run.Ends (fun taken => Agrees (step.note ledger taken)) (fun _ => Agrees ledger)
      (step.perform l) := by
  cases step with
  | peek k =>
    refine Run.Ends.map ?_
    simpa only [note, Ledger.take_nil] using peek_agrees h k
  | bump =>
    refine Run.Ends.map ?_
    exact bump_agrees h
  | mark =>
    refine Run.Ends.map ?_
    exact mark_agrees h
  | commit =>
    refine Run.Ends.map ?_
    exact commit_agrees h
  | rollback =>
    refine Run.Ends.map ?_
    exact rollback_agrees h
  | tally =>
    show Agrees (ledger.take []) l.tally
    rw [Ledger.take_nil]
    exact ⟨h.input, h.position, h.saved, h.characters⟩
  | register op =>
    show Agrees (ledger.take []) (l.register op).2
    rw [Ledger.take_nil]
    exact ⟨h.input, h.position, h.saved, h.characters⟩
  | reset source table =>
    have hinput := (Cursor.Request.reset source : Cursor.Request σ Char).recorded h.input
    exact ⟨hinput, rfl, rfl, rfl⟩

end Steps

/-- **Any number of steps.** -/
theorem follow_agrees (steps : List (Step σ)) {l : Lexer σ} {ledger : Ledger Char}
    (h : l.Agrees ledger) : Agrees (follow steps l ledger).2 (follow steps l ledger).1 := by
  induction steps generalizing l ledger with
  | nil => exact h
  | cons step steps ih =>
    have hstep := step.agrees h
    have hfollow : Agrees (step.follow l ledger).2 (step.follow l ledger).1 := by
      unfold Step.follow
      cases hr : step.perform l with
      | ok taken l' => exact hstep.of_ok hr
      | error e l' => exact hstep.of_error hr
    exact ih hfollow

/-! ### The rules -/

section Rules

variable {start l : Lexer σ}

omit [Source σ Char] in
/-- A step that a rule may take. -/
def Step.Own : Step σ → Prop
  | register _ | reset .. => False
  | _ => True

/-- The lexer is where steps of its rules have taken it from the start. -/
def Followed (start l : Lexer σ) : Prop :=
  ∃ steps, (∀ step ∈ steps, step.Own) ∧ (follow steps start {}).1 = l

theorem Followed.refl (start : Lexer σ) : Followed start start := ⟨[], nofun, rfl⟩

theorem Step.follow_fst (step : Step σ) (l : Lexer σ) (ledger : Ledger Char) :
    (step.follow l ledger).1 = Run.leaves (step.perform l) := by
  unfold Step.follow
  cases step.perform l <;> rfl

/-- The ledger is only looked on. -/
theorem follow_fst (steps : List (Step σ)) (l : Lexer σ) (ledger : Ledger Char) :
    (follow steps l ledger).1 = (follow steps l {}).1 := by
  induction steps generalizing l ledger with
  | nil => rfl
  | cons step steps ih =>
    show (follow steps (step.follow l ledger).1 (step.follow l ledger).2).1 =
      (follow steps (step.follow l {}).1 (step.follow l {}).2).1
    rw [ih, ih _ (step.follow l {}).2, step.follow_fst, step.follow_fst]

theorem follow_append (first second : List (Step σ)) (l : Lexer σ) :
    (follow (first ++ second) l {}).1 = (follow second (follow first l {}).1 {}).1 := by
  rw [← follow_fst second (follow first l {}).1 (follow first l {}).2, follow, List.foldl_append]
  rfl

/-- One more step. -/
theorem Followed.step (h : Followed start l) (step : Step σ) (hstep : step.Own) :
    Followed start (Run.leaves (step.perform l)) := by
  obtain ⟨steps, hsteps, rfl⟩ := h
  refine ⟨steps ++ [step], List.forall_mem_append.2 ⟨hsteps, by simpa using hstep⟩, ?_⟩
  rw [follow_append]
  exact step.follow_fst _ _

/-- What leaves a lexer as a step does is a step. -/
theorem leads_followed {β : Type} {x : Run (Lexer σ) β} (step : Step σ) (hstep : step.Own)
    (hx : ∀ l, Run.leaves (step.perform l) = Run.leaves (x l)) :
    Run.Leads (fun _ => Followed start) (Followed start) (fun _ => Followed start) x := by
  intro l h
  have h' := h.step step hstep
  rw [hx l] at h'
  cases hr : x l with
  | ok b l' =>
    rw [hr] at h'
    exact h'
  | error e l' =>
    rw [hr] at h'
    exact h'

omit [Source σ Char] in
theorem leaves_map {β γ : Type} (x : Run (Lexer σ) β) (f : β → γ) (l : Lexer σ) :
    Run.leaves ((f <$> x) l) = Run.leaves (x l) := by
  rw [map_eq_pure_bind, Run.bind_apply]
  cases x l <;> rfl

/-- **All rules** are made of single steps, whatever comes of them. -/
theorem respected_followed :
    Respected (σ := σ) (.both (Followed start)) fun _ => Run.Both (Followed start) where
  peek _ n := .of_leads (leads_followed (.peek n) trivial (leaves_map _ _))
  bump _ := .of_leads (leads_followed .bump trivial (leaves_map _ _))
  mark _ := .of_leads (leads_followed .mark trivial (leaves_map _ _))
  commit _ := .of_leads (leads_followed .commit trivial (leaves_map _ _))
  rollback _ := .of_leads (leads_followed .rollback trivial (leaves_map _ _))
  tally := by
    rintro l _ ⟨rfl, h⟩
    exact ⟨rfl, h.step .tally trivial⟩
  dialect h := by rw [h.1]
  table h := by rw [h.1]
  position h := by rw [h.1]
  rounds _ := .inr fun l l' h => ⟨by rw [h.1], rfl, h⟩
  failed h _ _ := ⟨rfl, h⟩

omit [Source σ Char] in
/-- The steps that a request may consist of. -/
def Request.Takes : Request σ → List (Step σ) → Prop
  | next, steps | read _, steps => ∀ step ∈ steps, step.Own
  | register op, steps => steps = [.register op]
  | reset source table, steps => steps = [.reset source table]

theorem Request.exists_steps (r : Request σ) (l : Lexer σ) :
    ∃ steps, r.Takes steps ∧ (follow steps l {}).1 = r.perform l := by
  cases r with
  | next => exact (next_kept respected_followed).keeps.of_leaves (Followed.refl l)
  | read n => exact (nexts_kept respected_followed n).keeps.of_leaves (Followed.refl l)
  | register op => exact ⟨_, rfl, rfl⟩
  | reset source table => exact ⟨_, rfl, rfl⟩

/-- **Any number of requests.** Behind each of them the lexer is where the steps so far have taken it. -/
theorem exists_steps (requests : List (Request σ)) (l : Lexer σ) :
    ∃ taken, List.Forall₂ Request.Takes requests taken ∧
      ∀ k, (follow (taken.take k).flatten l {}).1 = performAll (requests.take k) l := by
  induction requests generalizing l with
  | nil => exact ⟨[], .nil, fun k => by simp only [List.take_nil]; rfl⟩
  | cons r rest ih =>
    obtain ⟨steps, htakes, hfollow⟩ := r.exists_steps l
    obtain ⟨taken, hrest, hfollows⟩ := ih (r.perform l)
    refine ⟨steps :: taken, .cons htakes hrest, fun k => ?_⟩
    cases k with
    | zero => rfl
    | succ k =>
      rw [List.take_succ_cons, List.flatten_cons, follow_append, hfollow, hfollows]
      rfl

end Rules

/-! ### The result -/

/-- **The position of a lexer goes with its cursor**, over any source, whatever it has been asked and
however that ended. Each request has consisted of single steps. By what these have consumed and taken back,
the lexer is at the position behind the characters consumed since the start or the last reset; for each mark
of its cursor, and for nothing else, it has saved the position behind those consumed when the mark was set;
and it has counted the characters consumed and those taken back. Characters that stand for the end are left
out of all this. -/
theorem position_kept (source : σ) (d : Dialect) (table : Operator.Table)
    (requests : List (Request σ)) :
    let start := ofSource source d table
    let l := performAll requests start
    ∃ (taken : List (List (Step σ))) (ledger : Ledger Char) (dropped : Nat),
      List.Forall₂ Request.Takes requests taken ∧
      (∀ k, (follow (taken.take k).flatten start {}).1 = performAll (requests.take k) start) ∧
      follow taken.flatten start {} = (l, ledger) ∧
      ledger.consumed.length = dropped + l.input.offset ∧
      ledger.saved = l.input.marks.map (fun m => ledger.consumed.take (dropped + m)) ∧
      l.saved.length = l.input.marks.length ∧
      l.position = placeOf ledger.consumed ∧
      l.saved = l.input.marks.map (fun m => placeOf (ledger.consumed.take (dropped + m))) ∧
      l.statistics.characters = proper ledger.consumed + proper ledger.undone := by
  intro start l
  obtain ⟨taken, htakes, hfollows⟩ := exists_steps requests start
  have hlast : (follow taken.flatten start {}).1 = l := by
    have hall := hfollows requests.length
    rwa [List.take_length, htakes.length_eq, List.take_length] at hall
  have h := follow_agrees taken.flatten (agrees_ofSource source d table)
  rw [hlast] at h
  obtain ⟨dropped, haccounts⟩ := h.input.accounts
  have hsaved : l.saved = l.input.marks.map
      (fun m => placeOf ((follow taken.flatten start {}).2.consumed.take (dropped + m))) := by
    rw [h.saved, haccounts.saved, List.map_map]
    rfl
  exact ⟨taken, _, dropped, htakes, hfollows, Prod.ext hlast rfl, haccounts.length_consumed,
    haccounts.saved, by rw [hsaved, List.length_map], h.position, hsaved, h.characters⟩

end Dataflow.Lexer
