import Dataflow.Proofs.Integrity

/-!
# Dataflow.Proofs.Refusals

**A refused call leaves no trace.** The netlist behind it is the one in front of it, so whatever is
called later is answered as if the refused call had never been made.

* `Netlist.performFrom` — calls one after the other, told to any netlist;
* `Netlist.performFrom_append`, `Netlist.performFrom_cons_refused` — how the answers of a run are put
  together from those of its parts;
* `Netlist.refused_call_unseen` — one refused call among others;
* `Netlist.performAll_accepted` — the calls that were accepted are enough to get the same netlist.

The log of `Netlist.performNext` only records answers and is never looked at, which is what lets a run
be cut where the refused call stands.
-/

namespace Dataflow.Circuit

/-- The call, if it has been accepted. -/
def Answered.accepted? (a : Answered) : Option Call :=
  match a.answer with
  | .ok _ => some a.call
  | .error _ => none

namespace Netlist

/-- The answers of a netlist to one call after the other, and what it is then. -/
def performFrom (n : Netlist) (calls : List Call) : List Answered × Netlist :=
  calls.foldl performNext ([], n)

variable {n m : Netlist} {past : List Answered} {calls : List Call}

/-- The log is only written to. -/
theorem performNext_log (past : List Answered) (n : Netlist) (call : Call) :
    performNext (past, n) call =
      (past ++ (performNext ([], n) call).1, (performNext ([], n) call).2) := by
  unfold performNext
  dsimp only
  cases perform call n <;> rfl

theorem foldl_performNext (past : List Answered) (n : Netlist) (calls : List Call) :
    calls.foldl performNext (past, n) = (past ++ (n.performFrom calls).1, (n.performFrom calls).2) := by
  induction calls generalizing past n with
  | nil => simp [performFrom]
  | cons call calls ih =>
    -- with either log, the other calls are told to the netlist behind the first one
    have hfresh : n.performFrom (call :: calls) = _ :=
      ih (performNext ([], n) call).1 (performNext ([], n) call).2
    rw [List.foldl_cons, performNext_log, ih, hfresh, List.append_assoc]

theorem performFrom_append (n : Netlist) (calls later : List Call) :
    n.performFrom (calls ++ later) =
      ((n.performFrom calls).1 ++ ((n.performFrom calls).2.performFrom later).1,
        ((n.performFrom calls).2.performFrom later).2) := by
  conv_lhs => rw [performFrom, List.foldl_append]
  exact foldl_performNext _ _ later

/-- **The step.** A refused call adds its refusal to the answers, and nothing else. -/
theorem performFrom_cons_refused {call : Call} {cause : BuildError}
    (h : perform call n = .error cause m) (later : List Call) :
    n.performFrom (call :: later) = (⟨call, .error cause⟩ :: (n.performFrom later).1, (n.performFrom later).2) := by
  obtain rfl := eq_of_refused h
  have hnext : performNext ([], m) call = ([⟨call, .error cause⟩], m) := by
    simp only [performNext, h, List.nil_append]
  rw [performFrom, List.foldl_cons, hnext, foldl_performNext]
  rfl

/-- **A refused call is not seen by any later one.** -/
theorem refused_call_unseen (before : List Call) {call : Call} {cause : BuildError}
    (h : perform call (performAll before).2 = .error cause m) (later : List Call) :
    m = (performAll before).2 ∧
      ∃ answers, performAll (before ++ later) =
          ((performAll before).1 ++ answers, (performAll (before ++ call :: later)).2) ∧
        (performAll (before ++ call :: later)).1 =
          (performAll before).1 ++ ⟨call, .error cause⟩ :: answers := by
  have hwithout : performAll (before ++ later) = _ := performFrom_append {} before later
  have hwith : performAll (before ++ call :: later) = _ := performFrom_append {} before (call :: later)
  have hrefused := performFrom_cons_refused (n := ((performFrom {} before).2)) h later
  rw [hrefused] at hwith
  refine ⟨eq_of_refused h, _, ?_, congrArg Prod.fst hwith⟩
  rw [hwith]
  exact hwithout

/-- A bus is declared under the name of a signal, which is refused; the signal goes on being one, and
the bus has to be declared under another name. -/
theorem refused_call_unseen_clash :
    let before := [.useSignal "clk"]
    let later := [.declareBus "bus", .useSignal "clk"]
    (perform (.declareBus "clk") (performAll before).2 =
        .error (.declaredAsSignal "clk") (performAll before).2) ∧
      ∃ answers, performAll (before ++ later) =
          ((performAll before).1 ++ answers, (performAll (before ++ .declareBus "clk" :: later)).2) ∧
        (performAll (before ++ .declareBus "clk" :: later)).1 =
          (performAll before).1 ++ ⟨.declareBus "clk", .error (.declaredAsSignal "clk")⟩ :: answers := by
  have hrefused : perform (.declareBus "clk") (performAll [.useSignal "clk"]).2 =
      .error (.declaredAsSignal "clk") (performAll [.useSignal "clk"]).2 := by rfl
  exact ⟨hrefused, (refused_call_unseen [.useSignal "clk"] hrefused
    [.declareBus "bus", .useSignal "clk"]).2⟩

/-- **The accepted calls alone lead to the same netlist**, with the same answers. -/
theorem performAll_accepted (calls : List Call) :
    performAll ((performAll calls).1.filterMap Answered.accepted?) =
      ((performAll calls).1.filter (·.answer.isOk), (performAll calls).2) := by
  induction calls using List.reverseRecOn with
  | nil => rfl
  | append_singleton calls call ih =>
    have hlast : ∀ calls : List Call, performAll (calls ++ [call]) = performNext (performAll calls) call := by
      intro calls
      simp only [performAll, List.foldl_append, List.foldl_cons, List.foldl_nil]
    rw [hlast]
    unfold performNext
    split
    · next reply m hcall =>
      -- the last call is accepted after the accepted ones alone, too
      rw [List.filterMap_append, List.filter_append]
      have hcalls : [(⟨call, .ok reply⟩ : Answered)].filterMap Answered.accepted? = [call] := rfl
      rw [hcalls, hlast, ih, performNext, hcall]
      rfl
    · next cause m hcall =>
      obtain rfl := eq_of_refused hcall
      have hcalls : [(⟨call, .error cause⟩ : Answered)].filterMap Answered.accepted? = [] := rfl
      have hanswers : [(⟨call, .error cause⟩ : Answered)].filter (·.answer.isOk) = [] := rfl
      rw [List.filterMap_append, List.filter_append, hcalls, hanswers, List.append_nil, List.append_nil]
      exact ih

end Netlist

end Dataflow.Circuit
