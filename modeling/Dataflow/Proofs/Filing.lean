import Dataflow.Operator.Table
import Mathlib.Data.Finset.Card
import Mathlib.Data.Finset.Dedup
import Mathlib.Data.List.Nodup

/-!
# Dataflow.Proofs.Filing

**The operator table is a finite map with a stable order.** Its keys are symbol and fixity, the *place*
of a registration. All that is ever read from a table is read at places, so two facts about registering
carry everything: the place of the new registration changes and no other does (`get?_insert`), and a new
symbol goes behind the symbols that are there (`symbols_insert`).

* `latest?` — the last of some registrations for one place;
* `Table.Filed` — every registration stands at its own place, and no symbol has two entries; registering
  keeps this;
* `Table.toList_eq`, `Table.mem_toList`, `Table.toList_insert_of_taken` — what is listed, and in which
  order;
* `Table.insertAll_observed` — all observers of a table in terms of the registrations that made it.
-/

namespace Dataflow.Operator

/-- Where a registration belongs. -/
def place (op : Operator) : String × Fixity := (op.symbol, op.fixity)

theorem place_eq {op : Operator} {symbol : String} {f : Fixity} :
    op.place = (symbol, f) ↔ symbol = op.symbol ∧ f = op.fixity := by
  rw [place, Prod.mk.injEq, eq_comm (a := op.symbol), eq_comm (a := op.fixity)]

/-- The last of some registrations for one symbol and fixity. -/
def latest? (ops : List Operator) (symbol : String) (f : Fixity) : Option Operator :=
  (ops.filter (·.place = (symbol, f))).getLast?

theorem latest?_concat (ops : List Operator) (op : Operator) (symbol : String) (f : Fixity) :
    latest? (ops ++ [op]) symbol f =
      if symbol = op.symbol ∧ f = op.fixity then some op else latest? ops symbol f := by
  rw [latest?, List.filter_append, latest?]
  by_cases h : op.place = (symbol, f)
  · rw [if_pos (place_eq.1 h), List.filter_cons_of_pos (by simpa using h)]
    exact List.getLast?_concat
  · rw [if_neg (mt place_eq.2 h), List.filter_cons_of_neg (by simpa using h), List.filter_nil,
      List.append_nil]

/-- Both notations between two operands compete for one place. -/
theorem latest?_infixOp (ops : List Operator) (symbol : String) :
    latest? ops symbol .infixOp =
      (ops.filter fun op => op.symbol = symbol ∧ (op.form = .infixLeft ∨ op.form = .infixRight)).getLast? := by
  have hplace : ∀ op : Operator, op.place = (symbol, .infixOp) ↔
      op.symbol = symbol ∧ (op.form = .infixLeft ∨ op.form = .infixRight) := by
    intro op
    rw [place, Prod.mk.injEq, fixity]
    cases op.form <;> simp [Notation.fixity]
  rw [latest?]
  exact congrArg List.getLast? (List.filter_congr fun op _ => by simp only [hplace])

namespace Table

variable {t : Table} {op d : Operator} {symbol : String} {f : Fixity}

/-! ### Registering -/

theorem symbols_putIn (op : Operator) (entries : List (String × Slots)) :
    (putIn op entries).map Prod.fst =
      if op.symbol ∈ entries.map Prod.fst then entries.map Prod.fst
      else entries.map Prod.fst ++ [op.symbol] := by
  induction entries with
  | nil => rfl
  | cons e rest ih =>
    obtain ⟨key, slots⟩ := e
    by_cases hkey : key = op.symbol
    · simp [putIn, hkey]
    · have hkey' : op.symbol ≠ key := Ne.symm hkey
      rw [putIn, if_neg hkey, List.map_cons, ih]
      by_cases hrest : op.symbol ∈ rest.map Prod.fst <;> simp [hrest, hkey']

/-- A new symbol goes behind all others, and a known one stays where it is. -/
theorem symbols_insert (t : Table) (op : Operator) :
    (t.insert op).symbols = if op.symbol ∈ t.symbols then t.symbols else t.symbols ++ [op.symbol] :=
  symbols_putIn op t.entries

theorem insertAll_concat (t : Table) (ops : List Operator) (op : Operator) :
    t.insertAll (ops ++ [op]) = (t.insertAll ops).insert op := by
  rw [insertAll, List.foldl_append]
  rfl

theorem get?_empty (symbol : String) (f : Fixity) : ({} : Table).get? symbol f = none :=
  Slots.get?_empty f

/-- A place has the last of its registrations. -/
theorem get?_insertAll (ops : List Operator) (symbol : String) (f : Fixity) :
    (insertAll {} ops).get? symbol f = latest? ops symbol f := by
  induction ops using List.reverseRecOn with
  | nil => exact get?_empty symbol f
  | append_singleton ops op ih => rw [insertAll_concat, get?_insert, latest?_concat, ih]

/-- The symbols stand in the order of their first registrations. -/
theorem symbols_insertAll (ops : List Operator) :
    (insertAll {} ops).symbols = (ops.map Operator.symbol).eraseDups := by
  induction ops using List.reverseRecOn with
  | nil => rfl
  | append_singleton ops op ih =>
    rw [insertAll_concat, symbols_insert, ih, List.map_append, List.eraseDups_append]
    by_cases hknown : op.symbol ∈ ops.map Operator.symbol
    · have hnone : [op.symbol].removeAll (ops.map Operator.symbol) = [] :=
        List.filter_cons_of_neg (by simpa using hknown)
      rw [if_pos (List.mem_eraseDups.2 hknown), List.map_singleton, hnone, List.eraseDups_nil,
        List.append_nil]
    · have hall : [op.symbol].removeAll (ops.map Operator.symbol) = [op.symbol] :=
        List.filter_cons_of_pos (by simpa using hknown)
      rw [if_neg (mt List.mem_eraseDups.1 hknown), List.map_singleton, hall]
      rfl

/-! ### What stands where -/

/-- No symbol has two entries, and what is found at a place belongs there. -/
structure Filed (t : Table) : Prop where
  nodup : t.symbols.Nodup
  place : ∀ {symbol f op}, t.get? symbol f = some op → op.place = (symbol, f)

theorem Filed.empty : Filed {} where
  nodup := List.nodup_nil
  place h := by rw [get?_empty] at h; cases h

/-- **The step.** A registration goes to its own place. -/
theorem Filed.insert (h : Filed t) (op : Operator) : Filed (t.insert op) where
  nodup := by
    rw [symbols_insert]
    split
    · exact h.nodup
    · next hnew => exact h.nodup.append (List.nodup_singleton _) (by simpa using hnew)
  place {symbol f op'} hget := by
    rw [get?_insert] at hget
    split at hget
    · next hplace =>
      obtain rfl := Option.some.inj hget
      exact place_eq.2 hplace
    · exact h.place hget

/-- **The run.** -/
theorem Filed.insertAll (h : Filed t) (ops : List Operator) : Filed (t.insertAll ops) := by
  induction ops generalizing t with
  | nil => exact h
  | cons op rest ih => exact ih (h.insert op)

/-- What is not known is registered nowhere. -/
theorem get?_of_not_contains (h : t.contains symbol = false) (f : Fixity) : t.get? symbol f = none := by
  obtain ⟨entries⟩ := t
  induction entries with
  | nil => exact Slots.get?_empty f
  | cons e entries ih =>
    unfold contains symbols at h ih
    simp only [List.map_cons, List.contains_cons, Bool.or_eq_false_iff] at h
    have hkey : ¬ e.1 = symbol := fun heq => by simp [heq] at h
    unfold get? slots slotsIn
    rw [if_neg hkey]
    exact ih h.2

theorem mem_symbols_of_get? (h : t.get? symbol f = some op) : symbol ∈ t.symbols := by
  refine Decidable.byContradiction fun hnot => ?_
  have hfree : t.contains symbol = false := by simpa [contains] using hnot
  rw [get?_of_not_contains hfree] at h
  cases h

/-! ### Listing -/

/-- The registrations are listed by symbol, and those of one symbol by fixity. -/
theorem toList_eq (hnodup : t.symbols.Nodup) :
    t.toList = t.symbols.flatMap fun symbol => Fixity.all.filterMap (t.get? symbol) := by
  have hentries : ∀ {entries : List (String × Slots)}, (entries.map Prod.fst).Nodup →
      entries.flatMap (fun e => e.2.toList) =
        (entries.map Prod.fst).flatMap fun symbol => (slotsIn symbol entries).toList := by
    intro entries hnodup
    induction entries with
    | nil => rfl
    | cons e rest ih =>
      obtain ⟨key, slots⟩ := e
      rw [List.map_cons, List.nodup_cons] at hnodup
      rw [List.flatMap_cons, List.map_cons, List.flatMap_cons, ih hnodup.2, slotsIn, if_pos rfl]
      -- The first entry hides none of the others, since no two are of one symbol.
      refine congrArg (slots.toList ++ ·) (List.flatMap_congr fun symbol hsymbol => ?_)
      have hkey : key ≠ symbol := fun h => hnodup.1 (h ▸ hsymbol)
      rw [slotsIn, if_neg hkey]
  exact hentries hnodup

/-- What is listed is what is found at its place. -/
theorem mem_toList (h : Filed t) : d ∈ t.toList ↔ t.get? d.symbol d.fixity = some d := by
  rw [toList_eq h.nodup]
  simp only [List.mem_flatMap, List.mem_filterMap]
  constructor
  · rintro ⟨symbol, -, f, -, hget⟩
    obtain ⟨rfl, rfl⟩ := place_eq.1 (h.place hget)
    exact hget
  · exact fun hget => ⟨d.symbol, mem_symbols_of_get? hget, d.fixity, Fixity.mem_all _, hget⟩

/-- No place is listed twice. -/
theorem nodup_places (h : Filed t) : (t.toList.map place).Nodup := by
  have hplaces : ∀ symbol, (Fixity.all.filterMap (t.get? symbol)).map place =
      (Fixity.all.filter fun f => (t.get? symbol f).isSome).map (symbol, ·) := by
    intro symbol
    rw [List.map_filterMap, ← List.filterMap_eq_filter, List.map_filterMap]
    refine List.filterMap_congr fun f _ => ?_
    cases hget : t.get? symbol f with
    | none => simp [Option.guard, hget]
    | some op => simp [Option.guard, hget, h.place hget]
  rw [toList_eq h.nodup, List.map_flatMap, List.nodup_flatMap]
  refine ⟨fun symbol _ => ?_, h.nodup.imp fun {a b} hne => ?_⟩
  · rw [hplaces]
    exact List.Nodup.map (Prod.mk_right_injective symbol) (List.Nodup.filter _ (by decide))
  · simp only [Function.onFun, hplaces, List.disjoint_left, List.mem_map]
    rintro _ ⟨f, -, rfl⟩ ⟨f', -, heq⟩
    exact hne (congrArg Prod.fst heq).symm

/-- A registration for a place that is taken is listed where the one before it was. -/
theorem toList_insert_of_taken (h : Filed t) (htaken : t.get? d.symbol d.fixity ≠ none) :
    (t.insert d).toList = t.toList.map fun op => if op.place = d.place then d else op := by
  obtain ⟨before, hbefore⟩ := Option.ne_none_iff_exists'.1 htaken
  have hsymbols : (t.insert d).symbols = t.symbols := by
    rw [symbols_insert, if_pos (mem_symbols_of_get? hbefore)]
  -- The symbols are the same, so that both lists go through the same places.
  rw [toList_eq (h.insert d).nodup, toList_eq h.nodup, hsymbols, List.map_flatMap]
  refine List.flatMap_congr fun symbol _ => ?_
  rw [List.map_filterMap]
  refine List.filterMap_congr fun f _ => ?_
  rw [get?_insert]
  split
  · next hplace =>
    obtain ⟨rfl, rfl⟩ := hplace
    rw [hbefore, Option.map_some, h.place hbefore]
    exact congrArg some (if_pos rfl).symm
  · next hplace =>
    cases hget : t.get? symbol f with
    | none => rfl
    | some op =>
      rw [Option.map_some, h.place hget, if_neg fun heq => hplace (place_eq.1 heq.symm)]

/-! ### The observers -/

theorem lookup?_eq_some {form : Notation} {arity : Option Nat} :
    t.lookup? symbol form arity = some d ↔
      t.get? symbol form.fixity = some d ∧ d.form = form ∧ ∀ n, arity = some n → d.accepts n = true := by
  simp [lookup?, Option.filter_eq_some_iff, Option.all_eq_true]

/-- **A table behind any registrations.** Registering answers with what was last registered for the same
symbol and fixity, and only what is found there changes. Every observer speaks of the last registrations:
`get?` and `slots` find them, `lookup?` those of exactly one notation, and `toList` has each of them once,
by symbol in the order of the first registrations and then by fixity. A registration that takes the place
of another one is listed where that one was. -/
theorem insertAll_observed (ops : List Operator) :
    (∀ d : Operator, ((insertAll {} ops).register d).1 = latest? ops d.symbol d.fixity ∧
      ∀ symbol f, ((insertAll {} ops).register d).2.get? symbol f =
        if symbol = d.symbol ∧ f = d.fixity then some d else (insertAll {} ops).get? symbol f) ∧
    (∀ symbol f, (insertAll {} ops).get? symbol f = latest? ops symbol f ∧
      ((insertAll {} ops).slots symbol).get? f = latest? ops symbol f) ∧
    (∀ symbol, (insertAll {} ops).get? symbol .infixOp = (ops.filter fun op =>
      op.symbol = symbol ∧ (op.form = .infixLeft ∨ op.form = .infixRight)).getLast?) ∧
    (∀ symbol, (insertAll {} ops).containsIn symbol none = true ↔ ∃ op ∈ ops, op.symbol = symbol) ∧
    (∀ run, (insertAll {} ops).extendsToSymbol run = true ↔
      ∃ op ∈ ops, run.toList <+: op.symbol.toList) ∧
    (∀ symbol form arity d, (insertAll {} ops).lookup? symbol form arity = some d ↔
      latest? ops symbol form.fixity = some d ∧ d.form = form ∧
        ∀ n, arity = some n → d.accepts n = true) ∧
    (insertAll {} ops).size = (ops.map Operator.symbol).toFinset.card ∧
    (insertAll {} ops).toList = (ops.map Operator.symbol).eraseDups.flatMap
      (fun symbol => Fixity.all.filterMap (latest? ops symbol)) ∧
    ((insertAll {} ops).toList.map place).Nodup ∧
    (∀ d, d ∈ (insertAll {} ops).toList ↔ latest? ops d.symbol d.fixity = some d) ∧
    ∀ d : Operator, latest? ops d.symbol d.fixity ≠ none →
      ((insertAll {} ops).register d).2.toList =
        (insertAll {} ops).toList.map fun op => if op.place = d.place then d else op := by
  have hfiled : Filed (insertAll {} ops) := Filed.empty.insertAll ops
  have hget : ∀ symbol, (insertAll {} ops).get? symbol = latest? ops symbol :=
    fun symbol => funext (get?_insertAll ops symbol)
  have hmem : ∀ symbol, symbol ∈ (insertAll {} ops).symbols ↔ ∃ op ∈ ops, op.symbol = symbol := by
    intro symbol
    rw [symbols_insertAll, List.mem_eraseDups, List.mem_map]
  refine ⟨fun d => ⟨get?_insertAll ops _ _, get?_insert _ d⟩,
    fun symbol f => ⟨get?_insertAll ops _ _, get?_insertAll ops _ _⟩,
    fun symbol => ?_, fun symbol => ?_, fun run => ?_, fun symbol form arity d => ?_, ?_, ?_,
    nodup_places hfiled, fun d => ?_, fun d htaken => ?_⟩
  · rw [get?_insertAll, latest?_infixOp]
  · rw [containsIn, contains, List.contains_iff_mem, hmem]
  · simp only [extendsToSymbol, List.any_eq_true, hmem, List.isPrefixOf_iff_prefix]
    constructor
    · rintro ⟨_, ⟨op, hop, rfl⟩, hrun⟩
      exact ⟨op, hop, hrun⟩
    · rintro ⟨op, hop, hrun⟩
      exact ⟨_, ⟨op, hop, rfl⟩, hrun⟩
  · rw [lookup?_eq_some, get?_insertAll]
  · calc (insertAll {} ops).size = (insertAll {} ops).symbols.length := (List.length_map _).symm
      _ = (insertAll {} ops).symbols.toFinset.card := (List.toFinset_card_of_nodup hfiled.nodup).symm
      _ = (ops.map Operator.symbol).toFinset.card := by
        refine congrArg Finset.card (Finset.ext fun symbol => ?_)
        rw [List.mem_toFinset, hmem, List.mem_toFinset, List.mem_map]
  · simp only [toList_eq hfiled.nodup, symbols_insertAll, hget]
  · rw [mem_toList hfiled, get?_insertAll]
  · exact toList_insert_of_taken hfiled (by rwa [get?_insertAll])

end Table

end Dataflow.Operator
