import Dataflow.Operator.Basic

/-!
# Dataflow.Operator.Table

The operators that a session knows. The lexer asks the table where a run of symbol characters
ends, the parser asks it what a symbol does between, before and behind operands; definitions in
the text being read add to it.

* `Slots` — the registrations of one symbol, at most one for each fixity;
* `Table` — the slots of every registered symbol, in the order of first registration. A later
  registration under the same symbol and fixity takes the place of the earlier one and moves
  nothing;
* `Table.register`, `Table.get?`, `Table.lookup?`, `Table.resolve?` — adding and finding
  registrations;
* `Table.extendsToSymbol` — whether a run of characters begins some registered symbol.
-/

namespace Dataflow.Operator

/-- The registrations of one symbol by fixity. -/
structure Slots where
  function : Option Operator := none
  prefixOp : Option Operator := none
  infixOp : Option Operator := none
  postfixOp : Option Operator := none
deriving DecidableEq

namespace Slots

def get? (s : Slots) : Fixity → Option Operator
  | .function => s.function
  | .prefixOp => s.prefixOp
  | .infixOp => s.infixOp
  | .postfixOp => s.postfixOp

/-- The slots with `op` at its fixity. -/
def put (s : Slots) (op : Operator) : Slots :=
  match op.fixity with
  | .function => { s with function := some op }
  | .prefixOp => { s with prefixOp := some op }
  | .infixOp => { s with infixOp := some op }
  | .postfixOp => { s with postfixOp := some op }

/-- Only the slot of `op`'s fixity changes. -/
theorem get?_put (s : Slots) (op : Operator) (f : Fixity) :
    (s.put op).get? f = if f = op.fixity then some op else s.get? f := by
  cases h : op.fixity <;> cases f <;> simp [put, get?, h]

@[simp] theorem get?_empty (f : Fixity) : ({} : Slots).get? f = none := by
  cases f <;> rfl

/-- The registrations in the order of `Fixity.all`. -/
def toList (s : Slots) : List Operator :=
  Fixity.all.filterMap s.get?

/-- Whether the symbol is an operator proper, that is, stands before, between or behind operands
in some registration. -/
def isOperator (s : Slots) : Bool :=
  s.prefixOp.isSome || s.infixOp.isSome || s.postfixOp.isSome

end Slots

/-- The registered symbols with their registrations, in the order of first registration. -/
structure Table where
  entries : List (String × Slots) := []
deriving DecidableEq

namespace Table

/-- Puts `op` at its symbol; a new symbol goes behind all others. -/
def putIn (op : Operator) : List (String × Slots) → List (String × Slots)
  | [] => [(op.symbol, Slots.put {} op)]
  | (symbol, slots) :: rest =>
    if symbol = op.symbol then (symbol, slots.put op) :: rest
    else (symbol, slots) :: putIn op rest

/-- The registrations of a symbol in a list of entries; an unknown symbol has none. -/
def slotsIn (symbol : String) : List (String × Slots) → Slots
  | [] => {}
  | (key, slots) :: rest => if key = symbol then slots else slotsIn symbol rest

/-- The registrations of `symbol`. -/
def slots (t : Table) (symbol : String) : Slots :=
  slotsIn symbol t.entries

/-- The registration of `symbol` at a fixity. -/
def get? (t : Table) (symbol : String) (f : Fixity) : Option Operator :=
  (t.slots symbol).get? f

/-- Adds a registration. -/
def insert (t : Table) (op : Operator) : Table :=
  ⟨putIn op t.entries⟩

/-- Adds a registration and returns the one whose place it takes. -/
def register (t : Table) (op : Operator) : Option Operator × Table :=
  (t.get? op.symbol op.fixity, t.insert op)

/-- The table with several registrations added in turn. -/
def insertAll (t : Table) (ops : List Operator) : Table :=
  ops.foldl insert t

theorem slotsIn_putIn (op : Operator) (entries : List (String × Slots)) (symbol : String) :
    slotsIn symbol (putIn op entries) =
      if symbol = op.symbol then (slotsIn op.symbol entries).put op
      else slotsIn symbol entries := by
  induction entries with
  | nil => by_cases h : op.symbol = symbol <;> simp [putIn, slotsIn, h, eq_comm (a := symbol)]
  | cons e rest ih =>
    obtain ⟨key, slots⟩ := e
    by_cases hk : key = op.symbol
    · subst hk
      by_cases h : op.symbol = symbol <;> simp [putIn, slotsIn, h, eq_comm (a := symbol)]
    · by_cases h : key = symbol
      · subst h
        simp [putIn, slotsIn, hk]
      · simp [putIn, slotsIn, hk, h, ih]

/-- A registration changes the entry of its symbol and fixity and no other. -/
theorem get?_insert (t : Table) (op : Operator) (symbol : String) (f : Fixity) :
    (t.insert op).get? symbol f =
      if symbol = op.symbol ∧ f = op.fixity then some op else t.get? symbol f := by
  simp only [get?, slots, insert, slotsIn_putIn]
  by_cases h : symbol = op.symbol
  · subst h; simp [Slots.get?_put]
  · simp [h]

/-- The registered symbols in the order of first registration. -/
def symbols (t : Table) : List String := t.entries.map Prod.fst

/-- The number of registered symbols. -/
def size (t : Table) : Nat := t.entries.length

/-- Whether anything is registered for `symbol`. -/
def contains (t : Table) (symbol : String) : Bool :=
  t.symbols.contains symbol

/-- Whether some registered symbol begins with `run`. -/
def extendsToSymbol (t : Table) (run : String) : Bool :=
  t.symbols.any (fun symbol => run.toList.isPrefixOf symbol.toList)

/-- The registration of `symbol` in exactly the notation `form` that, if `arity` is given, can
be applied to so many operands. -/
def lookup? (t : Table) (symbol : String) (form : Notation) (arity : Option Nat) :
    Option Operator :=
  ((t.get? symbol form.fixity).filter (fun op => op.form = form)).filter
    (fun op => arity.all op.accepts)

/-- Whether `symbol` is registered, in the notation `form` when one is given. -/
def containsIn (t : Table) (symbol : String) : Option Notation → Bool
  | none => t.contains symbol
  | some form => (t.lookup? symbol form none).isSome

/-- What `name` applies when it is called with `arity` operands: its function form if that
accepts so many, and otherwise the operator before one operand or between two. -/
def resolve? (t : Table) (name : String) (arity : Nat) : Option Operator :=
  ((t.get? name .function).filter (fun op => op.accepts arity)).or <|
    match arity with
    | 1 => t.get? name .prefixOp
    | 2 => t.get? name .infixOp
    | _ => none

/-- Every registration, by symbol in the order of first registration, then by fixity. -/
def toList (t : Table) : List Operator :=
  t.entries.flatMap (fun e => e.2.toList)

/-- The table of arithmetic. -/
def standard : Table :=
  insertAll {} [
    { entity := "Add", symbol := "+", form := .infixLeft, precedence := 60 },
    { entity := "Subtract", symbol := "-", form := .infixLeft, precedence := 60 },
    { entity := "Multiply", symbol := "*", form := .infixLeft, precedence := 50 },
    { entity := "Divide", symbol := "/", form := .infixLeft, precedence := 50 },
    { entity := "Power", symbol := "^", form := .infixRight, precedence := 19 },
    { entity := "Negate", symbol := "-", form := .prefixOp, precedence := 10 },
    { entity := "Factorial", symbol := "!", form := .postfixOp, precedence := 5 }]

end Table

end Dataflow.Operator
