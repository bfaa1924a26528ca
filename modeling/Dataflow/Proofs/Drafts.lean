import Dataflow.Parser.Statement
import Dataflow.Proofs.Spelling

/-!
# Dataflow.Proofs.Drafts

**Programs before anybody has read them.** A `Draft` is a statement as its author means it: names, pins
and expressions without operators between operands. It can be written down as words (`Draft.words`), and
it can be dictated to a netlist, one call after the other (`Draft.dictate`), which says what statement
comes of it. Neither has anything to do with the parser.

* `Dictation` — a netlist together with what it has been told;
* `Draft`, `Draft.dictate` — statements, and what a netlist is told of them;
* `Draft.words` — how they are spelled: optional parts only where there is something in them, and an
  executor behind every statement;
* `Expr.Written`, `Draft.Fits` — which names can stand where. Definitions change that for the
  statements behind them (`Draft.after`).
-/

namespace Dataflow

open Reading Lexer Circuit
open Token (Word)

namespace Circuit

/-! ### Dictating -/

/-- A computation that tells a netlist something, which keeps account of it, last call first. -/
abbrev Dictation := EStateM BuildError (Netlist × List Call)

/-- Tells the netlist one thing. -/
def Call.dictate (call : Call) : Dictation call.Reply := fun (netlist, calls) =>
  match Netlist.perform call netlist with
  | .ok reply netlist => .ok reply (netlist, call :: calls)
  | .error e netlist => .error e (netlist, call :: calls)

/-- Tells the netlist several things. -/
def Call.dictateAll : List Call → Dictation Unit
  | [] => pure ()
  | call :: rest => do
    let _ ← call.dictate
    dictateAll rest

/-- Tells the netlist of an expression that is read where these operators are known. -/
def Expr.dictate (t : Operator.Table) (e : Expr) : Dictation Expr := do
  Call.dictateAll (e.calls t)
  return e

/-- A statement as it is meant. -/
inductive Draft where
  | entity (e : Entity)
  | architecture (name reference : String) (body : List Draft)
  /-- The values for the inputs and the names of signals for the outputs may have labels. -/
  | instantiation (reference : String) (inputs : List Binding) (outputs : List (Option String × String))
    (buses : List String)
  | signals (names : List String)
  | buses (names : List String)
  | assignment (targets : List String) (value : Expr)
  | expression (value : Expr)

namespace Draft

mutual

/-- Tells the netlist of a statement, and what has come of it. Names that are called in expressions are
those of entities, as they are where no operators are known. -/
def dictate : Draft → Dictation Statement
  | entity e => do
    (Call.defineEntity e).dictate
    return .entity e
  | architecture name reference body => do
    (Call.beginArchitecture name reference).dictate
    let body ← dictateAll body
    Call.endArchitecture.dictate
    return .architecture name reference body
  | instantiation reference inputs outputs channels => do
    let inputs ← inputs.mapM fun b => return { b with value := ← b.value.dictate {} }
    let outputs ← outputs.mapM fun b =>
      return { label := b.1, value := ← (Call.useSignal b.2).dictate }
    let channels ← channels.mapM fun name => (Call.useBus name).dictate
    let nodes ← (Call.instantiate reference inputs outputs channels).dictate
    return .instantiation reference nodes
  | signals names => return .signals (← names.mapM fun name => (Call.declareSignal name).dictate)
  | buses names => return .buses (← names.mapM fun name => (Call.declareBus name).dictate)
  | assignment targets value => do
    let targets ← targets.mapM fun name => (Call.useSignal name).dictate
    let value ← value.dictate {}
    (Call.assign targets value).dictate
    return .assignment targets value
  | expression value => return .expression (← value.dictate {})

/-- Tells the netlist of several statements. -/
def dictateAll : List Draft → Dictation (List Statement)
  | [] => return []
  | d :: rest => do
    let s ← dictate d
    return s :: (← dictateAll rest)

end

end Draft

end Circuit

/-! ### Spelling -/

namespace Token.Word

/-- A word that is no name of anything but has a meaning where it stands. -/
def plain (text : String) : Word := ⟨.identifier, text, none⟩

def executor : Word := ⟨.executor, ";", none⟩

/-- Words with separators between them. -/
def separated : List (List Word) → List Word
  | [] => []
  | part :: rest => part ++ rest.flatMap (separator :: ·)

/-- A part that is announced by a word, if there is anything in it. -/
def announced (word : Word) : List (List Word) → List Word
  | [] => []
  | parts => word :: separated parts

/-- A label and the arrow behind it. -/
def labelled : Option String → List Word
  | none => []
  | some label => [plain label, ⟨.association, "->", none⟩]

end Token.Word

namespace Circuit.Draft

/-- Names with separators between them. -/
def nameWords (names : List String) : List (List Word) := names.map fun name => [.ofName name]

/-- The words of a precedence. Whether zero is written is a matter of taste. -/
def precedenceWords (brief : Bool) (precedence : Nat) : List Word :=
  if brief ∧ precedence = 0 then [] else [⟨.integer, toString precedence, none⟩]

mutual

/-- The words of a statement without the executor behind it. -/
def words (brief : Bool) : Draft → List Word
  | entity e =>
    ⟨.define, "define", none⟩ :: .plain "entity" :: .ofName e.label :: .literal e.symbol ::
      .plain e.form.name :: (precedenceWords brief e.precedence ++
        (Word.announced (.plain "in") (nameWords e.inputs) ++
          (Word.announced (.plain "out") (nameWords e.outputs) ++
            Word.announced ⟨.bus, "bus", none⟩ (nameWords e.buses))))
  | architecture name reference body =>
    ⟨.define, "define", none⟩ :: .plain "architecture" :: .ofName name :: .ofName reference ::
      .opening .set :: (wordsAll brief body ++ [.closing .set])
  | instantiation reference inputs outputs channels =>
    ⟨.instantiate, "instantiate", none⟩ :: .ofName reference ::
      (Word.announced (.plain "in") (inputs.map fun b => Word.labelled b.label ++ b.value.words) ++
        (Word.announced (.plain "out") (outputs.map fun b => Word.labelled b.1 ++ [.ofName b.2]) ++
          Word.announced ⟨.bus, "bus", none⟩ (nameWords channels)))
  | signals names => ⟨.signal, "signal", none⟩ :: Word.separated (nameWords names)
  | buses names => ⟨.bus, "bus", none⟩ :: Word.separated (nameWords names)
  | assignment targets value =>
    Word.separated (nameWords targets) ++ ⟨.assignment, "<-", none⟩ :: value.words
  | expression value => value.words

/-- The words of several statements, each with an executor behind it. -/
def wordsAll (brief : Bool) : List Draft → List Word
  | [] => []
  | d :: rest => words brief d ++ .executor :: wordsAll brief rest

end

end Circuit.Draft

/-! ### Names -/

/-- The text is scanned as one token of such a kind, which is all of the text. -/
def Lexer.ScansAs (P : Token.Kind → Prop) (text : String) : Prop :=
  ∃ token q, (Place.mk text.toList {}).next {} {} = .ok (token, q) ∧ token.text = text ∧ P token.kind

/-- A plain or qualified identifier. -/
def Lexer.IsName (name : String) : Prop := ScansAs (·.isTextIdentifier = true) name

/-- A text that can be written between quotes. -/
def Lexer.IsContent (content : String) : Prop := endOfInput ∉ content.toList

instance {P : Token.Kind → Prop} [DecidablePred P] {text : String} : Decidable (ScansAs P text) :=
  match h : (Place.mk text.toList {}).next {} {} with
  | .ok (token, q) => decidable_of_iff (token.text = text ∧ P token.kind)
    ⟨fun hP => ⟨token, q, h, hP⟩, fun ⟨_, _, h', hP⟩ => by cases h.symm.trans h'; exact hP⟩
  | .error _ => .isFalse fun ⟨_, _, h', _⟩ => by cases h.symm.trans h'

instance {name : String} : Decidable (IsName name) := inferInstanceAs (Decidable (ScansAs _ name))

instance {content : String} : Decidable (IsContent content) :=
  inferInstanceAs (Decidable (endOfInput ∉ content.toList))

namespace Circuit

namespace Expr

mutual

/-- The expression can be written where these operators are known: its names are names and no
operators, its numbers are numbers, and no list in it has one item. -/
def Written (t : Operator.Table) : Expr → Prop
  | literal content => IsContent content
  | integer digits => ScansAs (· = .integer) digits
  | real number => ScansAs (· = .real) number
  | signal name => IsName name ∧ t.contains name = false
  | apply entity arguments => IsName entity ∧ t.contains entity = false ∧ WrittenAll t arguments
  | group container items => (container = .list → items.length ≠ 1) ∧ WrittenAll t items
  | bus _ | pin _ _ => False

/-- All these expressions can be written. -/
def WrittenAll (t : Operator.Table) : List Expr → Prop
  | [] => True
  | e :: rest => Written t e ∧ WrittenAll t rest

end

end Expr

namespace Draft

mutual

/-- The operators that are known behind a statement. -/
def after (t : Operator.Table) : Draft → Operator.Table
  | entity e => t.insert e.operator
  | architecture _ _ body => afterAll t body
  | _ => t

/-- The operators that are known behind several statements. -/
def afterAll (t : Operator.Table) : List Draft → Operator.Table
  | [] => t
  | d :: rest => afterAll (after t d) rest

end

/-- A label in front of an arrow has no dots. -/
def FitsLabel (label : Option String) : Prop := ∀ l ∈ label, ScansAs (· = .identifier) l

instance {label : Option String} : Decidable (FitsLabel label) :=
  match label with
  | none => .isTrue nofun
  | some l => decidable_of_iff (ScansAs (· = .identifier) l)
    ⟨fun h _ hl => Option.some.inj hl ▸ h, fun h => h l rfl⟩

mutual

/-- The statement can be written where these operators are known. -/
def Fits (t : Operator.Table) : Draft → Prop
  | entity e =>
    IsName e.label ∧ IsContent e.symbol ∧ e.precedence < Parser.precedenceLimit ∧
      (∀ name ∈ e.inputs, IsName name) ∧ (∀ name ∈ e.outputs, IsName name) ∧
      ∀ name ∈ e.buses, IsName name
  | architecture name reference body => IsName name ∧ IsName reference ∧ FitsAll t body
  | instantiation reference inputs outputs channels =>
    IsName reference ∧ (∀ b ∈ inputs, FitsLabel b.label ∧ b.value.Written t) ∧
      (∀ b ∈ outputs, FitsLabel b.1 ∧ IsName b.2) ∧ (∀ name ∈ channels, IsName name) ∧
      t.contains "out" = false
  | signals names | buses names => names ≠ [] ∧ ∀ name ∈ names, IsName name
  | assignment targets value => targets ≠ [] ∧ (∀ name ∈ targets, IsName name) ∧ value.Written t
  | expression value => value.Written t

/-- Several statements can be written one behind the other, the first of them where these operators
are known. -/
def FitsAll (t : Operator.Table) : List Draft → Prop
  | [] => True
  | d :: rest => Fits t d ∧ FitsAll (after t d) rest

end

end Draft

end Circuit

end Dataflow
