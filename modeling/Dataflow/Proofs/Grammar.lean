import Dataflow.Circuit.Entity
import Dataflow.Operator.Table
import Dataflow.Parser.Statement
import Mathlib.Data.List.Chain

/-!
# Dataflow.Proofs.Grammar

**The language, without a parser.** What is a sentence depends on the operators that are known, and a
definition inside a sentence changes them for what follows in it. So a `Phrase` of expressions is a
list of tokens under a table, and a `Sentence` is a list of tokens between the table before it and the
table behind it. Every production takes the tokens it is made of one behind the other; precedences
only decide which tree is built, and have no part in it.

Whatever is a sentence is `Solid`:

* every bracket that opens is closed by one of its own shape, and properly inside those around it;
* no token for the end of the input stands in it;
* a separator stands between what can end an item of a list and what can begin one, and nowhere at the
  beginning or the end.
-/

namespace Dataflow

namespace Grammar

/-! ### Expressions -/

/-- What a list of tokens can be within an expression. -/
inductive Rank where
  | operand
  | expression
  /-- Expressions with separators between them, at least one. -/
  | row
  /-- What stands between two brackets: a row or nothing. -/
  | items

/-- The tokens are a phrase of the given rank where the operators are those of the table. -/
inductive Phrase (t : Operator.Table) : Rank → List Token → Prop
  | constant {token : Token} (h : token.kind.isConstant = true) : Phrase t .operand [token]
  | name {token : Token} (h : token.kind.isTextIdentifier = true) : Phrase t .operand [token]
  /-- An operator in front of its operand. -/
  | prefixed {token : Token} {op : Operator} {tokens : List Token} (h : token.kind.isIdentifier = true)
    (hop : t.get? token.text .prefixOp = some op) (operand : Phrase t .expression tokens) :
    Phrase t .operand (token :: tokens)
  /-- A call. A symbol is called only if it is registered. -/
  | call {name opening closing : Token} {tokens : List Token}
    (hname : name.kind.isTextIdentifier = true ∨ name.kind = .symbol ∧ t.contains name.text = true)
    (hopening : opening.kind = .opening .list) (arguments : Phrase t .items tokens)
    (hclosing : closing.kind = .closing .list) :
    Phrase t .operand (name :: opening :: tokens ++ [closing])
  | group {opening closing : Token} {container : Container} {tokens : List Token}
    (hopening : opening.kind = .opening container) (items : Phrase t .items tokens)
    (hclosing : closing.kind = .closing container) : Phrase t .operand (opening :: tokens ++ [closing])
  | operand {tokens : List Token} (h : Phrase t .operand tokens) : Phrase t .expression tokens
  /-- An expression goes on with an operator between it and another operand. -/
  | infixed {first second : List Token} {token : Token} {op : Operator} (left : Phrase t .expression first)
    (h : token.kind.isIdentifier = true) (hop : t.get? token.text .infixOp = some op)
    (right : Phrase t .operand second) : Phrase t .expression (first ++ token :: second)
  /-- An expression goes on with an operator behind it. -/
  | postfixed {tokens : List Token} {token : Token} {op : Operator} (operand : Phrase t .expression tokens)
    (h : token.kind.isIdentifier = true) (hop : t.get? token.text .postfixOp = some op) :
    Phrase t .expression (tokens ++ [token])
  | item {tokens : List Token} (h : Phrase t .expression tokens) : Phrase t .row tokens
  | more {first second : List Token} {token : Token} (row : Phrase t .row first)
    (h : token.kind = .separator) (next : Phrase t .expression second) :
    Phrase t .row (first ++ token :: second)
  | none : Phrase t .items []
  | some {tokens : List Token} (h : Phrase t .row tokens) : Phrase t .items tokens

/-! ### Parts of statements -/

/-- A name of letters. -/
def Name (tokens : List Token) : Prop := ∃ token, tokens = [token] ∧ token.kind.isTextIdentifier = true

/-- Names with separators between them, and their texts. -/
inductive Names : List Token → List String → Prop
  | one {token : Token} (h : token.kind.isTextIdentifier = true) : Names [token] [token.text]
  | more {tokens : List Token} {names : List String} {separator token : Token} (row : Names tokens names)
    (hseparator : separator.kind = .separator) (h : token.kind.isTextIdentifier = true) :
    Names (tokens ++ [separator, token]) (names ++ [token.text])

/-- Items with separators between them. -/
inductive Separated (item : List Token → Prop) : List Token → Prop
  | one {tokens : List Token} (h : item tokens) : Separated item tokens
  | more {first second : List Token} {separator : Token} (row : Separated item first)
    (hseparator : separator.kind = .separator) (next : item second) :
    Separated item (first ++ separator :: second)

/-- What is bound to a pin, with or without a label in front of it. -/
inductive Labelled (value : List Token → Prop) : List Token → Prop
  | placed {tokens : List Token} (h : value tokens) : Labelled value tokens
  | labelled {label arrow : Token} {tokens : List Token} (hlabel : label.kind = .identifier)
    (harrow : arrow.kind = .association) (h : value tokens) : Labelled value (label :: arrow :: tokens)

/-- A clause that need not be there: what opens it, and its content. -/
inductive Clause (opens : Token → Prop) (content : List Token → Prop) : List Token → Prop
  | absent : Clause opens content []
  | present {token : Token} {tokens : List Token} (h : opens token) (hcontent : content tokens) :
    Clause opens content (token :: tokens)

/-- A clause of names, and their texts. Without the clause there are none. -/
inductive NameClause (opens : Token → Prop) : List Token → List String → Prop
  | absent : NameClause opens [] []
  | present {token : Token} {tokens : List Token} {names : List String} (h : opens token)
    (hnames : Names tokens names) : NameClause opens (token :: tokens) names

/-- Tokens of symbol characters side by side, the text of all of them, and where the last one ends. -/
inductive Run : List Token → String → Text.Position → Prop
  | one {token : Token} (h : token.kind = .symbol) : Run [token] token.text token.span.stop
  | more {tokens : List Token} {text : String} {stop : Text.Position} {token : Token}
    (run : Run tokens text stop) (h : token.kind = .symbol) (hbeside : token.span.start = stop) :
    Run (tokens ++ [token]) (text ++ token.text) token.span.stop

/-- The symbol in a definition. -/
inductive DefinedSymbol : List Token → String → Prop
  | word {token : Token} (h : token.kind = .literal ∨ token.kind.isTextIdentifier = true) :
    DefinedSymbol [token] token.text
  | run {tokens : List Token} {text : String} {stop : Text.Position} (h : Run tokens text stop) :
    DefinedSymbol tokens text

/-- The precedence in a definition; where there is none, it is zero. -/
inductive DefinedPrecedence : List Token → Nat → Prop
  | absent : DefinedPrecedence [] 0
  | present {token : Token} (h : token.kind = .integer)
    (hsmall : Parser.decimal token.text < Parser.precedenceLimit) :
    DefinedPrecedence [token] (Parser.decimal token.text)

/-- The definition of an entity, behind the words that announce it. -/
inductive Definition : List Token → Circuit.Entity → Prop
  | mk {label form : Token} {symbol precedence inputs outputs buses : List Token} {e : Circuit.Entity}
    (hlabel : label.kind.isTextIdentifier = true) (hlabelled : e.label = label.text)
    (hsymbol : DefinedSymbol symbol e.symbol)
    (hform : form.kind = .identifier) (hnamed : Notation.ofName? form.text = some e.form)
    (hprecedence : DefinedPrecedence precedence e.precedence)
    (hinputs : NameClause (·.isWord "in" = true) inputs e.inputs)
    (houtputs : NameClause (·.isWord "out" = true) outputs e.outputs)
    (hbuses : NameClause (·.kind = .bus) buses e.buses) :
    Definition (label :: symbol ++ form :: precedence ++ inputs ++ outputs ++ buses) e

/-- What refers to an entity. -/
def Reference (token : Token) : Prop := token.kind.isIdentifier = true ∨ token.kind = .literal

/-! ### Statements -/

/-- What a list of tokens can be within a program. -/
inductive Role where
  | statement
  /-- The beginning of a body, behind which a statement can stand. -/
  | opened
  /-- All of a body. -/
  | body

/-- The tokens play the given role. What is defined in them leads from the first table to the
second. -/
inductive Sentence : Role → Operator.Table → List Token → Operator.Table → Prop
  | entity {t : Operator.Table} {define word : Token} {tokens : List Token} {e : Circuit.Entity}
    (hdefine : define.kind = .define) (hword : word.isWord "entity" = true) (h : Definition tokens e) :
    Sentence .statement t (define :: word :: tokens) (t.insert e.operator)
  | architecture {t t' : Operator.Table} {define word name entity opening closing : Token}
    {tokens : List Token} (hdefine : define.kind = .define) (hword : word.isWord "architecture" = true)
    (hname : name.kind.isTextIdentifier = true) (hentity : Reference entity)
    (hopening : opening.kind = .opening .set) (body : Sentence .body t tokens t')
    (hclosing : closing.kind = .closing .set) :
    Sentence .statement t (define :: word :: name :: entity :: opening :: tokens ++ [closing]) t'
  | instantiation {t : Operator.Table} {instantiate entity : Token} {inputs outputs : List Token}
    {buses : List Token} {names : List String} (hinstantiate : instantiate.kind = .instantiate)
    (hentity : Reference entity)
    (hinputs : Clause (·.isWord "in" = true) (Separated (Labelled (Phrase t .expression))) inputs)
    (houtputs : Clause (·.isWord "out" = true) (Separated (Labelled Name)) outputs)
    (hbuses : NameClause (·.kind = .bus) buses names) :
    Sentence .statement t (instantiate :: entity :: inputs ++ outputs ++ buses) t
  | signals {t : Operator.Table} {word : Token} {tokens : List Token} {names : List String}
    (hword : word.kind = .signal) (h : Names tokens names) : Sentence .statement t (word :: tokens) t
  | buses {t : Operator.Table} {word : Token} {tokens : List Token} {names : List String}
    (hword : word.kind = .bus) (h : Names tokens names) : Sentence .statement t (word :: tokens) t
  | assignment {t : Operator.Table} {targets value : List Token} {names : List String} {arrow : Token}
    (htargets : Names targets names) (harrow : arrow.kind = .assignment)
    (hvalue : Phrase t .expression value) : Sentence .statement t (targets ++ arrow :: value) t
  | expression {t : Operator.Table} {tokens : List Token} (h : Phrase t .expression tokens) :
    Sentence .statement t tokens t
  | start {t : Operator.Table} : Sentence .opened t [] t
  | skip {t t' : Operator.Table} {tokens : List Token} {executor : Token}
    (h : Sentence .opened t tokens t') (hexecutor : executor.kind = .executor) :
    Sentence .opened t (tokens ++ [executor]) t'
  | next {t t' t'' : Operator.Table} {tokens statement : List Token} {executor : Token}
    (h : Sentence .opened t tokens t') (hstatement : Sentence .statement t' statement t'')
    (hexecutor : executor.kind = .executor) :
    Sentence .opened t (tokens ++ statement ++ [executor]) t''
  | ended {t t' : Operator.Table} {tokens : List Token} (h : Sentence .opened t tokens t') :
    Sentence .body t tokens t'
  | last {t t' t'' : Operator.Table} {tokens statement : List Token}
    (h : Sentence .opened t tokens t') (hstatement : Sentence .statement t' statement t'') :
    Sentence .body t (tokens ++ statement) t''

/-- Executors may stand anywhere between the statements of a body. -/
theorem Sentence.skipAll {t t' : Operator.Table} {tokens executors : List Token}
    (h : Sentence .opened t tokens t') (hexecutors : ∀ token ∈ executors, token.kind = .executor) :
    Sentence .opened t (tokens ++ executors) t' := by
  induction executors using List.reverseRecOn with
  | nil => rwa [List.append_nil]
  | append_singleton executors executor ih =>
    rw [← List.append_assoc]
    exact (ih fun token htoken => hexecutors token (by simp [htoken])).skip (hexecutors executor (by simp))

/-! ### What every sentence keeps to -/

/-- The brackets that are open behind the tokens, innermost first, if none has been closed by one of
another shape. -/
def unclosed : List Container → List Token → Option (List Container)
  | outer, [] => some outer
  | outer, token :: tokens =>
    match token.kind, outer with
    | .opening container, outer => unclosed (container :: outer) tokens
    | .closing _, [] => none
    | .closing container, top :: outer => if top = container then unclosed outer tokens else none
    | _, outer => unclosed outer tokens

/-- Every bracket that opens among the tokens is closed among them, and no other. -/
def Nested (tokens : List Token) : Prop := ∀ outer, unclosed outer tokens = some outer

/-- What can end an item of a list. -/
def endsItem (kind : Token.Kind) : Bool := kind.isConstant || kind.isIdentifier || kind.isClosing

/-- What can begin an item of a list. -/
def beginsItem (kind : Token.Kind) : Bool := kind.isConstant || kind.isIdentifier || kind.isOpening

/-- Where one of two neighbours is a separator, it stands between two items. -/
def Adjoins (first second : Token) : Prop :=
  (second.kind = .separator → endsItem first.kind = true) ∧
    (first.kind = .separator → beginsItem second.kind = true)

/-- The end of the input is not among the tokens, and separators stand between items. -/
structure Ordered (tokens : List Token) : Prop where
  inside : ∀ token ∈ tokens, token.kind ≠ .endOfFile
  between : tokens.IsChain Adjoins
  head : ∀ token ∈ tokens.head?, token.kind ≠ .separator
  last : ∀ token ∈ tokens.getLast?, token.kind ≠ .separator

/-- What the tokens of a sentence keep to. -/
structure Solid (tokens : List Token) : Prop where
  nested : Nested tokens
  ordered : Ordered tokens

/-- What the tokens of an item of a list keep to. -/
structure Item (tokens : List Token) : Prop where
  solid : Solid tokens
  begins : ∃ token rest, tokens = token :: rest ∧ beginsItem token.kind = true
  ends : ∃ rest token, tokens = rest ++ [token] ∧ endsItem token.kind = true

/-! ### Brackets -/

theorem unclosed_append (outer : List Container) (first second : List Token) :
    unclosed outer (first ++ second) = (unclosed outer first).bind (unclosed · second) := by
  fun_induction unclosed outer first <;> simp_all [unclosed]

theorem Nested.append {first second : List Token} (h : Nested first) (h' : Nested second) :
    Nested (first ++ second) := by
  intro outer
  rw [unclosed_append, h outer]
  exact h' outer

theorem Nested.single {token : Token} (hopening : token.kind.isOpening = false)
    (hclosing : token.kind.isClosing = false) : Nested [token] := by
  intro outer
  cases hkind : token.kind <;> simp_all [unclosed, Token.Kind.isOpening, Token.Kind.isClosing]

theorem Nested.enclose {opening closing : Token} {container : Container} {tokens : List Token}
    (hopening : opening.kind = .opening container) (hclosing : closing.kind = .closing container)
    (h : Nested tokens) : Nested (opening :: tokens ++ [closing]) := by
  intro outer
  have hopen : unclosed outer [opening] = some (container :: outer) := by simp [unclosed, hopening]
  have hclose : unclosed (container :: outer) [closing] = some outer := by simp [unclosed, hclosing]
  rw [← List.singleton_append, unclosed_append, unclosed_append, hopen, Option.bind_some, h, Option.bind_some,
    hclose]

/-! ### Separators -/

theorem Ordered.nil : Ordered [] where
  inside := by simp
  between := .nil
  head := by simp
  last := by simp

theorem Ordered.single {token : Token} (hseparator : token.kind ≠ .separator)
    (hend : token.kind ≠ .endOfFile) : Ordered [token] where
  inside := by simpa using hend
  between := .singleton _
  head := by simpa using hseparator
  last := by simpa using hseparator

theorem Ordered.append {first second : List Token} (h : Ordered first) (h' : Ordered second) :
    Ordered (first ++ second) where
  inside token htoken := by
    rcases List.mem_append.1 htoken with htoken | htoken
    · exact h.inside token htoken
    · exact h'.inside token htoken
  between := h.between.append h'.between fun a ha b hb =>
    ⟨fun hsep => absurd hsep (h'.head b hb), fun hsep => absurd hsep (h.last a ha)⟩
  head token htoken := by
    rw [List.head?_append, Option.mem_def, Option.or_eq_some_iff] at htoken
    rcases htoken with htoken | ⟨-, htoken⟩
    · exact h.head token htoken
    · exact h'.head token htoken
  last token htoken := by
    rw [List.getLast?_append, Option.mem_def, Option.or_eq_some_iff] at htoken
    rcases htoken with htoken | ⟨-, htoken⟩
    · exact h'.last token htoken
    · exact h.last token htoken

/-- A separator between what can end an item and what can begin one. -/
theorem Ordered.separate {first second : List Token} {last separator head : Token}
    (h : Ordered (first ++ [last])) (hends : endsItem last.kind = true)
    (hseparator : separator.kind = .separator) (hbegins : beginsItem head.kind = true)
    (h' : Ordered (head :: second)) : Ordered (first ++ [last] ++ separator :: head :: second) where
  inside token htoken := by
    rcases List.mem_append.1 htoken with htoken | htoken
    · exact h.inside token htoken
    · rcases List.mem_cons.1 htoken with rfl | htoken
      · simp [hseparator]
      · exact h'.inside token htoken
  between := by
    refine h.between.append (.cons_cons ⟨?_, fun _ => hbegins⟩ h'.between) ?_
    · exact fun hsep => absurd hsep (h'.head head rfl)
    · intro a ha b hb
      obtain rfl : last = a := by simpa using ha
      obtain rfl : separator = b := by simpa using hb
      exact ⟨fun _ => hends, fun hsep => absurd hsep (h.last last (by simp))⟩
  head token htoken := by
    refine h.head token ?_
    rw [List.head?_append, Option.mem_def, Option.or_eq_some_iff] at htoken
    exact htoken.resolve_right (by simp)
  last token htoken := by
    refine h'.last token ?_
    rw [List.getLast?_append, List.getLast?_cons_cons, Option.mem_def, Option.or_eq_some_iff] at htoken
    exact htoken.resolve_right (by simp)

/-! ### Composition -/

theorem Solid.nil : Solid [] := ⟨fun _ => rfl, .nil⟩

theorem Solid.append {first second : List Token} (h : Solid first) (h' : Solid second) :
    Solid (first ++ second) :=
  ⟨h.nested.append h'.nested, h.ordered.append h'.ordered⟩

/-- A token of a kind that is no bracket, no separator and not the end of the input. -/
def isPlain (kind : Token.Kind) : Bool :=
  !kind.isOpening && !kind.isClosing && kind ≠ .separator && kind ≠ .endOfFile

theorem Solid.single {token : Token} (h : isPlain token.kind = true) : Solid [token] := by
  simp only [isPlain, Bool.and_eq_true, Bool.not_eq_true', decide_eq_true_eq] at h
  exact ⟨.single h.1.1.1 h.1.1.2, .single h.1.2 h.2⟩

theorem Solid.cons {token : Token} {tokens : List Token} (h : isPlain token.kind = true)
    (h' : Solid tokens) : Solid (token :: tokens) :=
  (Solid.single h).append h'

/-- What stands in brackets of one shape. -/
theorem Solid.enclose {opening closing : Token} {container : Container} {tokens : List Token}
    (hopening : opening.kind = .opening container) (hclosing : closing.kind = .closing container)
    (h : Solid tokens) : Solid (opening :: tokens ++ [closing]) where
  nested := h.nested.enclose hopening hclosing
  ordered := by
    have hfirst : Ordered [opening] := .single (by simp [hopening]) (by simp [hopening])
    have hlast : Ordered [closing] := .single (by simp [hclosing]) (by simp [hclosing])
    exact (hfirst.append h.ordered).append hlast

/-- Two items with a separator between them. -/
theorem Item.separate {first second : List Token} {separator : Token} (h : Item first)
    (hseparator : separator.kind = .separator) (h' : Item second) :
    Item (first ++ separator :: second) := by
  have hplain : Nested [separator] := .single (by simp [hseparator, Token.Kind.isOpening])
    (by simp [hseparator, Token.Kind.isClosing])
  refine ⟨⟨h.solid.nested.append (hplain.append h'.solid.nested), ?_⟩, ?_, ?_⟩
  · obtain ⟨before, last, hfirst, hends⟩ := h.ends
    obtain ⟨head, behind, hsecond, hbegins⟩ := h'.begins
    have hordered := h.solid.ordered
    have hordered' := h'.solid.ordered
    rw [hfirst] at hordered ⊢
    rw [hsecond] at hordered' ⊢
    exact hordered.separate hends hseparator hbegins hordered'
  · obtain ⟨head, behind, rfl, hbegins⟩ := h.begins
    exact ⟨head, _, rfl, hbegins⟩
  · obtain ⟨before, last, rfl, hends⟩ := h'.ends
    exact ⟨first ++ separator :: before, last, by simp, hends⟩

/-- An item with further tokens behind it that end like an item. -/
theorem Item.append {first second : List Token} (h : Item first) (h' : Solid second)
    (hends : ∃ rest token, second = rest ++ [token] ∧ endsItem token.kind = true) :
    Item (first ++ second) := by
  refine ⟨h.solid.append h', ?_, ?_⟩
  · obtain ⟨head, behind, rfl, hbegins⟩ := h.begins
    exact ⟨head, _, rfl, hbegins⟩
  · obtain ⟨before, last, rfl, hlast⟩ := hends
    exact ⟨first ++ before, last, by simp, hlast⟩

theorem Item.single {token : Token} (h : isPlain token.kind = true)
    (hitem : token.kind.isConstant = true ∨ token.kind.isIdentifier = true) : Item [token] := by
  refine ⟨.single h, ⟨token, [], rfl, ?_⟩, ⟨[], token, rfl, ?_⟩⟩
  · rcases hitem with h | h <;> simp [beginsItem, h]
  · rcases hitem with h | h <;> simp [endsItem, h]

theorem isPlain_of_isConstant {kind : Token.Kind} (h : kind.isConstant = true) : isPlain kind = true := by
  cases kind <;> first | rfl | cases h

theorem isPlain_of_isIdentifier {kind : Token.Kind} (h : kind.isIdentifier = true) :
    isPlain kind = true := by
  cases kind <;> first | rfl | cases h

theorem isIdentifier_of_isTextIdentifier {kind : Token.Kind} (h : kind.isTextIdentifier = true) :
    kind.isIdentifier = true := by
  cases kind <;> first | rfl | cases h

theorem Item.name {token : Token} (h : token.kind.isIdentifier = true) : Item [token] :=
  .single (isPlain_of_isIdentifier h) (.inr h)

/-! ### Phrases -/

/-- What a phrase of the given rank keeps to. -/
def Rank.Shapes : Rank → List Token → Prop
  | .items, tokens => Solid tokens
  | _, tokens => Item tokens

/-- **Brackets and separators** stand in an expression as they should. -/
theorem Phrase.shapes {t : Operator.Table} {rank : Rank} {tokens : List Token} (h : Phrase t rank tokens) :
    rank.Shapes tokens := by
  induction h with
  | constant h => exact .single (isPlain_of_isConstant h) (.inl h)
  | name h => exact .name (isIdentifier_of_isTextIdentifier h)
  | prefixed h hop operand ih => exact (Item.name h).append ih.solid ih.ends
  | @call name opening closing tokens hname hopening arguments hclosing ih =>
    have hends : endsItem closing.kind = true := by simp [endsItem, hclosing, Token.Kind.isClosing]
    refine (Item.name ?_).append (.enclose hopening hclosing ih) ⟨opening :: tokens, closing, rfl, hends⟩
    rcases hname with hname | ⟨hname, -⟩
    · exact isIdentifier_of_isTextIdentifier hname
    · rw [hname]
      rfl
  | group hopening items hclosing ih =>
    refine ⟨.enclose hopening hclosing ih, ⟨_, _, rfl, ?_⟩, ⟨_, _, rfl, ?_⟩⟩
    · simp [beginsItem, hopening, Token.Kind.isOpening]
    · simp [endsItem, hclosing, Token.Kind.isClosing]
  | operand h ih => exact ih
  | infixed left h hop right ih ih' =>
    obtain ⟨before, last, hlast, hends⟩ := ih'.ends
    exact ih.append (.cons (isPlain_of_isIdentifier h) ih'.solid) ⟨_ :: before, last, by rw [hlast]; rfl, hends⟩
  | postfixed operand h hop ih =>
    exact ih.append (Item.name h).solid (Item.name h).ends
  | item h ih => exact ih
  | more row h next ih ih' => exact ih.separate h ih'
  | none => exact .nil
  | some h ih => exact ih.solid

/-- The second token of an item with something behind it. -/
theorem Item.second_ne {first second : List Token} (h : Item first)
    (hfirst : ∀ token ∈ first.tail.head?, token.kind ≠ .separator) (hsecond : Solid second) :
    ∀ token ∈ (first ++ second).tail.head?, token.kind ≠ .separator := by
  obtain ⟨head, behind, rfl, -⟩ := h.begins
  cases behind with
  | nil => exact hsecond.ordered.head
  | cons next others => exact hfirst

/-- Outside of its brackets there is no separator in an expression, so that none stands behind its
first token. -/
theorem Phrase.second_ne {t : Operator.Table} {rank : Rank} {tokens : List Token}
    (h : Phrase t rank tokens) (hrank : rank = .operand ∨ rank = .expression) :
    ∀ token ∈ tokens.tail.head?, token.kind ≠ .separator := by
  induction h with
  | constant h => simp
  | name h => simp
  | prefixed h hop operand ih => exact operand.shapes.solid.ordered.head
  | call hname hopening arguments hclosing ih => simp [hopening]
  | @group opening closing container tokens hopening items hclosing ih =>
    have hlast : Ordered [closing] := .single (by simp [hclosing]) (by simp [hclosing])
    have hordered : Ordered tokens := Solid.ordered items.shapes
    exact (hordered.append hlast).head
  | operand h ih => exact ih (.inl rfl)
  | infixed left h hop right ih ih' =>
    exact left.shapes.second_ne (ih (.inr rfl)) (.cons (isPlain_of_isIdentifier h) right.shapes.solid)
  | postfixed operand h hop ih => exact operand.shapes.second_ne (ih (.inr rfl)) (Item.name h).solid
  | item h ih => simp at hrank
  | more row h next ih ih' => simp at hrank
  | none => simp
  | some h ih => simp at hrank

/-! ### Sentences -/

theorem Names.item {tokens : List Token} {names : List String} (h : Names tokens names) : Item tokens := by
  induction h with
  | one h => exact .name (isIdentifier_of_isTextIdentifier h)
  | more row hseparator h ih => exact ih.separate hseparator (.name (isIdentifier_of_isTextIdentifier h))

/-- Behind the first of several names there is a separator. -/
theorem Names.second {tokens : List Token} {names : List String} (h : Names tokens names) :
    ∀ token ∈ tokens.tail.head?, token.kind = .separator := by
  induction h with
  | one h => simp
  | @more tokens names separator token row hseparator h ih =>
    obtain ⟨first, behind, rfl, -⟩ := row.item.begins
    cases behind with
    | nil => simpa using hseparator
    | cons second others => exact ih

theorem Separated.item {item : List Token → Prop} {tokens : List Token} (hitem : ∀ tokens, item tokens → Item tokens)
    (h : Separated item tokens) : Item tokens := by
  induction h with
  | one h => exact hitem _ h
  | more row hseparator next ih => exact ih.separate hseparator (hitem _ next)

theorem Labelled.item {value : List Token → Prop} {tokens : List Token}
    (hvalue : ∀ tokens, value tokens → Item tokens) (h : Labelled value tokens) : Item tokens := by
  cases h with
  | placed h => exact hvalue _ h
  | @labelled label arrow tokens hlabel harrow h =>
    obtain ⟨before, last, rfl, hends⟩ := (hvalue _ h).ends
    refine (Item.name (by simp [hlabel, Token.Kind.isIdentifier])).append
      (.cons (by simp [harrow, isPlain, Token.Kind.isOpening, Token.Kind.isClosing]) (hvalue _ h).solid) ?_
    exact ⟨arrow :: before, last, rfl, hends⟩

theorem Clause.solid {opens : Token → Prop} {content : List Token → Prop} {tokens : List Token}
    (hopens : ∀ token, opens token → isPlain token.kind = true)
    (hcontent : ∀ tokens, content tokens → Item tokens) (h : Clause opens content tokens) :
    Solid tokens := by
  cases h with
  | absent => exact .nil
  | present h hc => exact .cons (hopens _ h) (hcontent _ hc).solid

theorem NameClause.solid {opens : Token → Prop} {tokens : List Token} {names : List String}
    (hopens : ∀ token, opens token → isPlain token.kind = true) (h : NameClause opens tokens names) :
    Solid tokens := by
  cases h with
  | absent => exact .nil
  | present h hnames => exact .cons (hopens _ h) hnames.item.solid

theorem isPlain_of_isWord {token : Token} {word : String} (h : token.isWord word = true) :
    isPlain token.kind = true := by
  simp only [Token.isWord, Bool.decide_and, Bool.and_eq_true, decide_eq_true_eq] at h
  rw [h.1]
  rfl

theorem isPlain_of_eq {kind : Token.Kind} {token : Token} (h : token.kind = kind)
    (hplain : isPlain kind = true) : isPlain token.kind = true := h ▸ hplain

theorem Run.solid {tokens : List Token} {text : String} {stop : Text.Position} (h : Run tokens text stop) :
    Solid tokens := by
  induction h with
  | one h => exact .single (isPlain_of_eq h rfl)
  | more run h hbeside ih => exact ih.append (.single (isPlain_of_eq h rfl))

theorem DefinedSymbol.solid {tokens : List Token} {text : String} (h : DefinedSymbol tokens text) :
    Solid tokens := by
  cases h with
  | word h =>
    rcases h with h | h
    · exact .single (isPlain_of_eq h rfl)
    · exact (Item.name (isIdentifier_of_isTextIdentifier h)).solid
  | run h => exact h.solid

theorem DefinedPrecedence.solid {tokens : List Token} {n : Nat} (h : DefinedPrecedence tokens n) :
    Solid tokens := by
  cases h with
  | absent => exact .nil
  | present h _ => exact .single (isPlain_of_eq h rfl)

theorem Definition.solid {tokens : List Token} {e : Circuit.Entity} (h : Definition tokens e) :
    Solid tokens := by
  obtain ⟨hlabel, -, hsymbol, hform, -, hprecedence, hinputs, houtputs, hbuses⟩ := h
  have hin := hinputs.solid fun _ => isPlain_of_isWord
  have hout := houtputs.solid fun _ => isPlain_of_isWord
  have hbus := hbuses.solid fun _ h => isPlain_of_eq h rfl
  have hbehind := Solid.cons (isPlain_of_eq hform rfl) hprecedence.solid
  have hall := (((hsymbol.solid.append hbehind).append hin).append hout).append hbus
  exact .cons (isPlain_of_isIdentifier (isIdentifier_of_isTextIdentifier hlabel)) hall

theorem Reference.isPlain {token : Token} (h : Reference token) : isPlain token.kind = true := by
  rcases h with h | h
  · exact isPlain_of_isIdentifier h
  · exact isPlain_of_eq h rfl

/-- **Brackets and separators** stand in a sentence as they should. -/
theorem Sentence.solid {role : Role} {t t' : Operator.Table} {tokens : List Token}
    (h : Sentence role t tokens t') : Solid tokens := by
  induction h with
  | entity hdefine hword h => exact .cons (isPlain_of_eq hdefine rfl) (.cons (isPlain_of_isWord hword) h.solid)
  | architecture hdefine hword hname hentity hopening body hclosing ih =>
    refine .cons (isPlain_of_eq hdefine rfl) (.cons (isPlain_of_isWord hword) (.cons ?_ ?_))
    · exact isPlain_of_isIdentifier (isIdentifier_of_isTextIdentifier hname)
    · exact .cons hentity.isPlain (.enclose hopening hclosing ih)
  | instantiation hinstantiate hentity hinputs houtputs hbuses =>
    have hin := hinputs.solid (fun _ => isPlain_of_isWord) fun _ h =>
      h.item fun _ h => h.item fun _ h => h.shapes
    have hout := houtputs.solid (fun _ => isPlain_of_isWord) fun _ h => h.item fun _ h => h.item ?name
    · rintro _ ⟨token, rfl, h⟩
      exact .name (isIdentifier_of_isTextIdentifier h)
    · have hbus := hbuses.solid fun _ h => isPlain_of_eq h rfl
      exact .cons (isPlain_of_eq hinstantiate rfl) (.cons hentity.isPlain ((hin.append hout).append hbus))
  | signals hword h => exact .cons (isPlain_of_eq hword rfl) h.item.solid
  | buses hword h => exact .cons (isPlain_of_eq hword rfl) h.item.solid
  | assignment htargets harrow hvalue =>
    exact htargets.item.solid.append (.cons (isPlain_of_eq harrow rfl) hvalue.shapes.solid)
  | expression h => exact h.shapes.solid
  | start => exact .nil
  | skip h hexecutor ih => exact ih.append (.single (isPlain_of_eq hexecutor rfl))
  | next h hstatement hexecutor ih ih' => exact (ih.append ih').append (.single (isPlain_of_eq hexecutor rfl))
  | ended h ih => exact ih
  | last h hstatement ih ih' => exact ih.append ih'

end Grammar

end Dataflow
