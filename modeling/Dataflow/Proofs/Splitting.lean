import Dataflow.Proofs.Grammar
import Dataflow.Proofs.Spelling

/-!
# Dataflow.Proofs.Splitting

**Where an expression ends.** A list of tokens is split into an expression and what is left behind it.
How is said here by rules alone, without stacks and without a session: `Splits t part stream rest` tells
which part the front of `stream` is under the operators of `t`, and an expression with a bound is an
operand and a number of links, each an operator that binds below the bound.

* `bindingAt`, `Stops` — the operator that a token is to an expression with a bound, and the tokens at
  which the expression is over;
* `Link`, `Builds` — what an expression applies itself, not inside brackets or the operand of another
  operator in front, and the tree that comes of it: precedence decides between operators that stand
  between operands, and an operator behind an operand takes all that has been built;
* `Splits` — the rules;
* `Splits.determined` — there is no choice in them. An expression that has not come to its end goes on
  in one way only, so that its links are the longest there are.
-/

namespace Dataflow.Parser

open Reading Circuit

/-- The operator for a fixity that the token is to an expression with this bound. -/
def bindingAt (t : Operator.Table) (bound : Option Nat) (fixity : Fixity) (token : Token) :
    Option Operator :=
  (if token.kind.isIdentifier then t.get? token.text fixity else none).filter (binds bound ·.precedence)

/-- The token is neither an operator between operands nor one behind an operand that binds below the
bound. -/
def Stops (t : Operator.Table) (bound : Option Nat) (token : Token) : Prop :=
  bindingAt t bound .infixOp token = none ∧ bindingAt t bound .postfixOp token = none

section

variable {t : Operator.Table} {bound : Option Nat} {fixity : Fixity} {token : Token} {op : Operator}

theorem binds_of_bindingAt (h : bindingAt t bound fixity token = some op) :
    binds bound op.precedence = true :=
  (Option.filter_eq_some_iff.1 h).2

theorem not_stops_of_between (h : bindingAt t bound .infixOp token = some op) : ¬ Stops t bound token := by
  intro hstops
  rw [hstops.1] at h
  cases h

theorem not_stops_of_behind (h : bindingAt t bound .postfixOp token = some op) :
    ¬ Stops t bound token := by
  intro hstops
  rw [hstops.2] at h
  cases h

end

/-! ### What is built -/

/-- An operator that an expression applies, with the operand behind it if it stands between two. -/
inductive Link where
  | between (op : Operator) (operand : Expr)
  | behind (op : Operator)

namespace Link

def operator : Link → Operator
  | between op _ | behind op => op

/-- An operator of a row, with the operand to its right. -/
def ofRow (p : Operator × Expr) : Link := between p.1 p.2

end Link

/-- The last link is an operator behind an operand. -/
def EndsBehind (links : List Link) : Prop := ∃ op, links.getLast? = some (.behind op)

/-- The last link is an operator between two operands. -/
def EndsBetween (links : List Link) : Prop := ∃ op operand, links.getLast? = some (.between op operand)

/-- The tree of an operand and links. Operators between operands make a row, and the row the tree that
precedence asks for. An operator behind an operand takes the whole tree so far, and the next row begins
with that. -/
inductive Builds (first : Expr) : List Link → Expr → Prop
  | operand : Builds first [] first
  | row {links : List Link} {tree : Tree} (front : Builds first links tree.first)
    (hends : ¬ EndsBetween links) (hrest : tree.rest ≠ []) (hordered : tree.Ordered) :
    Builds first (links ++ tree.rest.map Link.ofRow) tree.value
  | behind {links : List Link} {whole : Expr} (front : Builds first links whole) (op : Operator) :
    Builds first (links ++ [.behind op]) (.apply op.entity [whole])

theorem not_endsBetween_nil : ¬ EndsBetween [] := nofun

theorem not_endsBehind_nil : ¬ EndsBehind [] := nofun

theorem endsBehind_snoc (links : List Link) (op : Operator) : EndsBehind (links ++ [.behind op]) :=
  ⟨op, List.getLast?_concat⟩

theorem not_endsBehind_snoc (links : List Link) (op : Operator) (operand : Expr) :
    ¬ EndsBehind (links ++ [.between op operand]) := by
  rintro ⟨op', hlast⟩
  rw [List.getLast?_concat] at hlast
  cases hlast

theorem EndsBehind.not_between {links : List Link} (h : EndsBehind links) : ¬ EndsBetween links := by
  rintro ⟨op, operand, hlast⟩
  obtain ⟨op', hlast'⟩ := h
  rw [hlast] at hlast'
  cases hlast'

/-- Behind other links, a row that is not empty ends with an operator between two operands. -/
theorem endsBetween_row (links : List Link) {row : List (Operator × Expr)} (h : row ≠ []) :
    EndsBetween (links ++ row.map Link.ofRow) := by
  obtain ⟨row, last, rfl⟩ := List.eq_nil_or_concat row |>.resolve_left h
  refine ⟨last.1, last.2, ?_⟩
  rw [List.concat_eq_append, List.map_append, ← List.append_assoc]
  exact List.getLast?_concat

/-- The row at the end of links is as long as it can be. -/
theorem row_unique {links links' : List Link} {row row' : List (Operator × Expr)}
    (h : links ++ row.map Link.ofRow = links' ++ row'.map Link.ofRow) (hends : ¬ EndsBetween links)
    (hends' : ¬ EndsBetween links') : links = links' ∧ row = row' := by
  have hinj : Function.Injective Link.ofRow := by
    rintro ⟨op, operand⟩ ⟨op', operand'⟩ h
    cases h
    rfl
  -- Whatever one of the rows has more would be the end of the other links.
  rcases List.append_eq_append_iff.1 h with ⟨more, rfl, hmore⟩ | ⟨more, rfl, hmore⟩
  · obtain ⟨before, behind, -, rfl, hbehind⟩ := List.map_eq_append_iff.1 hmore
    by_cases hnil : before = []
    · subst hnil
      exact ⟨by simp, hinj.list_map (by simpa using hmore)⟩
    · exact absurd (endsBetween_row links hnil) hends'
  · obtain ⟨before, behind, -, rfl, hbehind⟩ := List.map_eq_append_iff.1 hmore
    by_cases hnil : before = []
    · subst hnil
      exact ⟨by simp, (hinj.list_map (by simpa using hmore)).symm⟩
    · exact absurd (endsBetween_row links' hnil) hends

/-- A row may be empty, and then its tree is what it begins with. -/
theorem Builds.tree {first : Expr} {links : List Link} {tree : Tree} (front : Builds first links tree.first)
    (hends : ¬ EndsBetween links) (hordered : tree.Ordered) :
    Builds first (links ++ tree.rest.map Link.ofRow) tree.value := by
  cases tree with
  | leaf e =>
    rw [Tree.rest, List.map_nil, List.append_nil]
    exact front
  | node op left right => exact .row front hends (by simp [Tree.rest]) hordered

/-- **Links build one tree.** -/
theorem Builds.unique {first e e' : Expr} {links : List Link} (h : Builds first links e)
    (h' : Builds first links e') : e = e' := by
  induction h generalizing e' with
  | operand =>
    generalize hlinks : ([] : List Link) = links at h'
    cases h' with
    | operand => rfl
    | row front hends hrest hordered =>
      exact absurd (List.map_eq_nil_iff.1 (List.append_eq_nil_iff.1 hlinks.symm).2) hrest
    | behind front op => exact absurd hlinks (by simp)
  | @row links tree front hends hrest hordered ih =>
    generalize hlinks : links ++ tree.rest.map Link.ofRow = links' at h'
    have hbetween := hlinks ▸ endsBetween_row links hrest
    cases h' with
    | operand => exact absurd hbetween not_endsBetween_nil
    | row front' hends' hrest' hordered' =>
      obtain ⟨rfl, hsame⟩ := row_unique hlinks hends hends'
      rw [Tree.eq_of_ordered hordered hordered' (ih front') hsame]
    | behind front' op => exact absurd hbetween (endsBehind_snoc _ op).not_between
  | @behind links whole front op ih =>
    generalize hlinks : links ++ [.behind op] = links' at h'
    have hbehind := hlinks ▸ endsBehind_snoc links op
    cases h' with
    | operand => exact absurd hbehind not_endsBehind_nil
    | row front' hends' hrest' hordered' =>
      exact absurd (endsBetween_row _ hrest') hbehind.not_between
    | behind front' op' =>
      obtain ⟨rfl, hsame⟩ := List.append_inj' hlinks rfl
      cases hsame
      rw [ih front']

/-! ### The rules -/

/-- What the front of a list of tokens can be. -/
inductive Part where
  /-- An operand. -/
  | operand (e : Expr)
  /-- The items of a group, with the bracket that closes it. -/
  | items (container : Container) (es : List Expr)
  /-- The same, of a group that is not empty. -/
  | listing (container : Container) (es : List Expr)
  /-- An operand and links, which need not have come to their end. -/
  | course (bound : Option Nat) (first : Expr) (links : List Link)
  /-- All of an expression. -/
  | whole (bound : Option Nat) (e : Expr)

/-- The name is called: the bracket of a list stands behind it, and it is no unknown symbol. -/
def Called (t : Operator.Table) (name next : Token) : Prop :=
  next.kind = .opening .list ∧ (t.contains name.text = true ∨ name.kind ≠ .symbol)

/-- A group. A list of one item is that item. -/
def grouped : Container → List Expr → Expr
  | .list, [item] => item
  | container, items => .group container items

/-- The front of the first list of tokens is such a part, and the second list is what is left behind.
Whether a symbol that can be both stands between operands or behind one is decided by what stands
before it: directly behind an operand it stands between, and directly behind an operator that stands
behind an operand it does so as well. -/
inductive Splits (t : Operator.Table) : Part → List Token → List Token → Prop
  | constant {token : Token} {rest : List Token} {kind : ConstantKind}
    (h : constantKind? token.kind = some kind) :
    Splits t (.operand (.constant kind token.text)) (token :: rest) rest
  | group {opening : Token} {behind rest : List Token} {container : Container} {es : List Expr}
    (hopening : opening.kind = .opening container) (items : Splits t (.items container es) behind rest) :
    Splits t (.operand (grouped container es)) (opening :: behind) rest
  | call {name opening : Token} {behind rest : List Token} {es : List Expr}
    (hname : name.kind.isIdentifier = true) (hcalled : Called t name opening)
    (items : Splits t (.items .list es) behind rest) :
    Splits t (.operand (.apply (t.applied name.text es.length).entity es)) (name :: opening :: behind) rest
  | prefixed {name next : Token} {behind rest : List Token} {op : Operator} {e : Expr}
    (hname : name.kind.isIdentifier = true) (hcalled : ¬ Called t name next)
    (hop : t.get? name.text .prefixOp = some op)
    (operand : Splits t (.whole (some op.precedence) e) (next :: behind) rest) :
    Splits t (.operand (.apply op.entity [e])) (name :: next :: behind) rest
  | signal {name next : Token} {rest : List Token} (hname : name.kind.isTextIdentifier = true)
    (hcalled : ¬ Called t name next) (hop : t.get? name.text .prefixOp = none) :
    Splits t (.operand (.signal name.text)) (name :: next :: rest) (next :: rest)
  | empty {closing : Token} {rest : List Token} {container : Container}
    (h : closing.kind = .closing container) : Splits t (.items container []) (closing :: rest) rest
  | filled {first : Token} {behind rest : List Token} {container : Container} {es : List Expr}
    (h : first.kind ≠ .closing container)
    (items : Splits t (.listing container es) (first :: behind) rest) :
    Splits t (.items container es) (first :: behind) rest
  | last {stream rest : List Token} {closing : Token} {container : Container} {e : Expr}
    (item : Splits t (.whole none e) stream (closing :: rest)) (h : closing.kind = .closing container) :
    Splits t (.listing container [e]) stream rest
  | more {stream behind rest : List Token} {separator : Token} {container : Container} {e : Expr}
    {es : List Expr} (item : Splits t (.whole none e) stream (separator :: behind))
    (h : separator.kind = .separator) (others : Splits t (.listing container es) behind rest) :
    Splits t (.listing container (e :: es)) stream rest
  | first {stream rest : List Token} {bound : Option Nat} {e : Expr}
    (operand : Splits t (.operand e) stream rest) : Splits t (.course bound e []) stream rest
  | between {stream behind rest : List Token} {token : Token} {bound : Option Nat} {first e : Expr}
    {links : List Link} {op : Operator}
    (front : Splits t (.course bound first links) stream (token :: behind))
    (hop : bindingAt t bound .infixOp token = some op)
    (hturn : EndsBehind links → bindingAt t bound .postfixOp token = none)
    (operand : Splits t (.operand e) behind rest) :
    Splits t (.course bound first (links ++ [.between op e])) stream rest
  | behind {stream rest : List Token} {token : Token} {bound : Option Nat} {first : Expr}
    {links : List Link} {op : Operator}
    (front : Splits t (.course bound first links) stream (token :: rest))
    (hop : bindingAt t bound .postfixOp token = some op)
    (hturn : ¬ EndsBehind links → bindingAt t bound .infixOp token = none) :
    Splits t (.course bound first (links ++ [.behind op])) stream rest
  | whole {stream rest : List Token} {token : Token} {bound : Option Nat} {first e : Expr}
    {links : List Link} (course : Splits t (.course bound first links) stream (token :: rest))
    (hstops : Stops t bound token) (hbuilds : Builds first links e) :
    Splits t (.whole bound e) stream (token :: rest)

/-- The links are a front of others, and the token behind them does not stop the expression. -/
structure GoesOn (t : Operator.Table) (bound : Option Nat) (links : List Link) (rest : List Token)
    (links' : List Link) (rest' : List Token) : Prop where
  front : links <+: links'
  shorter : links.length < links'.length
  goes : ∃ token behind, rest = token :: behind ∧ ¬ Stops t bound token ∧ rest' <:+ behind

/-- What else the front of the tokens can be is the same. Of an expression that need not have come to its
end, whatever has no more links is all of it or goes on to it. -/
def Alone (t : Operator.Table) : Part → List Token → List Token → Prop
  | .operand e, stream, rest => ∀ e' rest', Splits t (.operand e') stream rest' → e' = e ∧ rest' = rest
  | .items container es, stream, rest =>
    ∀ es' rest', Splits t (.items container es') stream rest' → es' = es ∧ rest' = rest
  | .listing container es, stream, rest =>
    ∀ es' rest', Splits t (.listing container es') stream rest' → es' = es ∧ rest' = rest
  | .whole bound e, stream, rest =>
    ∀ e' rest', Splits t (.whole bound e') stream rest' → e' = e ∧ rest' = rest
  | .course bound first links, stream, rest =>
    ∀ first' links' rest', Splits t (.course bound first' links') stream rest' →
      links'.length ≤ links.length →
      first' = first ∧ (links' = links ∧ rest' = rest ∨ GoesOn t bound links' rest' links rest)

namespace Splits

variable {t : Operator.Table} {part : Part} {stream rest : List Token} {bound : Option Nat} {first : Expr}
  {links : List Link}

/-- The rules look no further than one token behind the part. -/
theorem append (h : Splits t part stream rest) (more : List Token) :
    Splits t part (stream ++ more) (rest ++ more) := by
  induction h with
  | constant h => exact .constant h
  | group hopening _ ih => exact .group hopening ih
  | call hname hcalled _ ih => exact .call hname hcalled ih
  | prefixed hname hcalled hop _ ih => exact .prefixed hname hcalled hop ih
  | signal hname hcalled hop => exact .signal hname hcalled hop
  | empty h => exact .empty h
  | filled h _ ih => exact .filled h ih
  | last _ h ih => exact .last ih h
  | more _ h _ ih ih' => exact .more ih h ih'
  | first _ ih => exact .first ih
  | between _ hop hturn _ ih ih' => exact .between ih hop hturn ih'
  | behind _ hop hturn ih => exact .behind ih hop hturn
  | whole _ hstops hbuilds ih => exact .whole ih hstops hbuilds

theorem suffix (h : Splits t part stream rest) : rest <:+ stream := by
  induction h with
  | constant => exact List.suffix_cons _ _
  | group _ _ ih => exact ih.trans (List.suffix_cons _ _)
  | call _ _ _ ih => exact ih.trans ((List.suffix_cons _ _).trans (List.suffix_cons _ _))
  | prefixed _ _ _ _ ih => exact ih.trans (List.suffix_cons _ _)
  | signal => exact List.suffix_cons _ _
  | empty => exact List.suffix_cons _ _
  | filled _ _ ih => exact ih
  | last _ _ ih => exact (List.suffix_cons _ _).trans ih
  | more _ _ _ ih ih' => exact ih'.trans ((List.suffix_cons _ _).trans ih)
  | first _ ih => exact ih
  | between _ _ _ _ ih ih' => exact ih'.trans ((List.suffix_cons _ _).trans ih)
  | behind _ _ _ ih => exact (List.suffix_cons _ _).trans ih
  | whole _ _ _ ih => exact ih

/-- All links bind below the bound. -/
theorem binds_links (h : Splits t (.course bound first links) stream rest) :
    ∀ link ∈ links, binds bound link.operator.precedence = true := by
  generalize hpart : Part.course bound first links = part at h
  induction h generalizing links with
  | first => cases hpart; simp
  | between _ hop _ _ ih | behind _ hop _ ih =>
    cases hpart
    rw [List.forall_mem_append, List.forall_mem_singleton]
    exact ⟨ih rfl, binds_of_bindingAt hop⟩
  | _ => cases hpart

/-- With a further link: before that one, the expression has not come to its end either. -/
theorem shorter_snoc {token : Token} {behind : List Token} {n : Nat} (link : Link)
    (front : Splits t (.course bound first links) stream (token :: behind))
    (hgoes : ¬ Stops t bound token) (hrest : rest <:+ behind)
    (ih : n < links.length → ∃ token' behind', Splits t (.course bound first (links.take n)) stream
      (token' :: behind') ∧ ¬ Stops t bound token' ∧ token :: behind <:+ behind')
    (hn : n < (links ++ [link]).length) :
    ∃ token' behind', Splits t (.course bound first ((links ++ [link]).take n)) stream (token' :: behind') ∧
      ¬ Stops t bound token' ∧ rest <:+ behind' := by
  rw [List.length_append, List.length_singleton] at hn
  rcases Nat.lt_or_eq_of_le (Nat.le_of_lt_succ hn) with hn | rfl
  · obtain ⟨token', behind', hfront, hgoes', hbehind⟩ := ih hn
    rw [List.take_append_of_le_length (Nat.le_of_lt hn)]
    exact ⟨token', behind', hfront, hgoes', hrest.trans ((List.suffix_cons token behind).trans hbehind)⟩
  · rw [List.take_left]
    exact ⟨token, behind, front, hgoes, hrest⟩

/-- Before its last link an expression has not come to its end. -/
theorem shorter (h : Splits t (.course bound first links) stream rest) {n : Nat} (hn : n < links.length) :
    ∃ token behind, Splits t (.course bound first (links.take n)) stream (token :: behind) ∧
      ¬ Stops t bound token ∧ rest <:+ behind := by
  generalize hpart : Part.course bound first links = part at h
  induction h generalizing links with
  | first => cases hpart; exact absurd hn (Nat.not_lt_zero n)
  | between front hop _ operand ih =>
    cases hpart
    exact shorter_snoc _ front (not_stops_of_between hop) operand.suffix (fun hn => ih hn rfl) hn
  | behind front hop _ ih =>
    cases hpart
    exact shorter_snoc _ front (not_stops_of_behind hop) List.suffix_rfl (fun hn => ih hn rfl) hn
  | _ => cases hpart

/-! ### There is no choice -/

theorem not_isIdentifier_of_constant {token : Token} {kind : ConstantKind}
    (h : constantKind? token.kind = some kind) : token.kind.isIdentifier = false := by
  cases htoken : token.kind <;> rw [htoken] at h <;> first | rfl | cases h

theorem constant_inv {token : Token} {kind : ConstantKind} {behind : List Token} {e : Expr}
    (hkind : constantKind? token.kind = some kind)
    (h : Splits t (.operand e) (token :: behind) rest) :
    e = .constant kind token.text ∧ rest = behind := by
  have hname := not_isIdentifier_of_constant hkind
  cases h with
  | constant h =>
    rw [hkind, Option.some.injEq] at h
    rw [h]
    exact ⟨rfl, rfl⟩
  | group hopening _ => rw [hopening] at hkind; cases hkind
  | call h | prefixed h => rw [hname] at h; cases h
  | signal h =>
    rw [Grammar.isIdentifier_of_isTextIdentifier h] at hname
    cases hname

theorem group_inv {opening : Token} {container : Container} {behind : List Token} {e : Expr}
    (hkind : opening.kind = .opening container)
    (h : Splits t (.operand e) (opening :: behind) rest) :
    ∃ es, e = grouped container es ∧ Splits t (.items container es) behind rest := by
  cases h with
  | constant h => rw [hkind] at h; cases h
  | group hopening items =>
    rw [hkind, Token.Kind.opening.injEq] at hopening
    subst hopening
    exact ⟨_, rfl, items⟩
  | call h | prefixed h | signal h => rw [hkind] at h; cases h

theorem name_inv {name next : Token} {behind : List Token} {e : Expr}
    (hname : name.kind.isIdentifier = true)
    (h : Splits t (.operand e) (name :: next :: behind) rest) :
    (Called t name next ∧ ∃ es, e = .apply (t.applied name.text es.length).entity es ∧
      Splits t (.items .list es) behind rest) ∨
    (¬ Called t name next ∧ ∃ op e', t.get? name.text .prefixOp = some op ∧ e = .apply op.entity [e'] ∧
      Splits t (.whole (some op.precedence) e') (next :: behind) rest) ∨
    (¬ Called t name next ∧ t.get? name.text .prefixOp = none ∧ e = .signal name.text ∧
      rest = next :: behind) := by
  cases h with
  | constant h => rw [not_isIdentifier_of_constant h] at hname; cases hname
  | group hopening _ => rw [hopening] at hname; cases hname
  | call _ hcalled items => exact .inl ⟨hcalled, _, rfl, items⟩
  | prefixed _ hcalled hop operand => exact .inr (.inl ⟨hcalled, _, _, hop, rfl, operand⟩)
  | signal _ hcalled hop => exact .inr (.inr ⟨hcalled, hop, rfl, rfl⟩)

/-- With a further link, what went on to the links or was all of them goes on. -/
theorem goesOn_snoc {links' : List Link} {behind rest' : List Token} {token : Token} (link : Link)
    (h : links' = links ∧ rest' = token :: behind ∨ GoesOn t bound links' rest' links (token :: behind))
    (hgoes : ¬ Stops t bound token) (hrest : rest <:+ behind) :
    GoesOn t bound links' rest' (links ++ [link]) rest := by
  rcases h with ⟨rfl, rfl⟩ | ⟨hfront, hshorter, token', behind', rfl, hgoes', hbehind⟩
  · exact ⟨List.prefix_append _ _, by simp, token, behind, rfl, hgoes, hrest⟩
  · have hlonger : links'.length < (links ++ [link]).length := by
      rw [List.length_append]
      omega
    have hrest' := hrest.trans ((List.suffix_cons token behind).trans hbehind)
    exact ⟨hfront.trans (List.prefix_append _ _), hlonger, token', behind', rfl, hgoes', hrest'⟩

/-- What is as long as all of it is all of it. -/
theorem eq_of_length {links' : List Link} {rest' : List Token}
    (h : links' = links ∧ rest' = rest ∨ GoesOn t bound links' rest' links rest)
    (hlength : links'.length = links.length) : links' = links ∧ rest' = rest := by
  rcases h with h | h
  · exact h
  · exact absurd hlength (Nat.ne_of_lt h.shorter)

/-- A token is not an operator between operands and one behind an operand at once. -/
theorem not_both {token : Token} {op op' : Operator}
    (hturn : EndsBehind links → bindingAt t bound .postfixOp token = none)
    (hturn' : ¬ EndsBehind links → bindingAt t bound .infixOp token = none) :
    ¬ (bindingAt t bound .infixOp token = some op ∧ bindingAt t bound .postfixOp token = some op') := by
  rintro ⟨hop, hop'⟩
  by_cases hends : EndsBehind links
  · rw [hturn hends] at hop'
    cases hop'
  · rw [hturn' hends] at hop
    cases hop

/-- As many links lead to the same token. -/
theorem front_unique {token token' : Token} {behind behind' : List Token} {first' : Expr}
    {links' : List Link} (h : Alone t (.course bound first links) stream (token :: behind))
    (h' : Splits t (.course bound first' links') stream (token' :: behind'))
    (hlength : links'.length = links.length) :
    first' = first ∧ links' = links ∧ token' = token ∧ behind' = behind := by
  obtain ⟨hfirst, hsame⟩ := h _ _ _ h' (Nat.le_of_eq hlength)
  obtain ⟨hlinks, hrest⟩ := eq_of_length hsame hlength
  obtain ⟨htoken, hbehind⟩ := List.cons_eq_cons.1 hrest
  exact ⟨hfirst, hlinks, htoken, hbehind⟩

/-- **What else an expression can be that goes on with a link.** It goes on to that link as well, or its
own last link is made of the same token. -/
theorem course_inv {token : Token} {behind rest' : List Token} {first' : Expr} {links' : List Link}
    (link : Link) (h : Alone t (.course bound first links) stream (token :: behind))
    (hgoes : ¬ Stops t bound token) (hrest : rest <:+ behind)
    (h' : Splits t (.course bound first' links') stream rest')
    (hlength : links'.length ≤ (links ++ [link]).length) :
    first' = first ∧ (GoesOn t bound links' rest' (links ++ [link]) rest ∨
      (∃ op e, links' = links ++ [.between op e] ∧ bindingAt t bound .infixOp token = some op ∧
        (EndsBehind links → bindingAt t bound .postfixOp token = none) ∧
        Splits t (.operand e) behind rest') ∨
      ∃ op, links' = links ++ [.behind op] ∧ bindingAt t bound .postfixOp token = some op ∧
        (¬ EndsBehind links → bindingAt t bound .infixOp token = none) ∧ rest' = behind) := by
  rw [List.length_append, List.length_singleton] at hlength
  rcases Nat.lt_or_eq_of_le hlength with hshort | hsame
  · obtain ⟨hfirst, hfront⟩ := h _ _ _ h' (Nat.le_of_lt_succ hshort)
    exact ⟨hfirst, .inl (goesOn_snoc link hfront hgoes hrest)⟩
  · cases h' with
    | first => cases hsame
    | between front' hop hturn operand =>
      rw [List.length_append, List.length_singleton, Nat.add_right_cancel_iff] at hsame
      obtain ⟨rfl, rfl, rfl, rfl⟩ := front_unique h front' hsame
      exact ⟨rfl, .inr (.inl ⟨_, _, rfl, hop, hturn, operand⟩)⟩
    | behind front' hop hturn =>
      rw [List.length_append, List.length_singleton, Nat.add_right_cancel_iff] at hsame
      obtain ⟨rfl, rfl, rfl, rfl⟩ := front_unique h front' hsame
      exact ⟨rfl, .inr (.inr ⟨_, rfl, hop, hturn, rfl⟩)⟩

/-- An expression that has come to its end is not a front of anything that goes on. -/
theorem longest_of_alone {token : Token} {first' : Expr} {links' : List Link}
    {rest' : List Token} (h : Alone t (.course bound first links) stream (token :: rest))
    (hstops : Stops t bound token) (h' : Splits t (.course bound first' links') stream rest') :
    first' = first ∧ (links' = links ∧ rest' = token :: rest ∨
      GoesOn t bound links' rest' links (token :: rest)) := by
  rcases Nat.lt_or_ge links.length links'.length with hmore | hless
  · -- It would have gone on where this one stops.
    obtain ⟨token', behind, hfront, hgoes, -⟩ := h'.shorter hmore
    have hlength : (links'.take links.length).length = links.length := by
      rw [List.length_take]
      omega
    obtain ⟨-, hsame⟩ := h _ _ _ hfront (Nat.le_of_eq hlength)
    obtain ⟨-, hrest⟩ := eq_of_length hsame hlength
    cases hrest
    exact absurd hstops hgoes
  · exact h _ _ _ h' hless

/-- **The rules leave no choice.** -/
theorem alone (h : Splits t part stream rest) : Alone t part stream rest := by
  induction h with
  | constant h => exact fun e' rest' h' => constant_inv h h'
  | group hopening _ ih =>
    intro e' rest' h'
    obtain ⟨es, rfl, hitems⟩ := group_inv hopening h'
    obtain ⟨rfl, rfl⟩ := ih _ _ hitems
    exact ⟨rfl, rfl⟩
  | call hname hcalled _ ih =>
    intro e' rest' h'
    rcases name_inv hname h' with ⟨-, es, rfl, hitems⟩ | ⟨hnot, -⟩ | ⟨hnot, -⟩
    · obtain ⟨rfl, rfl⟩ := ih _ _ hitems
      exact ⟨rfl, rfl⟩
    · exact absurd hcalled hnot
    · exact absurd hcalled hnot
  | prefixed hname hcalled hop _ ih =>
    intro e' rest' h'
    rcases name_inv hname h' with ⟨hcalled', -⟩ | ⟨-, op', e'', hop', rfl, hoperand⟩ | ⟨-, hop', -⟩
    · exact absurd hcalled' hcalled
    · rw [hop, Option.some.injEq] at hop'
      subst hop'
      obtain ⟨rfl, rfl⟩ := ih _ _ hoperand
      exact ⟨rfl, rfl⟩
    · rw [hop] at hop'
      cases hop'
  | signal hname hcalled hop =>
    intro e' rest' h'
    rcases name_inv (Grammar.isIdentifier_of_isTextIdentifier hname) h' with
      ⟨hcalled', -⟩ | ⟨-, op', e'', hop', -⟩ | ⟨-, -, rfl, rfl⟩
    · exact absurd hcalled' hcalled
    · rw [hop] at hop'
      cases hop'
    · exact ⟨rfl, rfl⟩
  | empty h =>
    intro es' rest' h'
    cases h' with
    | empty => exact ⟨rfl, rfl⟩
    | filled hother => exact absurd h hother
  | filled h _ ih =>
    intro es' rest' h'
    cases h' with
    | empty hclosing => exact absurd hclosing h
    | filled _ items => exact ih _ _ items
  | last _ h ih =>
    intro es' rest' h'
    cases h' with
    | last item' _ =>
      obtain ⟨rfl, hsame⟩ := ih _ _ item'
      cases hsame
      exact ⟨rfl, rfl⟩
    | more item' hseparator _ =>
      obtain ⟨-, hsame⟩ := ih _ _ item'
      cases hsame
      rw [h] at hseparator
      cases hseparator
  | more _ h _ ih ih' =>
    intro es' rest' h'
    cases h' with
    | last item' hclosing =>
      obtain ⟨-, hsame⟩ := ih _ _ item'
      cases hsame
      rw [h] at hclosing
      cases hclosing
    | more item' _ others' =>
      obtain ⟨rfl, hsame⟩ := ih _ _ item'
      cases hsame
      obtain ⟨rfl, rfl⟩ := ih' _ _ others'
      exact ⟨rfl, rfl⟩
  | first _ ih =>
    intro first' links' rest' h' hlength
    obtain rfl := List.eq_nil_of_length_eq_zero (Nat.eq_zero_of_le_zero hlength)
    generalize hnil : ([] : List Link) = links at h'
    cases h' with
    | first operand' =>
      obtain ⟨rfl, rfl⟩ := ih _ _ operand'
      exact ⟨rfl, .inl ⟨rfl, rfl⟩⟩
    | between | behind => simp at hnil
  | between _ hop hturn operand ih ih' =>
    intro first' links' rest' h' hlength
    obtain ⟨rfl, hgoes | ⟨op', e', rfl, hop', -, operand'⟩ | ⟨op', -, hop', hturn', -⟩⟩ :=
      course_inv _ ih (not_stops_of_between hop) operand.suffix h' hlength
    · exact ⟨rfl, .inr hgoes⟩
    · rw [hop, Option.some.injEq] at hop'
      subst hop'
      obtain ⟨rfl, rfl⟩ := ih' _ _ operand'
      exact ⟨rfl, .inl ⟨rfl, rfl⟩⟩
    · exact absurd ⟨hop, hop'⟩ (not_both hturn hturn')
  | behind _ hop hturn ih =>
    intro first' links' rest' h' hlength
    obtain ⟨rfl, hgoes | ⟨op', e', -, hop', hturn', -⟩ | ⟨op', rfl, hop', -, rfl⟩⟩ :=
      course_inv _ ih (not_stops_of_behind hop) List.suffix_rfl h' hlength
    · exact ⟨rfl, .inr hgoes⟩
    · exact absurd ⟨hop', hop⟩ (not_both hturn' hturn)
    · rw [hop, Option.some.injEq] at hop'
      subst hop'
      exact ⟨rfl, .inl ⟨rfl, rfl⟩⟩
  | whole _ hstops hbuilds ih =>
    intro e' rest' h'
    cases h' with
    | whole course' hstops' hbuilds' =>
      obtain ⟨rfl, ⟨rfl, hrest⟩ | ⟨-, -, token, behind, hrest, hgoes, -⟩⟩ := longest_of_alone ih hstops course'
      · cases hrest
        exact ⟨hbuilds'.unique hbuilds, rfl⟩
      · cases hrest
        exact absurd hstops' hgoes

/-- **The longest expression.** Where the rules lead to the end of an expression, they lead to no other
end, and whatever else they lead to on the way is a front of it. -/
theorem longest {token : Token} {first' : Expr} {links' : List Link} {rest' : List Token}
    (h : Splits t (.course bound first links) stream (token :: rest)) (hstops : Stops t bound token)
    (h' : Splits t (.course bound first' links') stream rest') :
    first' = first ∧ (links' = links ∧ rest' = token :: rest ∨
      GoesOn t bound links' rest' links (token :: rest)) :=
  longest_of_alone h.alone hstops h'

end Splits

end Dataflow.Parser
