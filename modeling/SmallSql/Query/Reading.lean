import SmallSql.Query
import SmallSql.Token.Scan

namespace SmallSql

/-- The terms of a chain that is not finished, each with the junction after it, latest first. -/
abbrev Chain := List (Condition × Junction)

/-- Joins a chain to its last term. AND and OR bind alike and group to the right. -/
def Chain.close (chain : Chain) (last : Condition) : Condition :=
  chain.foldl (fun right (left, j) => .join left j right) last

/-- The chain that is being read and those around it, innermost first. -/
structure Nest where
  chain : Chain
  outer : List Chain
  depth : Nat
  links : Nat
deriving DecidableEq, Repr

namespace Nest

/-- How many parentheses may be open at once. -/
def maxDepth : Nat := 256

/-- How many links may be pending at once, in all open chains together. -/
def maxLinks : Nat := 512

def empty : Nest := ⟨[], [], 0, 0⟩

def enter (nest : Nest) : Nest :=
  ⟨[], nest.chain :: nest.outer, nest.depth + 1, nest.links⟩

def link (nest : Nest) (term : Condition) (j : Junction) : Nest :=
  ⟨(term, j) :: nest.chain, nest.outer, nest.depth, nest.links + 1⟩

/-- A closing parenthesis ends the innermost chain with `term`. What was inside is one term of the
chain around it, and its links are pending no more. -/
def leave? (nest : Nest) (term : Condition) : Option (Condition × Nest) :=
  match nest.outer with
  | [] => none
  | chain :: outer =>
    some (nest.chain.close term,
      ⟨chain, outer, nest.depth - 1, nest.links - nest.chain.length⟩)

def isTop (nest : Nest) : Bool := nest.outer.isEmpty

end Nest

inductive Head where
  | select (columns : List String) (table : String)
  | delete (table : String)
deriving DecidableEq, Repr

def Head.query (head : Head) (condition : Option Condition) : Query :=
  match head with
  | .select columns table => .select ⟨columns, table, condition⟩
  | .delete table => .delete ⟨table, condition⟩

def Token.value? (t : Token) : Option Value :=
  match t.kind with
  | .string => some (.string t.content)
  | .integer => some (.integer t.content)
  | _ => none

def Token.name? (t : Token) : Option String := if t.kind = .object then some t.content else none

def Token.ofKind? (kind : Kind) (t : Token) : Option Unit := if t.kind = kind then some () else none

def Kind.comparison? : Kind → Option Comparison
  | .comparison c => some c
  | _ => none

def Kind.junction? : Kind → Option Junction
  | .keyword .and => some .and
  | .keyword .or => some .or
  | _ => none

/-- How far a query has been read, named for what comes next. Lists are held latest first. -/
inductive Reading where
  | statement
  | column (columns : List String)
  | columnEnd (columns : List String)
  | selectTable (columns : List String)
  | insertInto
  | insertTable
  | insertValues (table : String)
  | row (table : String) (rows : List (List Value))
  | rowValue (table : String) (rows : List (List Value)) (values : List Value)
  | rowValueEnd (table : String) (rows : List (List Value)) (values : List Value)
  | rowEnd (table : String) (rows : List (List Value))
  | deleteFrom
  | deleteTable
  | clause (head : Head)
  | term (head : Head) (nest : Nest)
  | comparison (head : Head) (nest : Nest) (name : String)
  | literal (head : Head) (nest : Nest) (name : String) (c : Comparison)
  | termEnd (head : Head) (nest : Nest) (last : Condition)
deriving DecidableEq, Repr

inductive Refusal where
  | unexpected
  | nestingTooDeep
  | chainTooLong
deriving DecidableEq, Repr

namespace Reading

/-- The kinds that are asked for where another is found. Where the columns, a row or a group in
parentheses might go on, only what ends them is asked for. -/
def expected : Reading → List Kind
  | .statement => [.keyword .select, .keyword .insert, .keyword .delete]
  | .column _ => [.object]
  | .columnEnd _ => [.keyword .«from»]
  | .selectTable _ => [.object]
  | .insertInto => [.keyword .into]
  | .insertTable => [.object]
  | .insertValues _ => [.keyword .values]
  | .row _ _ => [.openParen]
  | .rowValue _ _ _ => [.string, .integer]
  | .rowValueEnd _ _ _ => [.closeParen]
  | .rowEnd _ _ => [.comma, .finish]
  | .deleteFrom => [.keyword .«from»]
  | .deleteTable => [.object]
  | .clause _ => [.keyword .«where», .finish]
  | .term _ _ => [.openParen, .object]
  | .comparison _ _ _ => Comparison.all.map .comparison
  | .literal _ _ _ _ => [.string, .integer]
  | .termEnd _ nest _ =>
    if nest.isTop then [.keyword .and, .keyword .or, .finish] else [.closeParen]

def afterTerm (head : Head) (nest : Nest) (last : Condition) (kind : Kind) :
    Except Refusal Reading :=
  match kind.junction? with
  | some j =>
    if nest.links = Nest.maxLinks then .error .chainTooLong
    else .ok (.term head (nest.link last j))
  | none =>
    if kind = .closeParen then
      match nest.leave? last with
      | some (group, around) => .ok (.termEnd head around group)
      | none => .error .unexpected
    else .error .unexpected

/-- The reading after one more token. -/
def step (reading : Reading) (t : Token) : Except Refusal Reading :=
  match reading with
  | .statement =>
    match t.kind with
    | .keyword .select => .ok (.column [])
    | .keyword .insert => .ok .insertInto
    | .keyword .delete => .ok .deleteFrom
    | _ => .error .unexpected
  | .column columns =>
    if t.kind = .object then .ok (.columnEnd (t.content :: columns)) else .error .unexpected
  | .columnEnd columns =>
    match t.kind with
    | .comma => .ok (.column columns)
    | .keyword .«from» => .ok (.selectTable columns)
    | _ => .error .unexpected
  | .selectTable columns =>
    if t.kind = .object then .ok (.clause (.select columns.reverse t.content))
    else .error .unexpected
  | .insertInto => if t.kind = .keyword .into then .ok .insertTable else .error .unexpected
  | .insertTable =>
    if t.kind = .object then .ok (.insertValues t.content) else .error .unexpected
  | .insertValues table =>
    if t.kind = .keyword .values then .ok (.row table []) else .error .unexpected
  | .row table rows =>
    if t.kind = .openParen then .ok (.rowValue table rows []) else .error .unexpected
  | .rowValue table rows values =>
    match t.value? with
    | some v => .ok (.rowValueEnd table rows (v :: values))
    | none => .error .unexpected
  | .rowValueEnd table rows values =>
    match t.kind with
    | .comma => .ok (.rowValue table rows values)
    | .closeParen => .ok (.rowEnd table (values.reverse :: rows))
    | _ => .error .unexpected
  | .rowEnd table rows =>
    if t.kind = .comma then .ok (.row table rows) else .error .unexpected
  | .deleteFrom => if t.kind = .keyword .«from» then .ok .deleteTable else .error .unexpected
  | .deleteTable =>
    if t.kind = .object then .ok (.clause (.delete t.content)) else .error .unexpected
  | .clause head =>
    if t.kind = .keyword .«where» then .ok (.term head .empty) else .error .unexpected
  | .term head nest =>
    match t.kind with
    | .openParen =>
      if nest.depth = Nest.maxDepth then .error .nestingTooDeep else .ok (.term head nest.enter)
    | .object => .ok (.comparison head nest t.content)
    | _ => .error .unexpected
  | .comparison head nest name =>
    match t.kind.comparison? with
    | some c => .ok (.literal head nest name c)
    | none => .error .unexpected
  | .literal head nest name c =>
    match t.value? with
    | some v => .ok (.termEnd head nest (.compare name c v))
    | none => .error .unexpected
  | .termEnd head nest last => afterTerm head nest last t.kind

def query? : Reading → Option Query
  | .rowEnd table rows => some (.insert ⟨table, rows.reverse⟩)
  | .clause head => some (head.query none)
  | .termEnd head nest last =>
    if nest.isTop then some (head.query (some (nest.chain.close last))) else none
  | _ => none

def error (reading : Reading) (refusal : Refusal) (found : Kind) (position : Nat) : ParseError :=
  match refusal with
  | .unexpected => .unexpected reading.expected found position
  | .nestingTooDeep => .nestingTooDeep Nest.maxDepth position
  | .chainTooLong => .chainTooLong Nest.maxLinks position

def run (reading : Reading) (position : Nat) : List Token → Except ParseError Query
  | [] =>
    match reading.query? with
    | some q => .ok q
    | none => .error (reading.error .unexpected .finish position)
  | t :: rest =>
    match reading.step t with
    | .ok next => next.run (position + 1) rest
    | .error refusal => .error (reading.error refusal t.kind position)

end Reading

/-- The tokens that a query is read from: blanks are no part of it, and it ends at the first end
mark or else at the last token. -/
def significant (tokens : List Token) : List Token :=
  (tokens.filter (·.kind != .blank)).takeWhile (·.kind != .finish)

theorem significant_append {before : List Token} (h : ∀ t ∈ before, t.kind ≠ .finish)
    (after : List Token) :
    significant (before ++ after) = before.filter (·.kind != .blank) ++ significant after := by
  have hne : ∀ t ∈ before.filter (·.kind != .blank), (t.kind != .finish) = true := by
    intro t ht
    simpa using h t (List.mem_filter.mp ht).1
  rw [significant, List.filter_append, List.takeWhile_append_of_pos hne, significant]

theorem significant_eq_filter {tokens : List Token} (h : ∀ t ∈ tokens, t.kind ≠ .finish) :
    significant tokens = tokens.filter (·.kind != .blank) := by
  simpa [significant] using significant_append h []

/-- The query that tokens spell, which need not come from a text. -/
def Query.ofTokens (tokens : List Token) : Except ParseError Query :=
  Reading.statement.run 0 (significant tokens)

/-- An error of the text comes before any error of its tokens. -/
def compile (text : String) : Except Error Query :=
  match tokenize text with
  | .error cause => .error (.scan cause)
  | .ok tokens => (Query.ofTokens tokens).mapError .parse

end SmallSql
