import SmallSql.Query.Reading

namespace SmallSql

/-- What a query can take from a token: the kind, and the text of a name or literal. -/
def Token.bare (t : Token) : Token := ⟨t.kind, if t.kind.showsText then some t.content else none⟩

/-- A token whose kind says all. -/
def Token.mark (kind : Kind) : Token := ⟨kind, none⟩

def Token.named (name : String) : Token := ⟨.object, some name⟩

def Value.token : Value → Token
  | .integer text => ⟨.integer, some text⟩
  | .string text => ⟨.string, some text⟩

structure Listing (α : Type) where
  first : α
  others : List α

namespace Listing

variable {α : Type}

def toList (xs : Listing α) : List α := xs.first :: xs.others

def tokens (spell : α → List Token) (xs : Listing α) : List Token :=
  spell xs.first ++ xs.others.flatMap fun x => .mark .comma :: spell x

end Listing

/-- The two nonterminals of a condition. -/
inductive Rule where
  | term
  | chain

/-- A derivation of a condition. AND and OR share one level and group to the right, so what stands
behind a junction is all the rest of the chain. -/
inductive Phrase : Rule → Type where
  | compare (column : String) (c : Comparison) (v : Value) : Phrase .term
  | group (inner : Phrase .chain) : Phrase .term
  | last (term : Phrase .term) : Phrase .chain
  | link (term : Phrase .term) (j : Junction) (rest : Phrase .chain) : Phrase .chain

namespace Phrase

variable {r : Rule}

def tokens : {r : Rule} → Phrase r → List Token
  | _, .compare column c v => [.named column, .mark (.comparison c), v.token]
  | _, .group inner => .mark .openParen :: (inner.tokens ++ [.mark .closeParen])
  | _, .last term => term.tokens
  | _, .link term j rest => term.tokens ++ .mark (.keyword j.keyword) :: rest.tokens

def meaning : {r : Rule} → Phrase r → Condition
  | _, .compare column c v => .compare column c v
  | _, .group inner => inner.meaning
  | _, .last term => term.meaning
  | _, .link term j rest => .join term.meaning j rest.meaning

/-- The links of the phrase's own chain. -/
def links : {r : Rule} → Phrase r → Nat
  | _, .compare _ _ _ | _, .group _ | _, .last _ => 0
  | _, .link _ _ rest => rest.links + 1

/-- The phrase keeps to both limits where it stands inside `depth` groups and behind `links` links:
those before it in its own chain, and those before each group around it in that group's chain. -/
def Fits (depth links : Nat) : {r : Rule} → Phrase r → Prop
  | _, .compare _ _ _ => True
  | _, .group inner => depth < Nest.maxDepth ∧ inner.Fits (depth + 1) links
  | _, .last term => term.Fits depth links
  | _, .link term _ rest =>
    term.Fits depth links ∧ links < Nest.maxLinks ∧ rest.Fits depth (links + 1)

end Phrase

/-- A derivation of a query:

    statement := SELECT name (',' name)* FROM name (WHERE chain)?
               | INSERT INTO name VALUES row (',' row)*
               | DELETE FROM name (WHERE chain)?
    row       := '(' value (',' value)* ')'
    chain     := term | term (AND | OR) chain
    term      := name comparison value | '(' chain ')'
-/
inductive Statement where
  | select (columns : Listing String) (table : String) (clause : Option (Phrase .chain))
  | insert (table : String) (rows : Listing (Listing Value))
  | delete (table : String) (clause : Option (Phrase .chain))

namespace Statement

def clauseTokens : Option (Phrase .chain) → List Token
  | none => []
  | some phrase => .mark (.keyword .«where») :: phrase.tokens

def rowTokens (row : Listing Value) : List Token :=
  .mark .openParen :: (row.tokens (fun v => [v.token]) ++ [.mark .closeParen])

def tokens : Statement → List Token
  | .select columns table clause =>
    .mark (.keyword .select) :: (columns.tokens (fun name => [.named name]) ++
      .mark (.keyword .«from») :: .named table :: clauseTokens clause)
  | .insert table rows =>
    .mark (.keyword .insert) :: .mark (.keyword .into) :: .named table ::
      .mark (.keyword .values) :: rows.tokens rowTokens
  | .delete table clause =>
    .mark (.keyword .delete) :: .mark (.keyword .«from») :: .named table :: clauseTokens clause

def query : Statement → Query
  | .select columns table clause => .select ⟨columns.toList, table, clause.map Phrase.meaning⟩
  | .insert table rows => .insert ⟨table, rows.toList.map Listing.toList⟩
  | .delete table clause => .delete ⟨table, clause.map Phrase.meaning⟩

def clause? : Statement → Option (Phrase .chain)
  | .select _ _ clause | .delete _ clause => clause
  | .insert _ _ => none

def Fits (s : Statement) : Prop := ∀ phrase ∈ s.clause?, phrase.Fits 0 0

/-- The tokens are a sentence of the grammar, whatever text stands in those that need none. -/
def Spells (s : Statement) (tokens : List Token) : Prop := tokens.map Token.bare = s.tokens

end Statement

def Operand.names : Operand → List String
  | .object name => [name]
  | .value _ => []

def Operand.values : Operand → List Value
  | .object _ => []
  | .value v => [v]

namespace Condition

def names : Condition → List String
  | .leaf operand => operand.names
  | .node left _ right => left.names ++ right.names

def values : Condition → List Value
  | .leaf operand => operand.values
  | .node left _ right => left.values ++ right.values

end Condition

namespace Query

def names : Query → List String
  | .select q => q.columns ++ q.table :: q.condition.elim [] Condition.names
  | .insert q => [q.table]
  | .delete q => q.table :: q.condition.elim [] Condition.names

def values : Query → List Value
  | .select q => q.condition.elim [] Condition.values
  | .insert q => q.rows.flatten
  | .delete q => q.condition.elim [] Condition.values

end Query

section
variable {P : Token → Prop}

theorem Listing.forall_tokens {α : Type} (spell : α → List Token) (xs : Listing α)
    (hcomma : P (.mark .comma)) :
    (∀ t ∈ xs.tokens spell, P t) ↔ ∀ x ∈ xs.toList, ∀ t ∈ spell x, P t := by
  simp only [tokens, toList, List.forall_mem_append, List.forall_mem_flatMap,
    List.forall_mem_cons, hcomma, true_and]

variable (hmark : ∀ kind : Kind, kind.spelling.isSome → P (.mark kind))
include hmark

theorem Phrase.forall_tokens {r : Rule} (p : Phrase r) : (∀ t ∈ p.tokens, P t) ↔
    (∀ name ∈ p.meaning.names, P (.named name)) ∧ ∀ v ∈ p.meaning.values, P v.token := by
  induction p with
  | compare column c v =>
    simp [tokens, meaning, Condition.compare, Condition.names, Condition.values, Operand.names,
      Operand.values, hmark (.comparison c) rfl]
  | group inner ih =>
    simp [tokens, meaning, ← ih, hmark .openParen rfl, hmark .closeParen rfl, or_imp, forall_and]
  | last term ih => exact ih
  | link term j rest iht ihr =>
    simp only [tokens, meaning, Condition.join, Condition.names, Condition.values,
      List.forall_mem_append, List.forall_mem_cons, iht, ihr, hmark (.keyword j.keyword) rfl,
      true_and]
    exact and_and_and_comm

namespace Statement

theorem forall_clauseTokens (clause : Option (Phrase .chain)) :
    (∀ t ∈ clauseTokens clause, P t) ↔
      (∀ name ∈ (clause.map Phrase.meaning).elim [] Condition.names, P (.named name)) ∧
      ∀ v ∈ (clause.map Phrase.meaning).elim [] Condition.values, P v.token := by
  cases clause with
  | none => simp [clauseTokens]
  | some p =>
    simp only [clauseTokens, List.forall_mem_cons, hmark (.keyword .«where») rfl, true_and]
    exact p.forall_tokens hmark

theorem forall_rowTokens (row : Listing Value) :
    (∀ t ∈ rowTokens row, P t) ↔ ∀ v ∈ row.toList, P v.token := by
  have h := row.forall_tokens (fun v => [v.token]) (hmark .comma rfl)
  simp only [List.forall_mem_singleton] at h
  simp only [rowTokens, List.forall_mem_cons, List.forall_mem_append, h, hmark .openParen rfl,
    hmark .closeParen rfl, List.not_mem_nil, false_implies, implies_true, true_and, and_true]

/-- What holds of all tokens whose kind says all holds of all tokens if it holds of the names and
literals, and only then. -/
theorem forall_tokens (s : Statement) : (∀ t ∈ s.tokens, P t) ↔
    (∀ name ∈ s.query.names, P (.named name)) ∧ ∀ v ∈ s.query.values, P v.token := by
  have hkeyword (k : Keyword) : P (.mark (.keyword k)) := hmark (.keyword k) rfl
  cases s with
  | select columns table clause =>
    have hcolumns := columns.forall_tokens (fun name => [.named name]) (hmark .comma rfl)
    simp only [List.forall_mem_singleton] at hcolumns
    simp only [tokens, query, Query.names, Query.values, List.forall_mem_cons,
      List.forall_mem_append, hcolumns, hkeyword, forall_clauseTokens hmark, true_and, and_assoc]
  | insert table rows =>
    have hrows := rows.forall_tokens rowTokens (hmark .comma rfl)
    simp only [forall_rowTokens hmark] at hrows
    simp only [tokens, query, Query.names, Query.values, List.forall_mem_cons, hrows, hkeyword,
      List.forall_mem_flatten, List.forall_mem_map, List.not_mem_nil, false_implies,
      implies_true, true_and, and_true]
  | delete table clause =>
    simp only [tokens, query, Query.names, Query.values, List.forall_mem_cons, hkeyword,
      forall_clauseTokens hmark, true_and, and_assoc]

end Statement

end

theorem Statement.bare_tokens (s : Statement) :
    ∀ t ∈ s.tokens, t.bare = t ∧ t.kind ≠ .blank ∧ t.kind ≠ .finish := by
  refine (s.forall_tokens fun kind hk => ?_).mpr ⟨fun name _ => ?_, fun v _ => ?_⟩
  · cases kind <;> simp_all [Token.bare, Token.mark, Kind.showsText, Kind.spelling]
  · simp [Token.bare, Token.named, Kind.showsText, Token.content]
  · cases v <;> simp [Token.bare, Value.token, Kind.showsText, Token.content]

def leadOf (tokens : List Token) : List Token := tokens.takeWhile (·.kind != .keyword .«where»)

def clauseOf (tokens : List Token) : List Token := tokens.dropWhile (·.kind != .keyword .«where»)

def conditionOf (tokens : List Token) : List Token := (clauseOf tokens).tail

namespace Statement

/-- What a derivation spells before its condition. -/
def lead : Statement → List Token
  | .select columns table _ =>
    .mark (.keyword .select) :: (columns.tokens (fun name => [.named name]) ++
      [.mark (.keyword .«from»), .named table])
  | .insert table rows =>
    .mark (.keyword .insert) :: .mark (.keyword .into) :: .named table ::
      .mark (.keyword .values) :: rows.tokens rowTokens
  | .delete table _ => [.mark (.keyword .delete), .mark (.keyword .«from»), .named table]

theorem tokens_eq_lead (s : Statement) : s.tokens = s.lead ++ clauseTokens s.clause? := by
  cases s with
  | select columns table clause => simp [tokens, lead, clause?]
  | insert table rows => simp [tokens, lead, clause?, clauseTokens]
  | delete table clause => rfl

theorem rowTokens_kind (row : Listing Value) :
    ∀ t ∈ rowTokens row, t.kind ≠ .keyword .«where» := by
  have hvalues : ∀ t ∈ row.tokens (fun v => [v.token]), t.kind ≠ .keyword .«where» := by
    refine (row.forall_tokens _ (by simp [Token.mark])).mpr fun v _ => ?_
    cases v <;> simp [Value.token]
  simp only [rowTokens, List.forall_mem_cons, List.forall_mem_append]
  exact ⟨by simp [Token.mark], hvalues, by simp [Token.mark]⟩

theorem lead_kind (s : Statement) : ∀ t ∈ s.lead, t.kind ≠ .keyword .«where» := by
  cases s with
  | select columns table clause =>
    have hcolumns : ∀ t ∈ columns.tokens (fun name => [.named name]),
        t.kind ≠ .keyword .«where» := by
      refine (columns.forall_tokens _ (by simp [Token.mark])).mpr fun name _ => ?_
      simp [Token.named]
    simp only [lead, List.forall_mem_cons, List.forall_mem_append]
    exact ⟨by simp [Token.mark], hcolumns, by simp [Token.mark, Token.named]⟩
  | insert table rows =>
    have hrows : ∀ t ∈ rows.tokens rowTokens, t.kind ≠ .keyword .«where» :=
      (rows.forall_tokens _ (by simp [Token.mark])).mpr fun row _ => rowTokens_kind row
    simp only [lead, List.forall_mem_cons]
    exact ⟨by simp [Token.mark], by simp [Token.mark], by simp [Token.named],
      by simp [Token.mark], hrows⟩
  | delete table clause => simp [lead, Token.mark, Token.named]

theorem leadOf_tokens (s : Statement) : leadOf s.tokens = s.lead := by
  rw [tokens_eq_lead, leadOf,
    List.takeWhile_append_of_pos fun t ht => by simpa using s.lead_kind t ht]
  cases s.clause? <;> simp [clauseTokens, Token.mark]

theorem clauseOf_tokens (s : Statement) : clauseOf s.tokens = clauseTokens s.clause? := by
  rw [tokens_eq_lead, clauseOf,
    List.dropWhile_append_of_pos fun t ht => by simpa using s.lead_kind t ht]
  cases s.clause? <;> simp [clauseTokens, Token.mark]

namespace Spells

variable {s : Statement} {tokens : List Token}

theorem leadOf_eq (h : s.Spells tokens) : (leadOf tokens).map Token.bare = s.lead := by
  rw [← s.leadOf_tokens, ← h, leadOf, leadOf, List.takeWhile_map]
  rfl

theorem clauseOf_eq (h : s.Spells tokens) :
    (clauseOf tokens).map Token.bare = clauseTokens s.clause? := by
  rw [← s.clauseOf_tokens, ← h, clauseOf, clauseOf, List.dropWhile_map]
  rfl

theorem conditionOf_eq (h : s.Spells tokens) :
    (conditionOf tokens).map Token.bare = s.clause?.elim [] Phrase.tokens := by
  rw [conditionOf, List.map_tail, h.clauseOf_eq]
  cases s.clause? <;> rfl

end Spells

end Statement

end SmallSql
