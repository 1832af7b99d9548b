import SmallSql.Proofs.Paths

namespace SmallSql

def Kind.isParen : Kind → Bool
  | .openParen | .closeParen => true
  | _ => false

def ungrouped (tokens : List Token) : List Token := tokens.filter (!·.kind.isParen)

def commas (items : List (List Token)) : List Token := [Token.mark .comma].intercalate items

def Operator.kind : Operator → Kind
  | .comparison c => .comparison c
  | .junction j => .keyword j.keyword

def Operand.token : Operand → Token
  | .object name => .named name
  | .value v => v.token

namespace Condition

/-- What stands to the left of an operator, the operator, and what stands to its right. -/
def inorder : Condition → List Token
  | .leaf operand => [operand.token]
  | .node left op right => left.inorder ++ .mark op.kind :: right.inorder

def comparisons : Condition → Nat
  | .leaf _ => 0
  | .node left (.comparison _) right => left.comparisons + right.comparisons + 1
  | .node left (.junction _) right => left.comparisons + right.comparisons

theorem length_inorder (c : Condition) : c.inorder.length = c.size := by
  induction c with
  | leaf operand => rw [size_leaf, inorder, List.length_singleton]
  | node left op right ihl ihr =>
    rw [size_node, inorder, List.length_append, List.length_cons, ihl, ihr]
    omega

/-- A comparison has three nodes, and a junction puts one more between two conditions. -/
theorem WellFormed.size_eq {c : Condition} (h : c.WellFormed) : c.size + 1 = 4 * c.comparisons := by
  induction h with
  | compare column op v => simp only [Condition.compare, size_node, size_leaf, comparisons]
  | join hl j hr ihl ihr =>
    simp only [Condition.join, size_node, comparisons]
    omega

end Condition

namespace Query

def clauseTokens : Option Condition → List Token
  | none => []
  | some c => .mark (.keyword .«where») :: c.inorder

def rowTokens (row : List Value) : List Token :=
  .mark .openParen :: (commas (row.map fun v => [v.token]) ++ [.mark .closeParen])

/-- The query as it is read, its condition without parentheses. -/
def tokens : Query → List Token
  | .select q =>
    .mark (.keyword .select) :: (commas (q.columns.map fun name => [.named name]) ++
      .mark (.keyword .«from») :: .named q.table :: clauseTokens q.condition)
  | .insert q =>
    .mark (.keyword .insert) :: .mark (.keyword .into) :: .named q.table ::
      .mark (.keyword .values) :: commas (q.rows.map rowTokens)
  | .delete q =>
    .mark (.keyword .delete) :: .mark (.keyword .«from») :: .named q.table ::
      clauseTokens q.condition

end Query

theorem Listing.tokens_eq_commas {α : Type} (spell : α → List Token) (xs : Listing α) :
    xs.tokens spell = commas (xs.toList.map spell) := by
  obtain ⟨first, others⟩ := xs
  induction others generalizing first with
  | nil => simp [tokens, toList, commas]
  | cons second others ih =>
    have h := ih second
    simp only [tokens, toList, commas, List.map_cons, List.flatMap_cons,
      List.intercalate_cons_cons] at h ⊢
    rw [← h]
    simp

/-- Nothing of a phrase is lost or moved when its parentheses are taken away. -/
theorem Phrase.ungrouped_tokens {r : Rule} (p : Phrase r) :
    ungrouped p.tokens = p.meaning.inorder := by
  induction p with
  | compare column c v => cases v <;> rfl
  | group inner ih =>
    rw [meaning, ← ih]
    simp [ungrouped, tokens, Token.mark, Kind.isParen]
  | last term ih => exact ih
  | link term j rest iht ihr =>
    have hj : (Token.mark (.keyword j.keyword)).kind.isParen = false := rfl
    rw [meaning, Condition.join, Condition.inorder, ← iht, ← ihr, ungrouped, tokens,
      List.filter_append, List.filter_cons_of_pos (by rw [hj]; rfl)]
    rfl

namespace Statement

theorem ungrouped_clauseTokens (clause : Option (Phrase .chain)) :
    ungrouped (clauseTokens clause) = Query.clauseTokens (clause.map Phrase.meaning) := by
  cases clause with
  | none => rfl
  | some p =>
    rw [Option.map_some, Query.clauseTokens, ← p.ungrouped_tokens]
    rfl

theorem rowTokens_eq (row : Listing Value) : rowTokens row = Query.rowTokens row.toList := by
  rw [rowTokens, Query.rowTokens, row.tokens_eq_commas]

theorem query_tokens (s : Statement) :
    s.query.tokens = s.lead ++ ungrouped (clauseTokens s.clause?) := by
  rw [ungrouped_clauseTokens]
  cases s with
  | select columns table clause =>
    simp [query, Query.tokens, lead, clause?, columns.tokens_eq_commas]
  | insert table rows =>
    simp [query, Query.tokens, lead, clause?, Query.clauseTokens, rows.tokens_eq_commas,
      ← rowTokens_eq, Function.comp_def]
  | delete table clause => rfl

end Statement

theorem ungrouped_bare (tokens : List Token) :
    ungrouped (tokens.map Token.bare) = (ungrouped tokens).map Token.bare := List.filter_map

theorem Statement.Spells.condition?_eq_none_iff {s : Statement} {tokens : List Token}
    (h : s.Spells tokens) :
    s.query.condition? = none ↔ ∀ t ∈ tokens, t.kind ≠ .keyword .«where» := by
  have hclause : clauseOf tokens = [] ↔ s.clause? = none := by
    rw [← List.map_eq_nil_iff, h.clauseOf_eq]
    cases s.clause? <;> simp [clauseTokens]
  rw [s.query_condition?, Option.map_eq_none_iff, ← hclause, clauseOf, List.dropWhile_eq_nil_iff]
  simp

/-- A query that is read gives back what it was read from, except for the parentheses behind the
WHERE. So no condition is lost, and one of `n` comparisons is read from `4 * n - 1` tokens besides
parentheses. -/
theorem tokens_of_ofTokens {tokens : List Token} {q : Query} (h : Query.ofTokens tokens = .ok q) :
    q.tokens = (leadOf (significant tokens) ++ ungrouped (clauseOf (significant tokens))).map
      Token.bare ∧
    (q.condition? = none ↔ ∀ t ∈ significant tokens, t.kind ≠ .keyword .«where») ∧
    ∀ c ∈ q.condition?, c.size = (ungrouped (conditionOf (significant tokens))).length ∧
      c.size + 1 = 4 * c.comparisons := by
  obtain ⟨s, hs, -, rfl⟩ := (Query.ofTokens_eq_ok_iff q).mp h
  refine ⟨?_, hs.condition?_eq_none_iff, fun c hc => ?_⟩
  · rw [List.map_append, hs.leadOf_eq, ← ungrouped_bare, hs.clauseOf_eq, s.query_tokens]
  · rw [s.query_condition?] at hc
    obtain ⟨p, hp, rfl⟩ := Option.map_eq_some_iff.mp hc
    have hb : (conditionOf (significant tokens)).map Token.bare = p.tokens := by
      rw [hs.conditionOf_eq, hp]
      rfl
    refine ⟨?_, p.meaning_wellFormed.size_eq⟩
    calc p.meaning.size
        = (ungrouped p.tokens).length := by rw [p.ungrouped_tokens, Condition.length_inorder]
      _ = (ungrouped (conditionOf (significant tokens))).length := by
        rw [← hb, ungrouped_bare, List.length_map]

/-- A group in a group, a literal without a text, and tokens behind the end. -/
def parenthesized : List Token :=
  [.mark (.keyword .delete), .mark (.keyword .«from»), .named "t", .mark .blank,
    .mark (.keyword .«where»), .mark .openParen, .mark .openParen, .named "a",
    .mark (.comparison .equal), .mark .integer, .mark .closeParen, .mark (.keyword .or), .named "b",
    .mark (.comparison .less), (Value.string "x").token, .mark .closeParen, .mark (.keyword .and),
    .named "c", .mark (.comparison .equal), (Value.integer "2").token, .finish,
    .mark (.keyword .«where»)]

theorem tokens_of_parenthesized : ∃ q c, Query.ofTokens parenthesized = .ok q ∧
    q.condition? = some c ∧ q.tokens = [.mark (.keyword .delete), .mark (.keyword .«from»),
      .named "t", .mark (.keyword .«where»), .named "a", .mark (.comparison .equal),
      (Value.integer "").token, .mark (.keyword .or), .named "b", .mark (.comparison .less),
      (Value.string "x").token, .mark (.keyword .and), .named "c", .mark (.comparison .equal),
      (Value.integer "2").token] ∧
    c.size = 11 ∧ c.comparisons = 3 := by
  have h : Query.ofTokens parenthesized = .ok (.delete ⟨"t", some (.join (.join
    (.compare "a" .equal (.integer "")) .or (.compare "b" .less (.string "x"))) .and
    (.compare "c" .equal (.integer "2")))⟩) := rfl
  obtain ⟨ht, -, hc⟩ := tokens_of_ofTokens h
  exact ⟨_, _, h, rfl, ht, (hc _ rfl).1, rfl⟩

end SmallSql
