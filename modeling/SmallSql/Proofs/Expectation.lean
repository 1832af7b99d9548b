import SmallSql.Proofs.Acceptance

namespace SmallSql

namespace Reading

/-- The reading after all of `tokens`, if none of them is refused. -/
def after? (reading : Reading) : List Token → Option Reading
  | [] => some reading
  | t :: rest => (reading.next? t).bind (·.after? rest)

theorem after?_append (reading : Reading) (a b : List Token) :
    reading.after? (a ++ b) = (reading.after? a).bind (·.after? b) := by
  induction a generalizing reading with
  | nil => rfl
  | cons t rest ih =>
    simp only [List.cons_append, after?]
    cases reading.next? t with
    | none => rfl
    | some next => exact ih next

/-- The tokens make up all that is missing, and the query is what has been read then. -/
def Gives (reading : Reading) (tokens : List Token) (q : Query) : Prop :=
  ∃ last, reading.after? tokens = some last ∧ last.query? = some q

def Ends (reading : Reading) (tokens : List Token) : Prop :=
  ∃ last, reading.after? tokens = some last ∧ last.query?.isSome = true

theorem ends_iff_gives {reading : Reading} {tokens : List Token} :
    reading.Ends tokens ↔ ∃ q, reading.Gives tokens q := by
  simp only [Ends, Gives, Option.isSome_iff_exists]
  grind

theorem gives_cons {reading : Reading} {t : Token} {rest : List Token} {q : Query} :
    reading.Gives (t :: rest) q ↔ ∃ next, reading.next? t = some next ∧ next.Gives rest q := by
  simp only [Gives, after?, Option.bind_eq_some_iff]
  grind

theorem gives_append {reading : Reading} {a b : List Token} {q : Query} :
    reading.Gives (a ++ b) q ↔ ∃ next, reading.after? a = some next ∧ next.Gives b q := by
  simp only [Gives, after?_append, Option.bind_eq_some_iff]
  grind

theorem gives_iff_readOn (reading : Reading) (position : Nat) (tokens : List Token) (q : Query) :
    reading.Gives tokens q ↔ ∃ n, reading.readOn position tokens = .ok (q, n) := by
  induction tokens generalizing reading position with
  | nil => cases hq : reading.query? <;> simp [readOn, Gives, after?, hq]
  | cons t rest ih =>
    rw [gives_cons]
    cases hn : reading.next? t with
    | none => simp [readOn, hn]
    | some next => simpa [readOn, hn] using ih next (position + 1)

theorem ends_cons {reading : Reading} {t : Token} {rest : List Token} :
    reading.Ends (t :: rest) ↔ ∃ next, reading.next? t = some next ∧ next.Ends rest := by
  simp only [Ends, after?, Option.bind_eq_some_iff]
  grind

theorem ends_append {reading next : Reading} {a b : List Token} (h : reading.after? a = some next) :
    reading.Ends (a ++ b) ↔ next.Ends b := by
  simp [Ends, after?_append, h]

/-- A token of this kind can come next, and at the end mark the query can end. -/
def admits (reading : Reading) (kind : Kind) : Bool :=
  if kind = .finish then reading.query?.isSome else (reading.next? (.mark kind)).isSome

theorem isSome_next?_mark (reading : Reading) (t : Token) :
    (reading.next? (.mark t.kind)).isSome = (reading.next? t).isSome := by
  obtain ⟨kind, text⟩ := t
  cases reading with
  | column | selectTable | insertTable | deleteTable | term | rowValue | literal =>
    cases kind <;> rfl
  | _ => rfl

theorem admits_of_mem_expected {reading : Reading} {kind : Kind} (h : kind ∈ reading.expected) :
    reading.admits kind = true := by
  cases reading with
  | termEnd head nest last =>
    simp only [expected] at h
    cases ho : nest.outer with
    | nil =>
      simp only [Nest.isTop, ho, List.isEmpty_nil, ↓reduceIte, List.mem_cons, List.not_mem_nil,
        or_false] at h
      rcases h with rfl | rfl | rfl
      · rfl
      · rfl
      · simp [admits, query?, Nest.isTop, ho]
    | cons chain outer =>
      simp only [Nest.isTop, ho, List.isEmpty_cons, Bool.false_eq_true, ↓reduceIte,
        List.mem_singleton] at h
      subst h
      simp [admits, next?, Token.mark, Kind.junction?, Nest.leave?, ho]
  | comparison head nest name =>
    obtain ⟨c, -, rfl⟩ := List.mem_map.mp h
    rfl
  | _ =>
    simp only [expected, List.mem_cons, List.not_mem_nil, or_false] at h
    repeat' rcases h with rfl | h
    all_goals rfl

theorem expected_ne_nil (reading : Reading) : reading.expected ≠ [] := by
  cases reading with
  | termEnd head nest last =>
    simp only [expected]
    split <;> simp
  | _ => simp [expected, Comparison.all]

/-- So many tokens are enough to end with a query. -/
def missing : Reading → Nat
  | .statement | .column _ | .row _ _ => 3
  | .columnEnd _ | .deleteFrom | .rowValue _ _ _ => 2
  | .selectTable _ | .deleteTable | .rowValueEnd _ _ _ => 1
  | .clause _ | .rowEnd _ _ => 0
  | .insertInto => 6
  | .insertTable => 5
  | .insertValues _ => 4
  | .term _ nest => nest.outer.length + 3
  | .comparison _ nest _ => nest.outer.length + 2
  | .literal _ nest _ _ => nest.outer.length + 1
  | .termEnd _ nest _ => nest.outer.length

theorem query?_or_next? (reading : Reading) : reading.query?.isSome = true ∨
    ∃ t next, reading.next? t = some next ∧ next.missing < reading.missing := by
  cases reading with
  | clause | rowEnd => exact .inl rfl
  | termEnd head nest last =>
    cases ho : nest.outer with
    | nil => exact .inl (by simp [query?, Nest.isTop, ho])
    | cons chain outer =>
      refine .inr ⟨.mark .closeParen, .termEnd head
        ⟨chain, outer, nest.depth - 1, nest.links - nest.chain.length⟩ (nest.chain.close last),
        ?_, ?_⟩
      · simp [next?, Token.mark, Kind.junction?, nest.leave?_close last ho]
      · simp [missing, ho]
  | term | column | selectTable | insertTable | deleteTable =>
    exact .inr ⟨.named "", _, rfl, Nat.lt_succ_self _⟩
  | literal | rowValue => exact .inr ⟨(Value.string "").token, _, rfl, Nat.lt_succ_self _⟩
  | comparison => exact .inr ⟨.mark (.comparison .equal), _, rfl, Nat.lt_succ_self _⟩
  | statement => exact .inr ⟨.mark (.keyword .delete), _, rfl, Nat.lt_succ_self _⟩
  | columnEnd | deleteFrom => exact .inr ⟨.mark (.keyword .«from»), _, rfl, Nat.lt_succ_self _⟩
  | insertInto => exact .inr ⟨.mark (.keyword .into), _, rfl, Nat.lt_succ_self _⟩
  | insertValues => exact .inr ⟨.mark (.keyword .values), _, rfl, Nat.lt_succ_self _⟩
  | row => exact .inr ⟨.mark .openParen, _, rfl, Nat.lt_succ_self _⟩
  | rowValueEnd => exact .inr ⟨.mark .closeParen, _, rfl, Nat.lt_succ_self _⟩

theorem exists_ends (reading : Reading) : ∃ rest, reading.Ends rest := by
  induction hn : reading.missing using Nat.strongRecOn generalizing reading with
  | ind n ih =>
    rcases reading.query?_or_next? with hq | ⟨t, next, ht, hlt⟩
    · exact ⟨[], reading, rfl, hq⟩
    · obtain ⟨rest, hr⟩ := ih next.missing (hn ▸ hlt) next rfl
      exact ⟨t :: rest, ends_cons.mpr ⟨next, ht, hr⟩⟩

theorem limit?_ne_unexpected (reading : Reading) (kind : Kind) :
    reading.limit? kind ≠ some .unexpected := by
  unfold limit?
  split
  · split <;> simp
  · split <;> simp
  · simp

/-- A reading is refused where the next token, or the end, is one that it does not admit. -/
theorem run_unexpected {reading : Reading} {position : Nat} {tokens : List Token}
    (hf : ∀ t ∈ tokens, t.kind ≠ .finish) {expected : List Kind} {found : Kind} {stop : Nat}
    (h : reading.run position tokens = .error (.unexpected expected found stop)) :
    ∃ n last, stop = position + n ∧ n ≤ tokens.length ∧
      reading.after? (tokens.take n) = some last ∧ last.expected = expected ∧
      tokens[n]?.elim .finish Token.kind = found ∧ last.admits found = false := by
  induction tokens generalizing reading position with
  | nil =>
    rw [run] at h
    split at h
    · cases h
    · rename_i hq
      simp only [error, Except.error.injEq, ParseError.unexpected.injEq] at h
      obtain ⟨rfl, rfl, rfl⟩ := h
      exact ⟨0, reading, rfl, Nat.le_refl _, rfl, rfl, rfl, by simp [admits, hq]⟩
  | cons t rest ih =>
    obtain ⟨ht, hrest⟩ := List.forall_mem_cons.mp hf
    rw [run, step_eq] at h
    cases hn : reading.next? t with
    | none =>
      simp only [hn, error, Except.error.injEq, ParseError.unexpected.injEq] at h
      obtain ⟨rfl, rfl, rfl⟩ := h
      refine ⟨0, reading, rfl, Nat.zero_le _, rfl, rfl, rfl, ?_⟩
      rw [admits, if_neg ht, isSome_next?_mark, hn]
      rfl
    | some next =>
      cases hl : reading.limit? t.kind with
      | some refusal =>
        simp only [hn, hl, error, Except.error.injEq] at h
        cases refusal with
        | unexpected => exact absurd hl (reading.limit?_ne_unexpected t.kind)
        | nestingTooDeep | chainTooLong => cases h
      | none =>
        simp only [hn, hl] at h
        obtain ⟨n, last, rfl, hle, ha, he, hk, hadmits⟩ := ih hrest h
        refine ⟨n + 1, last, by omega, Nat.succ_le_succ hle, ?_, he, hk, hadmits⟩
        simp only [List.take_succ_cons, after?, hn, Option.bind_some, ha]

theorem kind_of_next? {reading next : Reading} {t : Token} (h : reading.next? t = some next) :
    t.kind ≠ .blank ∧ t.kind ≠ .finish := by
  constructor
  · intro hk
    cases reading <;> simp [next?, step, hk, Token.value?, Kind.comparison?, Kind.junction?,
      Except.toOption] at h
  · intro hk
    rw [reading.next?_finish hk] at h
    cases h

theorem kinds_of_ends {reading : Reading} {tokens : List Token} (h : reading.Ends tokens) :
    ∀ t ∈ tokens, t.kind ≠ .blank ∧ t.kind ≠ .finish := by
  induction tokens generalizing reading with
  | nil => simp
  | cons t rest ih =>
    obtain ⟨next, hn, hr⟩ := ends_cons.mp h
    exact List.forall_mem_cons.mpr ⟨kind_of_next? hn, ih hr⟩

end Reading

/-- The tokens are a query by the grammar alone, within the limits or beyond them. -/
def Sentence (tokens : List Token) : Prop := ∃ s : Statement, s.Spells tokens

/-- What is read without limits is what derivations stand for. -/
theorem gives_iff_spells {tokens : List Token} {q : Query} :
    Reading.statement.Gives tokens q ↔ ∃ s : Statement, s.Spells tokens ∧ s.query = q := by
  rw [Reading.gives_iff_readOn _ 0]
  constructor
  · intro h
    have hk := Reading.kinds_of_ends
      (Reading.ends_iff_gives.mpr ⟨q, (Reading.gives_iff_readOn _ 0 tokens q).mpr h⟩)
    obtain ⟨stop, h⟩ := h
    have hq : Descent.query tokens = .ok q := by
      rw [Descent.query, Descent.statement_start, significant_eq_self hk, h]
      rfl
    obtain ⟨s, hs, hq⟩ := (Descent.query_eq_ok_iff tokens q).mp hq
    exact ⟨s, by rwa [significant_eq_self hk] at hs, hq⟩
  · intro h
    obtain ⟨s, hs, rfl⟩ := h
    exact ⟨s.tokens.length, by rw [← Reading.readOn_bare, hs, s.readOn_tokens]⟩

theorem sentence_iff_ends {tokens : List Token} :
    Sentence tokens ↔ Reading.statement.Ends tokens := by
  simp only [Sentence, Reading.ends_iff_gives, gives_iff_spells]
  constructor
  · intro h
    obtain ⟨s, hs⟩ := h
    exact ⟨s.query, s, hs, rfl⟩
  · intro h
    obtain ⟨q, s, hs, -⟩ := h
    exact ⟨s, hs⟩

/-- Some query begins with `before` and then `t`. Nothing comes behind an end mark, so if `t` is one
of these, `before` is the query. -/
def Continues (before : List Token) (t : Token) : Prop :=
  if t.kind = .finish then Sentence before else ∃ rest, Sentence (before ++ t :: rest)

theorem continues_iff_admits {before : List Token} {last : Reading}
    (h : Reading.statement.after? before = some last) (t : Token) :
    Continues before t ↔ last.admits t.kind = true := by
  unfold Continues Reading.admits
  split
  · have hb := Reading.ends_append (b := []) h
    rw [List.append_nil] at hb
    rw [sentence_iff_ends, hb]
    simp [Reading.Ends, Reading.after?]
  · simp only [sentence_iff_ends, Reading.ends_append h, Reading.ends_cons,
      Reading.isSome_next?_mark, Option.isSome_iff_exists]
    constructor
    · intro hr
      obtain ⟨_, next, hn, _⟩ := hr
      exact ⟨next, hn⟩
    · intro hn
      obtain ⟨next, hn⟩ := hn
      obtain ⟨rest, hr⟩ := next.exists_ends
      exact ⟨rest, next, hn, hr⟩

/-- A syntax error stands at the first token that no query goes on with, or at the end where the
query cannot end, and each kind it asks for leads to a query. -/
theorem unexpected_at_first_hopeless {tokens : List Token} {expected : List Kind} {found : Kind}
    {position : Nat}
    (h : Query.ofTokens tokens = .error (.unexpected expected found position)) :
    position ≤ (significant tokens).length ∧
    found = (significant tokens)[position]?.elim .finish Token.kind ∧
    expected ≠ [] ∧ found ∉ expected ∧
    (∀ t : Token, t.kind ∈ expected → Continues ((significant tokens).take position) t) ∧
    ∀ t : Token, t.kind = found → ¬ Continues ((significant tokens).take position) t := by
  have hf : ∀ t ∈ significant tokens, t.kind ≠ .finish := by
    intro t ht
    simpa using List.mem_takeWhile_imp ht
  obtain ⟨n, last, hs, hn, ha, rfl, rfl, hadmits⟩ := Reading.run_unexpected hf h
  obtain rfl : position = n := by omega
  refine ⟨hn, rfl, last.expected_ne_nil, ?_, ?_, ?_⟩
  · intro hm
    rw [Reading.admits_of_mem_expected hm] at hadmits
    cases hadmits
  · intro t ht
    exact (continues_iff_admits ha t).mpr (Reading.admits_of_mem_expected ht)
  · intro t ht hc
    rw [continues_iff_admits ha, ht, hadmits] at hc
    cases hc

def unclosed : List Token :=
  [.mark (.keyword .delete), .mark (.keyword .«from»), .named "t", .mark (.keyword .«where»),
    .mark .openParen, .named "a", .mark (.comparison .equal), (Value.integer "1").token]

theorem unexpected_in_unclosed :
    Query.ofTokens (unclosed ++ [.mark .comma]) = .error (.unexpected [.closeParen] .comma 8) ∧
      Continues unclosed (.mark .closeParen) ∧ ¬ Continues unclosed (.mark .comma) := by
  have h : Query.ofTokens (unclosed ++ [.mark .comma]) =
      .error (.unexpected [.closeParen] .comma 8) := by rfl
  obtain ⟨-, -, -, -, hgoes, hstops⟩ := unexpected_at_first_hopeless h
  exact ⟨h, hgoes (.mark .closeParen) (by decide), hstops (.mark .comma) rfl⟩

end SmallSql
