import SmallSql.Proofs.Grammar

namespace SmallSql

def ParseError.position : ParseError → Nat
  | .unexpected _ _ position | .nestingTooDeep _ position | .chainTooLong _ position => position

namespace Kind

theorem junction?_eq_some {kind : Kind} {j : Junction} :
    kind.junction? = some j ↔ kind = .keyword j.keyword := by
  unfold junction?
  split <;> cases j <;> simp_all [Junction.keyword]

@[simp] theorem junction?_keyword (j : Junction) : junction? (.keyword j.keyword) = some j :=
  junction?_eq_some.mpr rfl

theorem comparison?_eq_some {kind : Kind} {c : Comparison} :
    kind.comparison? = some c ↔ kind = .comparison c := by
  unfold comparison?
  split <;> simp_all

end Kind

namespace Reading

/-- The limit that a token of this kind runs into. -/
def limit? (reading : Reading) (kind : Kind) : Option Refusal :=
  match reading with
  | .term _ nest =>
    if kind = .openParen ∧ nest.depth = Nest.maxDepth then some .nestingTooDeep else none
  | .termEnd _ nest _ =>
    if kind.junction?.isSome ∧ nest.links = Nest.maxLinks then some .chainTooLong else none
  | _ => none

/-- The reading after one more token, however deep the nesting and however long the chain. -/
def next? (reading : Reading) (t : Token) : Option Reading :=
  match reading with
  | .term head nest =>
    match t.kind with
    | .openParen => some (.term head nest.enter)
    | .object => some (.comparison head nest t.content)
    | _ => none
  | .termEnd head nest last =>
    match t.kind.junction? with
    | some j => some (.term head (nest.link last j))
    | none =>
      if t.kind = .closeParen then
        (nest.leave? last).map fun (group, around) => .termEnd head around group
      else none
  | reading => (reading.step t).toOption

theorem step_eq (reading : Reading) (t : Token) :
    reading.step t = match reading.next? t with
      | none => .error .unexpected
      | some next => match reading.limit? t.kind with
        | some refusal => .error refusal
        | none => .ok next := by
  cases reading with
  | term head nest =>
    simp only [step, next?, limit?]
    split <;> simp_all
    split <;> rfl
  | termEnd head nest last =>
    simp only [step, next?, limit?, afterTerm]
    cases hj : t.kind.junction? with
    | some j => simp only [Option.isSome_some, true_and]; split <;> rfl
    | none =>
      simp only [Option.isSome_none, Bool.false_eq_true, false_and, ↓reduceIte]
      split
      · cases nest.leave? last <;> rfl
      · rfl
  | _ =>
    simp only [step, next?, limit?]
    repeat' split
    all_goals first | rfl | simp_all [Except.toOption]

/-- Goes on with `tokens`, the first of which stands at `position`. A query comes with the position
behind its last token. -/
def readOn (reading : Reading) (position : Nat) : List Token → Except ParseError (Query × Nat)
  | [] =>
    match reading.query? with
    | some q => .ok (q, position)
    | none => .error (.unexpected reading.expected .finish position)
  | t :: rest =>
    match reading.next? t with
    | some next => next.readOn (position + 1) rest
    | none => .error (.unexpected reading.expected t.kind position)

def stop : Except ParseError (Query × Nat) → Nat
  | .ok (_, position) => position
  | .error cause => cause.position

theorem readOn_cons {reading : Reading} (next : Reading) {t : Token}
    (h : reading.next? t = some next) (position : Nat) (rest : List Token) :
    reading.readOn position (t :: rest) = next.readOn (position + 1) rest := by
  simp [readOn, h]

end Reading

namespace Token

@[simp] theorem bare_kind (t : Token) : t.bare.kind = t.kind := rfl

theorem bare_content {t : Token} (h : t.kind.showsText = true) : t.bare.content = t.content := by
  simp [bare, content, h]

theorem bare_eq_mark {t : Token} (h : t.kind.spelling.isSome = true) : t.bare = .mark t.kind := by
  obtain ⟨kind, text⟩ := t
  cases kind <;> first | rfl | cases h

theorem bare_of_value? {t : Token} {v : Value} (h : t.value? = some v) : t.bare = v.token := by
  unfold value? at h
  split at h
  · rename_i hk
    cases h
    simp [Token.bare, Value.token, hk, Kind.showsText]
  · rename_i hk
    cases h
    simp [Token.bare, Value.token, hk, Kind.showsText]
  · cases h

@[simp] theorem bare_value? (t : Token) : t.bare.value? = t.value? := by
  cases hk : t.kind <;> simp [value?, hk, bare_content, Kind.showsText]

end Token

namespace Reading

@[simp] theorem next?_bare (reading : Reading) (t : Token) :
    reading.next? t.bare = reading.next? t := by
  have ho : t.kind = .object → t.bare.content = t.content := by
    intro h
    exact Token.bare_content (by rw [h]; rfl)
  cases reading with
  | term head nest =>
    simp only [next?, Token.bare_kind]
    split <;> simp_all
  | termEnd => rfl
  | column | selectTable | insertTable | deleteTable =>
    simp only [next?, step, Token.bare_kind]
    split <;> simp_all
  | rowValue | literal => simp only [next?, step, Token.bare_value?]
  | _ => rfl

theorem readOn_bare (reading : Reading) (position : Nat) (tokens : List Token) :
    reading.readOn position (tokens.map Token.bare) = reading.readOn position tokens := by
  induction tokens generalizing reading position with
  | nil => rfl
  | cons t rest ih => simp only [List.map_cons, readOn, next?_bare, Token.bare_kind, ih]

end Reading

theorem Nest.leave?_close (nest : Nest) (last : Condition) {chain : Chain} {outer : List Chain}
    (ho : nest.outer = chain :: outer) : nest.leave? last =
      some (nest.chain.close last,
        ⟨chain, outer, nest.depth - 1, nest.links - nest.chain.length⟩) := by
  simp [leave?, ho]

theorem Value.value?_token (v : Value) : v.token.value? = some v := by
  cases v <;> rfl

namespace Phrase

variable {r : Rule}

/-- The nest and the last term behind a phrase that is read inside `nest`. -/
def into (nest : Nest) : {r : Rule} → Phrase r → Nest × Condition
  | _, .compare column c v => (nest, .compare column c v)
  | _, .group inner => (nest, inner.meaning)
  | _, .last term => (nest, term.meaning)
  | _, .link term j rest => rest.into (nest.link term.meaning j)

theorem into_term (nest : Nest) (term : Phrase .term) : term.into nest = (nest, term.meaning) := by
  cases term <;> rfl

theorem into_frame (nest : Nest) (p : Phrase r) :
    (p.into nest).1.outer = nest.outer ∧ (p.into nest).1.depth = nest.depth ∧
    (p.into nest).1.links = nest.links + p.links ∧
    (p.into nest).1.chain.length = nest.chain.length + p.links := by
  induction p generalizing nest with
  | link term j rest _ ih =>
    obtain ⟨ho, hd, hl, hc⟩ := ih (nest.link term.meaning j)
    refine ⟨ho, hd, ?_, ?_⟩
    · rw [into, hl]
      simp only [Nest.link, links]
      omega
    · rw [into, hc]
      simp only [Nest.link, links, List.length_cons]
      omega
  | _ => simp [into, links]

theorem close_into (nest : Nest) (p : Phrase r) :
    (p.into nest).1.chain.close (p.into nest).2 = nest.chain.close p.meaning := by
  induction p generalizing nest with
  | link term j rest _ ih => exact ih (nest.link term.meaning j)
  | _ => rfl

theorem leave?_into (nest : Nest) (inner : Phrase r) :
    (inner.into nest.enter).1.leave? (inner.into nest.enter).2 = some (inner.meaning, nest) := by
  obtain ⟨ho, hd, hl, hc⟩ := inner.into_frame nest.enter
  rw [Nest.leave?_close _ _ ho, close_into, hd, hl, hc]
  simp [Nest.enter, Chain.close]

theorem readOn_tokens (head : Head) (nest : Nest) (p : Phrase r) (position : Nat)
    (rest : List Token) :
    Reading.readOn (.term head nest) position (p.tokens ++ rest) =
      Reading.readOn (.termEnd head (p.into nest).1 (p.into nest).2)
        (position + p.tokens.length) rest := by
  induction p generalizing nest position rest with
  | compare column c v =>
    simp only [tokens, List.cons_append, List.nil_append]
    rw [Reading.readOn_cons (.comparison head nest column) rfl,
      Reading.readOn_cons (.literal head nest column c) rfl,
      Reading.readOn_cons (.termEnd head nest (.compare column c v))
        (by simp [Reading.next?, Reading.step, v.value?_token, Except.toOption])]
    rfl
  | group inner ih =>
    simp only [tokens, List.cons_append, List.append_assoc]
    rw [Reading.readOn_cons (.term head nest.enter) rfl, ih,
      List.nil_append, Reading.readOn_cons (.termEnd head nest inner.meaning)]
    · simp only [into, List.length_cons, List.length_append, List.length_nil]
      congr 1
      omega
    · simp [Reading.next?, Token.mark, Kind.junction?, leave?_into]
  | last term ih =>
    simp only [tokens, into]
    rw [ih, into_term]
  | link term j next iht ihn =>
    simp only [tokens, List.append_assoc, List.cons_append]
    rw [iht, into_term, Reading.readOn_cons (.term head (nest.link term.meaning j)), ihn]
    · simp only [into, List.length_append, List.length_cons]
      congr 1
      omega
    · simp [Reading.next?, Token.mark]

end Phrase

theorem readOn_listing {α β : Type} {spell : α → List Token} {f : α → β}
    (opened closed : List β → Reading)
    (hitem : ∀ x xs position rest, (opened xs).readOn position (spell x ++ rest) =
      (closed (f x :: xs)).readOn (position + (spell x).length) rest)
    (hcomma : ∀ xs, (closed xs).next? (.mark .comma) = some (opened xs))
    (items : Listing α) (xs : List β) (position : Nat) (rest : List Token) :
    (opened xs).readOn position (items.tokens spell ++ rest) =
      (closed ((items.toList.map f).reverse ++ xs)).readOn
        (position + (items.tokens spell).length) rest := by
  obtain ⟨first, others⟩ := items
  induction others generalizing first xs position with
  | nil => simp [Listing.tokens, Listing.toList, hitem]
  | cons second others ih =>
    have h := ih (f first :: xs) (position + (spell first).length + 1) second
    simp only [Listing.tokens, Listing.toList, List.flatMap_cons, List.cons_append,
      List.append_assoc, List.length_append, List.length_cons, List.map_cons,
      List.reverse_cons] at h ⊢
    rw [hitem, Reading.readOn_cons _ (hcomma _), h]
    simp only [List.nil_append]
    congr 1
    omega

theorem readOn_row (table : String) (row : Listing Value) (rows : List (List Value))
    (position : Nat) (rest : List Token) :
    Reading.readOn (.row table rows) position (Statement.rowTokens row ++ rest) =
      Reading.readOn (.rowEnd table (row.toList :: rows))
        (position + (Statement.rowTokens row).length) rest := by
  simp only [Statement.rowTokens, List.cons_append, List.append_assoc]
  rw [Reading.readOn_cons (.rowValue table rows []) rfl,
    readOn_listing (f := id) (.rowValue table rows) (.rowValueEnd table rows),
    List.nil_append, Reading.readOn_cons (.rowEnd table (row.toList :: rows))]
  · simp only [List.length_cons, List.length_append, List.length_nil]
    congr 1
    omega
  · simp [Reading.next?, Reading.step, Token.mark, Except.toOption]
  · intro v values position rest
    rw [List.singleton_append, Reading.readOn_cons]
    · rfl
    · simp [Reading.next?, Reading.step, v.value?_token, Except.toOption]
  · intro values
    rfl

namespace Statement

theorem readOn_clause (head : Head) (clause : Option (Phrase .chain)) (position : Nat) :
    Reading.readOn (.clause head) position (clauseTokens clause) =
      .ok (head.query (clause.map Phrase.meaning), position + (clauseTokens clause).length) := by
  cases clause with
  | none => rfl
  | some p =>
    have h := p.readOn_tokens head .empty (position + 1) []
    obtain ⟨ho, _⟩ := p.into_frame .empty
    rw [List.append_nil] at h
    simp only [clauseTokens]
    rw [Reading.readOn_cons (.term head .empty) rfl, h]
    simp only [Reading.readOn, Reading.query?, Nest.isTop, ho, Phrase.close_into]
    simp only [Nest.empty, List.isEmpty_nil, ↓reduceIte, Chain.close, List.foldl_nil,
      Option.map_some, List.length_cons]
    congr 2
    omega

/-- Every derivation is read as the query it stands for. -/
theorem readOn_tokens (s : Statement) :
    Reading.statement.readOn 0 s.tokens = .ok (s.query, s.tokens.length) := by
  cases s with
  | select columns table clause =>
    simp only [tokens]
    rw [Reading.readOn_cons (.column []) rfl,
      readOn_listing (f := id) .column .columnEnd, List.map_id,
      Reading.readOn_cons (.selectTable (columns.toList.reverse ++ [])) rfl,
      Reading.readOn_cons (.clause (.select columns.toList table)), readOn_clause]
    · simp only [query, Head.query, List.length_cons, List.length_append]
      congr 2
      omega
    · simp [Reading.next?, Reading.step, Token.named, Except.toOption, Token.content]
    · intro name names position rest
      rw [List.singleton_append, Reading.readOn_cons]
      · rfl
      · rfl
    · intro names
      rfl
  | insert table rows =>
    have h := readOn_listing (f := Listing.toList) (.row table) (.rowEnd table)
      (fun row rows => readOn_row table row rows)
      (fun _ => rfl) rows [] 4 []
    rw [List.append_nil, List.append_nil] at h
    simp only [tokens]
    rw [Reading.readOn_cons .insertInto rfl,
      Reading.readOn_cons .insertTable rfl,
      Reading.readOn_cons (.insertValues table) rfl,
      Reading.readOn_cons (.row table []) rfl, h]
    simp only [Reading.readOn, Reading.query?, query, List.length_cons, List.reverse_reverse]
    congr 2
    omega
  | delete table clause =>
    simp only [tokens]
    rw [Reading.readOn_cons .deleteFrom rfl,
      Reading.readOn_cons .deleteTable rfl,
      Reading.readOn_cons (.clause (.delete table)) rfl, readOn_clause]
    simp only [query, Head.query, List.length_cons]
    congr 2
    omega

end Statement

end SmallSql
