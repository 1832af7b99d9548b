import SmallSql.Proofs.Descent
import SmallSql.Proofs.Levels

namespace SmallSql

theorem Reading.next?_finish (reading : Reading) {t : Token} (h : t.kind = .finish) :
    reading.next? t = none := by
  cases reading <;> simp [next?, step, h, Token.value?, Kind.comparison?, Kind.junction?,
    Except.toOption]

namespace Nest

/-- The chain that is being read, taken for one term. -/
def settled (nest : Nest) : Nest := ⟨[], nest.outer, nest.depth, nest.links - nest.chain.length⟩

theorem leave?_settled (nest : Nest) (last : Condition) :
    nest.settled.leave? (nest.chain.close last) = nest.leave? last := by
  cases ho : nest.outer <;> simp [leave?, settled, ho, Chain.close]

theorem settled_link (nest : Nest) (last : Condition) (j : Junction) :
    (nest.link last j).settled = nest.settled := by
  simp [settled, link]

end Nest

namespace Descent

variable {α : Type} {c : Cursor} {reading : Reading}

namespace Cursor

/-- Goes on with a reading up to the first end mark. -/
def resume (c : Cursor) (reading : Reading) : Except ParseError (Query × Nat) :=
  reading.readOn c.position (c.tokens.takeWhile (·.kind != .finish))

theorem resume_next {d : Cursor} {t : Token} (next : Reading) (ht : c.tokens = t :: d.tokens)
    (hp : d.position = c.position + 1) (hn : reading.next? t = some next) :
    c.resume reading = d.resume next := by
  have hk : t.kind ≠ .finish := by
    intro h
    rw [reading.next?_finish h] at hn
    cases hn
  simp only [resume, ht, hp]
  rw [List.takeWhile_cons_of_pos (by simpa using hk), Reading.readOn_cons next hn]

theorem resume_refused (hn : ∀ t ∈ c.tokens.head?, reading.next? t = none)
    (hq : c.kind = .finish → reading.query? = none) :
    c.resume reading = .error (c.unexpected reading.expected) := by
  obtain ⟨position, tokens⟩ := c
  cases tokens with
  | nil => simp [resume, Reading.readOn, hq rfl, unexpected, kind]
  | cons t rest =>
    by_cases hk : t.kind = .finish
    · simp [resume, Reading.readOn, hq hk, unexpected, kind, hk]
    · simp [resume, Reading.readOn, hn t (by simp), unexpected, kind, hk]

theorem resume_take {f : Token → Option α} (next : α → Reading)
    (hn : ∀ t ∈ c.tokens.head?, reading.next? t = (f t).map next) (hq : reading.query? = none) :
    c.resume reading = take reading.expected f c >>= fun r => r.next.resume (next r.value) := by
  unfold take
  cases h : take? f c with
  | none =>
    apply resume_refused ?_ fun _ => hq
    intro t ht
    rw [hn t ht, take?_none h t ht, Option.map_none]
  | some r =>
    obtain ⟨t, hf, ht, hp⟩ := take?_some h
    exact resume_next _ ht hp (by rw [hn t (by simp [ht]), hf, Option.map_some])

theorem resume_listed {item : (c : Cursor) → Except ParseError (Read c α)}
    (opened closed : List α → Reading)
    (hitem : ∀ xs c, c.resume (opened xs) =
      item c >>= fun r => r.next.resume (closed (r.value :: xs)))
    (hcomma : ∀ xs t, t.kind = .comma → (closed xs).next? t = some (opened xs))
    (c : Cursor) (xs : List α) :
    c.resume (opened xs) =
      listed item c >>= fun r => r.next.resume (closed (r.value.reverse ++ xs)) := by
  induction c using listed.induct generalizing xs with
  | case1 c ih =>
    rw [listed, hitem xs c, bind_assoc]
    congr 1
    funext first
    cases h : take? (Token.ofKind? .comma) first.next with
    | none => rfl
    | some comma =>
      obtain ⟨t, hf, ht, hp⟩ := take?_some h
      simp only [bind_assoc, pure_bind]
      rw [resume_next _ ht hp (hcomma _ t (kind_of_ofKind hf)), ih first comma]
      simp [Read.upTo]

/-- A settled nest differs from the nest itself only in what a junction would do. -/
theorem resume_settled (hc : ∀ t ∈ c.tokens.head?, t.kind.junction? = none) (head : Head)
    (nest : Nest) (last : Condition) :
    c.resume (.termEnd head nest last) =
      c.resume (.termEnd head nest.settled (nest.chain.close last)) := by
  obtain ⟨position, tokens⟩ := c
  simp only [resume]
  cases tokens with
  | nil => rfl
  | cons t rest =>
    by_cases hk : t.kind = .finish
    · simp only [hk, bne_self_eq_false, Bool.false_eq_true, not_false_eq_true,
        List.takeWhile_cons_of_neg]
      rfl
    · rw [List.takeWhile_cons_of_pos (by simpa using hk)]
      simp only [Reading.readOn, Reading.next?, hc t (by simp), Nest.leave?_settled]
      rfl

end Cursor

/-- No junction stands behind a whole condition: it would have been read on. -/
theorem condition_next (c : Cursor) (r : Read c Condition) (h : condition c = .ok r) :
    ∀ t ∈ r.next.tokens.head?, t.kind.junction? = none := by
  -- Of the two rules only that for a chain is asked about, so nothing is claimed of terms.
  revert r
  refine condition.induct
    (fun c => ∀ r, condition c = .ok r → ∀ t ∈ r.next.tokens.head?, t.kind.junction? = none)
    (fun _ => True) ?_ (fun _ _ _ _ => trivial) (fun _ _ _ _ => trivial) (fun _ _ _ => trivial) c
  intro c _ ih r h
  rw [condition] at h
  obtain ⟨left, _, h⟩ := bind_eq_ok h
  split at h
  · rename_i hj
    cases h
    exact take?_none hj
  · rename_i link _
    obtain ⟨right, hr, h⟩ := bind_eq_ok h
    cases h
    exact ih left link right hr

namespace Cursor

theorem resume_condition_and_term :
    (∀ (c : Cursor) (head : Head) (nest : Nest), c.resume (.term head nest) =
      condition c >>= fun r =>
        r.next.resume (.termEnd head nest.settled (nest.chain.close r.value))) ∧
    (∀ (c : Cursor) (head : Head) (nest : Nest), c.resume (.term head nest) =
      term c >>= fun r => r.next.resume (.termEnd head nest r.value)) := by
  -- The cases are the ways through the two rules. The rule has joined the chain that the reading
  -- still holds term by term, and in the settled nest the difference is gone.
  apply condition.mutual_induct
  case case1 =>
    intro c hterm hrest head nest
    rw [condition, hterm, bind_assoc]
    congr 1
    funext left
    cases h : take? (·.kind.junction?) left.next with
    | none => exact resume_settled (take?_none h) head nest left.value
    | some link =>
      obtain ⟨t, hf, ht, hp⟩ := take?_some h
      simp only [bind_assoc, pure_bind]
      rw [resume_next (.term head (nest.link left.value link.value)) ht hp
        (by simp [Reading.next?, hf]), hrest left link, Nest.settled_link]
      rfl
  case case2 =>
    intro c opening ho hinner head nest
    obtain ⟨t, hf, ht, hp⟩ := take?_some ho
    rw [term, ho, resume_next (.term head nest.enter) ht hp
      (by simp [Reading.next?, kind_of_ofKind hf]), hinner]
    simp only [bind_assoc, pure_bind]
    apply bind_congr_ok
    intro inner hi
    apply resume_take (fun _ => .termEnd head nest inner.value) ?_ rfl
    intro t ht
    simp only [Reading.next?, condition_next _ inner hi t ht, Token.ofKind?]
    split <;> rfl
  case case3 =>
    intro c ho column hn head nest
    obtain ⟨t, hf, ht, hp⟩ := take?_some hn
    rw [term, ho, hn]
    obtain ⟨hk, hcontent⟩ := kind_of_name? hf
    rw [resume_next (.comparison head nest column.value) ht hp
      (by simp [Reading.next?, hk, hcontent])]
    simp only [bind_assoc, pure_bind]
    rw [resume_take (.literal head nest column.value) (f := (·.kind.comparison?))
      (fun t _ => by simp only [Reading.next?, Reading.step]; split <;> simp_all [Except.toOption])
      rfl]
    simp only [comparison]
    congr 1
    funext operator
    exact resume_take (fun v => .termEnd head nest (.compare column.value operator.value v))
      (fun t _ => by simp only [Reading.next?, Reading.step]; split <;> simp_all [Except.toOption])
      rfl
  case case4 =>
    intro c ho hn head nest
    rw [term, ho, hn]
    apply resume_refused ?_ fun _ => rfl
    intro t ht
    have ho := take?_none ho t ht
    have hn := take?_none hn t ht
    simp only [Token.ofKind?, Token.name?] at ho hn
    simp only [Reading.next?]
    split <;> simp_all

theorem resume_expectEnd {q : Query} (alternatives : List Kind)
    (hn : ∀ t ∈ c.tokens.head?, reading.next? t = none) (hq : reading.query? = some q)
    (he : reading.expected = alternatives ++ [.finish]) :
    c.resume reading = expectEnd alternatives c >>= fun _ => pure (q, c.position) := by
  unfold expectEnd
  split
  · rename_i hk
    rw [resume, takeWhile_of_finish hk, Reading.readOn, hq]
    rfl
  · rename_i hk
    rw [resume_refused hn fun h => absurd h hk, he]
    rfl

theorem resume_clause (c : Cursor) (head : Head) : c.resume (.clause head) = clause head c := by
  unfold clause
  cases h : take? (Token.ofKind? (.keyword .«where»)) c with
  | none =>
    apply resume_expectEnd [.keyword .«where»] ?_ rfl rfl
    intro t ht
    have hw := take?_none h t ht
    simp only [Token.ofKind?] at hw
    simp only [Reading.next?, Reading.step]
    split <;> simp_all [Except.toOption]
  | some opening =>
    obtain ⟨t, hf, ht, hp⟩ := take?_some h
    rw [resume_next (.term head .empty) ht hp
      (by simp [Reading.next?, Reading.step, kind_of_ofKind hf, Except.toOption]),
      resume_condition_and_term.1]
    apply bind_congr_ok
    intro r hc
    apply resume_expectEnd [.keyword .and, .keyword .or] ?_ rfl rfl
    intro t ht
    simp [Reading.next?, condition_next _ r hc t ht, Nest.leave?, Nest.settled, Nest.empty]

end Cursor

theorem listed_next {item : (c : Cursor) → Except ParseError (Read c α)} {r : Read c (List α)}
    (h : listed item c = .ok r) : ∀ t ∈ r.next.tokens.head?, t.kind ≠ .comma := by
  induction c using listed.induct with
  | case1 c ih =>
    rw [listed] at h
    obtain ⟨first, _, h⟩ := bind_eq_ok h
    split at h
    · rename_i hc
      cases h
      intro t ht hk
      have := take?_none hc t ht
      simp [Token.ofKind?, hk] at this
    · rename_i comma _
      obtain ⟨others, ho, h⟩ := bind_eq_ok h
      cases h
      exact ih first comma ho

namespace Cursor

theorem resume_expect (kind : Kind) (next : Reading)
    (hn : ∀ t ∈ c.tokens.head?, reading.next? t = if t.kind = kind then some next else none)
    (hq : reading.query? = none) (he : reading.expected = [kind]) :
    c.resume reading = expect kind c >>= fun r => r.next.resume next := by
  rw [expect, ← he]
  apply resume_take (fun _ => next) ?_ hq
  intro t ht
  rw [hn t ht, Token.ofKind?]
  split <;> rfl

theorem resume_name (next : String → Reading)
    (hn : ∀ t, reading.next? t = if t.kind = .object then some (next t.content) else none)
    (hq : reading.query? = none) (he : reading.expected = [.object]) (c : Cursor) :
    c.resume reading = name c >>= fun r => r.next.resume (next r.value) := by
  rw [name, ← he]
  apply resume_take next ?_ hq
  intro t _
  rw [hn t, Token.name?]
  split <;> rfl

theorem resume_row (table : String) (rows : List (List Value)) (c : Cursor) :
    c.resume (.row table rows) =
      row c >>= fun r => r.next.resume (.rowEnd table (r.value :: rows)) := by
  have hvalue : ∀ values c, c.resume (.rowValue table rows values) =
      value c >>= fun r => r.next.resume (.rowValueEnd table rows (r.value :: values)) := by
    intro values c
    apply resume_take (fun v => .rowValueEnd table rows (v :: values)) ?_ rfl
    intro t _
    simp only [Reading.next?, Reading.step]
    cases t.value? <;> rfl
  rw [row, resume_expect .openParen (.rowValue table rows []) ?opening rfl rfl,
    bind_assoc]
  case opening =>
    intro t _
    simp only [Reading.next?, Reading.step]
    split <;> rfl
  congr 1
  funext opening
  rw [resume_listed (.rowValue table rows) (.rowValueEnd table rows) hvalue, bind_assoc]
  · apply bind_congr_ok
    intro values hl
    rw [resume_expect .closeParen
      (.rowEnd table ((values.value.reverse ++ []).reverse :: rows)) ?closing rfl rfl,
      bind_assoc]
    · simp [Read.upTo]
    · intro t ht
      have hc := listed_next hl t ht
      simp only [Reading.next?, Reading.step]
      split <;> simp_all [Except.toOption]
  · intro values t ht
    simp [Reading.next?, Reading.step, ht, Except.toOption]

theorem resume_select (c : Cursor) : c.resume (.column []) = (do
    let columns ← listed name c
    let «from» ← expect (.keyword .«from») columns.next
    let table ← name «from».next
    clause (.select columns.value table.value) table.next) := by
  rw [resume_listed .column .columnEnd
    (fun columns => resume_name (fun name => .columnEnd (name :: columns))
      (fun t => by simp only [Reading.next?, Reading.step]; split <;> rfl) rfl rfl)]
  · apply bind_congr_ok
    intro columns hl
    rw [resume_expect (.keyword .«from»)
      (.selectTable (columns.value.reverse ++ [])) ?ended rfl rfl]
    · congr 1
      funext «from»
      rw [resume_name (fun name => .clause (.select columns.value name)) ?table rfl rfl]
      · simp only [resume_clause]
      · intro t
        simp only [Reading.next?, Reading.step, List.append_nil, List.reverse_reverse]
        split <;> rfl
    · intro t ht
      have hc := listed_next hl t ht
      simp only [Reading.next?, Reading.step]
      split <;> simp_all [Except.toOption]
  · intro columns t ht
    simp [Reading.next?, Reading.step, ht, Except.toOption]

theorem resume_insert (c : Cursor) : c.resume .insertInto = (do
    let into ← expect (.keyword .into) c
    let table ← name into.next
    let values ← expect (.keyword .values) table.next
    let rows ← listed row values.next
    expectEnd [.comma] rows.next
    return (.insert ⟨table.value, rows.value⟩, rows.next.position)) := by
  rw [resume_expect (.keyword .into) .insertTable
    (fun t _ => by simp only [Reading.next?, Reading.step]; split <;> rfl) rfl rfl]
  congr 1
  funext into
  rw [resume_name .insertValues
    (fun t => by simp only [Reading.next?, Reading.step]; split <;> rfl) rfl rfl]
  congr 1
  funext table
  rw [resume_expect (.keyword .values) (.row table.value [])
    (fun t _ => by simp only [Reading.next?, Reading.step]; split <;> rfl) rfl rfl]
  congr 1
  funext values
  rw [resume_listed (.row table.value) (.rowEnd table.value) (resume_row table.value)]
  · apply bind_congr_ok
    intro rows hl
    rw [resume_expectEnd (q := .insert ⟨table.value, rows.value⟩) [.comma]
      ?comma (by simp [Reading.query?]) rfl]
    intro t ht
    have hc := listed_next hl t ht
    simp [Reading.next?, Reading.step, hc, Except.toOption]
  · intro rows t ht
    simp [Reading.next?, Reading.step, ht, Except.toOption]

theorem resume_delete (c : Cursor) : c.resume .deleteFrom = (do
    let «from» ← expect (.keyword .«from») c
    let table ← name «from».next
    clause (.delete table.value) table.next) := by
  rw [resume_expect (.keyword .«from») .deleteTable
    (fun t _ => by simp only [Reading.next?, Reading.step]; split <;> rfl) rfl rfl]
  congr 1
  funext «from»
  rw [resume_name (fun name => .clause (.delete name))
    (fun t => by simp only [Reading.next?, Reading.step]; split <;> rfl) rfl rfl]
  simp only [resume_clause]

theorem resume_keyword {k : Keyword} (next : Reading) (hk : c.kind = .keyword k)
    (hn : ∀ t, t.kind = .keyword k → reading.next? t = some next) :
    c.resume reading = expect (.keyword k) c >>= fun r => r.next.resume next := by
  obtain ⟨position, tokens⟩ := c
  cases tokens with
  | nil => cases hk
  | cons t rest =>
    have ht : t.kind = .keyword k := hk
    rw [resume_next (d := ⟨position + 1, rest⟩) next rfl rfl (hn t ht)]
    simp only [expect, take, take?, Token.ofKind?, ht, ↓reduceIte]
    rfl

theorem resume_statement (c : Cursor) : c.resume .statement = statement c := by
  unfold statement
  split
  · rename_i hk
    rw [resume_keyword (.column []) hk
      (fun t ht => by simp [Reading.next?, Reading.step, ht, Except.toOption])]
    simp only [resume_select]
  · rename_i hk
    rw [resume_keyword .insertInto hk
      (fun t ht => by simp [Reading.next?, Reading.step, ht, Except.toOption])]
    simp only [resume_insert]
  · rename_i hk
    rw [resume_keyword .deleteFrom hk
      (fun t ht => by simp [Reading.next?, Reading.step, ht, Except.toOption])]
    simp only [resume_delete]
  · rename_i hs hi hd
    apply resume_refused ?_ fun _ => rfl
    intro t ht
    rw [kind_eq_of_head ht] at hs hi hd
    simp only [Reading.next?, Reading.step]
    rfl

end Cursor

end Descent

theorem Descent.statement_start (tokens : List Token) :
    statement (start tokens) = Reading.statement.readOn 0 (significant tokens) :=
  (Cursor.resume_statement (start tokens)).symm

theorem Reading.Counted.statement : Reading.statement.Counted := by
  intro nest h
  cases h

variable {tokens : List Token}

theorem ofTokens_eq_descent
    (h : ∀ i < Descent.taken tokens, Levels.exceeded? [] (significant tokens) i = none) :
    Query.ofTokens tokens = Descent.query tokens := by
  simp only [Descent.taken, Descent.query, Descent.statement_start] at h ⊢
  exact Reading.run_eq_readOn .statement 0 _ fun i hi => h i (by omega)

theorem ofTokens_eq_error {p : Nat} {refusal : Refusal} (hp : p < Descent.taken tokens)
    (hr : Levels.exceeded? [] (significant tokens) p = some refusal)
    (hmin : ∀ i < p, Levels.exceeded? [] (significant tokens) i = none) :
    ∃ (last : Reading) (found : Kind),
      Query.ofTokens tokens = .error (last.error refusal found p) := by
  simp only [Descent.taken, Descent.statement_start] at hp
  obtain ⟨last, found, he⟩ := Reading.run_eq_error .statement 0 _ (by omega) hr hmin
  exact ⟨last, found, by rwa [Nat.zero_add] at he⟩

/-- The token that decides is the first of those the rules take to go over a limit, and the error
is found there. -/
theorem ofTokens_refines_descent (tokens : List Token) :
    ((∀ i < Descent.taken tokens, Levels.exceeded? [] (significant tokens) i = none) →
      Query.ofTokens tokens = Descent.query tokens) ∧
    ∀ p < Descent.taken tokens, (∀ i < p, Levels.exceeded? [] (significant tokens) i = none) →
      (Levels.exceeded? [] (significant tokens) p = some .nestingTooDeep →
        Query.ofTokens tokens = .error (.nestingTooDeep Nest.maxDepth p)) ∧
      (Levels.exceeded? [] (significant tokens) p = some .chainTooLong →
        Query.ofTokens tokens = .error (.chainTooLong Nest.maxLinks p)) := by
  refine ⟨ofTokens_eq_descent, fun p hp hmin => ⟨fun hr => ?_, fun hr => ?_⟩⟩
  · obtain ⟨_, _, he⟩ := ofTokens_eq_error hp hr hmin
    exact he
  · obtain ⟨_, _, he⟩ := ofTokens_eq_error hp hr hmin
    exact he

end SmallSql
