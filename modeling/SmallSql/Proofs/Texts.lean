import SmallSql.Proofs.Unlimited

namespace SmallSql

section
variable (f : String → String)

def Token.mapText (t : Token) : Token := ⟨t.kind, some (f t.content)⟩

def Value.mapText : Value → Value
  | .integer text => .integer (f text)
  | .string text => .string (f text)

def Operand.mapText : Operand → Operand
  | .object name => .object (f name)
  | .value v => .value (v.mapText f)

def Condition.mapText : Condition → Condition
  | .leaf operand => .leaf (operand.mapText f)
  | .node left op right => .node left.mapText op right.mapText

def Query.mapText : Query → Query
  | .select q => .select ⟨q.columns.map f, f q.table, q.condition.map (Condition.mapText f)⟩
  | .insert q => .insert ⟨f q.table, q.rows.map (·.map (Value.mapText f))⟩
  | .delete q => .delete ⟨f q.table, q.condition.map (Condition.mapText f)⟩

def Head.mapText : Head → Head
  | .select columns table => .select (columns.map f) (f table)
  | .delete table => .delete (f table)

def Chain.mapText (chain : Chain) : Chain := chain.map fun (c, j) => (c.mapText f, j)

def Nest.mapText (nest : Nest) : Nest :=
  ⟨nest.chain.mapText f, nest.outer.map (Chain.mapText f), nest.depth, nest.links⟩

def Reading.mapText : Reading → Reading
  | .statement => .statement
  | .column columns => .column (columns.map f)
  | .columnEnd columns => .columnEnd (columns.map f)
  | .selectTable columns => .selectTable (columns.map f)
  | .insertInto => .insertInto
  | .insertTable => .insertTable
  | .insertValues table => .insertValues (f table)
  | .row table rows => .row (f table) (rows.map (·.map (Value.mapText f)))
  | .rowValue table rows values =>
    .rowValue (f table) (rows.map (·.map (Value.mapText f))) (values.map (Value.mapText f))
  | .rowValueEnd table rows values =>
    .rowValueEnd (f table) (rows.map (·.map (Value.mapText f))) (values.map (Value.mapText f))
  | .rowEnd table rows => .rowEnd (f table) (rows.map (·.map (Value.mapText f)))
  | .deleteFrom => .deleteFrom
  | .deleteTable => .deleteTable
  | .clause head => .clause (head.mapText f)
  | .term head nest => .term (head.mapText f) (nest.mapText f)
  | .comparison head nest name => .comparison (head.mapText f) (nest.mapText f) (f name)
  | .literal head nest name c => .literal (head.mapText f) (nest.mapText f) (f name) c
  | .termEnd head nest last => .termEnd (head.mapText f) (nest.mapText f) (last.mapText f)

@[simp] theorem Token.kind_mapText (t : Token) : (t.mapText f).kind = t.kind := rfl

@[simp] theorem Token.content_mapText (t : Token) : (t.mapText f).content = f t.content := rfl

@[simp] theorem Nest.mapText_empty : Nest.empty.mapText f = .empty := rfl

theorem Token.value?_mapText (t : Token) :
    (t.mapText f).value? = t.value?.map (Value.mapText f) := by
  unfold value? mapText
  cases t.kind <;> rfl

theorem Chain.close_mapText (chain : Chain) (last : Condition) :
    (chain.mapText f).close (last.mapText f) = (chain.close last).mapText f := by
  induction chain generalizing last with
  | nil => rfl
  | cons link chain ih => exact ih (.join link.1 link.2 last)

theorem Nest.leave?_mapText (nest : Nest) (last : Condition) :
    (nest.mapText f).leave? (last.mapText f) =
      (nest.leave? last).map fun (group, around) => (group.mapText f, around.mapText f) := by
  obtain ⟨chain, outer, depth, links⟩ := nest
  cases outer with
  | nil => rfl
  | cons next outer =>
    simp only [leave?, mapText, List.map_cons, Chain.close_mapText, Option.map_some]
    simp [Chain.mapText]

namespace Reading

theorem afterTerm_mapText (head : Head) (nest : Nest) (last : Condition) (kind : Kind) :
    afterTerm (head.mapText f) (nest.mapText f) (last.mapText f) kind =
      (afterTerm head nest last kind).map (mapText f) := by
  simp only [afterTerm, Nest.leave?_mapText]
  cases kind.junction? with
  | some j =>
    have hl : (nest.mapText f).links = nest.links := rfl
    by_cases hn : nest.links = Nest.maxLinks
    · simp only [hl, hn, ↓reduceIte]
      rfl
    · simp only [hl, hn, ↓reduceIte]
      rfl
  | none =>
    by_cases hk : kind = .closeParen
    · simp only [hk, ↓reduceIte]
      cases nest.leave? last <;> rfl
    · simp only [hk, ↓reduceIte]
      rfl

/-- A step goes the same way with other texts, in what has been read and in the token. -/
theorem step_mapText (reading : Reading) (t : Token) :
    (reading.mapText f).step (t.mapText f) = (reading.step t).map (mapText f) := by
  cases reading with
  | termEnd head nest last => exact afterTerm_mapText f head nest last t.kind
  | rowValue | literal =>
    simp only [mapText, step, Token.value?_mapText]
    cases t.value? <;> rfl
  | comparison head nest name =>
    simp only [mapText, step, Token.kind_mapText]
    cases t.kind.comparison? <;> rfl
  | term head nest =>
    have hd : (nest.mapText f).depth = nest.depth := rfl
    simp only [mapText, step, Token.kind_mapText, hd]
    split
    · by_cases hn : nest.depth = Nest.maxDepth
      · simp only [hn, ↓reduceIte]
        rfl
      · simp only [hn, ↓reduceIte]
        rfl
    · rfl
    · rfl
  | statement | columnEnd | rowValueEnd =>
    simp only [mapText, step, Token.kind_mapText]
    split <;> simp [mapText, Except.map]
  | _ =>
    simp only [mapText, step, Token.kind_mapText, Token.content_mapText]
    split <;> simp_all [mapText, Head.mapText, Except.map]

theorem isTop_mapText (nest : Nest) : (nest.mapText f).isTop = nest.isTop := by
  simp [Nest.isTop, Nest.mapText]

theorem expected_mapText (reading : Reading) : (reading.mapText f).expected = reading.expected := by
  cases reading with
  | termEnd head nest last => simp only [mapText, expected, isTop_mapText]
  | _ => rfl

theorem error_mapText (reading : Reading) (refusal : Refusal) (found : Kind) (position : Nat) :
    (reading.mapText f).error refusal found position = reading.error refusal found position := by
  simp only [error, expected_mapText]

theorem query?_mapText (reading : Reading) :
    (reading.mapText f).query? = reading.query?.map (Query.mapText f) := by
  cases reading with
  | rowEnd table rows => simp [mapText, query?, Query.mapText]
  | clause head => cases head <;> rfl
  | termEnd head nest last =>
    simp only [mapText, query?, isTop_mapText]
    split
    · rw [Nest.mapText, Chain.close_mapText]
      cases head <;> rfl
    · rfl
  | _ => rfl

theorem run_mapText (reading : Reading) (position : Nat) (tokens : List Token) :
    (reading.mapText f).run position (tokens.map (Token.mapText f)) =
      (reading.run position tokens).map (Query.mapText f) := by
  induction tokens generalizing reading position with
  | nil =>
    simp only [List.map_nil, run, query?_mapText, error_mapText]
    cases reading.query? <;> rfl
  | cons t rest ih =>
    simp only [List.map_cons, run, step_mapText, error_mapText, Token.kind_mapText]
    cases reading.step t with
    | error refusal => rfl
    | ok next => exact ih next (position + 1)

end Reading

theorem significant_mapText (tokens : List Token) :
    significant (tokens.map (Token.mapText f)) = (significant tokens).map (Token.mapText f) := by
  rw [significant, List.filter_map, List.takeWhile_map]
  rfl

theorem Query.ofTokens_mapText (tokens : List Token) :
    ofTokens (tokens.map (Token.mapText f)) = (ofTokens tokens).map (mapText f) := by
  rw [ofTokens, significant_mapText]
  exact Reading.statement.run_mapText f 0 (significant tokens)

end

/-- The query with empty texts: the statement, the numbers of columns, rows and values, the tree of
the condition with its operators, and which literals are integers. -/
def Query.form (q : Query) : Query := q.mapText fun _ => ""

theorem map_mapText_eq {ts us : List Token} (h : ts.map Token.kind = us.map Token.kind) :
    ts.map (Token.mapText fun _ => "") = us.map (Token.mapText fun _ => "") := by
  have hkind : Token.mapText (fun _ => "") = (fun kind => ⟨kind, some ""⟩) ∘ Token.kind := rfl
  rw [hkind, ← List.map_map, h, List.map_map]

def Value.text : Value → String
  | .integer text | .string text => text

def Operand.text : Operand → String
  | .object name => name
  | .value v => v.text

def Condition.texts : Condition → List String
  | .leaf operand => [operand.text]
  | .node left _ right => left.texts ++ right.texts

def Query.texts : Query → List String
  | .select q => q.columns ++ q.table :: q.condition.elim [] Condition.texts
  | .insert q => q.table :: q.rows.flatten.map Value.text
  | .delete q => q.table :: q.condition.elim [] Condition.texts

/-- The texts of names and literals. One that is missing counts as empty. -/
def textsOf (tokens : List Token) : List String :=
  (tokens.filter (·.kind.showsText)).map Token.content

def Head.texts : Head → List String
  | .select columns table => columns ++ [table]
  | .delete table => [table]

def Chain.texts (chain : Chain) : List String := chain.reverse.flatMap (·.1.texts)

def Nest.texts (nest : Nest) : List String :=
  nest.outer.reverse.flatMap Chain.texts ++ nest.chain.texts

/-- The texts that a reading holds, in the order in which they were taken. -/
def Reading.texts : Reading → List String
  | .statement | .insertInto | .insertTable | .deleteFrom | .deleteTable => []
  | .column columns | .columnEnd columns | .selectTable columns => columns.reverse
  | .insertValues table => [table]
  | .row table rows | .rowEnd table rows => table :: rows.reverse.flatten.map Value.text
  | .rowValue table rows values | .rowValueEnd table rows values =>
    table :: (rows.reverse.flatten ++ values.reverse).map Value.text
  | .clause head => head.texts
  | .term head nest => head.texts ++ nest.texts
  | .comparison head nest name | .literal head nest name _ => head.texts ++ nest.texts ++ [name]
  | .termEnd head nest last => head.texts ++ nest.texts ++ last.texts

theorem textsOf_cons (t : Token) (rest : List Token) :
    textsOf (t :: rest) = textsOf [t] ++ textsOf rest := by
  rw [← List.singleton_append, textsOf, List.filter_append, List.map_append]
  rfl

theorem Chain.texts_close (chain : Chain) (last : Condition) :
    (chain.close last).texts = chain.texts ++ last.texts := by
  induction chain generalizing last with
  | nil => rfl
  | cons link chain ih =>
    rw [close, List.foldl_cons, ← close, ih]
    simp [texts, Condition.join, Condition.texts]

namespace Nest

@[simp] theorem texts_empty : empty.texts = [] := rfl

theorem texts_top {nest : Nest} (h : nest.isTop = true) : nest.texts = nest.chain.texts := by
  rw [texts, List.isEmpty_iff.mp h]
  rfl

theorem texts_enter (nest : Nest) : nest.enter.texts = nest.texts := by
  simp [texts, enter, Chain.texts]

theorem texts_link (nest : Nest) (term : Condition) (j : Junction) :
    (nest.link term j).texts = nest.texts ++ term.texts := by
  simp [texts, link, Chain.texts]

theorem texts_leave {nest around : Nest} {last group : Condition}
    (h : nest.leave? last = some (group, around)) :
    around.texts ++ group.texts = nest.texts ++ last.texts := by
  obtain ⟨chain, outer, depth, links⟩ := nest
  cases outer with
  | nil => cases h
  | cons next outer =>
    cases h
    simp [texts, Chain.texts_close]

end Nest

theorem Token.textsOf_value? {t : Token} {v : Value} (h : t.value? = some v) :
    textsOf [t] = [v.text] := by
  unfold value? at h
  split at h
  · rename_i hk
    cases h
    simp [textsOf, hk, Kind.showsText, Value.text]
  · rename_i hk
    cases h
    simp [textsOf, hk, Kind.showsText, Value.text]
  · cases h

namespace Reading

theorem texts_afterTerm {head : Head} {nest : Nest} {last : Condition} {t : Token} {next : Reading}
    (h : afterTerm head nest last t.kind = .ok next) :
    next.texts = head.texts ++ nest.texts ++ last.texts ++ textsOf [t] := by
  unfold afterTerm at h
  split at h
  · rename_i j hj
    split at h
    · cases h
    · cases h
      simp [texts, Nest.texts_link, textsOf, Kind.junction?_eq_some.mp hj, Kind.showsText]
  · split at h
    · rename_i hk
      split at h
      · rename_i group around hl
        cases h
        rw [texts, List.append_assoc, Nest.texts_leave hl]
        simp [textsOf, hk, Kind.showsText]
      · cases h
    · cases h

/-- A step takes the text of its token, if the token names or spells out something. -/
theorem texts_step {reading next : Reading} {t : Token} (h : reading.step t = .ok next) :
    next.texts = reading.texts ++ textsOf [t] := by
  cases reading with
  | termEnd head nest last => exact texts_afterTerm h
  | rowValue table rows values =>
    simp only [step] at h
    split at h
    · rename_i v hv
      cases h
      simp [texts, Token.textsOf_value? hv]
    · cases h
  | literal head nest name c =>
    simp only [step] at h
    split at h
    · rename_i v hv
      cases h
      simp [texts, Token.textsOf_value? hv, Condition.compare, Condition.texts, Operand.text]
    · cases h
  | comparison head nest name =>
    simp only [step] at h
    split at h
    · rename_i c hc
      cases h
      simp [texts, textsOf, Kind.comparison?_eq_some.mp hc, Kind.showsText]
    · cases h
  | term head nest =>
    simp only [step] at h
    split at h
    · rename_i hk
      split at h
      · cases h
      · cases h
        simp [texts, Nest.texts_enter, textsOf, hk, Kind.showsText]
    · rename_i hk
      cases h
      simp [texts, textsOf, hk, Kind.showsText]
    · cases h
  | _ =>
    simp only [step] at h
    split at h <;> cases h
    all_goals simp_all [texts, Head.texts, textsOf, Kind.showsText]

theorem texts_query? {reading : Reading} {q : Query} (h : reading.query? = some q) :
    q.texts = reading.texts := by
  cases reading with
  | rowEnd table rows =>
    cases h
    rfl
  | clause head =>
    cases h
    cases head <;> rfl
  | termEnd head nest last =>
    simp only [query?] at h
    split at h
    · rename_i ht
      cases h
      rw [texts, Nest.texts_top ht]
      cases head <;>
        simp [Head.query, Query.texts, Head.texts, Chain.texts_close]
    · cases h
  | _ => cases h

theorem texts_run {reading : Reading} {position : Nat} {tokens : List Token} {q : Query}
    (h : reading.run position tokens = .ok q) : q.texts = reading.texts ++ textsOf tokens := by
  induction tokens generalizing reading position with
  | nil =>
    rw [run] at h
    split at h
    · rename_i hq
      cases h
      rw [texts_query? hq]
      exact (List.append_nil _).symm
    · cases h
  | cons t rest ih =>
    rw [run] at h
    split at h
    · rename_i hs
      rw [ih h, texts_step hs, textsOf_cons t rest, List.append_assoc]
    · cases h

end Reading

/-- Whether tokens are a query, and of which form, lies in their kinds alone, and so does the error
if they are none. The texts are only copied, in their order. -/
theorem texts_only_copied {ts us : List Token} (h : ts.map Token.kind = us.map Token.kind) :
    (∃ e, Query.ofTokens ts = .error e ∧ Query.ofTokens us = .error e) ∨
    ∃ q r, Query.ofTokens ts = .ok q ∧ Query.ofTokens us = .ok r ∧ q.form = r.form ∧
      q.texts = textsOf (significant ts) ∧ r.texts = textsOf (significant us) := by
  have hform : (Query.ofTokens ts).map Query.form = (Query.ofTokens us).map Query.form := by
    show (Query.ofTokens ts).map (Query.mapText _) = (Query.ofTokens us).map (Query.mapText _)
    rw [← Query.ofTokens_mapText, map_mapText_eq h, Query.ofTokens_mapText]
  cases hts : Query.ofTokens ts with
  | error e =>
    cases hus : Query.ofTokens us with
    | error e' =>
      rw [hts, hus] at hform
      cases hform
      exact .inl ⟨e, rfl, rfl⟩
    | ok r =>
      rw [hts, hus] at hform
      cases hform
  | ok q =>
    cases hus : Query.ofTokens us with
    | error e =>
      rw [hts, hus] at hform
      cases hform
    | ok r =>
      rw [hts, hus] at hform
      exact .inr ⟨q, r, rfl, rfl, Except.ok.inj hform, Reading.texts_run hts, Reading.texts_run hus⟩

def halfBlank : List Token :=
  [.mark (.keyword .delete), .mark (.keyword .«from»), .mark .object, .mark (.keyword .«where»),
    .named "a", .mark (.comparison .equal), .mark .integer]

def misspelled : List Token :=
  [⟨.keyword .delete, some "x"⟩, .mark (.keyword .«from»), .named "t", .mark (.keyword .«where»),
    .named "b", ⟨.comparison .equal, some "<"⟩, ⟨.integer, some "ten"⟩]

theorem texts_only_copied_misspelled : ∃ q r, Query.ofTokens halfBlank = .ok q ∧
    Query.ofTokens misspelled = .ok r ∧ q.form = r.form ∧ q.texts = ["", "a", ""] ∧
    r.texts = ["t", "b", "ten"] := by
  have hkinds : halfBlank.map Token.kind = misspelled.map Token.kind := rfl
  rcases texts_only_copied hkinds with ⟨e, he, -⟩ | ⟨q, r, hq, hr, hform, htexts, htexts'⟩
  · cases he
  · exact ⟨q, r, hq, hr, hform, htexts, htexts'⟩

end SmallSql
