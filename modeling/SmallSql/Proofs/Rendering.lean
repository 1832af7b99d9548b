import Mathlib.Data.List.Basic
import SmallSql.Proofs.Image
import SmallSql.Proofs.JsonText

namespace SmallSql

open Unicode

/-- Neither a letter nor a numeral, so no name, number or operator goes on with it. -/
def EndsWord (c : Char) : Prop := (isAlphabetic c || isNumeric c) = false

instance : DecidablePred EndsWord := fun c =>
  inferInstanceAs (Decidable ((isAlphabetic c || isNumeric c) = false))

theorem follows_space (rest : List Char) : Follows EndsWord (' ' :: rest) :=
  follows_cons.mpr (by decide)

theorem IsWord.forall {word : List Char} (h : IsWord word) :
    ∀ c ∈ word, (isAlphabetic c || isNumeric c) = true := by
  cases word with
  | nil => simp
  | cons c rest => exact List.forall_mem_cons.mpr ⟨h.head c rfl, h.2⟩

theorem IsWord.exists_cons {word : List Char} (h : IsWord word) : ∃ c rest, word = c :: rest := by
  cases word with
  | nil => exact h.elim
  | cons c rest => exact ⟨c, rest, rfl⟩

theorem IsName.unmistakable {word : String} (h : IsName word) :
    Unmistakable EndsWord IsName String.toList word := by
  intro other ho r s hr hs he
  obtain ⟨hword, hrest⟩ := run_cancel h.1.forall ho.1.forall hr hs he
  exact ⟨String.toList_inj.mp hword, hrest⟩

theorem Operator.word_name (op : Operator) :
    ∀ c ∈ op.name.toList, (isAlphabetic c || isNumeric c) = true := by
  have hall : all.all (fun op => op.name.toList.all fun c => isAlphabetic c || isNumeric c) =
      true := by decide +kernel
  exact List.all_eq_true.mp (List.all_eq_true.mp hall op (mem_all op))

namespace Value

theorem IsLiteral.unmistakable {v : Value} (h : v.IsLiteral) :
    Unmistakable EndsWord IsLiteral (fun v => v.render.toList) v := by
  intro w hw r s hr hs he
  cases v with
  | integer digits =>
    cases w with
    | integer digits' =>
      simp only [render, String.toList_append, List.append_assoc] at he
      have hnumber {digits : String} (h : (integer digits).IsLiteral) :
          ∀ c ∈ digits.toList, (isAlphabetic c || isNumeric c) = true := by
        intro c hc
        rw [(classes_of_isDigit (h.2.1 c hc)).2.2, Bool.or_true]
      obtain ⟨hd, hrest⟩ := run_cancel (hnumber h) (hnumber hw) hr hs (List.append_cancel_left he)
      exact ⟨congrArg integer (String.toList_inj.mp hd), hrest⟩
    | string text => simp [render] at he
  | string text =>
    cases w with
    | integer digits => simp [render] at he
    | string text' =>
      simp only [render, String.toList_append, List.append_assoc] at he
      have hquote (r : List Char) : Follows (fun c => (c != '\x27') = false) ("'".toList ++ r) :=
        follows_cons.mpr rfl
      obtain ⟨ht, hrest⟩ := run_cancel (p := (· != '\x27')) (fun c hc => by simpa using (h c hc).1)
        (fun c hc => by simpa using (hw c hc).1) (hquote r) (hquote s) (List.append_cancel_left he)
      exact ⟨congrArg string (String.toList_inj.mp ht), List.append_cancel_left hrest⟩

theorem render_startsBefore (v : Value) : StartsBefore ')' (fun _ => True) v.render.toList := by
  cases v with
  | integer digits =>
    exact ⟨'I', "nteger ".toList ++ digits.toList, by simp [render], by decide, trivial⟩
  | string text =>
    exact ⟨'S', "tring '".toList ++ (text.toList ++ ['\x27']), by simp [render], by decide, trivial⟩

end Value

namespace Condition

/-- The condition of a text, as far as it is needed to read its rendering. -/
structure Readable (c : Condition) : Prop where
  wellFormed : c.WellFormed
  names : ∀ name ∈ c.names, IsName name
  values : ∀ v ∈ c.values, v.IsLiteral

theorem Readable.compare {column : String} {c : Comparison} {v : Value}
    (h : Readable (.compare column c v)) : IsName column ∧ v.IsLiteral :=
  ⟨h.names column (by simp [Condition.compare, Condition.names, Operand.names]),
    h.values v (by simp [Condition.compare, Condition.values, Operand.values])⟩

theorem Readable.join {l r : Condition} {j : Junction} (hl : l.WellFormed) (hr : r.WellFormed)
    (h : Readable (.join l j r)) : l.Readable ∧ r.Readable := by
  obtain ⟨-, hn, hv⟩ := h
  simp only [Condition.join, Condition.names, Condition.values, List.forall_mem_append] at hn hv
  exact ⟨⟨hl, hn.1, hv.1⟩, ⟨hr, hn.2, hv.2⟩⟩

/-- The operator ends at the first space behind it. -/
theorem render_node_cancel {l r l' r' : Condition} {op op' : Operator} {s t : List Char}
    (he : (node l op r).render.toList ++ s = (node l' op' r').render.toList ++ t) :
    op = op' ∧ l.render.toList ++ ' ' :: (r.render.toList ++ ']' :: s) =
      l'.render.toList ++ ' ' :: (r'.render.toList ++ ']' :: t) := by
  have hnode (l r : Condition) (op : Operator) (rest : List Char) :
      (node l op r).render.toList ++ rest = '[' :: (op.name.toList ++
        ' ' :: (l.render.toList ++ ' ' :: (r.render.toList ++ ']' :: rest))) := by
    simp [render]
  rw [hnode, hnode] at he
  obtain ⟨hop, hrest⟩ := run_cancel op.word_name op'.word_name (follows_space _) (follows_space _)
    (List.cons.inj he).2
  exact ⟨Operator.name_injective (String.toList_inj.mp hop), (List.cons.inj hrest).2⟩

/-- A node ends at its closing bracket, so anything may stand behind it. -/
theorem Readable.unmistakable {c : Condition} (h : c.Readable) :
    Unmistakable (fun _ => True) Readable (fun c => c.render.toList) c := by
  intro d hd r s hfr hfs he
  clear hfr hfs
  induction h.wellFormed generalizing d r s with
  | compare column op v =>
    obtain ⟨hcolumn, hv⟩ := h.compare
    cases hd.wellFormed with
    | compare column' op' v' =>
      obtain ⟨hcolumn', hv'⟩ := hd.compare
      have hbracket (rest : List Char) : Follows EndsWord (']' :: rest) :=
        follows_cons.mpr (by decide)
      obtain ⟨hop, hc⟩ := render_node_cancel he
      obtain ⟨hc, hvalue⟩ :=
        hcolumn.unmistakable _ hcolumn' _ _ (follows_space _) (follows_space _) hc
      obtain ⟨hvalue, hrest⟩ := hv.unmistakable _ hv' _ _ (hbracket _) (hbracket _)
        (List.cons.inj hvalue).2
      cases hop
      exact ⟨by rw [hc, hvalue], (List.cons.inj hrest).2⟩
    | join hl j hr => cases (render_node_cancel he).1
  | join hl j hr ihl ihr =>
    obtain ⟨hleft, hright⟩ := h.join hl hr
    cases hd.wellFormed with
    | compare column' op' v' => cases (render_node_cancel he).1
    | join hl' j' hr' =>
      obtain ⟨hleft', hright'⟩ := hd.join hl' hr'
      obtain ⟨hop, hl⟩ := render_node_cancel he
      obtain ⟨hl, hr⟩ := ihl hleft _ hleft' _ _ hl
      obtain ⟨hr, hrest⟩ := ihr hright _ hright' _ _ (List.cons.inj hr).2
      cases hop
      exact ⟨by rw [hl, hr], (List.cons.inj hrest).2⟩

end Condition

namespace Query

theorem renderRow_unmistakable (row : List Value) (h : ∀ v ∈ row, v.IsLiteral) :
    Unmistakable (fun _ => True) (fun row => ∀ v ∈ row, v.IsLiteral)
      (fun row => (renderRow row).toList) row := by
  intro row' h' r s _ _ he
  simp only [renderRow, String.toList_append, List.append_assoc] at he
  exact Unmistakable.commas EndsWord (by decide) (by decide) (by decide)
    (fun v _ => v.render_startsBefore) (fun v hv => ⟨h v hv, (h v hv).unmistakable⟩) h'
    (List.append_cancel_left he)

theorem toList_renderCondition (c : Condition) :
    (renderCondition (some c)).toList = ", Condition = ".toList ++ c.render.toList :=
  String.toList_append

theorem renderCondition_injective {c d : Option Condition} (hc : ∀ x ∈ c, x.Readable)
    (hd : ∀ x ∈ d, x.Readable)
    (he : (renderCondition c).toList = (renderCondition d).toList) : c = d := by
  have hsome (c : Condition) :
      (renderCondition none).toList ≠ (renderCondition (some c)).toList := by
    rw [toList_renderCondition]
    exact fun h => List.cons_ne_nil ',' _ h.symm
  cases c with
  | none =>
    cases d with
    | none => rfl
    | some d => exact absurd he (hsome d)
  | some c =>
    cases d with
    | none => exact absurd he.symm (hsome c)
    | some d =>
      rw [toList_renderCondition, toList_renderCondition] at he
      exact congrArg some ((hc c rfl).unmistakable.eq (hd d rfl) (List.append_cancel_left he))

theorem Compilable.readable {q : Query} (h : q.Compilable) : ∀ c ∈ q.condition?, c.Readable := by
  intro c hc
  refine ⟨h.wellFormed c hc, fun name hn => h.names name ?_, fun v hv => h.values v ?_⟩
  · cases q <;> simp_all [condition?, Query.names]
  · cases q <;> simp_all [condition?, Query.values]

theorem Compilable.table {q : Query} (h : q.Compilable) : IsName q.table := by
  apply h.names
  cases q <;> simp [Query.names, Query.table]

theorem columns_cancel {columns columns' : List String} (h : ∀ c ∈ columns, IsName c)
    (h' : ∀ c ∈ columns', IsName c) {r s : List Char}
    (he : (",".intercalate columns).toList ++ ']' :: r =
      (",".intercalate columns').toList ++ ']' :: s) : columns = columns' ∧ r = s := by
  have hstart (name : String) (hn : IsName name) :
      StartsBefore ']' (fun _ => True) name.toList := by
    obtain ⟨c, rest, hc⟩ := hn.1.exists_cons
    refine ⟨c, rest, hc, ?_, trivial⟩
    rintro rfl
    exact absurd (hn.1.forall ']' (hc ▸ List.mem_cons_self)) (by decide)
  rw [← columns.map_id, ← columns'.map_id] at he
  exact Unmistakable.commas EndsWord (by decide) (by decide) (by decide) hstart
    (fun c hc => ⟨h c hc, (h c hc).unmistakable⟩) h' he

theorem rows_cancel {rows rows' : List (List Value)} (h : ∀ row ∈ rows, ∀ v ∈ row, v.IsLiteral)
    (h' : ∀ row ∈ rows', ∀ v ∈ row, v.IsLiteral) {r s : List Char}
    (he : (",".intercalate (rows.map renderRow)).toList ++ ']' :: r =
      (",".intercalate (rows'.map renderRow)).toList ++ ']' :: s) : rows = rows' ∧ r = s := by
  have hstart (row : List Value) : StartsBefore ']' (fun _ => True) (renderRow row).toList := by
    simp only [renderRow, String.toList_append, List.append_assoc]
    exact ⟨'(', _, rfl, by decide, trivial⟩
  exact Unmistakable.commas (fun _ => True) trivial trivial (by decide)
    (fun row _ => hstart row) (fun row hr => ⟨h row hr, renderRow_unmistakable row (h row hr)⟩) h'
    he

def heading : Query → String
  | .select _ => "SELECT | Table = "
  | .insert _ => "INSERT | Table = "
  | .delete _ => "DELETE | Table = "

def details : Query → List Char
  | .select q => ", Columns = [".toList ++
      ((",".intercalate q.columns).toList ++ ']' :: (renderCondition q.condition).toList)
  | .insert q => ", Values = [".toList ++ ((",".intercalate (q.rows.map renderRow)).toList ++ [']'])
  | .delete q => (renderCondition q.condition).toList

theorem toList_render (q : Query) :
    q.render.toList = q.heading.toList ++ (q.table.toList ++ q.details) := by
  cases q with
  | select q =>
    change ("SELECT | Table = " ++ q.table ++ ", Columns = [" ++ ",".intercalate q.columns ++ "]" ++
      renderCondition q.condition).toList = _
    simp only [String.toList_append, List.append_assoc]
    rfl
  | insert q =>
    change ("INSERT | Table = " ++ q.table ++ ", Values = [" ++
      ",".intercalate (q.rows.map renderRow) ++ "]").toList = _
    simp only [String.toList_append, List.append_assoc]
    rfl
  | delete q =>
    change ("DELETE | Table = " ++ q.table ++ renderCondition q.condition).toList = _
    simp only [String.toList_append, List.append_assoc]
    rfl

theorem follows_details (q : Query) : Follows EndsWord q.details := by
  have hcomma (rest : List Char) : Follows EndsWord (',' :: rest) := follows_cons.mpr (by decide)
  cases q with
  | select q => exact hcomma _
  | insert q => exact hcomma _
  | delete q =>
    obtain ⟨table, condition⟩ := q
    cases condition with
    | none => exact follows_nil
    | some c =>
      change Follows EndsWord (renderCondition (some c)).toList
      rw [toList_renderCondition]
      exact hcomma _

theorem render_cancel {p q : Query} (hp : p.Compilable) (hq : q.Compilable)
    (he : p.render = q.render) :
    p.heading = q.heading ∧ p.table = q.table ∧ p.details = q.details := by
  have hlength (q : Query) : q.heading.toList.length = 17 := by
    cases q <;> simp only [heading] <;> decide
  rw [← String.toList_inj, toList_render, toList_render] at he
  obtain ⟨hh, he⟩ := List.append_inj he ((hlength p).trans (hlength q).symm)
  obtain ⟨ht, hd⟩ := hp.table.unmistakable _ hq.table _ _ p.follows_details q.follows_details he
  exact ⟨String.toList_inj.mp hh, ht, hd⟩

inductive SameKind : Query → Query → Prop where
  | select (p q : Selection) : SameKind (.select p) (.select q)
  | insert (p q : Insertion) : SameKind (.insert p) (.insert q)
  | delete (p q : Deletion) : SameKind (.delete p) (.delete q)

theorem sameKind_of_heading {p q : Query} (h : p.heading = q.heading) : p.SameKind q := by
  cases p with
  | select p =>
    cases q with
    | select q => exact .select p q
    | _ => exact absurd h (by simp only [heading]; decide)
  | insert p =>
    cases q with
    | insert q => exact .insert p q
    | _ => exact absurd h (by simp only [heading]; decide)
  | delete p =>
    cases q with
    | delete q => exact .delete p q
    | _ => exact absurd h (by simp only [heading]; decide)

theorem Compilable.render_injective {p q : Query} (hp : p.Compilable) (hq : q.Compilable)
    (he : p.render = q.render) : p = q := by
  obtain ⟨hh, ht, hd⟩ := render_cancel hp hq he
  cases sameKind_of_heading hh with
  | select p q =>
    obtain ⟨hc, hd⟩ := columns_cancel (fun c h => hp.names c (List.mem_append_left _ h))
      (fun c h => hq.names c (List.mem_append_left _ h)) (List.append_cancel_left hd)
    have hcondition := renderCondition_injective hp.readable hq.readable hd
    exact congrArg Query.select (by rw [Selection.mk.injEq]; exact ⟨hc, ht, hcondition⟩)
  | insert p q =>
    obtain ⟨hr, -⟩ := rows_cancel (List.forall_mem_flatten.mp hp.values)
      (List.forall_mem_flatten.mp hq.values) (List.append_cancel_left hd)
    exact congrArg Query.insert (by rw [Insertion.mk.injEq]; exact ⟨ht, hr⟩)
  | delete p q =>
    have hcondition := renderCondition_injective hp.readable hq.readable hd
    exact congrArg Query.delete (by rw [Deletion.mk.injEq]; exact ⟨ht, hcondition⟩)

end Query

/-- Two texts have the same rendering exactly if they compile to the same query. -/
theorem render_eq_iff_of_compile {a b : String} {p q : Query} (ha : compile a = .ok p)
    (hb : compile b = .ok q) : p.render = q.render ↔ p = q := by
  constructor
  · exact (compilable_of_compile ha).render_injective (compilable_of_compile hb)
  · rintro rfl
    rfl

/-- The first string looks like the end of one value and the start of the next. -/
theorem render_eq_iff_of_delimiters :
    ∃ p q : Query, compile "INSERT INTO t VALUES ('),(String x'), (1)" = .ok p ∧
      compile "INSERT INTO t VALUES (''), ('x'), (1)" = .ok q ∧
      (p.render = q.render ↔ p = q) ∧ p.render ≠ q.render := by
  have ha : compile "INSERT INTO t VALUES ('),(String x'), (1)" =
      .ok (.insert ⟨"t", [[.string "),(string x"], [.integer "1"]]⟩) := by decide +kernel
  have hb : compile "INSERT INTO t VALUES (''), ('x'), (1)" =
      .ok (.insert ⟨"t", [[.string ""], [.string "x"], [.integer "1"]]⟩) := by decide +kernel
  have h := render_eq_iff_of_compile ha hb
  exact ⟨_, _, ha, hb, h, fun he => absurd (h.mp he) (by decide)⟩

/-- A name with a comma in it is told apart from no two names, but no text has such a name. -/
example : Query.render (.select ⟨["a,b"], "t", none⟩) =
    Query.render (.select ⟨["a", "b"], "t", none⟩) := by
  decide +kernel

theorem Value.toJson_injective {v w : Value} (h : v.toJson = w.toJson) : v = w := by
  cases v <;> cases w <;> simp_all [toJson]

theorem Operand.toJson_injective {a b : Operand} (h : a.toJson = b.toJson) : a = b := by
  cases a with
  | object name =>
    cases b with
    | object name' => simpa [toJson, nameJson] using h
    | value v => simp [toJson] at h
  | value v =>
    cases b with
    | object name => simp [toJson] at h
    | value w =>
      simp only [toJson, Json.object.injEq, List.cons.injEq, Prod.mk.injEq, true_and, and_true] at h
      exact congrArg value (Value.toJson_injective h)

theorem Condition.toJson_injective {c d : Condition} (h : c.toJson = d.toJson) : c = d := by
  induction c generalizing d with
  | leaf operand =>
    cases d with
    | leaf operand' =>
      simp only [toJson, Json.object.injEq, List.cons.injEq, Prod.mk.injEq, true_and, and_true] at h
      exact congrArg leaf (Operand.toJson_injective h)
    | node left op right => simp [toJson] at h
  | node left op right ihl ihr =>
    cases d with
    | leaf operand => simp [toJson] at h
    | node left' op' right' =>
      simp only [toJson, Json.object.injEq, Json.string.injEq, List.cons.injEq, Prod.mk.injEq,
        true_and, and_true] at h
      obtain ⟨hl, hop, hr⟩ := h
      rw [ihl hl, Operator.name_injective hop, ihr hr]

namespace Query

theorem conditionJson_injective {c d : Option Condition}
    (h : conditionJson c = conditionJson d) : c = d := by
  have hsome (c : Condition) : Json.null ≠ c.toJson := by cases c <;> simp [Condition.toJson]
  cases c with
  | none =>
    cases d with
    | none => rfl
    | some d => exact absurd h (hsome d)
  | some c =>
    cases d with
    | none => exact absurd h.symm (hsome c)
    | some d => exact congrArg some (Condition.toJson_injective h)

theorem nameJson_injective : Function.Injective nameJson := by
  intro a b h
  simpa [nameJson] using h

theorem rowJson_injective : Function.Injective rowJson := by
  intro a b h
  simp only [rowJson, Json.object.injEq, List.cons.injEq, Prod.mk.injEq, true_and, and_true,
    Json.array.injEq] at h
  exact List.map_injective_iff.mpr (fun _ _ => Value.toJson_injective) h

theorem toJson_injective {p q : Query} (h : p.toJson = q.toJson) : p = q := by
  cases p with
  | select p =>
    cases q with
    | select q =>
      simp only [toJson, Json.object.injEq, List.cons.injEq, Prod.mk.injEq, true_and, and_true,
        Json.array.injEq] at h
      obtain ⟨hc, ht, hd⟩ := h
      rw [Query.select.injEq, Selection.mk.injEq]
      exact ⟨List.map_injective_iff.mpr nameJson_injective hc, nameJson_injective ht,
        conditionJson_injective hd⟩
    | insert q => simp [toJson] at h
    | delete q => simp [toJson] at h
  | insert p =>
    cases q with
    | insert q =>
      simp only [toJson, Json.object.injEq, List.cons.injEq, Prod.mk.injEq, true_and, and_true,
        Json.array.injEq] at h
      obtain ⟨ht, hr⟩ := h
      rw [Query.insert.injEq, Insertion.mk.injEq]
      exact ⟨nameJson_injective ht, List.map_injective_iff.mpr rowJson_injective hr⟩
    | select q => simp [toJson] at h
    | delete q => simp [toJson] at h
  | delete p =>
    cases q with
    | delete q =>
      simp only [toJson, Json.object.injEq, List.cons.injEq, Prod.mk.injEq, true_and, and_true] at h
      obtain ⟨ht, hd⟩ := h
      rw [Query.delete.injEq, Deletion.mk.injEq]
      exact ⟨nameJson_injective ht, conditionJson_injective hd⟩
    | select q => simp [toJson] at h
    | insert q => simp [toJson] at h

/-- Nothing has to be known of the query, since all its names and literals stand in quotes. -/
theorem compact_injective {p q : Query} (h : p.toJson.compact = q.toJson.compact) : p = q :=
  toJson_injective ((p.toJson.compact_unmistakable).eq trivial (congrArg String.toList h))

end Query

/-- The compact text determines the query, and so does the pretty one, which is the compact one as
soon as the white space outside its strings is taken away. -/
theorem json_determines_query :
    (Function.Injective fun q : Query => q.toJson.compact) ∧
    (∀ q : Query, Json.squeeze q.toJson.pretty = q.toJson.compact) ∧
    Function.Injective fun q : Query => q.toJson.pretty := by
  refine ⟨fun p q h => Query.compact_injective h, fun q => q.toJson.squeeze_pretty, fun p q h => ?_⟩
  apply Query.compact_injective
  have hsqueezed := congrArg Json.squeeze h
  rwa [Json.squeeze_pretty, Json.squeeze_pretty] at hsqueezed

end SmallSql
