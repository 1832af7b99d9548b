import SmallSql.Executor

namespace SmallSql

/-- Which tables there are, what was asked of them, and how many rows they hold together. -/
structure Tally where
  tables : List String
  selects : Nat
  inserts : Nat
  deletes : Nat
  rows : Nat
deriving DecidableEq, Repr

namespace Tally

def start (tables : List String) : Tally := ⟨tables, 0, 0, 0, 0⟩

def create (tally : Tally) (table : String) : Tally :=
  { tally with tables := tally.tables ++ [table] }

/-- Nothing is counted for a table that does not exist. -/
def onTable (table : String) (tally : Tally) (result : ResultSet) (next : Tally) :
    Except Error ResultSet × Tally :=
  if tally.tables.contains table then (.ok result, next)
  else (.error (.execution ("table does not exist: " ++ table)), tally)

/-- What is left of a query to a table that exists. Only a delete without a condition clears the
rows, and it clears those of all tables. -/
def noted (tally : Tally) : Query → Tally
  | .select _ => { tally with selects := tally.selects + 1 }
  | .insert q => { tally with inserts := tally.inserts + 1, rows := tally.rows + q.rows.length }
  | .delete q =>
    { tally with
      deletes := tally.deletes + 1
      rows := if q.condition.isNone then 0 else tally.rows }

def executor : Executor Tally where
  select q tally :=
    onTable q.table tally (.single q.columns [Nat.repr tally.rows]) (tally.noted (.select q))
  insert q tally := onTable q.table tally .empty (tally.noted (.insert q))
  delete q tally := onTable q.table tally .empty (tally.noted (.delete q))

def answered (tally : Tally) : Nat := tally.selects + tally.inserts + tally.deletes

/-- The queries in texts that are answered by a tally. -/
def served (tally : Tally) (texts : List String) : List Query :=
  (texts.filterMap accepted?).filter (tally.tables.contains ·.table)

variable {tally : Tally} {table : String} {result : ResultSet} {next : Tally}

theorem onTable_state : (onTable table tally result next).2 =
    if tally.tables.contains table then next else tally := by
  unfold onTable
  split <;> rfl

theorem onTable_error {cause : Error} (h : (onTable table tally result next).1 = .error cause) :
    ∃ text, cause = .execution text := by
  rw [onTable] at h
  split at h
  · cases h
  · exact ⟨_, (Except.error.inj h).symm⟩

theorem execute_state (q : Query) (tally : Tally) : (executor.execute q tally).2 =
    if tally.tables.contains q.table then tally.noted q else tally := by
  cases q <;> exact onTable_state

theorem noted_tables (tally : Tally) (q : Query) : (tally.noted q).tables = tally.tables := by
  cases q <;> rfl

theorem noted_answered (tally : Tally) (q : Query) :
    (tally.noted q).answered = tally.answered + 1 := by
  cases q <;> simp only [noted, answered] <;> omega

theorem foldl_noted_answered (tally : Tally) (qs : List Query) :
    (qs.foldl noted tally).answered = tally.answered + qs.length := by
  induction qs generalizing tally with
  | nil => rfl
  | cons q rest ih =>
    rw [List.foldl_cons, ih, noted_answered, List.length_cons]
    omega

/-- A session counts the queries to tables that exist, in their order, and nothing else. -/
theorem session_state (texts : List String) (tally : Tally) :
    (executor.session texts tally).2 = (tally.served texts).foldl noted tally := by
  induction texts generalizing tally with
  | nil => rfl
  | cons text rest ih =>
    rw [Executor.session_cons]
    cases ha : accepted? text with
    | none =>
      obtain ⟨cause, hanswer⟩ := Executor.answer_of_refused ha
      rw [hanswer, ih, served, served, List.filterMap_cons_none ha]
    | some q =>
      rw [Executor.answer_of_accepted ha, execute_state, served, List.filterMap_cons_some ha,
        List.filter_cons]
      split
      · rw [ih, served, noted_tables, List.foldl_cons]
      · rw [ih, served]

theorem session_answered (texts : List String) (tally : Tally) :
    (executor.session texts tally).2.answered = tally.answered + (tally.served texts).length := by
  rw [session_state, foldl_noted_answered]

end Tally

end SmallSql
