import SmallSql.Query.Reading

namespace SmallSql

def sameIgnoringCase (a b : String) : Bool := a.toLower == b.toLower

theorem sameIgnoringCase_iff (a b : String) :
    sameIgnoringCase a b = true ↔ a.toList.map Char.toLower = b.toList.map Char.toLower := by
  have lower (s : String) : s.toLower = s.map Char.toLower := rfl
  simp [sameIgnoringCase, lower, ← String.toList_inj]

structure Row where
  columns : List String
  values : List String
deriving DecidableEq, Repr

namespace Row

/-- The value under the first column of that name, whatever the case of its letters. -/
def get? (row : Row) (name : String) : Option String :=
  (row.columns.findIdx? (sameIgnoringCase · name)).bind (row.values[·]?)

def at? (row : Row) (index : Nat) : Option String := row.values[index]?

def render (row : Row) : String := "|".intercalate row.values

end Row

structure ResultSet where
  columns : List String
  rows : List Row
deriving DecidableEq, Repr

namespace ResultSet

def empty : ResultSet := ⟨[], []⟩

def size (result : ResultSet) : Nat := result.rows.length

def isEmpty (result : ResultSet) : Bool := result.rows.isEmpty

def single (columns values : List String) : ResultSet := ⟨columns, [⟨columns, values⟩]⟩

end ResultSet

/-- The query with which a text gets to an executor, if it gets there. -/
def accepted? (text : String) : Option Query :=
  if Unicode.isBlank text.toList then none else (compile text).toOption

structure Executor (σ : Type) where
  select : Selection → σ → Except Error ResultSet × σ
  insert : Insertion → σ → Except Error ResultSet × σ
  delete : Deletion → σ → Except Error ResultSet × σ

namespace Executor

variable {σ : Type}

def execute (e : Executor σ) : Query → σ → Except Error ResultSet × σ
  | .select q => e.select q
  | .insert q => e.insert q
  | .delete q => e.delete q

/-- Blank texts are turned away before they are compiled. -/
def answer (e : Executor σ) (text : String) (state : σ) : Except Error ResultSet × σ :=
  if Unicode.isBlank text.toList then (.error .emptyQuery, state)
  else
    match compile text with
    | .error cause => (.error cause, state)
    | .ok q => e.execute q state

def session (e : Executor σ) : List String → σ → List (Except Error ResultSet) × σ
  | [], state => ([], state)
  | text :: rest, state =>
    let (reply, next) := e.answer text state
    let (replies, last) := e.session rest next
    (reply :: replies, last)

theorem answer_of_accepted {text : String} {q : Query} (h : accepted? text = some q)
    (e : Executor σ) (s : σ) : e.answer text s = e.execute q s := by
  rw [accepted?] at h
  split at h
  · cases h
  · rename_i hb
    cases hc : compile text with
    | error cause => simp [hc, Except.toOption] at h
    | ok q' =>
      obtain rfl : q' = q := by simpa [hc, Except.toOption] using h
      rw [answer, if_neg hb, hc]

/-- The answer to a refused text is the same for all executors and states. -/
theorem answer_of_refused {text : String} (h : accepted? text = none) : ∃ cause,
    ∀ {τ : Type} (e : Executor τ) (s : τ), e.answer text s = (.error cause, s) := by
  rw [accepted?] at h
  split at h
  · rename_i hb
    exact ⟨.emptyQuery, fun e s => if_pos hb⟩
  · rename_i hb
    cases hc : compile text with
    | error cause => exact ⟨cause, fun e s => by rw [answer, if_neg hb, hc]⟩
    | ok q => simp [hc, Except.toOption] at h

theorem session_cons (e : Executor σ) (text : String) (rest : List String) (s : σ) :
    e.session (text :: rest) s =
      ((e.answer text s).1 :: (e.session rest (e.answer text s).2).1,
        (e.session rest (e.answer text s).2).2) := rfl

end Executor

inductive Format where
  | text
  | json
deriving DecidableEq, Repr

namespace Format

def name : Format → String
  | .text => "text"
  | .json => "json"

def ofName? (name : String) : Option Format := [text, json].find? (·.name == name)

end Format

def Query.describe (q : Query) : Format → String
  | .text => q.render
  | .json => q.toJson.pretty

def Query.plan (q : Query) (format : Format) : ResultSet :=
  .single ["plan"] [q.describe format]

/-- The state is the format, which no query changes. -/
def Executor.describe : Executor Format where
  select q format := (.ok ((Query.select q).plan format), format)
  insert q format := (.ok ((Query.insert q).plan format), format)
  delete q format := (.ok ((Query.delete q).plan format), format)

theorem Executor.describe_execute (q : Query) (format : Format) :
    describe.execute q format = (.ok (q.plan format), format) := by
  cases q <;> rfl

end SmallSql
