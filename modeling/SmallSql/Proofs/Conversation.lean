import Mathlib.Data.List.TakeWhile
import SmallSql.Shell

namespace SmallSql

namespace Unicode

/-- White space at the end of a text makes no difference to what is left of it. -/
theorem trim_append {front back : List Char} (h : ∀ c ∈ back, isWhiteSpace c = true) :
    trim (front ++ back) = trim front := by
  rw [trim, trim, List.dropWhile_append]
  split
  · rename_i he
    rw [List.isEmpty_iff.mp he, List.dropWhile_eq_nil_iff.mpr h]
  · rw [List.reverse_append, List.dropWhile_append_of_pos]
    simpa using h

end Unicode

namespace Shell

/-- The input is cut behind every newline. What is left behind the last newline is a line, too,
unless there is nothing left. -/
inductive CutsInto : List UInt8 → List (List UInt8) → Prop where
  | nil : CutsInto [] []
  | last {line : List UInt8} (hne : line ≠ []) (h : 10 ∉ line) : CutsInto line [line]
  | cons {line rest : List UInt8} {later : List (List UInt8)} (h : 10 ∉ line)
    (hr : CutsInto rest later) : CutsInto (line ++ 10 :: rest) ((line ++ [10]) :: later)

theorem cutsInto_lines (input : List UInt8) : CutsInto input (lines input) := by
  induction input with
  | nil => exact .nil
  | cons byte rest ih =>
    rw [lines]
    split
    · rename_i hb
      subst hb
      exact @CutsInto.cons [] _ _ (by simp) ih
    · rename_i hb
      have hmem {line : List UInt8} (h : 10 ∉ line) : 10 ∉ byte :: line := by
        simp only [List.mem_cons, not_or]
        exact ⟨Ne.symm hb, h⟩
      generalize lines rest = later at ih
      cases ih with
      | nil => exact .last (List.cons_ne_nil _ _) (hmem (by simp))
      | last hne h => exact .last (List.cons_ne_nil _ _) (hmem h)
      | cons h hr => exact .cons (hmem h) hr

theorem lines_append {line : List UInt8} (h : 10 ∉ line) (rest : List UInt8) :
    lines (line ++ 10 :: rest) = (line ++ [10]) :: lines rest := by
  induction line with
  | nil => simp [lines]
  | cons byte line ih =>
    simp only [List.mem_cons, not_or] at h
    rw [List.cons_append, lines, if_neg (Ne.symm h.1), ih h.2]
    rfl

theorem CutsInto.lines_eq {input : List UInt8} {all : List (List UInt8)} (h : CutsInto input all) :
    lines input = all := by
  induction h with
  | nil => rfl
  | last hne h =>
    rename_i line
    induction line with
    | nil => exact absurd rfl hne
    | cons byte line ih =>
      simp only [List.mem_cons, not_or] at h
      rw [lines, if_neg (Ne.symm h.1)]
      cases line with
      | nil => rfl
      | cons next line => rw [ih (List.cons_ne_nil _ _) h.2]
  | cons h _ ih => rw [lines_append h, ih]

/-- Behind a newline everything can be replaced: the lines before stay as they are. -/
theorem CutsInto.replace {input : List UInt8} {before later : List (List UInt8)}
    {stop : List UInt8} (h : CutsInto input (before ++ stop :: later))
    (hs : stop.getLast? = some 10) (tail : List UInt8) :
    CutsInto ((before ++ [stop]).flatten ++ tail) (before ++ stop :: lines tail) := by
  induction before generalizing input with
  | nil =>
    cases h with
    | last _ hl => exact absurd (List.mem_of_getLast? hs) hl
    | cons hl _ => simpa using CutsInto.cons hl (cutsInto_lines tail)
  | cons line before ih =>
    rw [List.cons_append] at h
    generalize hrest : before ++ stop :: later = rest at h
    cases h with
    | last _ _ => simp at hrest
    | cons hl hr =>
      subst hrest
      simpa using CutsInto.cons hl (ih hr)

def bytes (text : String) : List UInt8 := text.toByteArray.data.toList

def Unreadable (line : List UInt8) : Prop := ∀ text, line ≠ bytes text

theorem fromUTF8?_bytes (text : String) : String.fromUTF8? ⟨(bytes text).toArray⟩ = some text := by
  have h : ByteArray.mk (bytes text).toArray = text.toByteArray := rfl
  rw [h, String.fromUTF8?, dif_pos text.isValidUTF8]
  rfl

theorem fromUTF8?_unreadable {line : List UInt8} (h : Unreadable line) :
    String.fromUTF8? ⟨line.toArray⟩ = none := by
  rw [String.fromUTF8?]
  split
  · rename_i hv
    exact absurd rfl (h (String.fromUTF8 ⟨line.toArray⟩ hv))
  · rfl

theorem stripLineEnd_append (text : String) : ∃ back, (∀ c ∈ back, Unicode.isWhiteSpace c = true) ∧
    text.toList = (stripLineEnd text).toList ++ back := by
  refine ⟨(text.toList.reverse.takeWhile fun c => c == '\r' || c == '\n').reverse, ?_, ?_⟩
  · intro c hc
    have h := List.all_eq_true.mp List.all_takeWhile c (List.mem_reverse.mp hc)
    simp only [Bool.or_eq_true, beq_iff_eq] at h
    rcases h with rfl | rfl <;> decide
  · rw [stripLineEnd, String.toList_ofList, ← List.reverse_append, List.takeWhile_append_dropWhile,
      List.reverse_reverse]

theorem isQuit_stripLineEnd (text : String) : isQuit (stripLineEnd text) = isQuit text := by
  obtain ⟨back, hb, ht⟩ := stripLineEnd_append text
  rw [isQuit, isQuit, ht, Unicode.trim_append hb]

theorem ofLine_bytes (text : String) : Request.ofLine (bytes text) =
    if isQuit text then .quit else .query (stripLineEnd text) := by
  rw [Request.ofLine, fromUTF8?_bytes]
  simp only [isQuit_stripLineEnd]

theorem ofLine_unreadable {line : List UInt8} (h : Unreadable line) :
    Request.ofLine line = .unreadable := by
  rw [Request.ofLine, fromUTF8?_unreadable h]

def oneQuery (format : Option Format) (text : String) : List String :=
  (format.elim [] fun format => ["--format", format.name]) ++ ["--", text]

def oneShot (format : Option Format) (text : String) : Outcome := run (oneQuery format text) []

theorem read?_oneQuery (format : Option Format) (text : String) :
    Options.read? (oneQuery format text) = some ⟨some text, format⟩ := by
  cases format with
  | none => rfl
  | some format => cases format <;> rfl

theorem runQuery_state (text : String) (format : Format) : (runQuery text format).2 = format := by
  rw [runQuery_prints]

theorem runQuery_eq (format : Option Format) (text : String) :
    runQuery text (format.getD .text) = (oneShot format text, format.getD .text) := by
  rw [oneShot, run, read?_oneQuery]
  exact Prod.ext rfl (runQuery_state text _)

inductive Ending where
  | endOfInput
  | quit
  | unreadable
deriving DecidableEq, Repr

namespace Ending

inductive At : Ending → List (List UInt8) → Prop where
  | endOfInput : At .endOfInput []
  | quit {text : String} {later : List (List UInt8)} (h : isQuit text = true) :
    At .quit (bytes text :: later)
  | unreadable {line : List UInt8} {later : List (List UInt8)} (h : Unreadable line) :
    At .unreadable (line :: later)

theorem At.later {ending : Ending} {stop : List UInt8} {later : List (List UInt8)}
    (h : ending.At (stop :: later)) (other : List (List UInt8)) : ending.At (stop :: other) := by
  cases h with
  | quit hq => exact .quit hq
  | unreadable hl => exact .unreadable hl

def outcome : Ending → Outcome
  | .endOfInput | .quit => ⟨"\n", "", 0⟩
  | .unreadable => ⟨"", "Error: I/O error: stream did not contain valid UTF-8\n", 1⟩

theorem runLines_at {ending : Ending} {rest : List (List UInt8)} (h : ending.At rest)
    (state : Format) : runLines state rest = ending.outcome.prompted := by
  cases h with
  | endOfInput => rfl
  | quit hq =>
    rw [runLines, turn, ofLine_bytes, if_pos hq]
    rfl
  | unreadable hl =>
    rw [runLines, turn, ofLine_unreadable hl]
    rfl

end Ending

/-- Every input consists of lines that are queries and an end. -/
theorem exists_ending (all : List (List UInt8)) : ∃ (texts : List String) (ending : Ending)
    (rest : List (List UInt8)), all = texts.map bytes ++ rest ∧
      (∀ text ∈ texts, isQuit text = false) ∧ ending.At rest := by
  induction all with
  | nil => exact ⟨[], .endOfInput, [], rfl, by simp, .endOfInput⟩
  | cons line later ih =>
    by_cases hr : Unreadable line
    · exact ⟨[], .unreadable, _, rfl, by simp, .unreadable hr⟩
    · obtain ⟨text, rfl⟩ : ∃ text, line = bytes text := by simpa [Unreadable] using hr
      cases hq : isQuit text with
      | true => exact ⟨[], .quit, _, rfl, by simp, .quit hq⟩
      | false =>
        obtain ⟨texts, ending, rest, rfl, htexts, hend⟩ := ih
        exact ⟨text :: texts, ending, rest, rfl, List.forall_mem_cons.mpr ⟨hq, htexts⟩, hend⟩

theorem runLines_cons {text : String} (hq : isQuit text = false) (format : Option Format)
    (later : List (List UInt8)) : runLines (format.getD .text) (bytes text :: later) =
      let outcome := oneShot format (stripLineEnd text)
      let rest := runLines (format.getD .text) later
      ⟨prompt ++ outcome.stdout ++ rest.stdout, outcome.stderr ++ rest.stderr, rest.exit⟩ := by
  rw [runLines, turn, ofLine_bytes, if_neg (by simp [hq])]
  simp only [runQuery_eq]

theorem runLines_append {texts : List String} (htexts : ∀ text ∈ texts, isQuit text = false)
    {ending : Ending} {rest : List (List UInt8)} (hend : ending.At rest)
    (format : Option Format) : runLines (format.getD .text) (texts.map bytes ++ rest) =
      ⟨String.join (texts.map fun text => prompt ++ (oneShot format (stripLineEnd text)).stdout) ++
          prompt ++ ending.outcome.stdout,
        String.join (texts.map fun text => (oneShot format (stripLineEnd text)).stderr) ++
          ending.outcome.stderr,
        ending.outcome.exit⟩ := by
  induction texts with
  | nil =>
    rw [List.map_nil, List.nil_append, Ending.runLines_at hend]
    simp [Outcome.prompted]
  | cons text texts ih =>
    obtain ⟨hq, hlater⟩ := List.forall_mem_cons.mp htexts
    rw [List.map_cons, List.cons_append, runLines_cons hq, ih hlater]
    simp [String.join_cons, String.append_assoc]

/-- A run of the shell on `input`, made up of its runs on the first lines as single queries. -/
structure Conversed (args : List String) (format : Option Format) (input : List UInt8)
    (texts : List String) (ending : Ending) (rest : List (List UInt8)) : Prop where
  cut : CutsInto input (texts.map bytes ++ rest)
  goesOn : ∀ text ∈ texts, isQuit text = false
  stops : ending.At rest
  stdout : (run args input).stdout =
    String.join (texts.map fun text => prompt ++ (oneShot format (stripLineEnd text)).stdout) ++
      prompt ++ ending.outcome.stdout
  stderr : (run args input).stderr =
    String.join (texts.map fun text => (oneShot format (stripLineEnd text)).stderr) ++
      ending.outcome.stderr
  exit : (run args input).exit = ending.outcome.exit
  /-- Behind the line that ends the run there may be any bytes. -/
  unread : ∀ stop later, rest = stop :: later → stop.getLast? = some 10 → ∀ tail,
    run args ((texts.map bytes ++ [stop]).flatten ++ tail) = run args input

theorem run_interactive {args : List String} {format : Option Format}
    (hargs : Options.read? args = some ⟨none, format⟩) (input : List UInt8) :
    run args input = runLines (format.getD .text) (lines input) := by
  rw [run, hargs]

/-- Without a query among its arguments the shell answers its input line by line, each as it
answers it as its one query, until the input ends, a line says so or a line cannot be read. -/
theorem interactive_eq_one_shots {args : List String} {format : Option Format}
    (hargs : Options.read? args = some ⟨none, format⟩) (input : List UInt8) :
    ∃ texts ending rest, Conversed args format input texts ending rest := by
  obtain ⟨texts, ending, rest, hcut, htexts, hend⟩ := exists_ending (lines input)
  have hrun : run args input = runLines (format.getD .text) (texts.map bytes ++ rest) := by
    rw [run_interactive hargs, hcut]
  have hlines : CutsInto input (texts.map bytes ++ rest) := hcut ▸ cutsInto_lines input
  refine ⟨texts, ending, rest, hlines, htexts, hend, ?stdout, ?stderr, ?exit, ?unread⟩
  case stdout => rw [hrun, runLines_append htexts hend]
  case stderr => rw [hrun, runLines_append htexts hend]
  case exit => rw [hrun, runLines_append htexts hend]
  case unread =>
    rintro stop later rfl hstop tail
    rw [hrun, run_interactive hargs, (hlines.replace hstop tail).lines_eq,
      runLines_append htexts hend, runLines_append htexts (hend.later _)]

/-- A query that is answered, one that is not, a line to end the run and bytes behind it. -/
theorem interactive_eq_one_shots_of_json :
    let input := bytes "select a from t\nno\n :Q\r\n" ++ [255]
    Options.read? ["-fjson"] = some ⟨none, some .json⟩ ∧
      ∃ texts ending rest, Conversed ["-fjson"] (some .json) input texts ending rest :=
  ⟨rfl, interactive_eq_one_shots rfl _⟩

end Shell

end SmallSql
