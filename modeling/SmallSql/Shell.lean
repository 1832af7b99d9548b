import SmallSql.Executor

namespace SmallSql.Shell

structure Options where
  query : Option String
  format : Option Format
deriving DecidableEq, Repr

inductive Argument where
  | query (text : String)
  | format (name : String)
  | formatNext
  | endOptions
  | unknown
deriving DecidableEq, Repr

/-- A single dash is a query like any other text. -/
def Argument.read : List Char → Argument
  | ['-'] => .query "-"
  | ['-', '-'] => .endOptions
  | '-' :: '-' :: option =>
    if option = "format".toList then .formatNext
    else if "format=".toList.isPrefixOf option then .format (String.ofList (option.drop 7))
    else .unknown
  | ['-', 'f'] => .formatNext
  | '-' :: 'f' :: '=' :: name => .format (String.ofList name)
  | '-' :: 'f' :: name => .format (String.ofList name)
  | '-' :: _ => .unknown
  | text => .query (String.ofList text)

namespace Options

def empty : Options := ⟨none, none⟩

def withQuery? (options : Options) (text : String) : Option Options :=
  if options.query.isSome then none else some { options with query := some text }

def withFormat? (options : Options) (name : String) : Option Options :=
  if options.format.isSome then none
  else (Format.ofName? name).map fun format => { options with format := some format }

/-- Behind the mark that ends the options every argument is a query. -/
def addQueries? (options : Options) : List String → Option Options
  | [] => some options
  | text :: rest => (options.withQuery? text).bind (·.addQueries? rest)

def add? (options : Options) : List String → Option Options
  | [] => some options
  | arg :: rest =>
    match Argument.read arg.toList with
    | .query text => (options.withQuery? text).bind (·.add? rest)
    | .format name => (options.withFormat? name).bind (·.add? rest)
    | .formatNext =>
      match rest with
      | [] => none
      | name :: rest => (options.withFormat? name).bind (·.add? rest)
    | .endOptions => options.addQueries? rest
    | .unknown => none

/-- The options that arguments give, unless they cannot be understood. Help is left out: `-h` and
`--help`, which print it and end with status 0, are arguments like others that are not known. -/
def read? (args : List String) : Option Options := empty.add? args

end Options

structure Outcome where
  stdout : String
  stderr : String
  exit : Nat
deriving DecidableEq, Repr

def errorLine (cause : Error) : String := "Error: " ++ cause.message ++ "\n"

/-- Runs one query and prints its rows, one on a line, or its error. The log is left out: a text
that is rejected is also logged, by default on the error stream, in a line with the time. -/
def runQuery (text : String) (state : Format) : Outcome × Format :=
  match Executor.describe.answer text state with
  | (.ok result, next) => (⟨String.join (result.rows.map (·.render ++ "\n")), "", 0⟩, next)
  | (.error cause, next) => (⟨"", errorLine cause, 1⟩, next)

/-- A query is printed on a line of its own, and why a text is none on the error stream. -/
theorem runQuery_prints (text : String) (state : Format) : runQuery text state =
    (if Unicode.isBlank text.toList then ⟨"", errorLine .emptyQuery, 1⟩
      else match compile text with
        | .error cause => ⟨"", errorLine cause, 1⟩
        | .ok q => ⟨q.describe state ++ "\n", "", 0⟩, state) := by
  by_cases hb : Unicode.isBlank text.toList
  · simp only [runQuery, Executor.answer, if_pos hb]
  · simp only [runQuery, Executor.answer, if_neg hb]
    cases compile text with
    | error cause => rfl
    | ok q =>
      simp only [Executor.describe_execute, Query.plan, ResultSet.single, Row.render]
      simp [String.join]

def prompt : String := "db > "

def lines : List UInt8 → List (List UInt8)
  | [] => []
  | byte :: rest =>
    if byte = 10 then [byte] :: lines rest
    else
      match lines rest with
      | [] => [[byte]]
      | line :: later => (byte :: line) :: later

def stripLineEnd (line : String) : String :=
  String.ofList (line.toList.reverse.dropWhile (fun c => c == '\r' || c == '\n')).reverse

def isQuit (text : String) : Bool :=
  sameIgnoringCase (String.ofList (Unicode.trim text.toList)) ":q"

inductive Request where
  | query (text : String)
  | quit
  | unreadable
deriving DecidableEq, Repr

/-- Only UTF-8 can be read. -/
def Request.ofLine (line : List UInt8) : Request :=
  match String.fromUTF8? ⟨line.toArray⟩ with
  | none => .unreadable
  | some text =>
    let text := stripLineEnd text
    if isQuit text then .quit else .query text

def unreadable : Error := .io "stream did not contain valid UTF-8"

def farewell : Outcome := ⟨"\n", "", 0⟩

inductive Turn where
  | goOn (outcome : Outcome) (next : Format)
  | stop (outcome : Outcome)
deriving DecidableEq, Repr

def turn (state : Format) (line : List UInt8) : Turn :=
  match Request.ofLine line with
  | .unreadable => .stop ⟨"", errorLine unreadable, 1⟩
  | .quit => .stop farewell
  | .query text =>
    let (outcome, next) := runQuery text state
    .goOn outcome next

def Outcome.prompted (outcome : Outcome) : Outcome :=
  { outcome with stdout := prompt ++ outcome.stdout }

/-- Failed queries do not end the shell, and do not show in how it ends. -/
def runLines (state : Format) : List (List UInt8) → Outcome
  | [] => farewell.prompted
  | line :: rest =>
    match turn state line with
    | .stop outcome => outcome.prompted
    | .goOn outcome next =>
      let later := runLines next rest
      ⟨prompt ++ outcome.stdout ++ later.stdout, outcome.stderr ++ later.stderr, later.exit⟩

def usage : String := "usage: [QUERY] [--format text|json]\n"

/-- The input is read only if no query is given. -/
def run (args : List String) (input : List UInt8) : Outcome :=
  match Options.read? args with
  | none => ⟨"", usage, 2⟩
  | some options =>
    let format := options.format.getD .text
    match options.query with
    | some text => (runQuery text format).1
    | none => runLines format (lines input)

end SmallSql.Shell
