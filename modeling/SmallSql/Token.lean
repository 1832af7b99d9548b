import SmallSql.Json

namespace SmallSql

inductive Comparison where
  | equal
  | notEqual
  | less
  | lessOrEqual
  | greater
  | greaterOrEqual
deriving DecidableEq, Repr

namespace Comparison

def name : Comparison → String
  | .equal => "Equal"
  | .notEqual => "NotEqual"
  | .less => "LessThan"
  | .lessOrEqual => "LessThanOrEqual"
  | .greater => "GreaterThan"
  | .greaterOrEqual => "GreaterThanOrEqual"

def spelling : Comparison → String
  | .equal => "="
  | .notEqual => "<>"
  | .less => "<"
  | .lessOrEqual => "<="
  | .greater => ">"
  | .greaterOrEqual => ">="

def all : List Comparison :=
  [.equal, .notEqual, .less, .lessOrEqual, .greater, .greaterOrEqual]

theorem mem_all (c : Comparison) : c ∈ all := by cases c <;> decide

end Comparison

inductive Junction where
  | and
  | or
deriving DecidableEq, Repr

def Junction.name : Junction → String
  | .and => "And"
  | .or => "Or"

inductive Operator where
  | comparison (c : Comparison)
  | junction (j : Junction)
deriving DecidableEq, Repr

namespace Operator

def name : Operator → String
  | .comparison c => c.name
  | .junction j => j.name

def all : List Operator :=
  Comparison.all.map .comparison ++ [.junction .and, .junction .or]

theorem mem_all (op : Operator) : op ∈ all := by
  cases op with
  | comparison c => simp [all, Comparison.mem_all]
  | junction j => cases j <;> decide

theorem name_injective {a b : Operator} (h : a.name = b.name) : a = b := by
  have hall : ∀ a ∈ all, ∀ b ∈ all, a.name = b.name → a = b := by decide
  exact hall a (mem_all a) b (mem_all b) h

end Operator

inductive Keyword where
  | select
  | «from»
  | «where»
  | insert
  | into
  | values
  | delete
  | and
  | or
deriving DecidableEq, Repr

namespace Keyword

def word : Keyword → String
  | .select => "select"
  | .«from» => "from"
  | .«where» => "where"
  | .insert => "insert"
  | .into => "into"
  | .values => "values"
  | .delete => "delete"
  | .and => "and"
  | .or => "or"

def name : Keyword → String
  | .select => "SelectKeyword"
  | .«from» => "FromKeyword"
  | .«where» => "WhereKeyword"
  | .insert => "InsertKeyword"
  | .into => "IntoKeyword"
  | .values => "ValuesKeyword"
  | .delete => "DeleteKeyword"
  | .and => "AndKeyword"
  | .or => "OrKeyword"

def all : List Keyword :=
  [.select, .«from», .«where», .insert, .into, .values, .delete, .and, .or]

theorem mem_all (k : Keyword) : k ∈ all := by cases k <;> decide

/-- Case is folded before words are looked up. -/
def ofWord? (text : String) : Option Keyword :=
  match text with
  | "select" => some .select
  | "from" => some .«from»
  | "where" => some .«where»
  | "insert" => some .insert
  | "into" => some .into
  | "values" => some .values
  | "delete" => some .delete
  | "and" => some .and
  | "or" => some .or
  | _ => none

theorem ofWord?_word (k : Keyword) : ofWord? k.word = some k := by
  cases k <;> rfl

/-- The table of words and that of keywords agree. -/
theorem ofWord?_eq_some_iff {text : String} {k : Keyword} :
    ofWord? text = some k ↔ text = k.word := by
  constructor
  · intro h
    unfold ofWord? at h
    split at h
    case h_10 => cases h
    all_goals
      obtain rfl := Option.some.inj h
      rfl
  · rintro rfl
    exact ofWord?_word k

theorem ofWord?_eq_none_iff {text : String} :
    ofWord? text = none ↔ ∀ k : Keyword, k.word ≠ text := by
  rw [Option.eq_none_iff_forall_ne_some]
  exact forall_congr' fun k => not_congr (ofWord?_eq_some_iff.trans eq_comm)

end Keyword

def Junction.keyword : Junction → Keyword
  | .and => .and
  | .or => .or

inductive Kind where
  | keyword (k : Keyword)
  | object
  | string
  | integer
  | comparison (c : Comparison)
  | comma
  | star
  | openParen
  | closeParen
  | blank
  | finish
deriving DecidableEq, Repr

namespace Kind

def name : Kind → String
  | .keyword k => k.name
  | .object => "Object"
  | .string => "StringLiteral"
  | .integer => "Integer"
  | .comparison c => c.name
  | .comma => "Comma"
  | .star => "Star"
  | .openParen => "OpenParenthesis"
  | .closeParen => "CloseParenthesis"
  | .blank => "Whitespace"
  | .finish => "EndOfSequence"

def all : List Kind :=
  Keyword.all.map .keyword ++ [.object, .string, .integer] ++ Comparison.all.map .comparison ++
    [.comma, .star, .openParen, .closeParen, .blank, .finish]

theorem mem_all (kind : Kind) : kind ∈ all := by
  cases kind <;> simp [all, Keyword.mem_all, Comparison.mem_all]

/-- The one way to write a kind, for the kinds that have one. -/
def spelling : Kind → Option String
  | .keyword k => some k.word
  | .comparison c => some c.spelling
  | .comma => some ","
  | .star => some "*"
  | .openParen => some "("
  | .closeParen => some ")"
  | .object | .string | .integer | .blank | .finish => none

/-- The kinds that name or spell out something, shown with their text. -/
def showsText : Kind → Bool
  | .object | .string | .integer => true
  | _ => false

end Kind

structure Token where
  kind : Kind
  text : Option String
deriving DecidableEq, Repr

namespace Token

def finish : Token := ⟨.finish, none⟩

def spelled (kind : Kind) : Token := ⟨kind, kind.spelling⟩

/-- What the token stands for in a text, without the quotes of a string. -/
def lexeme (t : Token) : String := (t.text.or t.kind.spelling).getD ""

/-- The name or literal that a query takes from a token; a missing text is the empty one. -/
def content (t : Token) : String := t.text.getD ""

def render (t : Token) : String :=
  match t.text with
  | some text => if t.kind.showsText then t.kind.name ++ " '" ++ text ++ "'" else t.kind.name
  | none => t.kind.name

def toJson (t : Token) : Json :=
  .object [("kind", .string t.kind.name), ("text", t.text.elim .null .string)]

end Token

/-- Why a text has no tokens. Offsets count the characters of the text as it was typed. -/
inductive ScanError where
  | invalidInteger (text : String) (offset : Nat)
  | unclosedString (text : String) (offset : Nat)
  | strayCharacter (char : Char) (offset : Nat)
deriving DecidableEq, Repr

def ScanError.message : ScanError → String
  | .invalidInteger text offset =>
    "unable to tokenize integer '" ++ text ++ "' at offset " ++ Nat.repr offset
  | .unclosedString text offset =>
    "string literal was never closed: '" ++ text ++ "' at offset " ++ Nat.repr offset
  | .strayCharacter char offset =>
    "encountered unexpected character '" ++ String.singleton char ++ "' at offset " ++
      Nat.repr offset

/-- Why tokens are no query. Positions count the tokens that are not blank. -/
inductive ParseError where
  | unexpected (expected : List Kind) (found : Kind) (position : Nat)
  | nestingTooDeep (limit : Nat) (position : Nat)
  | chainTooLong (limit : Nat) (position : Nat)
deriving DecidableEq, Repr

namespace ParseError

/-- One alternative is named alone; any other number of them is a list. -/
def alternatives : List Kind → String
  | [kind] => kind.name
  | kinds => "one of " ++ ", ".intercalate (kinds.map Kind.name)

def message : ParseError → String
  | .unexpected expected found position =>
    "expected " ++ alternatives expected ++ ", found " ++ found.name ++ " at token " ++
      Nat.repr position
  | .nestingTooDeep limit position =>
    "condition nesting too deep (limit " ++ Nat.repr limit ++ ") at token " ++ Nat.repr position
  | .chainTooLong limit position =>
    "condition has too many AND/OR links (limit " ++ Nat.repr limit ++ ") at token " ++
      Nat.repr position

end ParseError

inductive Error where
  | scan (cause : ScanError)
  | parse (cause : ParseError)
  | emptyQuery
  | execution (text : String)
  | io (text : String)
deriving DecidableEq, Repr

namespace Error

def message : Error → String
  | .scan cause => "lexical error: " ++ cause.message
  | .parse cause => "syntax error: " ++ cause.message
  | .emptyQuery => "unable to process query: no input"
  | .execution text => "execution error: " ++ text
  | .io text => "I/O error: " ++ text

/-- The text itself is at fault, whatever would have executed it. -/
def isCompileError : Error → Bool
  | .scan _ | .parse _ => true
  | .emptyQuery | .execution _ | .io _ => false

end Error

end SmallSql
