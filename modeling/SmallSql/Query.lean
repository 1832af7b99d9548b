import SmallSql.Token

namespace SmallSql

inductive Value where
  | integer (text : String)
  | string (text : String)
deriving DecidableEq, Repr

namespace Value

def render : Value → String
  | .integer text => "Integer " ++ text
  | .string text => "String '" ++ text ++ "'"

def toJson : Value → Json
  | .integer text => .object [("kind", .string "Integer"), ("text", .string text)]
  | .string text => .object [("kind", .string "String"), ("text", .string text)]

end Value

inductive Operand where
  | object (name : String)
  | value (v : Value)
deriving DecidableEq, Repr

def nameJson (name : String) : Json := .object [("name", .string name)]

namespace Operand

def render : Operand → String
  | .object name => name
  | .value v => v.render

def toJson : Operand → Json
  | .object name => .object [("Object", nameJson name)]
  | .value v => .object [("Value", v.toJson)]

end Operand

/-- Any operator may stand over any children; only reading a text keeps comparisons over leaves
and junctions over nodes. -/
inductive Condition where
  | leaf (operand : Operand)
  | node (left : Condition) (op : Operator) (right : Condition)
deriving DecidableEq, Repr

namespace Condition

/-- Counts the conditions on a stack with all that is in them. The children of a node are put on the
stack, so that no tree is too high to be counted. -/
def sizeOnto (count : Nat) (stack : List Condition) : Nat :=
  match stack with
  | [] => count
  | .leaf _ :: rest => sizeOnto (count + 1) rest
  | .node left op right :: rest => sizeOnto (count + 1) (right :: left :: rest)
termination_by sizeOf stack
decreasing_by
  · simp only [List.cons.sizeOf_spec, leaf.sizeOf_spec]
    omega
  · have : 0 < sizeOf op := by cases op <;> simp only [Operator.comparison.sizeOf_spec,
      Operator.junction.sizeOf_spec] <;> omega
    simp only [List.cons.sizeOf_spec, node.sizeOf_spec]
    omega

def size (c : Condition) : Nat := sizeOnto 0 [c]

theorem sizeOnto_cons (count : Nat) (c : Condition) (stack : List Condition) :
    sizeOnto count (c :: stack) = sizeOnto (count + c.size) stack := by
  induction c generalizing count stack with
  | leaf operand => rw [size, sizeOnto, sizeOnto, sizeOnto, Nat.zero_add]
  | node left op right ihl ihr =>
    rw [size, sizeOnto, sizeOnto, ihr, ihl, ihr, ihl, sizeOnto]
    congr 1
    omega

theorem size_leaf (operand : Operand) : (leaf operand).size = 1 := by
  rw [size, sizeOnto, sizeOnto]

theorem size_node (left right : Condition) (op : Operator) :
    (node left op right).size = left.size + right.size + 1 := by
  rw [size, sizeOnto, sizeOnto_cons, sizeOnto_cons, sizeOnto]
  omega

/-- Every subtree with its depth, a node before its children and the left child first. -/
def preorder (depth : Nat) : Condition → List (Nat × Condition)
  | .leaf operand => [(depth, .leaf operand)]
  | .node left op right =>
    (depth, .node left op right) :: (left.preorder (depth + 1) ++ right.preorder (depth + 1))

def render : Condition → String
  | .leaf operand => operand.render
  | .node left op right => "[" ++ op.name ++ " " ++ left.render ++ " " ++ right.render ++ "]"

def toJson : Condition → Json
  | .leaf operand => .object [("Leaf", operand.toJson)]
  | .node left op right =>
    .object [("Node", .object [("left", left.toJson), ("operator",
      .object [("kind", .string op.name)]), ("right", right.toJson)])]

def compare (column : String) (c : Comparison) (v : Value) : Condition :=
  .node (.leaf (.object column)) (.comparison c) (.leaf (.value v))

def join (left : Condition) (j : Junction) (right : Condition) : Condition :=
  .node left (.junction j) right

end Condition

structure Selection where
  columns : List String
  table : String
  condition : Option Condition
deriving DecidableEq, Repr

structure Insertion where
  table : String
  rows : List (List Value)
deriving DecidableEq, Repr

structure Deletion where
  table : String
  condition : Option Condition
deriving DecidableEq, Repr

inductive Query where
  | select (q : Selection)
  | insert (q : Insertion)
  | delete (q : Deletion)
deriving DecidableEq, Repr

namespace Query

def table : Query → String
  | .select q => q.table
  | .insert q => q.table
  | .delete q => q.table

def condition? : Query → Option Condition
  | .select q => q.condition
  | .insert _ => none
  | .delete q => q.condition

def renderCondition : Option Condition → String
  | some condition => ", Condition = " ++ condition.render
  | none => ""

def renderRow (row : List Value) : String :=
  "(" ++ ",".intercalate (row.map Value.render) ++ ")"

def render : Query → String
  | .select q =>
    "SELECT | Table = " ++ q.table ++ ", Columns = [" ++ ",".intercalate q.columns ++ "]" ++
      renderCondition q.condition
  | .insert q =>
    "INSERT | Table = " ++ q.table ++ ", Values = [" ++
      ",".intercalate (q.rows.map renderRow) ++ "]"
  | .delete q => "DELETE | Table = " ++ q.table ++ renderCondition q.condition

def conditionJson (condition : Option Condition) : Json := condition.elim .null Condition.toJson

def rowJson (row : List Value) : Json := .object [("values", .array (row.map Value.toJson))]

def toJson : Query → Json
  | .select q =>
    .object [("Select", .object [("target_columns", .array (q.columns.map nameJson)),
      ("target_table", nameJson q.table), ("condition", conditionJson q.condition)])]
  | .insert q =>
    .object [("Insert", .object [("target_table", nameJson q.table),
      ("rows", .array (q.rows.map rowJson))])]
  | .delete q =>
    .object [("Delete", .object [("target_table", nameJson q.table),
      ("condition", conditionJson q.condition)])]

end Query

end SmallSql
