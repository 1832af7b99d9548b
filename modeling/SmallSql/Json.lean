namespace SmallSql

inductive Json where
  | null
  | string (text : String)
  | array (items : List Json)
  | object (fields : List (String × Json))

namespace Json

def hexDigit (n : Nat) : Char :=
  if n < 10 then Char.ofNat (48 + n) else Char.ofNat (87 + n)

/-- Quotes, backslashes and the characters below U+0020 are escaped, by a letter where one is
agreed on; all others stand as they are. -/
def escape : Char → List Char
  | '"' => ['\\', '"']
  | '\\' => ['\\', '\\']
  | '\x08' => ['\\', 'b']
  | '\x0c' => ['\\', 'f']
  | '\n' => ['\\', 'n']
  | '\r' => ['\\', 'r']
  | '\t' => ['\\', 't']
  | c =>
    if c.toNat < 32 then ['\\', 'u', '0', '0', hexDigit (c.toNat / 16), hexDigit (c.toNat % 16)]
    else [c]

def quote (text : String) : String :=
  "\"" ++ String.ofList (text.toList.flatMap escape) ++ "\""

mutual

def compact : Json → String
  | .null => "null"
  | .string text => quote text
  | .array items => "[" ++ ",".intercalate (compactItems items) ++ "]"
  | .object fields => "\x7b" ++ ",".intercalate (compactFields fields) ++ "\x7d"

def compactItems : List Json → List String
  | [] => []
  | item :: rest => item.compact :: compactItems rest

def compactFields : List (String × Json) → List String
  | [] => []
  | (key, value) :: rest => (quote key ++ ":" ++ value.compact) :: compactFields rest

end

def margin (depth : Nat) : String := String.ofList (List.replicate (2 * depth) ' ')

/-- Parts between brackets, each on a line of its own one level deeper. Brackets with nothing
between them stay together. -/
def block (opening closing : String) (depth : Nat) (parts : List String) : String :=
  if parts.isEmpty then opening ++ closing
  else
    opening ++ "\n" ++ ",\n".intercalate (parts.map (margin (depth + 1) ++ ·)) ++
      "\n" ++ margin depth ++ closing

mutual

def prettyAt (depth : Nat) : Json → String
  | .null => "null"
  | .string text => quote text
  | .array items => block "[" "]" depth (prettyItems (depth + 1) items)
  | .object fields => block "\x7b" "\x7d" depth (prettyFields (depth + 1) fields)

def prettyItems (depth : Nat) : List Json → List String
  | [] => []
  | item :: rest => item.prettyAt depth :: prettyItems depth rest

def prettyFields (depth : Nat) : List (String × Json) → List String
  | [] => []
  | (key, value) :: rest => (quote key ++ ": " ++ value.prettyAt depth) :: prettyFields depth rest

end

mutual

/-- Writes the pretty form behind `out`, so that deep values take no longer than they are long. -/
def prettyOnto (out : String) (depth : Nat) : Json → String
  | .null => out ++ "null"
  | .string text => out ++ quote text
  | .array items =>
    if items.isEmpty then out ++ "[]"
    else itemsOnto (out ++ "[") "\n" (depth + 1) items ++ "\n" ++ margin depth ++ "]"
  | .object fields =>
    if fields.isEmpty then out ++ "\x7b\x7d"
    else fieldsOnto (out ++ "\x7b") "\n" (depth + 1) fields ++ "\n" ++ margin depth ++ "\x7d"

def itemsOnto (out mark : String) (depth : Nat) : List Json → String
  | [] => out
  | item :: rest =>
    itemsOnto (item.prettyOnto (out ++ mark ++ margin depth) depth) ",\n" depth rest

def fieldsOnto (out mark : String) (depth : Nat) : List (String × Json) → String
  | [] => out
  | (key, value) :: rest =>
    fieldsOnto (value.prettyOnto (out ++ mark ++ margin depth ++ quote key ++ ": ") depth)
      ",\n" depth rest

end

def behind (mark : String) (depth : Nat) (parts : List String) : String :=
  if parts.isEmpty then "" else mark ++ ",\n".intercalate (parts.map (margin depth ++ ·))

theorem behind_cons (mark part : String) (depth : Nat) (rest : List String) :
    behind mark depth (part :: rest) = mark ++ margin depth ++ part ++ behind ",\n" depth rest := by
  cases rest <;> simp [behind, String.append_assoc]

theorem block_eq (opening closing : String) (depth : Nat) {parts : List String}
    (h : parts.isEmpty = false) :
    block opening closing depth parts =
      opening ++ behind "\n" (depth + 1) parts ++ "\n" ++ margin depth ++ closing := by
  simp [block, behind, h, String.append_assoc]

mutual

theorem prettyOnto_eq (out : String) (depth : Nat) (json : Json) :
    prettyOnto out depth json = out ++ prettyAt depth json := by
  match json with
  | .null => simp [prettyOnto, prettyAt]
  | .string text => simp [prettyOnto, prettyAt]
  | .array [] => simp [prettyOnto, prettyAt, prettyItems, block]
  | .array (item :: rest) =>
    rw [prettyOnto, prettyAt, block_eq _ _ _ (by simp [prettyItems]), itemsOnto_eq]
    simp [String.append_assoc]
  | .object [] => simp [prettyOnto, prettyAt, prettyFields, block]
  | .object (field :: rest) =>
    rw [prettyOnto, prettyAt, block_eq _ _ _ (by simp [prettyFields]), fieldsOnto_eq]
    simp [String.append_assoc]

theorem itemsOnto_eq (out mark : String) (depth : Nat) (items : List Json) :
    itemsOnto out mark depth items = out ++ behind mark depth (prettyItems depth items) := by
  match items with
  | [] => simp [itemsOnto, prettyItems, behind]
  | item :: rest =>
    rw [itemsOnto, prettyItems, behind_cons, itemsOnto_eq, prettyOnto_eq]
    simp [String.append_assoc]

theorem fieldsOnto_eq (out mark : String) (depth : Nat) (fields : List (String × Json)) :
    fieldsOnto out mark depth fields = out ++ behind mark depth (prettyFields depth fields) := by
  match fields with
  | [] => simp [fieldsOnto, prettyFields, behind]
  | (key, value) :: rest =>
    rw [fieldsOnto, prettyFields, behind_cons, fieldsOnto_eq, prettyOnto_eq]
    simp [String.append_assoc]

end

def pretty (json : Json) : String := json.prettyOnto "" 0

theorem pretty_eq (json : Json) : json.pretty = json.prettyAt 0 := by
  simp [pretty, prettyOnto_eq]

end Json

end SmallSql
