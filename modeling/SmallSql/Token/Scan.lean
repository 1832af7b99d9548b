import SmallSql.Token
import SmallSql.Unicode

namespace SmallSql

/-- A character of a folded text, and the offset of the typed character it comes from. -/
structure Glyph where
  char : Char
  offset : Nat
deriving DecidableEq, Repr

namespace Glyph

def fold (text : List Char) : List Glyph :=
  text.zipIdx.flatMap fun (c, offset) => (Unicode.lowercase c).map (Glyph.mk · offset)

def text (glyphs : List Glyph) : String := String.ofList (glyphs.map Glyph.char)

end Glyph

open Unicode

namespace Glyph

def isBlank (g : Glyph) : Bool := isWhiteSpace g.char

def isWordPart (g : Glyph) : Bool := isAlphabetic g.char || isNumeric g.char

/-- Strings stand between two of these, and cannot hold one. -/
def isQuote (g : Glyph) : Bool := g.char == '\x27'

end Glyph

namespace Token

def decimalValue (digits : List Char) : Nat :=
  digits.foldl (fun value digit => 10 * value + (digit.toNat - 48)) 0

def maxInteger : Nat := 2147483647

/-- Leading zeros do not count against the size of an integer. -/
def isInteger (run : List Char) : Bool :=
  run.all Char.isDigit && decide (decimalValue run ≤ maxInteger)

/-- A word is a keyword if it is spelled like one, and else a name. -/
def ofWord (word : String) : Token :=
  match Keyword.ofWord? word with
  | some k => ⟨.keyword k, none⟩
  | none => ⟨.object, some word⟩

def symbol? (c : Char) (rest : List Glyph) : Option (Kind × List Glyph) :=
  match c with
  | '=' => some (.comparison .equal, rest)
  | '<' =>
    match rest with
    | [] => some (.comparison .less, [])
    | g :: after =>
      if g.char = '=' then some (.comparison .lessOrEqual, after)
      else if g.char = '>' then some (.comparison .notEqual, after)
      else some (.comparison .less, g :: after)
  | '>' =>
    match rest with
    | [] => some (.comparison .greater, [])
    | g :: after =>
      if g.char = '=' then some (.comparison .greaterOrEqual, after)
      else some (.comparison .greater, g :: after)
  | '(' => some (.openParen, rest)
  | ')' => some (.closeParen, rest)
  | ',' => some (.comma, rest)
  | '*' => some (.star, rest)
  | _ => none

/-- The longest token that starts with `g`, and the glyphs after it. -/
def first (g : Glyph) (rest : List Glyph) : Except ScanError (Token × List Glyph) :=
  if g.isBlank then
    .ok (⟨.blank, some (Glyph.text (g :: rest.takeWhile Glyph.isBlank))⟩,
      rest.dropWhile Glyph.isBlank)
  else if isAlphabetic g.char then
    .ok (ofWord (Glyph.text (g :: rest.takeWhile Glyph.isWordPart)),
      rest.dropWhile Glyph.isWordPart)
  else if isNumeric g.char then
    let run := g :: rest.takeWhile Glyph.isWordPart
    if isInteger (run.map Glyph.char) then
      .ok (⟨.integer, some (Glyph.text run)⟩, rest.dropWhile Glyph.isWordPart)
    else .error (.invalidInteger (Glyph.text run) g.offset)
  else if g.isQuote then
    match rest.dropWhile (!·.isQuote) with
    | [] => .error (.unclosedString (Glyph.text rest) g.offset)
    | _ :: after => .ok (⟨.string, some (Glyph.text (rest.takeWhile (!·.isQuote)))⟩, after)
  else
    match symbol? g.char rest with
    | some (kind, after) => .ok (spelled kind, after)
    | none => .error (.strayCharacter g.char g.offset)

theorem symbol?_suffix {c : Char} {rest after : List Glyph} {kind : Kind}
    (h : symbol? c rest = some (kind, after)) : after <:+ rest := by
  unfold symbol? at h
  split at h
  case h_2 | h_3 =>
    split at h
    · cases h; exact List.suffix_rfl
    · split at h
      · cases h; exact List.suffix_cons _ _
      · grind [List.suffix_cons]
  all_goals cases h
  all_goals exact List.suffix_rfl

/-- A token takes at least the glyph it starts with, and leaves the end of the text as it is. -/
theorem first_suffix {g : Glyph} {rest after : List Glyph} {token : Token}
    (h : first g rest = .ok (token, after)) : after <:+ rest := by
  unfold first at h
  split at h
  · cases h; exact List.dropWhile_suffix _
  split at h
  · cases h; exact List.dropWhile_suffix _
  split at h
  · simp only at h
    split at h
    · cases h; exact List.dropWhile_suffix _
    · cases h
  split at h
  · split at h
    · cases h
    · rename_i quote tail hd
      cases h
      have closing : after <:+ rest.dropWhile (!·.isQuote) := by
        rw [hd]
        exact List.suffix_cons _ _
      exact closing.trans (List.dropWhile_suffix _)
  · split at h
    · rename_i kind tail hs
      cases h
      exact symbol?_suffix hs
    · cases h

/-- Puts the tokens of `glyphs` behind those already found, which are listed latest first. -/
def scanOnto (done : List Token) (glyphs : List Glyph) : Except ScanError (List Token) :=
  match glyphs with
  | [] => .ok (finish :: done).reverse
  | g :: rest =>
    match h : first g rest with
    | .error cause => .error cause
    | .ok (token, after) =>
      have := (first_suffix h).length_le
      scanOnto (token :: done) after
termination_by glyphs.length

def scan (glyphs : List Glyph) : Except ScanError (List Token) := scanOnto [] glyphs

theorem scanOnto_eq (done : List Token) (glyphs : List Glyph) :
    scanOnto done glyphs = (scan glyphs).map (done.reverse ++ ·) := by
  induction hn : glyphs.length using Nat.strongRecOn generalizing done glyphs with
  | ind n ih =>
    cases glyphs with
    | nil => simp [scan, scanOnto, Except.map]
    | cons g rest =>
      rw [scan, scanOnto, scanOnto]
      split
      · rfl
      · rename_i token after hf
        have hlt : after.length < n := by
          have := (first_suffix hf).length_le
          simp only [List.length_cons] at hn
          omega
        rw [ih _ hlt (token :: done) after rfl, ih _ hlt [token] after rfl]
        cases scan after <;> simp [Except.map]

theorem scan_nil : scan [] = .ok [finish] := by simp [scan, scanOnto]

/-- The scan of a text is its first token followed by the scan of what is left. -/
theorem scan_cons (g : Glyph) (rest : List Glyph) :
    scan (g :: rest) = (first g rest).bind fun (token, after) =>
      (scan after).map (token :: ·) := by
  rw [scan, scanOnto]
  split
  · rename_i hf
    simp [hf, Except.bind]
  · rename_i token after hf
    rw [scanOnto_eq, hf]
    simp [Except.bind]

end Token

/-- The tokens of a text, the end of the text as the last of them. -/
def tokenize (text : String) : Except ScanError (List Token) :=
  Token.scan (Glyph.fold text.toList)

end SmallSql
