import SmallSql.Proofs.Lexemes

namespace SmallSql

section
variable {α : Type} {next : Char → Prop} {P : α → Prop} {f : α → List Char}

/-- A text that is empty or starts with a character that may stand behind a value. -/
def Follows (next : Char → Prop) (rest : List Char) : Prop := ∀ c ∈ rest.head?, next c

theorem follows_nil : Follows next [] := by simp [Follows]

theorem follows_cons {c : Char} {rest : List Char} : Follows next (c :: rest) ↔ next c := by
  simp [Follows]

/-- No other value in `P` is rendered at the start of a text that starts with `a`. -/
def Unmistakable (next : Char → Prop) (P : α → Prop) (f : α → List Char) (a : α) : Prop :=
  ∀ b, P b → ∀ r s, Follows next r → Follows next s → f a ++ r = f b ++ s → a = b ∧ r = s

def StartsBefore (stop : Char) (next : Char → Prop) (rendering : List Char) : Prop :=
  ∃ c rest, rendering = c :: rest ∧ c ≠ stop ∧ next c

theorem StartsBefore.ne {stop : Char} {rendering : List Char}
    (h : StartsBefore stop next rendering) (r s : List Char) : stop :: r ≠ rendering ++ s := by
  obtain ⟨c, rest, rfl, hne, -⟩ := h
  exact fun he => hne (List.cons.inj he).1.symm

namespace Unmistakable

theorem eq {a b : α} (h : Unmistakable next P f a) (hb : P b) (he : f a = f b) : a = b :=
  (h b hb [] [] follows_nil follows_nil (by rw [he])).1

theorem cons (c : Char) {a : α} (h : Unmistakable next P f a) :
    Unmistakable next P (fun a => c :: f a) a := by
  intro b hb r s hr hs he
  exact h b hb r s hr hs (List.cons.inj he).2

/-- Values one behind the other, up to a character that starts none of them. -/
theorem flatMap {stop : Char} (hstop : next stop)
    (hstart : ∀ a, P a → StartsBefore stop next (f a)) {xs ys : List α}
    (hx : ∀ x ∈ xs, P x ∧ Unmistakable next P f x) (hy : ∀ y ∈ ys, P y) {r s : List Char}
    (he : xs.flatMap f ++ stop :: r = ys.flatMap f ++ stop :: s) : xs = ys ∧ r = s := by
  -- Behind every value stands the next one or the end.
  have hfollows (zs : List α) (hz : ∀ z ∈ zs, P z) (t : List Char) :
      Follows next (zs.flatMap f ++ stop :: t) := by
    cases zs with
    | nil => exact follows_cons.mpr hstop
    | cons z zs =>
      obtain ⟨c, rest, hc, -, hn⟩ := hstart z (hz z List.mem_cons_self)
      rw [List.flatMap_cons, hc]
      exact follows_cons.mpr hn
  induction xs generalizing ys with
  | nil =>
    cases ys with
    | nil => exact ⟨rfl, (List.cons.inj he).2⟩
    | cons y ys =>
      rw [List.flatMap_cons, List.append_assoc] at he
      exact absurd he ((hstart y (hy y List.mem_cons_self)).ne _ _)
  | cons x xs ih =>
    obtain ⟨⟨hPx, hux⟩, hxs⟩ := List.forall_mem_cons.mp hx
    cases ys with
    | nil =>
      rw [List.flatMap_cons, List.append_assoc] at he
      exact absurd he.symm ((hstart x hPx).ne _ _)
    | cons y ys =>
      obtain ⟨hPy, hys⟩ := List.forall_mem_cons.mp hy
      simp only [List.flatMap_cons, List.append_assoc] at he
      obtain ⟨rfl, hrest⟩ := hux y hPy _ _ (hfollows xs (fun z hz => (hxs z hz).1) r)
        (hfollows ys hys s) he
      obtain ⟨rfl, rfl⟩ := ih hxs hys hrest
      exact ⟨rfl, rfl⟩

end Unmistakable

theorem toList_intercalate_cons (separator part : String) (rest : List String) :
    (separator.intercalate (part :: rest)).toList =
      part.toList ++ rest.flatMap fun p => separator.toList ++ p.toList := by
  induction rest generalizing part with
  | nil => simp
  | cons p rest ih =>
    rw [String.intercalate_cons_cons, String.toList_append, String.toList_append, ih,
      List.flatMap_cons]
    simp only [List.append_assoc]

theorem Unmistakable.commas (next : Char → Prop) {f : α → String} {stop : Char}
    (hcomma : next ',') (hstop : next stop) (hne : ',' ≠ stop)
    (hstart : ∀ a, P a → StartsBefore stop (fun _ => True) (f a).toList) {xs ys : List α}
    (hx : ∀ x ∈ xs, P x ∧ Unmistakable next P (fun a => (f a).toList) x)
    (hy : ∀ y ∈ ys, P y) {r s : List Char}
    (he : (",".intercalate (xs.map f)).toList ++ stop :: r =
      (",".intercalate (ys.map f)).toList ++ stop :: s) : xs = ys ∧ r = s := by
  have hbehind (zs : List α) (t : List Char) :
      Follows next ((zs.flatMap fun a => ',' :: (f a).toList) ++ stop :: t) := by
    cases zs with
    | nil => exact follows_cons.mpr hstop
    | cons z zs => exact follows_cons.mpr hcomma
  cases xs with
  | nil =>
    cases ys with
    | nil => simpa using he
    | cons y ys =>
      rw [List.map_cons, toList_intercalate_cons, List.append_assoc] at he
      exact absurd he ((hstart y (hy y List.mem_cons_self)).ne _ _)
  | cons x xs =>
    obtain ⟨⟨hPx, hux⟩, hxs⟩ := List.forall_mem_cons.mp hx
    cases ys with
    | nil =>
      rw [List.map_cons, toList_intercalate_cons, List.append_assoc] at he
      exact absurd he.symm ((hstart x hPx).ne _ _)
    | cons y ys =>
      obtain ⟨hPy, hys⟩ := List.forall_mem_cons.mp hy
      simp only [List.map_cons, toList_intercalate_cons, List.append_assoc, List.flatMap_map] at he
      obtain ⟨rfl, hrest⟩ := hux y hPy _ _ (hbehind xs r) (hbehind ys s) he
      obtain ⟨rfl, rfl⟩ := Unmistakable.flatMap hstop (fun a _ => ⟨',', _, rfl, hne, hcomma⟩)
        (fun z hz => ⟨(hxs z hz).1, (hxs z hz).2.cons ','⟩) hys hrest
      exact ⟨rfl, rfl⟩

end

theorem run_cancel {p : Char → Bool} {run run' r s : List Char} (hr : ∀ c ∈ run, p c = true)
    (hr' : ∀ c ∈ run', p c = true) (hf : Follows (fun c => p c = false) r)
    (hf' : Follows (fun c => p c = false) s) (he : run ++ r = run' ++ s) : run = run' ∧ r = s := by
  obtain ⟨ht, hd⟩ := span_iff.mpr ⟨rfl, hr, hf⟩
  obtain ⟨ht', hd'⟩ := span_iff.mpr ⟨rfl, hr', hf'⟩
  rw [he] at ht hd
  exact ⟨ht.symm.trans ht', hd.symm.trans hd'⟩

namespace Json

theorem induct {motive : Json → Prop} (null : motive .null) (string : ∀ text, motive (.string text))
    (array : ∀ items, (∀ item ∈ items, motive item) → motive (.array items))
    (object : ∀ fields : List (String × Json), (∀ field ∈ fields, motive field.2) →
      motive (.object fields)) (json : Json) : motive json :=
  match json with
  | .null => null
  | .string text => string text
  | .array items => array items fun item _ => induct null string array object item
  | .object fields => object fields fun field _ => induct null string array object field.2
termination_by sizeOf json
decreasing_by
  · rename_i h
    have := List.sizeOf_lt_of_mem h
    simp only [Json.array.sizeOf_spec]
    omega
  · rename_i h
    have := List.sizeOf_lt_of_mem h
    obtain ⟨key, value⟩ := field
    simp only [Json.object.sizeOf_spec, Prod.mk.sizeOf_spec] at this ⊢
    omega

def hexValue (digit : Char) : Nat :=
  if digit.toNat < 58 then digit.toNat - 48 else digit.toNat - 87

/-- The first character that is spelled out in a string, and what stands behind it. -/
def unescape? : List Char → Option (Char × List Char)
  | '\\' :: 'b' :: rest => some ('\x08', rest)
  | '\\' :: 'f' :: rest => some ('\x0c', rest)
  | '\\' :: 'n' :: rest => some ('\n', rest)
  | '\\' :: 'r' :: rest => some ('\r', rest)
  | '\\' :: 't' :: rest => some ('\t', rest)
  | '\\' :: 'u' :: '0' :: '0' :: high :: low :: rest =>
    some (Char.ofNat (16 * hexValue high + hexValue low), rest)
  | '\\' :: c :: rest => some (c, rest)
  | c :: rest => some (c, rest)
  | [] => none

theorem hexValue_hexDigit {n : Nat} (h : n < 16) : hexValue (hexDigit n) = n := by
  have hall : ∀ n < 16, hexValue (hexDigit n) = n := by decide
  exact hall n h

theorem unescape?_cons {c : Char} (h : c ≠ '\\') (rest : List Char) :
    unescape? (c :: rest) = some (c, rest) := by
  unfold unescape?
  split <;> simp_all

theorem unescape?_escape (c : Char) (rest : List Char) :
    unescape? (escape c ++ rest) = some (c, rest) := by
  unfold escape
  split
  case h_8 =>
    split
    · change some (Char.ofNat (16 * hexValue _ + hexValue _), rest) = _
      rw [hexValue_hexDigit (by omega), hexValue_hexDigit (by omega), Nat.div_add_mod,
        Char.ofNat_toNat]
    · exact unescape?_cons (by assumption) rest
  all_goals rfl

theorem escape_unmistakable (c : Char) :
    Unmistakable (fun _ => True) (fun _ => True) escape c := by
  intro d _ r s _ _ he
  have h := congrArg unescape? he
  rw [unescape?_escape, unescape?_escape, Option.some.injEq, Prod.mk.injEq] at h
  exact h

theorem escape_startsBefore (c : Char) : StartsBefore '"' (fun _ => True) (escape c) := by
  unfold escape
  split
  case h_8 =>
    split
    · exact ⟨'\\', _, rfl, by decide, trivial⟩
    · exact ⟨c, [], rfl, by assumption, trivial⟩
  all_goals exact ⟨'\\', _, rfl, by decide, trivial⟩

theorem toList_quote (text : String) :
    (quote text).toList = '"' :: (text.toList.flatMap escape ++ ['"']) := by
  simp only [quote, String.toList_append, String.toList_ofList, List.append_assoc]
  rfl

theorem quote_unmistakable (text : String) :
    Unmistakable (fun _ => True) (fun _ => True) (fun text => (quote text).toList) text := by
  intro text' _ r s _ _ he
  simp only [toList_quote, List.cons_append, List.append_assoc, List.cons.injEq, true_and] at he
  obtain ⟨ht, hrest⟩ := Unmistakable.flatMap trivial (fun c _ => escape_startsBefore c)
    (fun c _ => ⟨trivial, escape_unmistakable c⟩) (fun _ _ => trivial) he
  exact ⟨String.toList_inj.mp ht, hrest⟩

def compactField (field : String × Json) : String := quote field.1 ++ ":" ++ field.2.compact

theorem compactItems_eq (items : List Json) : compactItems items = items.map compact := by
  induction items with
  | nil => rfl
  | cons item rest ih => rw [compactItems, ih, List.map_cons]

theorem compactFields_eq (fields : List (String × Json)) :
    compactFields fields = fields.map compactField := by
  induction fields with
  | nil => rfl
  | cons field rest ih =>
    obtain ⟨key, value⟩ := field
    rw [compactFields, ih, List.map_cons, compactField]

def opening : Json → Char
  | .null => 'n'
  | .string _ => '"'
  | .array _ => '['
  | .object _ => '\x7b'

theorem toList_compact_null : Json.null.compact.toList = ['n', 'u', 'l', 'l'] := by
  simp [compact]

theorem toList_compact_array (items : List Json) : (Json.array items).compact.toList =
    '[' :: ((",".intercalate (items.map compact)).toList ++ [']']) := by
  simp only [compact, compactItems_eq, String.toList_append, List.append_assoc]
  rfl

theorem toList_compact_object (fields : List (String × Json)) :
    (Json.object fields).compact.toList =
      '\x7b' :: ((",".intercalate (fields.map compactField)).toList ++ ['\x7d']) := by
  simp only [compact, compactFields_eq, String.toList_append, List.append_assoc]
  rfl

theorem exists_compact (json : Json) : ∃ rest, json.compact.toList = json.opening :: rest := by
  cases json with
  | null => exact ⟨_, toList_compact_null⟩
  | string text => exact ⟨_, (congrArg String.toList (by rw [compact])).trans (toList_quote text)⟩
  | array items => exact ⟨_, toList_compact_array items⟩
  | object fields => exact ⟨_, toList_compact_object fields⟩

theorem opening_eq {a b : Json} {r s : List Char}
    (he : a.compact.toList ++ r = b.compact.toList ++ s) : a.opening = b.opening := by
  obtain ⟨rest, ha⟩ := exists_compact a
  obtain ⟨rest', hb⟩ := exists_compact b
  rw [ha, hb] at he
  exact (List.cons.inj he).1

theorem compact_startsBefore (json : Json) :
    StartsBefore ']' (fun _ => True) json.compact.toList := by
  obtain ⟨rest, h⟩ := exists_compact json
  refine ⟨json.opening, rest, h, ?_, trivial⟩
  cases json <;> simp [opening]

theorem toList_compactField (field : String × Json) : (compactField field).toList =
    (quote field.1).toList ++ ':' :: field.2.compact.toList := by
  simp only [compactField, String.toList_append, List.append_assoc]
  rfl

theorem compactField_startsBefore (field : String × Json) :
    StartsBefore '\x7d' (fun _ => True) (compactField field).toList := by
  rw [toList_compactField, toList_quote]
  exact ⟨'"', _, rfl, by decide, trivial⟩

/-- A value is known by its compact text, whatever stands behind it. -/
theorem compact_unmistakable (json : Json) :
    Unmistakable (fun _ => True) (fun _ => True) (fun json => json.compact.toList) json := by
  induction json using induct with
  | null =>
    intro other _ r s _ _ he
    have ho := opening_eq he
    cases other with
    | null => exact ⟨rfl, List.append_cancel_left he⟩
    | _ => simp [opening] at ho
  | string text =>
    intro other _ r s hr hs he
    have ho := opening_eq he
    cases other with
    | string text' =>
      simp only [compact] at he
      obtain ⟨ht, hrest⟩ := quote_unmistakable text text' trivial r s hr hs he
      exact ⟨congrArg string ht, hrest⟩
    | _ => simp [opening] at ho
  | array items ih =>
    intro other _ r s _ _ he
    have ho := opening_eq he
    cases other with
    | array items' =>
      simp only [toList_compact_array, List.cons_append, List.append_assoc, List.cons.injEq,
        true_and] at he
      obtain ⟨hi, hrest⟩ := Unmistakable.commas (fun _ => True) trivial trivial (by decide)
        (fun item _ => item.compact_startsBefore) (fun item h => ⟨trivial, ih item h⟩)
        (fun _ _ => trivial) he
      exact ⟨congrArg array hi, hrest⟩
    | _ => simp [opening] at ho
  | object fields ih =>
    intro other _ r s _ _ he
    have ho := opening_eq he
    have hcolon (rest : List Char) : Follows (fun _ => True) (':' :: rest) :=
      follows_cons.mpr trivial
    -- The key is known by its quotes, so both texts come to the value behind the colon.
    have hfield (field : String × Json) (h : field ∈ fields) : Unmistakable (fun _ => True)
        (fun _ => True) (fun field => (compactField field).toList) field := by
      intro field' _ r s hr hs he
      simp only [toList_compactField, List.append_assoc, List.cons_append] at he
      obtain ⟨hk, hv⟩ := quote_unmistakable field.1 field'.1 trivial _ _ (hcolon _) (hcolon _) he
      obtain ⟨hv, hrest⟩ := ih field h field'.2 trivial r s hr hs (List.cons.inj hv).2
      exact ⟨Prod.ext hk hv, hrest⟩
    cases other with
    | object fields' =>
      simp only [toList_compact_object, List.cons_append, List.append_assoc, List.cons.injEq,
        true_and] at he
      obtain ⟨hf, hrest⟩ := Unmistakable.commas (fun _ => True) trivial trivial (by decide)
        (fun field _ => compactField_startsBefore field) (fun field h => ⟨trivial, hfield field h⟩)
        (fun _ _ => trivial) he
      exact ⟨congrArg object hf, hrest⟩
    | _ => simp [opening] at ho

def isSpace (c : Char) : Bool := c == ' ' || c == '\n' || c == '\r' || c == '\t'

inductive Place where
  | outside
  | inString
  | escaped
deriving DecidableEq, Repr

def Place.after (place : Place) (c : Char) : Place :=
  match place with
  | .outside => if c = '"' then .inString else .outside
  | .inString => if c = '"' then .outside else if c = '\\' then .escaped else .inString
  | .escaped => .inString

def squeezeFrom (place : Place) : List Char → List Char
  | [] => []
  | c :: rest =>
    if place = .outside ∧ isSpace c = true then squeezeFrom .outside rest
    else c :: squeezeFrom (place.after c) rest

/-- Takes the white space out of a JSON text, but leaves its strings as they are. -/
def squeeze (text : String) : String := String.ofList (squeezeFrom .outside text.toList)

/-- `text` becomes `squeezed` where it stands between other tokens. -/
def SqueezesTo (text squeezed : List Char) : Prop :=
  ∀ rest, squeezeFrom .outside (text ++ rest) = squeezed ++ squeezeFrom .outside rest

namespace SqueezesTo

variable {a a' b b' : List Char}

theorem nil : SqueezesTo [] [] := fun _ => rfl

theorem append (ha : SqueezesTo a a') (hb : SqueezesTo b b') : SqueezesTo (a ++ b) (a' ++ b') := by
  intro rest
  rw [List.append_assoc, ha, hb, List.append_assoc]

theorem spaces (h : ∀ c ∈ a, isSpace c = true) : SqueezesTo a [] := by
  intro rest
  induction a with
  | nil => rfl
  | cons c a ih =>
    obtain ⟨hc, ha⟩ := List.forall_mem_cons.mp h
    rw [List.cons_append, squeezeFrom, if_pos ⟨rfl, hc⟩]
    exact ih ha

theorem plain (h : ∀ c ∈ a, isSpace c = false ∧ c ≠ '"') : SqueezesTo a a := by
  intro rest
  induction a with
  | nil => rfl
  | cons c a ih =>
    obtain ⟨hc, ha⟩ := List.forall_mem_cons.mp h
    rw [List.cons_append, squeezeFrom, if_neg (by simp [hc.1]), Place.after, if_neg hc.2, ih ha]
    rfl

theorem flatMap {α : Type} {f g : α → List Char} {xs : List α}
    (h : ∀ x ∈ xs, SqueezesTo (f x) (g x)) : SqueezesTo (xs.flatMap f) (xs.flatMap g) := by
  induction xs with
  | nil => exact nil
  | cons x xs ih =>
    obtain ⟨hx, hxs⟩ := List.forall_mem_cons.mp h
    exact hx.append (ih hxs)

end SqueezesTo

theorem hexDigit_ne {n : Nat} (h : n < 16) : hexDigit n ≠ '"' ∧ hexDigit n ≠ '\\' := by
  have hall : ∀ n < 16, hexDigit n ≠ '"' ∧ hexDigit n ≠ '\\' := by decide
  exact hall n h

theorem squeezeFrom_inString {c : Char} (h : c ≠ '"' ∧ c ≠ '\\') (rest : List Char) :
    squeezeFrom .inString (c :: rest) = c :: squeezeFrom .inString rest := by
  simp [squeezeFrom, Place.after, h]

theorem squeezeFrom_escape (c : Char) (rest : List Char) :
    squeezeFrom .inString (escape c ++ rest) = escape c ++ squeezeFrom .inString rest := by
  unfold escape
  split
  case h_8 =>
    split
    · have hhex (rest : List Char) : squeezeFrom .inString ('\\' :: 'u' :: '0' :: '0' :: rest) =
          '\\' :: 'u' :: '0' :: '0' :: squeezeFrom .inString rest := rfl
      simp only [List.cons_append, List.nil_append, hhex]
      rw [squeezeFrom_inString (hexDigit_ne (by omega)),
        squeezeFrom_inString (hexDigit_ne (by omega))]
    · exact squeezeFrom_inString ⟨by assumption, by assumption⟩ rest
  all_goals rfl

theorem squeezesTo_quote (text : String) : SqueezesTo (quote text).toList (quote text).toList := by
  intro rest
  have hrun (cs : List Char) : squeezeFrom .inString (cs.flatMap escape ++ '"' :: rest) =
      cs.flatMap escape ++ '"' :: squeezeFrom .outside rest := by
    induction cs with
    | nil => rfl
    | cons c cs ih =>
      rw [List.flatMap_cons, List.append_assoc, squeezeFrom_escape, ih, List.append_assoc]
  have hopen (rest : List Char) :
      squeezeFrom .outside ('"' :: rest) = '"' :: squeezeFrom .inString rest := rfl
  simp only [toList_quote, List.cons_append, List.append_assoc, List.nil_append, hopen, hrun]

theorem squeezesTo_margin (depth : Nat) : SqueezesTo (margin depth).toList [] := by
  apply SqueezesTo.spaces
  intro c hc
  rw [margin, String.toList_ofList] at hc
  obtain rfl := List.eq_of_mem_replicate hc
  rfl

/-- The lines of a block are squeezed into its parts with commas between them. -/
theorem squeezesTo_block {α : Type} {opening closing : String} (depth : Nat) {f g : α → String}
    {xs : List α} (ho : SqueezesTo opening.toList opening.toList)
    (hc : SqueezesTo closing.toList closing.toList)
    (h : ∀ x ∈ xs, SqueezesTo (f x).toList (g x).toList) :
    SqueezesTo (block opening closing depth (xs.map f)).toList
      (opening ++ ",".intercalate (xs.map g) ++ closing).toList := by
  have hline (x : α) (hx : x ∈ xs) :
      SqueezesTo (margin (depth + 1) ++ f x).toList (g x).toList := by
    rw [String.toList_append]
    exact (squeezesTo_margin _).append (h x hx)
  have hbreak : SqueezesTo "\n".toList [] := .spaces (by simp [isSpace])
  have hcomma : SqueezesTo ",\n".toList ",".toList := fun _ => rfl
  cases xs with
  | nil => simpa [block] using ho.append hc
  | cons x xs =>
    obtain ⟨hx, hxs⟩ := List.forall_mem_cons.mp hline
    have hrest := SqueezesTo.flatMap fun y hy => hcomma.append (hxs y hy)
    have hlines := ho.append (hbreak.append (hx.append (hrest.append
      (hbreak.append ((squeezesTo_margin depth).append hc)))))
    simpa only [block, List.map_cons, List.isEmpty_cons, Bool.false_eq_true, if_false,
      String.toList_append, toList_intercalate_cons, List.map_map, List.flatMap_map,
      Function.comp_apply, List.append_assoc, List.nil_append] using hlines

def prettyField (depth : Nat) (field : String × Json) : String :=
  quote field.1 ++ ": " ++ field.2.prettyAt depth

theorem prettyItems_eq (depth : Nat) (items : List Json) :
    prettyItems depth items = items.map (prettyAt depth) := by
  induction items with
  | nil => rfl
  | cons item rest ih => rw [prettyItems, ih, List.map_cons]

theorem prettyFields_eq (depth : Nat) (fields : List (String × Json)) :
    prettyFields depth fields = fields.map (prettyField depth) := by
  induction fields with
  | nil => rfl
  | cons field rest ih =>
    obtain ⟨key, value⟩ := field
    rw [prettyFields, ih, List.map_cons, prettyField]

theorem squeezesTo_prettyAt (json : Json) (depth : Nat) :
    SqueezesTo (json.prettyAt depth).toList json.compact.toList := by
  induction json using induct generalizing depth with
  | null =>
    rw [prettyAt, compact]
    exact .plain (by simp [isSpace])
  | string text =>
    rw [prettyAt, compact]
    exact squeezesTo_quote text
  | array items ih =>
    rw [prettyAt, prettyItems_eq, compact, compactItems_eq]
    exact squeezesTo_block depth (.plain (by simp [isSpace])) (.plain (by simp [isSpace]))
      fun item h => ih item h (depth + 1)
  | object fields ih =>
    rw [prettyAt, prettyFields_eq, compact, compactFields_eq]
    refine squeezesTo_block depth (.plain (by simp [isSpace])) (.plain (by simp [isSpace]))
      fun field h => ?_
    have hcolon : SqueezesTo ": ".toList ":".toList := fun _ => rfl
    have hfield := (squeezesTo_quote field.1).append (hcolon.append (ih field h (depth + 1)))
    simpa only [prettyField, compactField, String.toList_append, List.append_assoc] using hfield

/-- The pretty text is the compact text with white space added outside strings. -/
theorem squeeze_pretty (json : Json) : squeeze json.pretty = json.compact := by
  have h := squeezesTo_prettyAt json 0 []
  rw [List.append_nil] at h
  rw [squeeze, pretty_eq, h]
  simp [squeezeFrom]

end Json

end SmallSql
