import SmallSql.Proofs.Characters

namespace SmallSql

open Unicode

/-- A letter with letters and numerals behind it. -/
def IsWord : List Char → Prop
  | [] => False
  | c :: rest =>
    isAlphabetic c = true ∧ ∀ d ∈ rest, (isAlphabetic d || isNumeric d) = true

instance : DecidablePred IsWord
  | [] => .isFalse id
  | c :: rest =>
    decidable_of_iff (isAlphabetic c && rest.all fun d => isAlphabetic d || isNumeric d)
      (by simp [IsWord])

namespace Kind

def isSymbol : Kind → Bool
  | .comparison _ | .comma | .star | .openParen | .closeParen => true
  | _ => false

end Kind

namespace Token

/-- A token that a text can have, by kind. -/
inductive WellFormed : Token → Prop where
  | keyword (k : Keyword) : WellFormed ⟨.keyword k, none⟩
  | name {word : String} (hw : IsWord word.toList) (hk : Keyword.ofWord? word = none) :
    WellFormed ⟨.object, some word⟩
  | integer {digits : String} (hd : digits.toList ≠ []) (hi : isInteger digits.toList = true) :
    WellFormed ⟨.integer, some digits⟩
  | string {text : String} (hq : '\x27' ∉ text.toList) : WellFormed ⟨.string, some text⟩
  | blank {text : String} (hn : text.toList ≠ [])
    (hb : ∀ c ∈ text.toList, isWhiteSpace c = true) : WellFormed ⟨.blank, some text⟩
  | symbol {kind : Kind} (hk : kind.isSymbol = true) : WellFormed (spelled kind)

/-- The characters that the token takes up in a text. -/
def written (t : Token) : List Char :=
  match t.kind with
  | .string => '\x27' :: (t.lexeme.toList ++ ['\x27'])
  | _ => t.lexeme.toList

/-- The token would not have ended before such a character. -/
def goesOn (t : Token) (c : Char) : Bool :=
  match t.kind with
  | .keyword _ | .object | .integer => isAlphabetic c || isNumeric c
  | .blank => isWhiteSpace c
  | .comparison .less => c == '=' || c == '>'
  | .comparison .greater => c == '='
  | _ => false

end Token

theorem span_iff {α : Type} {p : α → Bool} {l run after : List α} :
    l.takeWhile p = run ∧ l.dropWhile p = after ↔
      l = run ++ after ∧ (∀ x ∈ run, p x = true) ∧ ∀ x ∈ after.head?, p x = false := by
  constructor
  · intro h
    obtain ⟨rfl, rfl⟩ := h
    refine ⟨List.takeWhile_append_dropWhile.symm, List.all_eq_true.mp List.all_takeWhile, ?_⟩
    intro x hx
    have h := List.head?_dropWhile_not p l
    rw [Option.mem_def.mp hx] at h
    simpa using h
  · intro h
    obtain ⟨rfl, hr, ha⟩ := h
    rw [List.takeWhile_append_of_pos hr, List.dropWhile_append_of_pos hr]
    cases after with
    | nil => simp
    | cons x after => simp [ha x rfl]

theorem takeWhile_append_of_head {α : Type} {p : α → Bool} (l : List α) {tail : List α}
    (h : ∀ x ∈ tail.head?, p x = false) : (l ++ tail).takeWhile p = l.takeWhile p := by
  induction l with
  | nil => exact (span_iff.mpr ⟨rfl, by simp, h⟩).1
  | cons x l ih => rw [List.cons_append, List.takeWhile_cons, List.takeWhile_cons, ih]

namespace Token

variable {g : Glyph} {rest after : List Glyph}

theorem ofWord_wellFormed {word : String} (h : IsWord word.toList) : WellFormed (ofWord word) := by
  unfold ofWord
  split
  · exact .keyword _
  · exact .name h ‹_›

theorem written_ofWord (word : String) : (ofWord word).written = word.toList := by
  unfold ofWord
  split
  · rename_i k hk
    obtain rfl := Keyword.ofWord?_eq_some_iff.mp hk
    rfl
  · rfl

theorem goesOn_ofWord (word : String) (c : Char) :
    (ofWord word).goesOn c = (isAlphabetic c || isNumeric c) := by
  unfold ofWord
  split <;> rfl

theorem ofWord_word (k : Keyword) : ofWord k.word = ⟨.keyword k, none⟩ := by
  rw [ofWord, Keyword.ofWord?_word]

theorem isWord_word (k : Keyword) : IsWord k.word.toList := by
  cases k <;> simp [Keyword.word, IsWord] <;> decide

theorem first_blank (h : g.isBlank = true) : first g rest =
    .ok (⟨.blank, some (Glyph.text (g :: rest.takeWhile Glyph.isBlank))⟩,
      rest.dropWhile Glyph.isBlank) := by
  rw [first, if_pos h]

theorem first_word (h : isAlphabetic g.char = true) : first g rest =
    .ok (ofWord (Glyph.text (g :: rest.takeWhile Glyph.isWordPart)),
      rest.dropWhile Glyph.isWordPart) := by
  have hb : ¬ g.isBlank = true := by simp [Glyph.isBlank, not_isWhiteSpace_of_isAlphabetic h]
  rw [first, if_neg hb, if_pos h]

theorem first_digit (h : g.char.isDigit = true) : first g rest =
    if isInteger ((g :: rest.takeWhile Glyph.isWordPart).map Glyph.char) then
      .ok (⟨.integer, some (Glyph.text (g :: rest.takeWhile Glyph.isWordPart))⟩,
        rest.dropWhile Glyph.isWordPart)
    else .error (.invalidInteger (Glyph.text (g :: rest.takeWhile Glyph.isWordPart)) g.offset) := by
  obtain ⟨hw, ha, hn⟩ := classes_of_isDigit h
  have hb : ¬ g.isBlank = true := by simp [Glyph.isBlank, hw]
  rw [first, if_neg hb, if_neg (by simp [ha]), if_pos hn]

theorem first_quote (h : g.char = '\x27') : first g rest =
    match rest.dropWhile (!·.isQuote) with
    | [] => .error (.unclosedString (Glyph.text rest) g.offset)
    | _ :: after => .ok (⟨.string, some (Glyph.text (rest.takeWhile (!·.isQuote)))⟩, after) := by
  obtain ⟨c, offset⟩ := g
  subst h
  rfl

theorem first_symbol {kind : Kind} (h : symbol? g.char rest = some (kind, after)) :
    first g rest = .ok (spelled kind, after) := by
  have hc : g.isBlank = false ∧ isAlphabetic g.char = false ∧ isNumeric g.char = false ∧
      g.isQuote = false := by
    obtain ⟨c, offset⟩ := g
    unfold symbol? at h
    split at h
    case h_8 => cases h
    all_goals
      rename_i hc
      simp only at hc
      subst hc
      exact ⟨rfl, rfl, rfl, rfl⟩
  simp [first, hc, h]

theorem written_spelled (kind : Kind) (h : kind.isSymbol = true) :
    (spelled kind).written = (kind.spelling.getD "").toList := by
  cases kind <;> first | rfl | cases h

theorem of_symbol? {c : Char} {kind : Kind} (h : symbol? c rest = some (kind, after)) :
    kind.isSymbol = true ∧
    (∃ gs, rest = gs ++ after ∧ (spelled kind).written = c :: gs.map Glyph.char) ∧
    ∀ h ∈ after.head?, (spelled kind).goesOn h.char = false := by
  unfold symbol? at h
  split at h
  case h_2 =>
    split at h
    · cases h
      exact ⟨rfl, ⟨[], rfl, rfl⟩, by simp⟩
    · rename_i g tail
      split at h
      · cases h
        exact ⟨rfl, ⟨[g], rfl, by simp [*]; rfl⟩, fun _ _ => rfl⟩
      · split at h
        · cases h
          exact ⟨rfl, ⟨[g], rfl, by simp [*]; rfl⟩, fun _ _ => rfl⟩
        · cases h
          exact ⟨rfl, ⟨[], rfl, rfl⟩, by simp [goesOn, spelled, *]⟩
  case h_3 =>
    split at h
    · cases h
      exact ⟨rfl, ⟨[], rfl, rfl⟩, by simp⟩
    · rename_i g tail
      split at h
      · cases h
        exact ⟨rfl, ⟨[g], rfl, by simp [*]; rfl⟩, fun _ _ => rfl⟩
      · cases h
        exact ⟨rfl, ⟨[], rfl, rfl⟩, by simp [goesOn, spelled, *]⟩
  case h_8 => cases h
  all_goals
    cases h
    exact ⟨rfl, ⟨[], rfl, rfl⟩, fun _ _ => rfl⟩

theorem symbol?_eq {c : Char} {kind : Kind} (hk : kind.isSymbol = true) {gs : List Glyph}
    (hw : (spelled kind).written = c :: gs.map Glyph.char)
    (ha : ∀ h ∈ after.head?, (spelled kind).goesOn h.char = false) :
    symbol? c (gs ++ after) = some (kind, after) := by
  rw [written_spelled kind hk] at hw
  cases kind with
  | comparison d =>
    -- A spelling has one character or two.
    cases d <;> rcases gs with _ | ⟨g, _ | ⟨_, _⟩⟩ <;>
      simp [Kind.spelling, Comparison.spelling] at hw
    case equal.nil => subst hw; rfl
    case notEqual.cons.nil =>
      obtain ⟨rfl, hg⟩ := hw
      simp [symbol?, ← hg]
    case less.nil =>
      subst hw
      cases after with
      | nil => rfl
      | cons h tail =>
        have hh := ha h rfl
        simp [goesOn, spelled] at hh
        simp [symbol?, hh]
    case lessOrEqual.cons.nil =>
      obtain ⟨rfl, hg⟩ := hw
      simp [symbol?, ← hg]
    case greater.nil =>
      subst hw
      cases after with
      | nil => rfl
      | cons h tail =>
        have hh := ha h rfl
        simp [goesOn, spelled] at hh
        simp [symbol?, hh]
    case greaterOrEqual.cons.nil =>
      obtain ⟨rfl, hg⟩ := hw
      simp [symbol?, ← hg]
  | comma | star | openParen | closeParen =>
    rcases gs with _ | ⟨g, tail⟩ <;> simp [Kind.spelling] at hw
    subst hw
    rfl
  | _ => cases hk

/-- What the scan takes is well-formed, and ends where nothing goes on with it. -/
theorem WellFormed.of_first {t : Token} (h : first g rest = .ok (t, after)) :
    t.WellFormed ∧ (∃ gs, rest = gs ++ after ∧ t.written = g.char :: gs.map Glyph.char) ∧
    ∀ h ∈ after.head?, t.goesOn h.char = false := by
  unfold first at h
  split at h
  · rename_i hb
    cases h
    obtain ⟨hs, hr, ha⟩ := span_iff.mp ⟨rfl, rfl⟩
    refine ⟨.blank (by simp [Glyph.text]) ?_, ⟨_, hs, by simp [written, lexeme, Glyph.text]⟩, ha⟩
    simpa [Glyph.text] using ⟨hb, hr⟩
  split at h
  · rename_i ha
    cases h
    obtain ⟨hs, hr, hd⟩ := span_iff.mp ⟨rfl, rfl⟩
    refine ⟨ofWord_wellFormed ?_, ⟨_, hs, by simp [written_ofWord, Glyph.text]⟩, ?_⟩
    · simpa [Glyph.text, IsWord, Glyph.isWordPart] using And.intro ha hr
    · simpa [goesOn_ofWord, Glyph.isWordPart] using hd
  split at h
  · simp only at h
    split at h
    · rename_i hi
      cases h
      obtain ⟨hs, hr, hd⟩ := span_iff.mp ⟨rfl, rfl⟩
      refine ⟨.integer (by simp [Glyph.text]) ?_,
        ⟨_, hs, by simp [written, lexeme, Glyph.text]⟩, hd⟩
      simpa [Glyph.text] using hi
    · cases h
  split at h
  · rename_i hq
    split at h
    · cases h
    · rename_i q tail hd
      cases h
      obtain ⟨hs, hr, ha⟩ := span_iff.mp ⟨rfl, hd⟩
      have hq' : q.char = '\x27' := by simpa [Glyph.isQuote] using ha q rfl
      have hg : g.char = '\x27' := by simpa [Glyph.isQuote] using hq
      refine ⟨.string ?_, ⟨_, by rw [hs, List.append_cons], ?_⟩, fun _ _ => rfl⟩
      · simpa [Glyph.text, Glyph.isQuote] using hr
      · simp [written, lexeme, Glyph.text, hg, hq']
  · split at h
    · rename_i kind tail hs
      cases h
      obtain ⟨hk, hw, ha⟩ := of_symbol? hs
      exact ⟨.symbol hk, hw, ha⟩
    · cases h

theorem text_of_run {gs : List Glyph} {text : String}
    (hw : text.toList = g.char :: gs.map Glyph.char) {p : Glyph → Bool}
    (hr : ∀ h ∈ gs, p h = true) (ha : ∀ h ∈ after.head?, p h = false) :
    Glyph.text (g :: (gs ++ after).takeWhile p) = text ∧ (gs ++ after).dropWhile p = after := by
  obtain ⟨ht, hd⟩ := span_iff.mpr ⟨rfl, hr, ha⟩
  rw [ht, hd, Glyph.text, List.map_cons, ← hw, String.ofList_toList]
  exact ⟨rfl, rfl⟩

theorem first_ofWord {word : String} (h : IsWord word.toList) {gs : List Glyph}
    (hw : word.toList = g.char :: gs.map Glyph.char)
    (ha : ∀ h ∈ after.head?, (isAlphabetic h.char || isNumeric h.char) = false) :
    first g (gs ++ after) = .ok (ofWord word, after) := by
  rw [hw, IsWord] at h
  obtain ⟨hg, hr⟩ := h
  obtain ⟨ht, hd⟩ :=
    text_of_run hw (p := Glyph.isWordPart) (by simpa [Glyph.isWordPart] using hr) ha
  rw [first_word hg, ht, hd]

/-- A well-formed token is read where its characters stand, if the next one does not go on. -/
theorem WellFormed.first_eq {t : Token} (h : t.WellFormed) {gs : List Glyph}
    (hw : t.written = g.char :: gs.map Glyph.char)
    (ha : ∀ h ∈ after.head?, t.goesOn h.char = false) :
    first g (gs ++ after) = .ok (t, after) := by
  cases h with
  | keyword k =>
    rw [← ofWord_word, written_ofWord] at hw
    rw [first_ofWord (isWord_word k) hw ha, ofWord_word]
  | @name word h hk =>
    have := first_ofWord h hw ha
    rwa [ofWord, hk] at this
  | @integer digits hd hi =>
    have hw : digits.toList = g.char :: gs.map Glyph.char := hw
    rw [hw] at hi
    have hall : ∀ c ∈ g.char :: gs.map Glyph.char, c.isDigit = true := by
      simp only [isInteger, Bool.and_eq_true] at hi
      exact List.all_eq_true.mp hi.1
    obtain ⟨ht, hd⟩ := text_of_run hw (p := Glyph.isWordPart) (fun h hh => by
      have := classes_of_isDigit (hall h.char (List.mem_cons_of_mem _ (List.mem_map_of_mem hh)))
      simp [Glyph.isWordPart, this]) ha
    have hm : (g :: (gs ++ after).takeWhile Glyph.isWordPart).map Glyph.char =
        g.char :: gs.map Glyph.char := by
      rw [← hw, ← ht, Glyph.text, String.toList_ofList]
    rw [first_digit (hall g.char List.mem_cons_self), hm, if_pos hi, ht, hd]
  | @string text hq =>
    obtain ⟨hg, hgs⟩ := List.cons.inj hw
    obtain ⟨run, closing, rfl, hrun, hclosing⟩ := List.map_eq_append_iff.mp hgs.symm
    obtain ⟨q, rfl, hqc⟩ := List.map_eq_singleton_iff.mp hclosing
    have hr : ∀ h ∈ run, (!h.isQuote) = true := by
      intro h hh
      have : h.char ∈ text.toList := hrun ▸ List.mem_map_of_mem hh
      simp only [Glyph.isQuote, Bool.not_eq_eq_eq_not, Bool.not_true, beq_eq_false_iff_ne]
      exact fun he => hq (he ▸ this)
    obtain ⟨ht, hd⟩ := span_iff.mpr ⟨rfl, hr, show ∀ h ∈ (q :: after).head?, (!h.isQuote) = false
      by simp [Glyph.isQuote, hqc]⟩
    rw [first_quote hg.symm, List.append_assoc, List.singleton_append, ht, hd]
    simp only [Glyph.text, hrun, lexeme, Option.some_or, Option.getD_some, String.ofList_toList]
  | @blank text hn hb =>
    have hw : text.toList = g.char :: gs.map Glyph.char := hw
    rw [hw] at hb
    obtain ⟨ht, hd⟩ := text_of_run hw (p := Glyph.isBlank)
      (fun h hh => hb h.char (List.mem_cons_of_mem _ (List.mem_map_of_mem hh))) ha
    rw [first_blank (hb g.char List.mem_cons_self), ht, hd]
  | symbol hk => exact first_symbol (symbol?_eq hk hw ha)

end Token

end SmallSql
