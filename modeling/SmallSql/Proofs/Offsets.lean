import SmallSql.Proofs.Printing

namespace SmallSql

open Unicode

namespace ScanError

def offset : ScanError → Nat
  | .invalidInteger _ offset | .unclosedString _ offset | .strayCharacter _ offset => offset

/-- Why no token starts with `c` where `rest` stands behind it. -/
def Describes (c : Char) (rest : List Char) : ScanError → Prop
  | .invalidInteger run _ =>
    run.toList = c :: rest.takeWhile (fun d => isAlphabetic d || isNumeric d) ∧
    isNumeric c = true ∧ isAlphabetic c = false ∧
    ¬((∀ d ∈ run.toList, d.isDigit = true) ∧ Token.decimalValue run.toList ≤ Token.maxInteger)
  | .unclosedString content _ => c = '\x27' ∧ content.toList = rest ∧ '\x27' ∉ content.toList
  | .strayCharacter d _ => d = c ∧ ∀ t : Token, t.WellFormed → t.written.head? ≠ some d

/-- The error is found behind `ts`, where `c :: rest` is left to be read. -/
structure FoundBehind (e : ScanError) (text : String) (ts : List Token) (c : Char)
    (rest : List Char) : Prop where
  legible : Token.Legible ts
  ends : ∀ t ∈ ts.getLast?, t.goesOn c = false
  left : folded text = Token.print ts ++ c :: rest
  describes : e.Describes c rest
  /-- The place in the folded text has an offset, and it is that of the error. -/
  glyph : (Glyph.fold text.toList)[(Token.print ts).length]? = some ⟨c, e.offset⟩
  /-- The typed character with that offset is folded to `c`, among others. -/
  typed : ∃ d a b, text.toList[e.offset]? = some d ∧ lowercase d = a ++ c :: b ∧
    Token.print ts = (text.toList.take e.offset).flatMap lowercase ++ a
  before : ∃ tokens, tokenize (String.ofList (text.toList.take e.offset)) = .ok tokens

end ScanError

namespace Token

variable {g : Glyph} {rest : List Glyph} {e : ScanError}

theorem symbol?_eq_none {c : Char} (h : symbol? c rest = none) (rest' : List Glyph) :
    symbol? c rest' = none := by
  unfold symbol? at h ⊢
  split at h
  case h_2 | h_3 => split at h <;> grind
  case h_8 => rfl
  all_goals cases h

theorem WellFormed.head?_ne (hb : g.isBlank = false) (ha : isAlphabetic g.char = false)
    (hn : isNumeric g.char = false) (hq : g.isQuote = false) (hs : symbol? g.char rest = none)
    {t : Token} (ht : t.WellFormed) : t.written.head? ≠ some g.char := by
  intro hw
  obtain ⟨cs, hw⟩ := List.head?_eq_some_iff.mp hw
  have hcs : cs = (cs.map (Glyph.mk · 0)).map Glyph.char := by simp [Function.comp_def]
  rw [hcs] at hw
  have hf : first g (cs.map (Glyph.mk · 0) ++ []) = .ok (t, []) := ht.first_eq hw (by simp)
  simp [first, hb, ha, hn, hq, symbol?_eq_none hs] at hf

theorem describes_of_first (h : first g rest = .error e) :
    e.offset = g.offset ∧ e.Describes g.char (rest.map Glyph.char) := by
  unfold first at h
  split at h
  · cases h
  split at h
  · cases h
  rename_i hb ha
  split at h
  · rename_i hn
    simp only at h
    split at h
    · cases h
    · rename_i hi
      cases h
      refine ⟨rfl, ?_, hn, by simpa using ha, ?_⟩
      · rw [Glyph.text, String.toList_ofList, List.map_cons, List.takeWhile_map]
        rfl
      · simpa [isInteger, Glyph.text] using hi
  split at h
  · rename_i hq
    split at h
    · rename_i hd
      cases h
      have hnone := List.dropWhile_eq_nil_iff.mp hd
      refine ⟨rfl, by simpa [Glyph.isQuote] using hq, by simp [Glyph.text], ?_⟩
      simpa [Glyph.text, Glyph.isQuote] using hnone
    · cases h
  · rename_i hn hq
    split at h
    · cases h
    · rename_i hs
      cases h
      simp only [Bool.not_eq_true] at hb ha hn hq
      exact ⟨rfl, rfl, fun t ht => ht.head?_ne hb ha hn hq hs⟩

theorem ofWord_wordLike (word : String) : (ofWord word).kind.isWordLike = true := by
  unfold ofWord
  split <;> rfl

theorem WellFormed.isWord {t : Token} (h : t.WellFormed) {w : List Char} {c : Char}
    (hw : t.written = w ++ [c]) (hc : isAlphabetic c = true) :
    t.kind.isWordLike = true ∧ IsWord (w ++ [c]) := by
  have hmem : c ∈ t.written := by simp [hw]
  cases h with
  | keyword k =>
    rw [← ofWord_word, written_ofWord] at hw
    exact ⟨rfl, hw ▸ isWord_word k⟩
  | @name word hword _ => exact ⟨rfl, hw ▸ hword⟩
  | @integer digits _ hi =>
    simp only [isInteger, Bool.and_eq_true] at hi
    have hd := classes_of_isDigit (List.all_eq_true.mp hi.1 c hmem)
    rw [hd.2.1] at hc
    cases hc
  | @string text _ =>
    have hw : '\x27' :: text.toList ++ ['\x27'] = w ++ [c] := hw
    obtain ⟨-, hq⟩ := List.append_inj' hw rfl
    cases hq
    cases hc
  | @blank run _ hb =>
    have hn := not_isWhiteSpace_of_isAlphabetic hc
    rw [hb c hmem] at hn
    cases hn
  | @symbol kind hk =>
    have hlast : (kind.spelling.getD "").toList.all (!isAlphabetic ·) = true := by
      cases kind with
      | comparison d => cases d <;> rfl
      | comma | star | openParen | closeParen => rfl
      | _ => cases hk
    rw [written_spelled kind hk] at hw
    have hn := List.all_eq_true.mp hlast c (by simp [hw])
    rw [hc] at hn
    cases hn

/-- The last letter of a text can be left away. -/
theorem Legible.dropLetter {ts : List Token} (h : Legible ts) {b : List Char} {c : Char}
    (hc : isAlphabetic c = true) (hp : print ts = b ++ [c]) : ∃ us, Legible us ∧ print us = b := by
  rcases List.eq_nil_or_concat ts with rfl | ⟨init, t, rfl⟩
  · simp [print] at hp
  rw [List.concat_eq_append] at h hp
  obtain ⟨ht, hfolded⟩ := (h.canonical t (by simp)).wellFormed
  obtain ⟨w, d, hw⟩ : ∃ w d, t.written = w ++ [d] := by
    obtain ⟨c, cs, hw⟩ := ht.exists_written
    exact ⟨_, _, (List.dropLast_append_getLast (by simp [hw])).symm⟩
  have hb : print init ++ w ++ [d] = b ++ [c] := by simpa [print, hw] using hp
  obtain ⟨rfl, hd⟩ := List.append_inj' hb rfl
  obtain rfl : d = c := by simpa using hd
  obtain ⟨hk, hword⟩ := ht.isWord hw hc
  cases w with
  | nil => exact ⟨init, h.left, (List.append_nil _).symm⟩
  | cons x w =>
    -- The shorter word may be a keyword, or no longer one, but it stays a word.
    have hshort : IsWord (String.ofList (x :: w)).toList := by
      rw [String.toList_ofList]
      exact ⟨hword.1, fun y hy => hword.2 y (List.mem_append_left _ hy)⟩
    refine ⟨init ++ [ofWord (String.ofList (x :: w))], ⟨?_, ?_⟩, ?_⟩
    · simp only [List.forall_mem_append, List.forall_mem_singleton]
      refine ⟨h.left.canonical, canonical_iff.mpr ⟨ofWord_wellFormed hshort, ?_⟩⟩
      rw [written_ofWord, String.toList_ofList]
      exact fun y hy => hfolded y (by rw [hw]; exact List.mem_append_left _ hy)
    · have ha := h.apart
      simp only [Apart, List.map_append, List.isChain_append] at ha ⊢
      refine ⟨ha.1, by simp, fun kind hkind next hnext => ?_⟩
      obtain rfl := Option.some.inj hnext
      rw [Kind.fuses_of_wordLike kind (ofWord_wordLike _), ← Kind.fuses_of_wordLike kind hk]
      exact ha.2.2 kind hkind t.kind rfl
    · simp [print, written_ofWord]

end Token

theorem lowercase_before {c d : Char} {a b : List Char} (h : lowercase c = a ++ d :: b) :
    a = [] ∨ a = ['i'] := by
  rw [lowercase] at h
  split at h
  · rcases a with _ | ⟨x, _ | ⟨y, a⟩⟩
    · exact .inl rfl
    · cases h
      exact .inr rfl
    · simp at h
  · rcases a with _ | ⟨x, a⟩
    · exact .inl rfl
    · simp at h

theorem exists_of_flatMap_eq {α β : Type} {f : α → List β} {xs : List α} {before rest : List β}
    {y : β} (h : xs.flatMap f = before ++ y :: rest) :
    ∃ as x bs a b, xs = as ++ x :: bs ∧ f x = a ++ y :: b ∧ before = as.flatMap f ++ a := by
  rw [List.flatMap_def] at h
  rcases List.flatten_eq_append_iff.mp h with
    ⟨as, bs, hmap, rfl, hy⟩ | ⟨as, a, z, b, bs, hmap, rfl, hy⟩
  · -- It is the first of a part, behind parts that are empty.
    obtain ⟨nils, b, cs, rfl, hnils, -⟩ := List.cons_eq_flatten_iff.mp hy
    rw [← List.append_assoc] at hmap
    obtain ⟨as', tail, rfl, has, htail⟩ := List.map_eq_append_iff.mp hmap
    obtain ⟨x, bs', rfl, hx, -⟩ := List.map_eq_cons_iff.mp htail
    refine ⟨as', x, bs', [], b, rfl, hx, ?_⟩
    rw [List.append_nil, List.flatMap_def, has, List.flatten_append,
      List.flatten_eq_nil_iff.mpr hnils, List.append_nil]
  · obtain ⟨rfl, -⟩ := List.cons.inj hy
    obtain ⟨as', tail, rfl, rfl, htail⟩ := List.map_eq_append_iff.mp hmap
    obtain ⟨x, bs', rfl, hx, -⟩ := List.map_eq_cons_iff.mp htail
    exact ⟨as', x, bs', a, b, rfl, hx, by rw [List.flatMap_def]⟩

theorem Glyph.typed_of_fold {text : List Char} {before rest : List Glyph} {g : Glyph}
    (h : fold text = before ++ g :: rest) :
    ∃ typed d later a b, text = typed ++ d :: later ∧ g.offset = typed.length ∧
      lowercase d = a ++ g.char :: b ∧ before.map Glyph.char = typed.flatMap lowercase ++ a := by
  obtain ⟨as, p, bs, run, _, hzip, hrun, rfl⟩ := exists_of_flatMap_eq h
  obtain ⟨typed, tail, rfl, rfl, htail⟩ := List.zipIdx_eq_append_iff.mp hzip
  obtain ⟨d, later, rfl, rfl, -⟩ := List.zipIdx_eq_cons_iff.mp htail.symm
  obtain ⟨a, after, ha, rfl, hafter⟩ := List.map_eq_append_iff.mp hrun
  obtain ⟨c, b, rfl, rfl, -⟩ := List.map_eq_cons_iff.mp hafter
  refine ⟨typed, d, later, a, b, rfl, Nat.zero_add _, ha, ?_⟩
  rw [← map_char_fold, List.map_append, fold]
  simp [Function.comp_def]

theorem folded_of_reads {text : String} {ts : List Token} {left : List Glyph}
    (h : Token.Reads (Glyph.fold text.toList) ts left) :
    folded text = Token.print ts ++ left.map Glyph.char := by
  obtain ⟨-, -, -, before, hglyphs, hbefore⟩ := h.written
  rw [folded, ← Glyph.map_char_fold, hglyphs, List.map_append, hbefore, Token.print]

theorem legible_of_reads {text : String} {ts : List Token} {left : List Glyph}
    (h : Token.Reads (Glyph.fold text.toList) ts left) : Token.Legible ts := by
  obtain ⟨hts, hs, -⟩ := h.written
  refine ⟨fun t ht => Token.canonical_iff.mpr ⟨hts t ht, fun c hc => ?_⟩,
    (Token.separate_iff_apart hts).mp hs⟩
  have hc : c ∈ folded text := by
    rw [folded_of_reads h]
    exact List.mem_append_left _ (List.mem_flatMap.mpr ⟨t, ht, hc⟩)
  exact folded_of_mem_flatMap hc

/-- Tokens that end inside a typed character leave none of those before it unread. -/
theorem exists_tokenize_of_print {typed a b : List Char} {d c : Char} {ts : List Token}
    (h : Token.Legible ts) (hd : lowercase d = a ++ c :: b)
    (hp : Token.print ts = typed.flatMap lowercase ++ a) :
    ∃ tokens, tokenize (String.ofList typed) = .ok tokens := by
  obtain ⟨us, hus, hu⟩ : ∃ us, Token.Legible us ∧ Token.print us = typed.flatMap lowercase := by
    -- Only inside the dotted capital tokens can end: behind its small i, which is left out again.
    rcases lowercase_before hd with rfl | rfl
    · exact ⟨ts, h, by rw [hp, List.append_nil]⟩
    · exact h.dropLetter (by decide +kernel) hp
  refine ⟨us ++ [.finish], tokenize_eq_ok_iff_legible.mpr ⟨us, rfl, hus, ?_⟩⟩
  rw [folded, String.toList_ofList, hu]

/-- An error lies inside the text, and tells which character it was found at and why no token starts
there. The text before it has no error. -/
theorem foundBehind_of_tokenize {text : String} {e : ScanError} (h : tokenize text = .error e) :
    e.offset < text.toList.length ∧ ∃ ts c rest, e.FoundBehind text ts c rest := by
  obtain ⟨ts, g, rest, hreads, hf⟩ := Token.reads_of_scan_error h
  obtain ⟨ho, hdescribes⟩ := Token.describes_of_first hf
  obtain ⟨-, -, hends, before, hglyphs, hbefore⟩ := hreads.written
  change before.map Glyph.char = Token.print ts at hbefore
  obtain ⟨typed, d, later, a, b, htext, hoffset, hd, htyped⟩ :=
    Glyph.typed_of_fold hglyphs
  rw [← ho] at hoffset
  have hprint : Token.print ts = typed.flatMap lowercase ++ a := hbefore.symm.trans htyped
  have htake : text.toList.take e.offset = typed := by rw [htext, hoffset, List.take_left]
  refine ⟨by simp [htext, hoffset], ts, g.char, rest.map Glyph.char, ?_⟩
  exact {
    legible := legible_of_reads hreads
    ends := fun t ht => hends t ht g rfl
    left := folded_of_reads hreads
    describes := hdescribes
    glyph := by
      rw [hglyphs, ← hbefore, List.length_map, List.getElem?_append_right (Nat.le_refl _), ho]
      simp
    typed := ⟨d, a, b, by simp [htext, hoffset], hd, by rw [htake, hprint]⟩
    before := by
      rw [htake]
      exact exists_tokenize_of_print (legible_of_reads hreads) hd hprint }

/-- The dot that the capital is folded to starts no token, and is found where the capital stands. -/
theorem foundBehind_dotted : tokenize "ab İ" = .error (.strayCharacter '\u0307' 3) ∧
    3 < "ab İ".toList.length ∧ ∃ ts c rest,
      (ScanError.strayCharacter '\u0307' 3).FoundBehind "ab İ" ts c rest := by
  have h : tokenize "ab İ" = .error (.strayCharacter '\u0307' 3) := by decide +kernel
  exact ⟨h, foundBehind_of_tokenize h⟩

end SmallSql
