import SmallSql.Proofs.Lexemes

namespace SmallSql

open Unicode

namespace Token

/-- No token would have gone on with what stands behind it. -/
def Separate : List Token → Prop
  | [] => True
  | t :: rest => (∀ c ∈ (rest.flatMap written).head?, t.goesOn c = false) ∧ Separate rest

theorem WellFormed.exists_written {t : Token} (h : t.WellFormed) : ∃ c cs, t.written = c :: cs := by
  rw [← List.ne_nil_iff_exists_cons]
  cases h with
  | keyword k => cases k <;> simp [written, lexeme, Kind.spelling, Keyword.word]
  | @name word hw hk =>
    intro h
    rw [show word.toList = [] from h] at hw
    exact hw
  | integer hd _ => exact hd
  | string _ => exact List.cons_ne_nil _ _
  | blank hn _ => exact hn
  | @symbol kind hk =>
    rw [written_spelled kind hk]
    cases kind with
    | comparison c => cases c <;> simp [Kind.spelling, Comparison.spelling]
    | comma | star | openParen | closeParen => simp [Kind.spelling]
    | _ => cases hk

/-- The tokens are read one behind the other, and `left` is not read yet. -/
inductive Reads : List Glyph → List Token → List Glyph → Prop where
  | done (left : List Glyph) : Reads left [] left
  | next {g : Glyph} {rest after left : List Glyph} {t : Token} {ts : List Token}
    (hf : first g rest = .ok (t, after)) (h : Reads after ts left) :
    Reads (g :: rest) (t :: ts) left

theorem Reads.scan_eq {glyphs left : List Glyph} {ts : List Token} (h : Reads glyphs ts left) :
    scan glyphs = (scan left).map (ts ++ ·) := by
  induction h with
  | done left => cases scan left <;> rfl
  | @next _ _ _ left _ _ hf _ ih =>
    rw [scan_cons, hf]
    simp only [Except.bind]
    rw [ih]
    cases scan left <;> rfl

/-- Where the characters of well-formed tokens stand one behind the other, the tokens are read, if
none of them would have gone on with what stands behind it. -/
theorem reads_of_written {ts : List Token} (hts : ∀ t ∈ ts, t.WellFormed) (hs : Separate ts)
    {glyphs left : List Glyph} (hg : glyphs.map Glyph.char = ts.flatMap written)
    (hend : ∀ t ∈ ts.getLast?, ∀ g ∈ left.head?, t.goesOn g.char = false) :
    Reads (glyphs ++ left) ts left := by
  induction ts generalizing glyphs with
  | nil =>
    obtain rfl := List.map_eq_nil_iff.mp hg
    exact .done left
  | cons t ts ih =>
    obtain ⟨ht, hts⟩ := List.forall_mem_cons.mp hts
    obtain ⟨c, cs, hw⟩ := ht.exists_written
    rw [List.flatMap_cons] at hg
    obtain ⟨run, after, rfl, hrun, hafter⟩ := List.map_eq_append_iff.mp hg
    rw [hw] at hrun
    obtain ⟨g, gs, rfl, rfl, rfl⟩ := List.map_eq_cons_iff.mp hrun
    have hnext : ∀ h ∈ (after ++ left).head?, t.goesOn h.char = false := by
      cases ts with
      | nil =>
        obtain rfl := List.map_eq_nil_iff.mp hafter
        exact hend t rfl
      | cons u us =>
        obtain ⟨d, ds, hu⟩ := (hts u List.mem_cons_self).exists_written
        rw [List.flatMap_cons, hu, List.cons_append] at hafter
        obtain ⟨h, rest, rfl, rfl, -⟩ := List.map_eq_cons_iff.mp hafter
        intro h' hh
        obtain rfl := Option.some.inj hh
        apply hs.1
        rw [List.flatMap_cons, hu]
        rfl
    rw [List.cons_append, List.cons_append, List.append_assoc]
    refine .next (ht.first_eq hw hnext) (ih hts hs.2 hafter fun u hu => hend u ?_)
    cases ts with
    | nil => cases hu
    | cons => exact hu

theorem scan_of_written {ts : List Token} (hts : ∀ t ∈ ts, t.WellFormed) (hs : Separate ts)
    {glyphs : List Glyph} (hg : glyphs.map Glyph.char = ts.flatMap written) :
    scan glyphs = .ok (ts ++ [finish]) := by
  have h : Reads (glyphs ++ []) ts [] := reads_of_written hts hs hg (by simp)
  rw [List.append_nil] at h
  rw [h.scan_eq, scan_nil]
  rfl

theorem exists_reads (glyphs : List Glyph) : ∃ ts left, Reads glyphs ts left ∧
    (left = [] ∨ ∃ g rest e, left = g :: rest ∧ first g rest = .error e) := by
  induction hn : glyphs.length using Nat.strongRecOn generalizing glyphs with
  | ind n ih =>
    cases glyphs with
    | nil => exact ⟨[], [], .done [], .inl rfl⟩
    | cons g rest =>
      cases hf : first g rest with
      | error e => exact ⟨[], g :: rest, .done _, .inr ⟨g, rest, e, rfl, hf⟩⟩
      | ok r =>
        obtain ⟨t, after⟩ := r
        have hlt : after.length < n := by
          have := (first_suffix hf).length_le
          simp only [List.length_cons] at hn
          omega
        obtain ⟨ts, left, h, hleft⟩ := ih after.length hlt after rfl
        exact ⟨t :: ts, left, .next hf h, hleft⟩

theorem Reads.written {glyphs left : List Glyph} {ts : List Token} (h : Reads glyphs ts left) :
    (∀ t ∈ ts, t.WellFormed) ∧ Separate ts ∧
    (∀ t ∈ ts.getLast?, ∀ g ∈ left.head?, t.goesOn g.char = false) ∧
    ∃ before, glyphs = before ++ left ∧ before.map Glyph.char = ts.flatMap Token.written := by
  induction h with
  | done left => exact ⟨by simp, trivial, by simp, [], rfl, rfl⟩
  | @next g rest after left t ts hf _ ih =>
    obtain ⟨ht, ⟨gs, rfl, hw⟩, hend⟩ := WellFormed.of_first hf
    obtain ⟨hts, hs, hlast, before, rfl, hb⟩ := ih
    refine ⟨by simpa using ⟨ht, hts⟩, ⟨fun c hc => ?_, hs⟩, ?_, g :: gs ++ before, by simp, ?_⟩
    · rw [← hb, List.head?_map] at hc
      obtain ⟨h, hh, rfl⟩ := Option.map_eq_some_iff.mp hc
      exact hend h (by simp [hh])
    · cases ts with
      | nil =>
        obtain rfl := List.map_eq_nil_iff.mp hb
        simpa using hend
      | cons u us => simpa using hlast
    · simp [hw, hb]

theorem written_of_scan {glyphs : List Glyph} {tokens : List Token}
    (h : scan glyphs = .ok tokens) :
    ∃ ts, tokens = ts ++ [finish] ∧ (∀ t ∈ ts, t.WellFormed) ∧ Separate ts ∧
      glyphs.map Glyph.char = ts.flatMap written := by
  obtain ⟨ts, left, hr, rfl | ⟨g, rest, e, rfl, he⟩⟩ := exists_reads glyphs
  · obtain ⟨hts, hs, -, before, rfl, hb⟩ := hr.written
    rw [hr.scan_eq, scan_nil] at h
    cases h
    exact ⟨ts, rfl, hts, hs, by rw [List.append_nil, hb]⟩
  · rw [hr.scan_eq, scan_cons, he] at h
    cases h

theorem reads_of_scan_error {glyphs : List Glyph} {e : ScanError} (h : scan glyphs = .error e) :
    ∃ ts g rest, Reads glyphs ts (g :: rest) ∧ first g rest = .error e := by
  obtain ⟨ts, left, hr, rfl | ⟨g, rest, cause, rfl, he⟩⟩ := exists_reads glyphs
  · rw [hr.scan_eq, scan_nil] at h
    cases h
  · rw [hr.scan_eq, scan_cons, he] at h
    cases h
    exact ⟨ts, g, rest, hr, he⟩

end Token

theorem Glyph.map_char_fold (text : List Char) :
    (fold text).map Glyph.char = text.flatMap lowercase := by
  calc (fold text).map Glyph.char
      = text.zipIdx.flatMap fun p => lowercase p.1 := by
        simp [fold, List.map_flatMap, Function.comp_def]
    _ = (text.zipIdx.map Prod.fst).flatMap lowercase := (List.flatMap_map ..).symm
    _ = text.flatMap lowercase := by rw [List.zipIdx_map_fst]

/-- The tokens of a text, for the texts that have any. -/
theorem tokenize_eq_ok_iff {text : String} {tokens : List Token} :
    tokenize text = .ok tokens ↔
      ∃ ts, tokens = ts ++ [Token.finish] ∧ (∀ t ∈ ts, t.WellFormed) ∧ Token.Separate ts ∧
        text.toList.flatMap lowercase = ts.flatMap Token.written := by
  rw [← Glyph.map_char_fold]
  constructor
  · exact Token.written_of_scan
  · intro h
    obtain ⟨ts, rfl, hts, hs, hg⟩ := h
    exact Token.scan_of_written hts hs hg

theorem folded_of_mem_flatMap {text : List Char} {c : Char} (h : c ∈ text.flatMap lowercase) :
    Folded c := by
  obtain ⟨d, _, hd⟩ := List.mem_flatMap.mp h
  exact folded_of_mem_lowercase hd

theorem folded_of_tokenize {text : String} {ts : List Token}
    (h : text.toList.flatMap lowercase = ts.flatMap Token.written) :
    ∀ t ∈ ts, ∀ c ∈ t.written, Folded c := by
  intro t ht c hc
  exact folded_of_mem_flatMap (h ▸ List.mem_flatMap.mpr ⟨t, ht, hc⟩)

theorem flatMap_lowercase_of_folded {text : List Char} (h : ∀ c ∈ text, Folded c) :
    text.flatMap lowercase = text := by
  induction text with
  | nil => rfl
  | cons c rest ih =>
    rw [List.flatMap_cons, ih fun d hd => h d (List.mem_cons_of_mem c hd), h c List.mem_cons_self]
    rfl

end SmallSql
