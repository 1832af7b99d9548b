import SmallSql.Proofs.Layout
import SmallSql.Proofs.Offsets

namespace SmallSql

open Unicode

def Glyph.behind (n : Nat) (g : Glyph) : Glyph := ⟨g.char, g.offset + n⟩

def ScanError.behind (n : Nat) : ScanError → ScanError
  | .invalidInteger text offset => .invalidInteger text (offset + n)
  | .unclosedString text offset => .unclosedString text (offset + n)
  | .strayCharacter char offset => .strayCharacter char (offset + n)

namespace Glyph

@[simp] theorem char_behind (n : Nat) (g : Glyph) : (g.behind n).char = g.char := rfl

@[simp] theorem isBlank_behind (n : Nat) (g : Glyph) : (g.behind n).isBlank = g.isBlank := rfl

@[simp] theorem isQuote_behind (n : Nat) (g : Glyph) : (g.behind n).isQuote = g.isQuote := rfl

@[simp] theorem map_char_behind (n : Nat) (glyphs : List Glyph) :
    (glyphs.map (behind n)).map char = glyphs.map char := by
  rw [List.map_map]
  rfl

theorem text_behind (n : Nat) (glyphs : List Glyph) :
    text (glyphs.map (behind n)) = text glyphs := by
  rw [text, map_char_behind, text]

theorem fold_append (a b : List Char) :
    fold (a ++ b) = fold a ++ (fold b).map (behind a.length) := by
  have hzip : b.zipIdx (0 + a.length) = b.zipIdx.map fun x => (x.1, x.2 + a.length) := by
    rw [List.zipIdx_eq_map_add]
    simp [Nat.add_comm]
  rw [fold, List.zipIdx_append, List.flatMap_append, hzip, List.flatMap_map, fold, fold,
    List.map_flatMap]
  simp [behind, Function.comp_def]

end Glyph

namespace Token

theorem symbol?_behind (n : Nat) (c : Char) (rest : List Glyph) :
    symbol? c (rest.map (Glyph.behind n)) =
      (symbol? c rest).map fun (kind, after) => (kind, after.map (Glyph.behind n)) := by
  unfold symbol?
  split
  case h_2 | h_3 =>
    cases rest with
    | nil => rfl
    | cons g rest =>
      simp only [List.map_cons, Glyph.behind]
      repeat' split
      all_goals rfl
  all_goals rfl

theorem first_behind (n : Nat) (g : Glyph) (rest : List Glyph) :
    first (g.behind n) (rest.map (Glyph.behind n)) =
      match first g rest with
      | .ok (t, after) => .ok (t, after.map (Glyph.behind n))
      | .error e => .error (e.behind n) := by
  have hblank : Glyph.isBlank ∘ Glyph.behind n = Glyph.isBlank := rfl
  have hword : Glyph.isWordPart ∘ Glyph.behind n = Glyph.isWordPart := rfl
  have hquote : (fun g => !Glyph.isQuote g) ∘ Glyph.behind n = fun g => !Glyph.isQuote g := rfl
  have hrun (run : List Glyph) : Glyph.text (g.behind n :: run.map (Glyph.behind n)) =
      Glyph.text (g :: run) := Glyph.text_behind n (g :: run)
  unfold first
  simp only [List.takeWhile_map, List.dropWhile_map, hblank, hword, hquote, hrun,
    symbol?_behind, Glyph.text_behind, Glyph.isBlank_behind, Glyph.isQuote_behind,
    Glyph.char_behind, List.map_cons, Glyph.map_char_behind]
  by_cases hb : g.isBlank = true
  · simp only [if_pos hb]
  by_cases ha : isAlphabetic g.char = true
  · simp only [if_neg hb, if_pos ha]
  by_cases hn : isNumeric g.char = true
  · simp only [if_neg hb, if_neg ha, if_pos hn]
    by_cases hi : isInteger (g.char :: (rest.takeWhile Glyph.isWordPart).map Glyph.char) = true
    · simp only [if_pos hi]
    · simp only [if_neg hi]
      rfl
  by_cases hq : g.isQuote = true
  · simp only [if_neg hb, if_neg ha, if_neg hn, if_pos hq]
    cases rest.dropWhile fun g => !g.isQuote <;> rfl
  · simp only [if_neg hb, if_neg ha, if_neg hn, if_neg hq]
    cases symbol? g.char rest <;> rfl

theorem Reads.behind {glyphs left : List Glyph} {ts : List Token} (h : Reads glyphs ts left)
    (n : Nat) : Reads (glyphs.map (Glyph.behind n)) ts (left.map (Glyph.behind n)) := by
  induction h with
  | done left => exact .done _
  | @next g rest after left t ts hf _ ih =>
    refine .next ?_ ih
    rw [first_behind, hf]

/-- Only the place of an error depends on what stands before a text. -/
theorem scan_behind (n : Nat) (glyphs : List Glyph) :
    scan (glyphs.map (Glyph.behind n)) = (scan glyphs).mapError (ScanError.behind n) := by
  obtain ⟨ts, left, hr, rfl | ⟨g, rest, e, rfl, he⟩⟩ := exists_reads glyphs
  · rw [(hr.behind n).scan_eq, hr.scan_eq, List.map_nil, scan_nil]
    rfl
  · rw [(hr.behind n).scan_eq, hr.scan_eq, List.map_cons, scan_cons, scan_cons, first_behind, he]
    rfl

theorem Reads.append {glyphs rest : List Glyph} {g : Glyph} {ts : List Token}
    (h : Reads glyphs ts (g :: rest)) (tail : List Glyph) :
    Reads (glyphs ++ tail) ts (g :: rest ++ tail) := by
  obtain ⟨hts, hs, hend, before, rfl, hb⟩ := h.written
  rw [List.append_assoc]
  exact reads_of_written hts hs hb hend

/-- White space mends no error, unless it goes on with a string. -/
theorem first_error_append {g : Glyph} {rest tail : List Glyph} {e : ScanError}
    (h : first g rest = .error e) (he : ∀ content offset, e ≠ .unclosedString content offset)
    (ht : ∀ h ∈ tail.head?, h.isBlank = true) : first g (rest ++ tail) = .error e := by
  have hrun : (rest ++ tail).takeWhile Glyph.isWordPart = rest.takeWhile Glyph.isWordPart := by
    apply takeWhile_append_of_head
    intro h hh
    cases hword : h.isWordPart with
    | false => rfl
    | true =>
      have hb : isWhiteSpace h.char = true := ht h hh
      rw [not_isWhiteSpace_of_wordPart hword] at hb
      cases hb
  -- An error is decided by the first glyph, or by a run, which white space ends as the text did.
  unfold first at h ⊢
  by_cases hb : g.isBlank = true
  · rw [if_pos hb] at h
    cases h
  by_cases ha : isAlphabetic g.char = true
  · rw [if_neg hb, if_pos ha] at h
    cases h
  rw [if_neg hb, if_neg ha] at h ⊢
  by_cases hn : isNumeric g.char = true
  · rw [if_pos hn, hrun]
    rw [if_pos hn] at h
    simp only at h ⊢
    split at h
    · cases h
    · rename_i hi
      rw [if_neg hi]
      exact h
  rw [if_neg hn] at h ⊢
  by_cases hq : g.isQuote = true
  · rw [if_pos hq] at h
    split at h
    · exact absurd (Except.error.inj h).symm (he _ _)
    · cases h
  rw [if_neg hq] at h ⊢
  split at h
  · cases h
  · rename_i hs
    rw [symbol?_eq_none hs]
    exact h

end Token

theorem exists_of_head?_fold {text : String} {n : Nat} {g : Glyph}
    (h : g ∈ ((Glyph.fold text.toList).map (Glyph.behind n)).head?) :
    ∃ c ∈ text.toList.head?, g.char ∈ lowercase c := by
  have hchar : g.char ∈ (text.toList.flatMap lowercase).head? := by
    rw [← Glyph.map_char_fold, ← Glyph.map_char_behind n, List.head?_map]
    exact Option.mem_map_of_mem Glyph.char h
  cases ht : text.toList with
  | nil => simp [ht] at hchar
  | cons c rest =>
    obtain ⟨d, ds, hc⟩ := exists_lowercase c
    rw [ht, List.flatMap_cons, hc] at hchar
    refine ⟨c, rfl, ?_⟩
    rw [hc, Option.some.inj hchar]
    exact List.mem_cons_self

theorem getLast?_folded {text : String} {d : Char} (h : d ∈ (folded text).getLast?) :
    ∃ c ∈ text.toList.getLast?, d ∈ lowercase c := by
  unfold folded at h
  rcases List.eq_nil_or_concat text.toList with ht | ⟨init, c, ht⟩
  · simp [ht] at h
  · obtain ⟨x, xs, hc⟩ := exists_lowercase c
    rw [ht, List.concat_eq_append, List.flatMap_append, List.flatMap_singleton, hc,
      List.getLast?_append_of_ne_nil _ (List.cons_ne_nil _ _), ← hc] at h
    exact ⟨c, by simp [ht], List.mem_of_getLast? h⟩

theorem Token.print_gap_last (ts : List Token) (run : String) :
    print (ts ++ [gap run]) = print ts ++ run.toList := by
  simp [print]

theorem kind_ne_blank_of_print {text : String} {ts : List Token} (hl : Token.Legible ts)
    (hp : folded text = Token.print ts)
    (h : ∀ c ∈ text.toList.getLast?, isWhiteSpace c = false) :
    ∀ t ∈ ts.getLast?, t.kind ≠ .blank := by
  intro t ht hk
  obtain ⟨init, rfl⟩ := List.getLast?_eq_some_iff.mp ht
  obtain ⟨run, rfl, hn, hb⟩ := (hl.canonical t (by simp)).eq_gap hk
  have hlast : run.toList.getLast hn ∈ (folded text).getLast? := by
    rw [hp, Token.print_gap_last, List.getLast?_append_of_ne_nil _ hn]
    exact List.getLast?_eq_some_getLast hn
  obtain ⟨c, hc, hd⟩ := getLast?_folded hlast
  have hw := isWhiteSpace_of_mem_lowercase hd (hb _ (List.getLast_mem hn))
  rw [h c hc] at hw
  cases hw

theorem fold_append_string (a b : String) : Glyph.fold (a ++ b).toList =
    Glyph.fold a.toList ++ (Glyph.fold b.toList).map (Glyph.behind a.length) := by
  rw [String.toList_append, Glyph.fold_append, String.length_toList]

section
variable {u w v : String}

theorem reads_gap (hw : IsGap w) (hu : ∀ c ∈ u.toList.getLast?, isWhiteSpace c = false)
    (hv : ∀ c ∈ v.toList.head?, isWhiteSpace c = false) {ts : List Token}
    (ht : tokenize u = .ok (ts ++ [.finish])) :
    Token.Reads (Glyph.fold (u ++ w ++ v).toList) (ts ++ [.gap w])
      ((Glyph.fold v.toList).map (Glyph.behind (u.length + w.length))) := by
  obtain ⟨us, hus, hl, hp⟩ := tokenize_eq_ok_iff_legible.mp ht
  obtain rfl := List.append_cancel_right hus
  have hgap : Token.Legible (ts ++ [.gap w]) :=
    Token.Legible.insert_between (by rwa [List.append_nil]) hw (kind_ne_blank_of_print hl hp hu)
      (by simp)
  have hwf : ∀ t ∈ ts ++ [.gap w], t.WellFormed := fun t ht => (hgap.canonical t ht).wellFormed.1
  rw [fold_append_string, String.length_append]
  refine Token.reads_of_written hwf ((Token.separate_iff_apart hwf).mpr hgap.apart) ?_ ?_
  · calc (Glyph.fold (u ++ w).toList).map Glyph.char
        = folded u ++ folded w := by
          rw [Glyph.map_char_fold, String.toList_append, List.flatMap_append, folded, folded]
      _ = Token.print (ts ++ [.gap w]) := by rw [hp, folded_of_blank hw.2, Token.print_gap_last]
  · intro t ht g hg
    obtain rfl : Token.gap w = t := by simpa using ht
    obtain ⟨c, hc, hd⟩ := exists_of_head?_fold hg
    show isWhiteSpace g.char = false
    by_contra hspace
    have hcs := isWhiteSpace_of_mem_lowercase hd (by simpa using hspace)
    rw [hv c hc] at hcs
    cases hcs

theorem tokenize_error_before_gap (hw : IsGap w) {e : ScanError} (h : tokenize u = .error e)
    (he : ∀ content offset, e ≠ .unclosedString content offset) (v : String) :
    tokenize (u ++ w ++ v) = .error e := by
  have hblank : ∀ g ∈ ((Glyph.fold (w ++ v).toList).map (Glyph.behind u.length)).head?,
      g.isBlank = true := by
    intro g hg
    obtain ⟨c, hc, hd⟩ := exists_of_head?_fold hg
    rw [String.toList_append, List.head?_append_of_ne_nil _ hw.1] at hc
    have hspace := hw.2 c (List.mem_of_head? hc)
    rw [folded_of_isWhiteSpace hspace, List.mem_singleton] at hd
    rw [Glyph.isBlank, hd, hspace]
  obtain ⟨ts, g, rest, hr, hf⟩ := Token.reads_of_scan_error h
  rw [tokenize, String.append_assoc, fold_append_string, (hr.append _).scan_eq, List.cons_append,
    Token.scan_cons, Token.first_error_append hf he hblank]
  rfl

/-- A text is scanned part by part where white space stands between the parts: the tokens of the
parts come in order, and the place of an error in the last part counts the characters before it as
they were typed. An error in the first part is the error of the whole, unless it is a string that
what comes behind it may close. -/
theorem tokenize_gap (hw : IsGap w) (hu : ∀ c ∈ u.toList.getLast?, isWhiteSpace c = false)
    (hv : ∀ c ∈ v.toList.head?, isWhiteSpace c = false) :
    (∀ ts, tokenize u = .ok (ts ++ [.finish]) →
      (∀ vs, tokenize v = .ok vs → tokenize (u ++ w ++ v) = .ok (ts ++ [.gap w] ++ vs)) ∧
      ∀ e, tokenize v = .error e →
        tokenize (u ++ w ++ v) = .error (e.behind (u.length + w.length))) ∧
    (∀ run offset, tokenize u = .error (.invalidInteger run offset) →
      tokenize (u ++ w ++ v) = .error (.invalidInteger run offset)) ∧
    ∀ c offset, tokenize u = .error (.strayCharacter c offset) →
      tokenize (u ++ w ++ v) = .error (.strayCharacter c offset) := by
  refine ⟨fun ts hts => ?_, fun run offset h => ?_, fun c offset h => ?_⟩
  · have hscan : tokenize (u ++ w ++ v) =
        ((tokenize v).mapError (ScanError.behind (u.length + w.length))).map
          (ts ++ [.gap w] ++ ·) := by
      rw [tokenize, (reads_gap hw hu hv hts).scan_eq, Token.scan_behind, tokenize]
    refine ⟨fun vs h => ?_, fun e h => ?_⟩
    · rw [hscan, h]
      rfl
    · rw [hscan, h]
      rfl
  · exact tokenize_error_before_gap hw h (by simp) v
  · exact tokenize_error_before_gap hw h (by simp) v

end

/-- Folding makes the string one character longer, which the place of the error does not count. -/
theorem tokenize_gap_dotted :
    tokenize ("'İ'" ++ "\u00A0 " ++ "9x") = .error (.invalidInteger "9x" 5) ∧
    tokenize ("9x" ++ "\u00A0 " ++ "'İ'") = .error (.invalidInteger "9x" 0) := by
  have hw : IsGap "\u00A0 " := by decide +kernel
  have hstring : tokenize "'İ'" = .ok ([⟨.string, some "i\u0307"⟩] ++ [.finish]) := by
    decide +kernel
  have hnumber : tokenize "9x" = .error (.invalidInteger "9x" 0) := by decide +kernel
  have hquote : isWhiteSpace '\x27' = false := rfl
  have hnine : isWhiteSpace '9' = false := rfl
  have hx : isWhiteSpace 'x' = false := rfl
  constructor
  · exact ((tokenize_gap hw (by simpa using hquote) (by simpa using hnine)).1 _ hstring).2 _ hnumber
  · exact (tokenize_gap hw (by simpa using hx) (by simpa using hquote)).2.1 _ _ hnumber

end SmallSql
