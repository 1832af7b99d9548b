import SmallSql.Token.Scan

namespace SmallSql.Unicode

theorem exists_lowercase (c : Char) : ∃ d ds, lowercase c = d :: ds := by
  unfold lowercase
  split <;> exact ⟨_, _, rfl⟩

def Folded (c : Char) : Prop := lowercase c = [c]

instance : DecidablePred Folded := fun c => inferInstanceAs (Decidable (lowercase c = [c]))

theorem folded_of_all {cs : List Char} (h : (cs.all fun c => lowercase c == [c]) = true) :
    ∀ c ∈ cs, Folded c := by
  simpa [Folded] using h

namespace CaseRun

def lastImage (run : CaseRun) : Nat := run.last - run.first + run.image

/-- No code point that `run` leads to is led on by one of the others. Where they share a stretch of
code points, one takes the even ones and the other the odd ones. -/
def endsBefore (run : CaseRun) : List CaseRun → Bool
  | [] => true
  | other :: rest =>
    bif Nat.blt other.last run.image then run.endsBefore rest
    else bif Nat.blt run.lastImage other.first then Nat.ble other.first other.last
    else (run.step == 2 || run.image == run.lastImage) && other.step == 2 &&
      (run.image + other.first) % 2 == 1 && run.endsBefore rest

def leadsToChars (run : CaseRun) : Bool :=
  (Nat.blt run.lastImage 0x130 || Nat.blt 0x130 run.image) &&
    (Nat.blt run.lastImage 0xD800 || Nat.blt 0xDFFF run.image) && Nat.blt run.lastImage 0x110000

end CaseRun

theorem caseRuns_endsBefore : caseRuns.all (·.endsBefore caseRuns) = true := by decide +kernel

theorem caseRuns_leadsToChars : caseRuns.all CaseRun.leadsToChars = true := by decide +kernel

theorem lowerCode_cases (runs : List CaseRun) (code : Nat) : lowerCode runs code = code ∨
    ∃ run ∈ runs, ∃ d ≤ run.last - run.first, d % run.step = 0 ∧
      lowerCode runs code = d + run.image := by
  induction runs with
  | nil => exact .inl rfl
  | cons run rest ih =>
    rw [lowerCode]
    split
    · split
      · rename_i hl hf
        exact .inr ⟨run, List.mem_cons_self, code - run.first, by omega, hf.2, rfl⟩
      · exact .inl rfl
    · rcases ih with h | ⟨other, ho, h⟩
      · exact .inl h
      · exact .inr ⟨other, List.mem_cons_of_mem run ho, h⟩

theorem lowerCode_image {run : CaseRun} {runs : List CaseRun} (h : run.endsBefore runs = true)
    {d : Nat} (hd : d ≤ run.last - run.first) (hs : d % run.step = 0) :
    lowerCode runs (d + run.image) = d + run.image := by
  induction runs with
  | nil => rfl
  | cons other rest ih =>
    rw [CaseRun.endsBefore] at h
    rw [lowerCode]
    cases hlow : Nat.blt other.last run.image with
    | true =>
      rw [hlow, cond_true] at h
      have hlt : other.last < run.image := by simpa using hlow
      rw [if_neg (by omega), ih h]
    | false =>
      rw [hlow, cond_false] at h
      cases hhigh : Nat.blt run.lastImage other.first with
      | true =>
        rw [hhigh, cond_true] at h
        have hlt : run.lastImage < other.first := by simpa using hhigh
        have hle : other.first ≤ other.last := by simpa using h
        rw [CaseRun.lastImage] at hlt
        rw [if_pos (by omega), if_neg (by omega)]
      | false =>
        rw [hhigh, cond_false] at h
        simp only [CaseRun.lastImage, Bool.and_eq_true, Bool.or_eq_true, beq_iff_eq] at h
        obtain ⟨⟨⟨hr, ho⟩, hp⟩, h⟩ := h
        -- The other run takes every second code point, and this one leads only to those between.
        have he : d % 2 = 0 := by
          rcases hr with hr | hr
          · rwa [hr] at hs
          · omega
        split
        · rw [if_neg (by rw [ho]; omega)]
        · exact ih h

theorem toNat_ofNat {n : Nat} (h : n.isValidChar) : (Char.ofNat n).toNat = n := by
  rw [Char.ofNat, dif_pos h]
  rfl

theorem image_isValidChar {run : CaseRun} (hr : run ∈ caseRuns) {d : Nat}
    (hd : d ≤ run.last - run.first) : (d + run.image).isValidChar ∧ d + run.image ≠ 0x130 := by
  have hchars := List.all_eq_true.mp caseRuns_leadsToChars run hr
  simp only [CaseRun.leadsToChars, CaseRun.lastImage, Bool.and_eq_true, Bool.or_eq_true,
    Nat.blt_eq] at hchars
  rw [Nat.isValidChar]
  omega

theorem folded_of_mem_lowercase {c d : Char} (h : d ∈ lowercase c) : Folded d := by
  rw [lowercase] at h
  split at h
  · simp only [List.mem_cons, List.not_mem_nil, or_false] at h
    rcases h with rfl | rfl <;> rfl
  · rename_i hc
    obtain rfl := List.mem_singleton.mp h
    rcases lowerCode_cases caseRuns c.toNat with h | ⟨run, hr, e, he, hs, h⟩
    · rw [h, Char.ofNat_toNat, Folded, lowercase, if_neg hc, h, Char.ofNat_toNat]
    · have hends := List.all_eq_true.mp caseRuns_endsBefore run hr
      obtain ⟨hvalid, hdotted⟩ := image_isValidChar hr he
      have hn := toNat_ofNat hvalid
      have hi : Char.ofNat (e + run.image) ≠ 'İ' := by
        intro h
        apply hdotted
        rw [← hn, h]
        rfl
      rw [h, Folded, lowercase, if_neg hi, hn, lowerCode_image hends he hs]

namespace Ranges

def apart (a b : Ranges) : Bool := a.all fun r => b.all fun s => Nat.blt r.2 s.1 || Nat.blt s.2 r.1

theorem has_apart {a b : Ranges} {m n : Nat} (ha : a.risingFrom m = true)
    (hb : b.risingFrom n = true) (h : a.apart b = true) {code : Nat} (hc : a.has code = true) :
    b.has code = false := by
  obtain ⟨r, hr, hlow, hhigh⟩ := (has_iff ha code).mp hc
  rw [Bool.eq_false_iff]
  intro hbc
  obtain ⟨s, hs, hlow', hhigh'⟩ := (has_iff hb code).mp hbc
  have hrs := List.all_eq_true.mp (List.all_eq_true.mp h r hr) s hs
  simp only [Bool.or_eq_true, Nat.blt_eq] at hrs
  omega

end Ranges

theorem not_isWhiteSpace_of_isAlphabetic {c : Char} (h : isAlphabetic c = true) :
    isWhiteSpace c = false :=
  Ranges.has_apart alphabetic_rising whiteSpace_rising (by decide +kernel) h

theorem not_isWhiteSpace_of_isNumeric {c : Char} (h : isNumeric c = true) :
    isWhiteSpace c = false :=
  Ranges.has_apart numeric_rising whiteSpace_rising (by decide +kernel) h

theorem not_isWhiteSpace_of_wordPart {c : Char} (h : (isAlphabetic c || isNumeric c) = true) :
    isWhiteSpace c = false := by
  rcases Bool.or_eq_true_iff.mp h with ha | hn
  · exact not_isWhiteSpace_of_isAlphabetic ha
  · exact not_isWhiteSpace_of_isNumeric hn

/-- White space has no case. -/
theorem folded_of_isWhiteSpace {c : Char} (h : isWhiteSpace c = true) : Folded c := by
  have hcodes : whiteSpace.all (fun r => (List.range' r.1 (r.2 + 1 - r.1)).all fun code =>
      lowerCode caseRuns code == code) = true := by decide +kernel
  obtain ⟨r, hr, hlow, hhigh⟩ := (Ranges.has_iff whiteSpace_rising c.toNat).mp h
  have hcode := List.all_eq_true.mp (List.all_eq_true.mp hcodes r hr) c.toNat
    (List.mem_range'_1.mpr (by omega))
  have hi : c ≠ 'İ' := by
    rintro rfl
    exact absurd h (by decide)
  rw [Folded, lowercase, if_neg hi, beq_iff_eq.mp hcode, Char.ofNat_toNat]

theorem isWhiteSpace_of_mem_lowercase {c d : Char} (h : d ∈ lowercase c)
    (hd : isWhiteSpace d = true) : isWhiteSpace c = true := by
  have hruns : caseRuns.all (fun run => whiteSpace.all fun r =>
      Nat.blt run.lastImage r.1 || Nat.blt r.2 run.image) = true := by decide +kernel
  rw [lowercase] at h
  split at h
  · simp only [List.mem_cons, List.not_mem_nil, or_false] at h
    rcases h with rfl | rfl <;> exact absurd hd (by decide)
  · obtain rfl := List.mem_singleton.mp h
    rcases lowerCode_cases caseRuns c.toNat with h | ⟨run, hr, e, he, -, h⟩
    · rwa [h, Char.ofNat_toNat] at hd
    · rw [h, isWhiteSpace, toNat_ofNat (image_isValidChar hr he).1] at hd
      obtain ⟨r, hmem, hlow, hhigh⟩ := (Ranges.has_iff whiteSpace_rising _).mp hd
      have hapart := List.all_eq_true.mp (List.all_eq_true.mp hruns run hr) r hmem
      simp only [CaseRun.lastImage, Bool.or_eq_true, Nat.blt_eq] at hapart
      omega

theorem toNat_of_isDigit {c : Char} (h : c.isDigit = true) : 48 ≤ c.toNat ∧ c.toNat ≤ 57 :=
  Char.isDigit_iff_toNat.mp h

theorem classes_of_isDigit {c : Char} (h : c.isDigit = true) :
    isWhiteSpace c = false ∧ isAlphabetic c = false ∧ isNumeric c = true := by
  have hc := toNat_of_isDigit h
  have hd : Ranges.has [(48, 57)] c.toNat = true := by simp [Ranges.has, hc]
  refine ⟨Ranges.has_apart (m := 0) (by decide) whiteSpace_rising (by decide) hd,
    Ranges.has_apart (m := 0) (by decide) alphabetic_rising (by decide +kernel) hd, ?_⟩
  rw [isNumeric, numeric, Ranges.has, if_pos hc.2]
  exact decide_eq_true hc.1

theorem folded_of_isDigit {c : Char} (h : c.isDigit = true) : Folded c := by
  have hc := toNat_of_isDigit h
  have hi : c ≠ 'İ' := by
    rintro rfl
    exact absurd hc.2 (by decide)
  rw [Folded, lowercase, if_neg hi, caseRuns, lowerCode, if_pos (by dsimp only; omega),
    if_neg (by dsimp only; omega), Char.ofNat_toNat]

end SmallSql.Unicode
