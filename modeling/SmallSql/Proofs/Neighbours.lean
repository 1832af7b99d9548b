import Mathlib.Data.List.Chain
import SmallSql.Proofs.Tokenizing
import SmallSql.Query.Reading

namespace SmallSql

open Unicode

theorem beq_eq_false_of_class {p : Char → Bool} {c d : Char} (hc : p c = true) (hd : p d = false) :
    (c == d) = false := by
  apply beq_false_of_ne
  rintro rfl
  rw [hc] at hd
  cases hd

theorem IsWord.head {word : List Char} (h : IsWord word) :
    ∀ c ∈ word.head?, (isAlphabetic c || isNumeric c) = true := by
  cases word with
  | nil => simp
  | cons c rest =>
    intro d hd
    obtain rfl : c = d := Option.some.inj hd
    simp [h.1]

namespace Kind

/-- Keywords, names and integers: letters and numerals go on with them. -/
def isWordLike : Kind → Bool
  | .keyword _ | .object | .integer => true
  | _ => false

/-- A token of kind `b` cannot be written directly behind one of kind `a`. -/
def fuses (a b : Kind) : Bool :=
  match a with
  | .keyword _ | .object | .integer => b.isWordLike
  | .blank => b == .blank
  | .comparison .less =>
    b == .comparison .equal || (b == .comparison .greater || b == .comparison .greaterOrEqual)
  | .comparison .greater => b == .comparison .equal
  | _ => false

theorem fuses_of_wordLike {b : Kind} (a : Kind) (h : b.isWordLike = true) :
    a.fuses b = a.isWordLike := by
  cases b with
  | keyword | object | integer =>
    cases a with
    | comparison c => cases c <;> rfl
    | _ => rfl
  | _ => cases h

theorem fuses_blank {kind : Kind} (h : kind ≠ .blank) : kind.fuses .blank = false := by
  cases kind with
  | comparison c => cases c <;> rfl
  | blank => exact absurd rfl h
  | _ => rfl

/-- What the first character of a token tells about its kind. -/
structure Starts (kind : Kind) (c : Char) : Prop where
  word : (isAlphabetic c || isNumeric c) = kind.isWordLike
  blank : isWhiteSpace c = (kind == .blank)
  equal : (c == '=') = (kind == .comparison .equal)
  greater : (c == '>') = (kind == .comparison .greater || kind == .comparison .greaterOrEqual)

theorem Starts.of_word {kind : Kind} {c : Char} (hk : kind.isWordLike = true)
    (h : (isAlphabetic c || isNumeric c) = true) : kind.Starts c := by
  have hb := not_isWhiteSpace_of_wordPart h
  have he : (c == '=') = false :=
    beq_eq_false_of_class (p := fun c => isAlphabetic c || isNumeric c) h rfl
  have hg : (c == '>') = false :=
    beq_eq_false_of_class (p := fun c => isAlphabetic c || isNumeric c) h rfl
  cases kind with
  | keyword | object | integer => exact ⟨h, hb, he, hg⟩
  | _ => cases hk

theorem Starts.of_blank {c : Char} (h : isWhiteSpace c = true) : Kind.blank.Starts c := by
  refine ⟨Bool.eq_false_iff.mpr fun hw => ?_, h, beq_eq_false_of_class h rfl,
    beq_eq_false_of_class h rfl⟩
  rw [not_isWhiteSpace_of_wordPart hw] at h
  cases h

end Kind

namespace Token

theorem WellFormed.starts {t : Token} (h : t.WellFormed) {c : Char} {cs : List Char}
    (hw : t.written = c :: cs) : t.kind.Starts c := by
  cases h with
  | keyword k =>
    rw [← ofWord_word, written_ofWord] at hw
    exact .of_word rfl ((isWord_word k).head c (by simp [hw]))
  | @name word hword _ =>
    have hw : word.toList = c :: cs := hw
    exact .of_word rfl (hword.head c (by simp [hw]))
  | @integer digits _ hi =>
    have hw : digits.toList = c :: cs := hw
    simp only [isInteger, hw, List.all_cons, Bool.and_eq_true] at hi
    exact .of_word rfl (by simp [classes_of_isDigit hi.1.1])
  | string _ =>
    obtain ⟨rfl, _⟩ := List.cons.inj hw
    exact ⟨rfl, rfl, rfl, rfl⟩
  | @blank run _ hb =>
    have hw : run.toList = c :: cs := hw
    exact .of_blank (hb c (by simp [hw]))
  | @symbol kind hk =>
    rw [written_spelled kind hk] at hw
    cases kind with
    | comparison d =>
      cases d <;> obtain ⟨rfl, _⟩ := List.cons.inj hw <;> exact ⟨rfl, rfl, rfl, rfl⟩
    | comma | star | openParen | closeParen =>
      obtain ⟨rfl, _⟩ := List.cons.inj hw
      exact ⟨rfl, rfl, rfl, rfl⟩
    | _ => cases hk

theorem goesOn_of_starts (t : Token) {kind : Kind} {c : Char} (h : kind.Starts c) :
    t.goesOn c = t.kind.fuses kind := by
  unfold goesOn Kind.fuses
  split <;> simp [*, h.word, h.blank, h.equal, h.greater]

/-- No token would run together with the one behind it. -/
def Apart (ts : List Token) : Prop := (ts.map Token.kind).IsChain fun a b => a.fuses b = false

instance : DecidablePred Apart := fun _ => inferInstanceAs (Decidable (List.IsChain _ _))

theorem separate_iff_apart {ts : List Token} (h : ∀ t ∈ ts, t.WellFormed) :
    Separate ts ↔ Apart ts := by
  induction ts with
  | nil => simp [Separate, Apart]
  | cons t rest ih =>
    have hrest : ∀ u ∈ rest, u.WellFormed := fun u hu => h u (List.mem_cons_of_mem t hu)
    rw [Separate, ih hrest, Apart, Apart, List.map_cons, List.isChain_cons]
    refine and_congr_left fun _ => ?_
    cases rest with
    | nil => simp
    | cons u rest =>
      obtain ⟨c, cs, hw⟩ := (hrest u List.mem_cons_self).exists_written
      have hs := (hrest u List.mem_cons_self).starts hw
      simp [hw, t.goesOn_of_starts hs]

end Token

open Unicode

namespace Token

def space : Token := ⟨.blank, some " "⟩

theorem space_wellFormed : space.WellFormed := by
  apply WellFormed.blank
  · simp
  · intro c hc
    obtain rfl : c = ' ' := by simpa using hc
    rfl

theorem WellFormed.kind_ne_finish {t : Token} (h : t.WellFormed) : t.kind ≠ .finish := by
  cases h with
  | @symbol kind hk =>
    intro h
    obtain rfl : kind = .finish := h
    cases hk
  | _ => simp

theorem goesOn_space {t : Token} (h : t.kind ≠ .blank) : t.goesOn ' ' = false := by
  rw [t.goesOn_of_starts (.of_blank rfl), Kind.fuses_blank h]

theorem WellFormed.not_isWhiteSpace {t : Token} (h : t.WellFormed) (hk : t.kind ≠ .blank) :
    ∀ c ∈ t.written.head?, isWhiteSpace c = false := by
  obtain ⟨c, cs, hw⟩ := h.exists_written
  rw [hw]
  intro d hd
  obtain rfl : c = d := Option.some.inj hd
  rw [(h.starts hw).blank]
  exact beq_false_of_ne hk

def spaced (tokens : List Token) : List Token := tokens.flatMap fun t => [t, space]

theorem separate_spaced {tokens : List Token}
    (h : ∀ t ∈ tokens, t.WellFormed ∧ t.kind ≠ .blank) : Separate (spaced tokens) := by
  induction tokens with
  | nil => trivial
  | cons t rest ih =>
    obtain ⟨⟨ht, hk⟩, hrest⟩ := List.forall_mem_cons.mp h
    refine ⟨?_, ?_, ih hrest⟩
    · intro c hc
      obtain rfl : ' ' = c := by simpa [spaced, space, written, lexeme] using hc
      exact goesOn_space hk
    · cases rest with
      | nil => simp
      | cons u rest =>
        obtain ⟨hu, hku⟩ := hrest u List.mem_cons_self
        obtain ⟨c, cs, hw⟩ := hu.exists_written
        have hc := hu.not_isWhiteSpace hku
        simpa [spaced, hw, goesOn, space] using hc

end Token

theorem significant_finish {ts : List Token} (h : ∀ t ∈ ts, t.WellFormed) :
    significant (ts ++ [.finish]) = ts.filter (·.kind != .blank) := by
  have hne : ∀ t ∈ ts, t.kind ≠ .finish := fun t ht => (h t ht).kind_ne_finish
  rw [significant_append hne]
  simp [significant, Token.finish]

theorem filter_spaced {tokens : List Token} (h : ∀ t ∈ tokens, t.kind ≠ .blank) :
    (Token.spaced tokens).filter (·.kind != .blank) = tokens := by
  induction tokens with
  | nil => rfl
  | cons t rest ih =>
    obtain ⟨ht, hrest⟩ := List.forall_mem_cons.mp h
    have := ih hrest
    simp_all [Token.spaced, Token.space]

/-- Any tokens that texts can have stand together in some text, with white space between them. -/
theorem exists_tokenize {us : List Token}
    (h : ∀ u ∈ us, u.WellFormed ∧ u.kind ≠ .blank ∧ ∀ c ∈ u.written, Folded c) :
    ∃ text tokens, tokenize text = .ok tokens ∧ significant tokens = us := by
  have hw : ∀ t ∈ Token.spaced us, t.WellFormed ∧ ∀ c ∈ t.written, Folded c := by
    simp only [Token.spaced, List.forall_mem_flatMap, List.forall_mem_cons]
    intro u hu
    refine ⟨⟨(h u hu).1, (h u hu).2.2⟩, ⟨Token.space_wellFormed, folded_of_all rfl⟩, by simp⟩
  have hfolded : ∀ c ∈ (Token.spaced us).flatMap Token.written, Folded c := by
    intro c hc
    obtain ⟨t, ht, hc⟩ := List.mem_flatMap.mp hc
    exact (hw t ht).2 c hc
  refine ⟨String.ofList ((Token.spaced us).flatMap Token.written), Token.spaced us ++ [.finish],
    tokenize_eq_ok_iff.mpr ⟨_, rfl, fun t ht => (hw t ht).1, ?_, ?_⟩, ?_⟩
  · exact Token.separate_spaced fun u hu => ⟨(h u hu).1, (h u hu).2.1⟩
  · rw [String.toList_ofList, flatMap_lowercase_of_folded hfolded]
  · rw [significant_finish fun t ht => (hw t ht).1, filter_spaced fun u hu => (h u hu).2.1]

end SmallSql
