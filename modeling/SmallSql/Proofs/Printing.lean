import SmallSql.Proofs.Image

namespace SmallSql

open Unicode

def IsGap (run : String) : Prop := run.toList ≠ [] ∧ ∀ c ∈ run.toList, isWhiteSpace c = true

instance : DecidablePred IsGap := fun run =>
  decidable_of_iff (run.toList ≠ [] ∧ run.toList.all isWhiteSpace = true) (by simp [IsGap])

namespace Token

def gap (run : String) : Token := ⟨.blank, some run⟩

/-- A token as texts have it. -/
def Canonical (t : Token) : Prop :=
  match t.kind with
  | .keyword _ => t.text = none
  | .object => ∃ word ∈ t.text, IsName word
  | .integer => ∃ digits ∈ t.text, (Value.integer digits).IsLiteral
  | .string => ∃ text ∈ t.text, (Value.string text).IsLiteral
  | .blank => ∃ run ∈ t.text, IsGap run
  | .comparison _ | .comma | .star | .openParen | .closeParen => t.text = t.kind.spelling
  | .finish => False

instance : DecidablePred Canonical
  | ⟨.keyword _, text⟩ => inferInstanceAs (Decidable (text = none))
  | ⟨.object, text⟩ => inferInstanceAs (Decidable (∃ word ∈ text, IsName word))
  | ⟨.integer, text⟩ =>
    inferInstanceAs (Decidable (∃ digits ∈ text, (Value.integer digits).IsLiteral))
  | ⟨.string, text⟩ =>
    inferInstanceAs (Decidable (∃ quoted ∈ text, (Value.string quoted).IsLiteral))
  | ⟨.blank, text⟩ => inferInstanceAs (Decidable (∃ run ∈ text, IsGap run))
  | ⟨.comparison _, text⟩ | ⟨.comma, text⟩ | ⟨.star, text⟩ | ⟨.openParen, text⟩
  | ⟨.closeParen, text⟩ => inferInstanceAs (Decidable (text = _))
  | ⟨.finish, _⟩ => .isFalse id

theorem writable_iff {t : Token} (hk : t.kind.showsText = true) (ht : t.text.isSome = true) :
    t.Writable ↔ t.WellFormed ∧ ∀ c ∈ t.written, Folded c := by
  constructor
  · intro h
    obtain ⟨u, hu, hw, hf⟩ := h
    obtain rfl := hw.eq_of_bare hu hk
    exact ⟨hw, hf⟩
  · intro h
    obtain ⟨kind, text⟩ := t
    obtain ⟨text, rfl⟩ := Option.isSome_iff_exists.mp ht
    exact ⟨⟨kind, some text⟩, by simp_all [bare, content], h⟩

theorem Canonical.wellFormed {t : Token} (h : t.Canonical) :
    t.WellFormed ∧ ∀ c ∈ t.written, Folded c := by
  obtain ⟨kind, text⟩ := t
  cases kind with
  | keyword k =>
    obtain rfl : text = none := h
    exact ⟨.keyword k, folded_spelling (.keyword k)⟩
  | object =>
    obtain ⟨word, rfl, hw⟩ := h
    exact (writable_iff rfl rfl).mp (writable_named.mpr hw)
  | integer =>
    obtain ⟨digits, rfl, hd⟩ := h
    exact (writable_iff rfl rfl).mp (writable_value.mpr hd)
  | string =>
    obtain ⟨text, rfl, hs⟩ := h
    exact (writable_iff rfl rfl).mp (writable_value.mpr hs)
  | blank =>
    obtain ⟨run, rfl, hn, hb⟩ := h
    exact ⟨.blank hn hb, fun c hc => folded_of_isWhiteSpace (hb c hc)⟩
  | comparison | comma | star | openParen | closeParen =>
    rw [show Token.mk _ text = spelled _ from congrArg (Token.mk _) h]
    refine ⟨.symbol rfl, ?_⟩
    rw [written_spelled _ rfl]
    exact folded_spelling _
  | finish => cases h

/-- Texts have the tokens that have the right text for their kind and no capital letters. -/
theorem canonical_iff {t : Token} :
    t.Canonical ↔ t.WellFormed ∧ ∀ c ∈ t.written, Folded c := by
  constructor
  · exact Canonical.wellFormed
  · intro h
    obtain ⟨hw, hf⟩ := h
    cases hw with
    | keyword k => exact rfl
    | @name word hword hk =>
      exact ⟨word, rfl, writable_named.mp ((writable_iff rfl rfl).mpr ⟨.name hword hk, hf⟩)⟩
    | @integer digits hd hi =>
      exact ⟨digits, rfl, writable_value.mp ((writable_iff rfl rfl).mpr ⟨.integer hd hi, hf⟩)⟩
    | @string text hq =>
      exact ⟨text, rfl, writable_value.mp ((writable_iff rfl rfl).mpr ⟨.string hq, hf⟩)⟩
    | @blank run hn hb => exact ⟨run, rfl, hn, hb⟩
    | @symbol kind hk => cases kind <;> first | exact rfl | cases hk

/-- Tokens that can be told apart where they are written one directly behind the other. -/
structure Legible (ts : List Token) : Prop where
  canonical : ∀ t ∈ ts, t.Canonical
  apart : Apart ts

instance : DecidablePred Legible := fun ts =>
  decidable_of_iff ((ts.all fun t => t.Canonical) = true ∧ Apart ts)
    ⟨fun h => ⟨by simpa using h.1, h.2⟩, fun h => ⟨by simpa using h.canonical, h.apart⟩⟩

namespace Legible

variable {before after : List Token}

theorem left (h : Legible (before ++ after)) : Legible before := by
  obtain ⟨hc, ha⟩ := h
  refine ⟨fun t ht => hc t (List.mem_append_left _ ht), ?_⟩
  rw [Apart, List.map_append] at ha
  exact ha.left_of_append

theorem right (h : Legible (before ++ after)) : Legible after := by
  obtain ⟨hc, ha⟩ := h
  refine ⟨fun t ht => hc t (List.mem_append_right _ ht), ?_⟩
  rw [Apart, List.map_append] at ha
  exact ha.right_of_append

end Legible

def print (ts : List Token) : List Char := ts.flatMap written

@[simp] theorem print_cons (t : Token) (ts : List Token) :
    print (t :: ts) = t.written ++ print ts := List.flatMap_cons

@[simp] theorem print_append (ts us : List Token) : print (ts ++ us) = print ts ++ print us :=
  List.flatMap_append

@[simp] theorem written_gap (run : String) : (gap run).written = run.toList := rfl

end Token

def folded (text : String) : List Char := text.toList.flatMap lowercase

/-- A text has the legible tokens that it prints, in lower case. -/
theorem tokenize_eq_ok_iff_legible {text : String} {tokens : List Token} :
    tokenize text = .ok tokens ↔
      ∃ ts, tokens = ts ++ [.finish] ∧ Token.Legible ts ∧ folded text = Token.print ts := by
  rw [tokenize_eq_ok_iff]
  constructor
  · intro h
    obtain ⟨ts, rfl, hw, hs, hp⟩ := h
    have hc : ∀ t ∈ ts, t.Canonical := fun t ht =>
      Token.canonical_iff.mpr ⟨hw t ht, folded_of_tokenize hp t ht⟩
    exact ⟨ts, rfl, ⟨hc, (Token.separate_iff_apart hw).mp hs⟩, hp⟩
  · intro h
    obtain ⟨ts, rfl, ⟨hc, ha⟩, hp⟩ := h
    have hw : ∀ t ∈ ts, t.WellFormed := fun t ht => (hc t ht).wellFormed.1
    exact ⟨ts, rfl, hw, (Token.separate_iff_apart hw).mpr ha, hp⟩

theorem Token.Legible.folded_print {ts : List Token} (h : Token.Legible ts) :
    folded (String.ofList (Token.print ts)) = Token.print ts := by
  rw [folded, String.toList_ofList]
  refine flatMap_lowercase_of_folded fun c hc => ?_
  obtain ⟨t, ht, hc⟩ := List.mem_flatMap.mp hc
  exact (h.canonical t ht).wellFormed.2 c hc

/-- Tokens are read back from what they are written with if they are legible, and only then. -/
theorem tokenize_print_iff (ts : List Token) :
    tokenize (String.ofList (Token.print ts)) = .ok (ts ++ [.finish]) ↔ Token.Legible ts := by
  rw [tokenize_eq_ok_iff_legible]
  constructor
  · intro h
    obtain ⟨us, hus, hl, -⟩ := h
    obtain rfl := List.append_cancel_right hus
    exact hl
  · intro h
    exact ⟨ts, rfl, h, h.folded_print⟩

/-- Printing and scanning are inverse on legible tokens, and a scan finds no others. -/
theorem scan_inverts_print :
    (∀ ts, tokenize (String.ofList (Token.print ts)) = .ok (ts ++ [.finish]) ↔
      Token.Legible ts) ∧
    ∀ tokens, (∃ text, tokenize text = .ok tokens) ↔
      ∃ ts, tokens = ts ++ [.finish] ∧ Token.Legible ts := by
  refine ⟨tokenize_print_iff, fun tokens => ⟨fun h => ?_, fun h => ?_⟩⟩
  · obtain ⟨text, h⟩ := h
    obtain ⟨ts, hts, hl, -⟩ := tokenize_eq_ok_iff_legible.mp h
    exact ⟨ts, hts, hl⟩
  · obtain ⟨ts, rfl, hl⟩ := h
    exact ⟨_, (tokenize_print_iff ts).mpr hl⟩

namespace Token

theorem Canonical.text_eq_none_iff {t : Token} (h : t.Canonical) :
    t.text = none ↔ ∃ k, t.kind = .keyword k := by
  cases h.wellFormed.1 with
  | @symbol kind hk => cases kind <;> simp_all [spelled, Kind.spelling, Kind.isSymbol]
  | _ => simp

theorem length_le_print {ts : List Token} (h : ∀ t ∈ ts, t.written ≠ []) :
    ts.length ≤ (print ts).length := by
  induction ts with
  | nil => exact Nat.zero_le _
  | cons t rest ih =>
    obtain ⟨ht, hrest⟩ := List.forall_mem_cons.mp h
    have hpos := List.length_pos_iff.mpr ht
    have := ih hrest
    simp only [print_cons, List.length_append, List.length_cons]
    omega

end Token

/-- The tokens of a text are written with all of its characters in their order. None is empty but
the end mark, so there are no more of them than characters before it. -/
theorem print_tokens_eq_folded {text : String} {tokens : List Token}
    (h : tokenize text = .ok tokens) :
    ∃ ts, tokens = ts ++ [.finish] ∧ (∀ t ∈ ts, t.kind ≠ .finish ∧ t.written ≠ []) ∧
      Token.print tokens = folded text ∧ ts.length ≤ (folded text).length ∧
      ∀ t ∈ tokens, t.text = none ↔ t.kind = .finish ∨ ∃ k, t.kind = .keyword k := by
  obtain ⟨ts, rfl, ⟨hc, -⟩, hp⟩ := tokenize_eq_ok_iff_legible.mp h
  have hts : ∀ t ∈ ts, t.kind ≠ .finish ∧ t.written ≠ [] := by
    intro t ht
    obtain ⟨hw, -⟩ := (hc t ht).wellFormed
    exact ⟨hw.kind_ne_finish, List.ne_nil_iff_exists_cons.mpr hw.exists_written⟩
  refine ⟨ts, rfl, hts, ?_, ?_, ?_⟩
  · rw [hp, Token.print_append]
    exact List.append_nil _
  · rw [hp]
    exact Token.length_le_print fun t ht => (hts t ht).2
  · simp only [List.forall_mem_append, List.forall_mem_singleton]
    refine ⟨fun t ht => ?_, by simp [Token.finish]⟩
    rw [(hc t ht).text_eq_none_iff, or_iff_right (hts t ht).1]

/-- One of the capitals becomes two characters, inside a string. -/
theorem print_tokens_dotted :
    ∃ tokens, tokenize "DELETE FROM Été\u00A0WHERE a<>'İ '" = .ok tokens ∧
      Token.print tokens = "delete from été\u00A0where a<>'i\u0307 '".toList := by
  have h : tokenize "DELETE FROM Été\u00A0WHERE a<>'İ '" = .ok ([⟨.keyword .delete, none⟩,
      .gap " ", ⟨.keyword .«from», none⟩, .gap " ", .named "été", .gap "\u00A0",
      ⟨.keyword .«where», none⟩, .gap " ", .named "a", .spelled (.comparison .notEqual),
      ⟨.string, some "i\u0307 "⟩] ++ [.finish]) :=
    tokenize_eq_ok_iff_legible.mpr ⟨_, rfl, by decide +kernel, by decide +kernel⟩
  obtain ⟨_, _, _, hp, _⟩ := print_tokens_eq_folded h
  exact ⟨_, h, hp.trans (by decide +kernel)⟩

end SmallSql
