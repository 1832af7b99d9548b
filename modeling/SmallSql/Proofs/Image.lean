import SmallSql.Proofs.Neighbours
import SmallSql.Proofs.Paths

namespace SmallSql

open Unicode

/-- A word that is no keyword and has no capital letters. -/
def IsName (word : String) : Prop :=
  IsWord word.toList ∧ (∀ c ∈ word.toList, Folded c) ∧ ∀ k : Keyword, k.word ≠ word

instance : DecidablePred IsName := fun word =>
  decidable_of_iff (IsWord word.toList ∧ (word.toList.all fun c => Folded c) = true ∧
    Keyword.ofWord? word = none) (by simp [IsName, Keyword.ofWord?_eq_none_iff])

def Value.IsLiteral : Value → Prop
  | .integer digits => digits.toList ≠ [] ∧ (∀ c ∈ digits.toList, c.isDigit = true) ∧
    Token.decimalValue digits.toList ≤ Token.maxInteger
  | .string text => ∀ c ∈ text.toList, c ≠ '\x27' ∧ Folded c

instance : DecidablePred Value.IsLiteral
  | .integer digits =>
    decidable_of_iff (digits.toList ≠ [] ∧ digits.toList.all Char.isDigit = true ∧
      Token.decimalValue digits.toList ≤ Token.maxInteger) (by simp [Value.IsLiteral])
  | .string text =>
    decidable_of_iff ((text.toList.all fun c => c ≠ '\x27' ∧ Folded c) = true)
      (by simp [Value.IsLiteral])

namespace Query

/-- No list that is written with commas is empty. -/
def Filled : Query → Prop
  | .select q => q.columns ≠ []
  | .insert q => q.rows ≠ [] ∧ ∀ row ∈ q.rows, row ≠ []
  | .delete _ => True

/-- What can be said of a query without the text it was read from. -/
structure Compilable (q : Query) : Prop where
  names : ∀ name ∈ q.names, IsName name
  values : ∀ v ∈ q.values, v.IsLiteral
  filled : q.Filled
  wellFormed : ∀ c ∈ q.condition?, c.WellFormed
  paths : ∀ c ∈ q.condition?, ∀ path : c.Path,
    path.rights ≤ Nest.maxLinks ∧ path.groups ≤ Nest.maxDepth

end Query

namespace Token

/-- A text can have a token that is read as this one. -/
def Writable (t : Token) : Prop :=
  ∃ u : Token, u.bare = t ∧ u.WellFormed ∧ ∀ c ∈ u.written, Folded c

theorem folded_spelling (kind : Kind) : ∀ c ∈ (kind.spelling.getD "").toList, Folded c := by
  cases kind with
  | keyword k => exact folded_of_all (by cases k <;> rfl)
  | comparison c => exact folded_of_all (by cases c <;> rfl)
  | _ => exact folded_of_all rfl

theorem writable_mark (kind : Kind) (h : kind.spelling.isSome = true) :
    (mark kind).Writable := by
  have hfolded := folded_spelling kind
  cases kind with
  | keyword k => exact ⟨⟨.keyword k, none⟩, rfl, .keyword k, hfolded⟩
  | comparison c => exact ⟨spelled (.comparison c), rfl, .symbol rfl, hfolded⟩
  | comma => exact ⟨spelled .comma, rfl, .symbol rfl, hfolded⟩
  | star => exact ⟨spelled .star, rfl, .symbol rfl, hfolded⟩
  | openParen => exact ⟨spelled .openParen, rfl, .symbol rfl, hfolded⟩
  | closeParen => exact ⟨spelled .closeParen, rfl, .symbol rfl, hfolded⟩
  | _ => cases h

theorem WellFormed.eq_of_bare {t u : Token} (h : u.WellFormed) (hu : u.bare = t)
    (ht : t.kind.showsText = true) : u = t := by
  subst hu
  cases h with
  | symbol hs =>
    rename_i kind
    cases kind <;>
      first | exact absurd hs Bool.false_ne_true | exact absurd ht Bool.false_ne_true
  | keyword k => cases ht
  | blank hn hb => cases ht
  | _ => rfl

theorem writable_named {name : String} : (named name).Writable ↔ IsName name := by
  constructor
  · intro h
    obtain ⟨u, hu, hw, hf⟩ := h
    obtain rfl := hw.eq_of_bare hu rfl
    cases hw with
    | name hword hk => exact ⟨hword, hf, Keyword.ofWord?_eq_none_iff.mp hk⟩
  · intro h
    obtain ⟨hword, hf, hk⟩ := h
    exact ⟨named name, rfl, .name hword (Keyword.ofWord?_eq_none_iff.mpr hk), hf⟩

theorem writable_value {v : Value} : v.token.Writable ↔ v.IsLiteral := by
  cases v with
  | integer digits =>
    constructor
    · intro h
      obtain ⟨u, hu, hw, hf⟩ := h
      obtain rfl := hw.eq_of_bare hu rfl
      cases hw with
      | integer hn hi =>
        simp only [isInteger, Bool.and_eq_true, decide_eq_true_eq] at hi
        exact ⟨hn, List.all_eq_true.mp hi.1, hi.2⟩
    · intro h
      obtain ⟨hn, hd, hm⟩ := h
      refine ⟨Value.token (.integer digits), rfl, .integer hn ?_, fun c hc => ?_⟩
      · simp only [isInteger, Bool.and_eq_true, decide_eq_true_eq]
        exact ⟨List.all_eq_true.mpr hd, hm⟩
      · exact folded_of_isDigit (hd c hc)
  | string text =>
    constructor
    · intro h
      obtain ⟨u, hu, hw, hf⟩ := h
      obtain rfl := hw.eq_of_bare hu rfl
      cases hw with
      | string hq =>
        intro c hc
        refine ⟨fun h => hq (h ▸ hc), hf c ?_⟩
        exact List.mem_cons_of_mem _ (List.mem_append_left _ hc)
    · intro h
      refine ⟨Value.token (.string text), rfl, .string fun hq => (h _ hq).1 rfl, ?_⟩
      have hquote : Folded '\x27' := rfl
      intro c hc
      rcases List.mem_cons.mp hc with rfl | hc
      · exact hquote
      rcases List.mem_append.mp hc with hc | hc
      · exact (h c hc).2
      · exact List.mem_singleton.mp hc ▸ hquote

end Token

theorem Statement.writable_iff (s : Statement) : (∀ t ∈ s.tokens, t.Writable) ↔
    (∀ name ∈ s.query.names, IsName name) ∧ ∀ v ∈ s.query.values, v.IsLiteral := by
  simp only [s.forall_tokens Token.writable_mark, Token.writable_named, Token.writable_value]

theorem exists_map_eq {α β : Type} {f : α → β} {P : α → Prop} {xs : List β}
    (h : ∀ x ∈ xs, ∃ a, f a = x ∧ P a) : ∃ as : List α, as.map f = xs ∧ ∀ a ∈ as, P a := by
  induction xs with
  | nil => exact ⟨[], rfl, by simp⟩
  | cons x rest ih =>
    obtain ⟨⟨a, rfl, ha⟩, hrest⟩ := List.forall_mem_cons.mp h
    obtain ⟨as, rfl, has⟩ := ih hrest
    exact ⟨a :: as, rfl, List.forall_mem_cons.mpr ⟨ha, has⟩⟩

theorem Listing.exists_toList {α : Type} {xs : List α} (h : xs ≠ []) :
    ∃ listing : Listing α, listing.toList = xs := by
  cases xs with
  | nil => exact absurd rfl h
  | cons x rest => exact ⟨⟨x, rest⟩, rfl⟩

namespace Statement

theorem query_filled (s : Statement) : s.query.Filled := by
  cases s with
  | select columns table clause => exact List.cons_ne_nil _ _
  | insert table rows =>
    refine ⟨List.cons_ne_nil _ _, fun row hrow => ?_⟩
    obtain ⟨r, _, rfl⟩ := List.mem_map.mp hrow
    exact List.cons_ne_nil _ _
  | delete table clause => trivial

theorem exists_clause {condition : Option Condition}
    (h : ∀ c ∈ condition, c.WellFormed ∧ c.Bounded 0 0) :
    ∃ clause : Option (Phrase .chain), clause.map Phrase.meaning = condition ∧
      ∀ p ∈ clause, p.Fits 0 0 := by
  cases condition with
  | none => exact ⟨none, rfl, by simp⟩
  | some c =>
    obtain ⟨hw, hb⟩ := h c rfl
    obtain ⟨p, rfl, hp⟩ := hw.exists_phrase
    refine ⟨some p, rfl, fun p' hp' => ?_⟩
    obtain rfl := Option.some.inj hp'
    exact hp 0 0 hb

/-- A query with nothing empty in it and a condition that fits has a derivation that fits. -/
theorem exists_query_eq {q : Query} (hf : q.Filled)
    (hc : ∀ c ∈ q.condition?, c.WellFormed ∧ c.Bounded 0 0) :
    ∃ s : Statement, s.query = q ∧ s.Fits := by
  cases q with
  | select q =>
    obtain ⟨columns, hcolumns⟩ := Listing.exists_toList hf
    obtain ⟨clause, hclause, hp⟩ := exists_clause hc
    exact ⟨.select columns q.table clause, by rw [query, hcolumns, hclause]; rfl, hp⟩
  | insert q =>
    obtain ⟨hrows, hrow⟩ := hf
    obtain ⟨rows, hr, _⟩ := exists_map_eq (f := Listing.toList) (P := fun _ => True)
      fun row h => (Listing.exists_toList (hrow row h)).imp fun _ h => ⟨h, trivial⟩
    have hne : rows ≠ [] := by
      intro h
      rw [h] at hr
      exact hrows hr.symm
    obtain ⟨listing, rfl⟩ := Listing.exists_toList hne
    exact ⟨.insert q.table listing, by rw [query, hr], by simp [Fits, clause?]⟩
  | delete q =>
    obtain ⟨clause, hclause, hp⟩ := exists_clause hc
    exact ⟨.delete q.table clause, by rw [query, hclause]; rfl, hp⟩

end Statement

theorem compile_eq_ok_iff {text : String} {q : Query} : compile text = .ok q ↔
    ∃ tokens, tokenize text = .ok tokens ∧ Query.ofTokens tokens = .ok q := by
  unfold compile
  cases tokenize text with
  | error cause => simp
  | ok tokens => cases hq : Query.ofTokens tokens <;> simp [hq, Except.mapError]

theorem compilable_of_compile {text : String} {q : Query} (h : compile text = .ok q) :
    q.Compilable := by
  obtain ⟨tokens, ht, hq⟩ := compile_eq_ok_iff.mp h
  obtain ⟨ts, rfl, hts, -, hw⟩ := tokenize_eq_ok_iff.mp ht
  obtain ⟨s, hs, hfits, rfl⟩ := (Query.ofTokens_eq_ok_iff q).mp hq
  rw [significant_finish hts] at hs
  have hwritable : ∀ t ∈ s.tokens, t.Writable := by
    intro t ht
    rw [← hs] at ht
    obtain ⟨u, hu, rfl⟩ := List.mem_map.mp ht
    have hu := (List.mem_filter.mp hu).1
    exact ⟨u, rfl, hts u hu, folded_of_tokenize hw u hu⟩
  obtain ⟨hnames, hvalues⟩ := s.writable_iff.mp hwritable
  have hcondition : ∀ c ∈ s.query.condition?, ∃ p ∈ s.clause?, p.meaning = c := by
    rw [s.query_condition?]
    simp
  refine ⟨hnames, hvalues, s.query_filled, fun c hc => ?_, fun c hc path => ?_⟩
  · obtain ⟨p, -, rfl⟩ := hcondition c hc
    exact p.meaning_wellFormed
  · obtain ⟨p, hp, rfl⟩ := hcondition c hc
    have := (hfits p hp).bounded (Nat.zero_le _) (Nat.zero_le _) path
    omega

theorem Query.Compilable.exists_compile {q : Query} (h : q.Compilable) :
    ∃ text, compile text = .ok q := by
  have hc : ∀ c ∈ q.condition?, c.WellFormed ∧ c.Bounded 0 0 := by
    intro c hc
    refine ⟨h.wellFormed c hc, fun path => ?_⟩
    have := h.paths c hc path
    omega
  obtain ⟨s, rfl, hfits⟩ := Statement.exists_query_eq h.filled hc
  obtain ⟨us, hus, hw⟩ := exists_map_eq (s.writable_iff.mpr ⟨h.names, h.values⟩)
  have hblank : ∀ u ∈ us, u.kind ≠ .blank := by
    intro u hu
    rw [← Token.bare_kind]
    exact (s.bare_tokens u.bare (hus ▸ List.mem_map_of_mem hu)).2.1
  obtain ⟨text, tokens, ht, hsig⟩ := exists_tokenize fun u hu =>
    ⟨(hw u hu).1, hblank u hu, (hw u hu).2⟩
  refine ⟨text, compile_eq_ok_iff.mpr ⟨tokens, ht, ?_⟩⟩
  exact Query.ofTokens_of_spells (by rw [hsig]; exact hus) hfits

/-- The queries that texts compile to. -/
theorem exists_compile_iff_compilable (q : Query) :
    (∃ text, compile text = .ok q) ↔ q.Compilable := by
  constructor
  · intro h
    obtain ⟨text, h⟩ := h
    exact compilable_of_compile h
  · exact Query.Compilable.exists_compile

end SmallSql
