import Mathlib.Data.List.TakeWhile
import Mathlib.Data.Nat.Find
import SmallSql.Proofs.Refinement

namespace SmallSql

namespace Levels

def Within (levels : Levels) (tokens : List Token) : Prop :=
  ∀ i, levels.exceeded? tokens i = none

def after (levels : Levels) (tokens : List Token) : Levels :=
  tokens.foldl (fun levels t => levels.next t.kind) levels

theorem within_nil (levels : Levels) : Within levels [] := fun _ => rfl

section
variable {P : Option Refusal → Prop} {levels : Levels}

theorem forall_exceeded?_cons {t : Token} {rest : List Token} :
    (∀ i, P (levels.exceeded? (t :: rest) i)) ↔
      P (levels.limit? t.kind) ∧ ∀ i, P ((levels.next t.kind).exceeded? rest i) := by
  constructor
  · intro h
    exact ⟨h 0, fun i => h (i + 1)⟩
  · intro h i
    obtain ⟨ht, hr⟩ := h
    cases i with
    | zero => exact ht
    | succ i => exact hr i

theorem forall_exceeded?_append (hP : P none) {a b : List Token} :
    (∀ i, P (levels.exceeded? (a ++ b) i)) ↔
      (∀ i, P (levels.exceeded? a i)) ∧ ∀ i, P ((levels.after a).exceeded? b i) := by
  induction a generalizing levels with
  | nil => simp [exceeded?, after, hP]
  | cons t rest ih =>
    simp only [List.cons_append, forall_exceeded?_cons, ih, after, List.foldl_cons, and_assoc]

end

theorem within_cons {levels : Levels} {t : Token} {rest : List Token} :
    Within levels (t :: rest) ↔
      levels.limit? t.kind = none ∧ Within (levels.next t.kind) rest :=
  forall_exceeded?_cons (P := (· = none))

theorem within_append {levels : Levels} {a b : List Token} :
    Within levels (a ++ b) ↔ Within levels a ∧ Within (levels.after a) b :=
  forall_exceeded?_append (P := (· = none)) rfl

@[simp] theorem after_cons (levels : Levels) (t : Token) (rest : List Token) :
    levels.after (t :: rest) = (levels.next t.kind).after rest := rfl

@[simp] theorem after_append (levels : Levels) (a b : List Token) :
    levels.after (a ++ b) = (levels.after a).after b := List.foldl_append

theorem exceeded?_bare (levels : Levels) (tokens : List Token) (i : Nat) :
    levels.exceeded? (tokens.map Token.bare) i = levels.exceeded? tokens i := by
  induction tokens generalizing levels i with
  | nil => rfl
  | cons t rest ih =>
    cases i with
    | zero => rfl
    | succ i => exact ih (levels.next t.kind) i

theorem within_bare {levels : Levels} {tokens : List Token} :
    Within levels (tokens.map Token.bare) ↔ Within levels tokens := by
  simp only [Within, exceeded?_bare]

/-- Nothing counts before a condition begins. -/
theorem outside {tokens : List Token} (h : ∀ t ∈ tokens, t.kind ≠ .keyword .«where») :
    after [] tokens = [] ∧ Within [] tokens := by
  induction tokens with
  | nil => exact ⟨rfl, within_nil []⟩
  | cons t rest ih =>
    have ht := h t List.mem_cons_self
    obtain ⟨ha, hw⟩ := ih fun u hu => h u (List.mem_cons_of_mem t hu)
    have hn : next [] t.kind = [] := by simp [next, ht]
    refine ⟨by rw [after, List.foldl_cons, hn]; exact ha, within_cons.mpr ⟨?_, by rwa [hn]⟩⟩
    simp [limit?, Nest.maxLinks]

end Levels

namespace Phrase

variable {r : Rule}

theorem links_term (term : Phrase .term) : term.links = 0 := by cases term <;> rfl

theorem after_tokens (links : Nat) (outer : Levels) (p : Phrase r) :
    Levels.after (links :: outer) p.tokens = (links + p.links) :: outer := by
  induction p generalizing links outer with
  | compare column c v => cases v <;> rfl
  | group inner ih =>
    simp only [tokens, Levels.after_cons, Levels.after_append, Token.mark, Levels.next, ih]
    rfl
  | last term ih =>
    have h := ih links outer
    rwa [links_term] at h
  | link term j rest iht ihr =>
    have hj : Levels.next (links :: outer) (.keyword j.keyword) = (links + 1) :: outer := by
      cases j <;> rfl
    simp only [tokens, Levels.after_append, Levels.after_cons, Token.mark, iht, links_term,
      Nat.add_zero, hj, ihr, Phrase.links]
    congr 1
    omega

/-- The limits of a derivation are those of its tokens, inside what is open around it. -/
theorem within_tokens {links : Nat} {outer : Levels} (p : Phrase r)
    (hd : outer.length ≤ Nest.maxDepth) (hl : links + outer.total ≤ Nest.maxLinks) :
    Levels.Within (links :: outer) p.tokens ↔ p.Fits outer.length (links + outer.total) := by
  induction p generalizing links outer with
  | compare column c v =>
    cases v <;> simp [tokens, Fits, Levels.within_cons, Levels.within_nil, Levels.limit?,
      Token.named, Token.mark, Value.token, Kind.junction?]
  | group inner ih =>
    have hopen : Levels.limit? (links :: outer) .openParen = none ↔
        outer.length < Nest.maxDepth := by
      simp only [Levels.limit?, Kind.junction?, List.length_cons]
      simp
      omega
    have hclose (levels : Levels) : Levels.limit? levels .closeParen = none := by
      simp [Levels.limit?, Kind.junction?]
    have hi := @ih 0 (links :: outer)
    simp only [List.length_cons, Levels.total_cons, Nat.zero_add] at hi
    simp only [tokens, Levels.within_cons, Levels.within_append, Levels.within_nil, Token.mark,
      Fits, hopen, hclose, and_true]
    exact and_congr_right fun ho => hi ho hl
  | last term ih => exact ih hd hl
  | link term j rest iht ihr =>
    have hj : Levels.next (links :: outer) (.keyword j.keyword) = (links + 1) :: outer := by
      cases j <;> rfl
    have hlimit : Levels.limit? (links :: outer) (.keyword j.keyword) = none ↔
        links + outer.total < Nest.maxLinks := by
      simp only [Levels.limit?, Kind.junction?_keyword, Levels.total_cons]
      simp
      omega
    have hr := @ihr (links + 1) outer hd
    rw [Nat.add_right_comm] at hr
    simp only [tokens, Levels.within_append, Levels.within_cons, after_tokens, links_term,
      Nat.add_zero, Token.mark, hj, hlimit, iht hd hl, Fits]
    exact and_congr_right fun _ => and_congr_right fun h => hr h

end Phrase

namespace Statement

theorem within_clause (clause : Option (Phrase .chain)) :
    Levels.Within [] (clauseTokens clause) ↔ ∀ phrase ∈ clause, phrase.Fits 0 0 := by
  cases clause with
  | none => simp [clauseTokens, Levels.within_nil]
  | some p =>
    have hp : Levels.Within [0] p.tokens ↔ p.Fits 0 0 :=
      p.within_tokens (Nat.zero_le _) (Nat.zero_le _)
    have hw : Levels.limit? [] (.keyword .«where») = none := by decide
    have hn : Levels.next [] (.keyword .«where») = [0] := by decide
    simp only [clauseTokens, Levels.within_cons, Token.mark, hw, hn, true_and]
    simpa using hp

theorem within_head (head : List Token) (h : ∀ t ∈ head, t.kind ≠ .keyword .«where»)
    (clause : Option (Phrase .chain)) :
    Levels.Within [] (head ++ clauseTokens clause) ↔ ∀ phrase ∈ clause, phrase.Fits 0 0 := by
  obtain ⟨ha, hw⟩ := Levels.outside h
  rw [Levels.within_append, ha, within_clause]
  simp [hw]

theorem within_tokens (s : Statement) : Levels.Within [] s.tokens ↔ s.Fits := by
  rw [tokens_eq_lead, within_head s.lead s.lead_kind]
  rfl

end Statement

/-- The rules alone read what a derivation spells. -/
theorem Descent.query_eq_ok_iff (tokens : List Token) (q : Query) :
    query tokens = .ok q ↔ ∃ s : Statement, s.Spells (significant tokens) ∧ s.query = q := by
  constructor
  · intro h
    obtain ⟨⟨q', stop⟩, hs, hq⟩ : ∃ r, statement (start tokens) = .ok r ∧ r.1 = q := by
      unfold query at h
      cases hs : statement (start tokens) with
      | error cause => simp [hs, Except.map] at h
      | ok r => exact ⟨r, rfl, by simpa [hs, Except.map] using h⟩
    obtain ⟨s, hsq, hb⟩ := statement_bare hs
    exact ⟨s, hb, hsq.trans hq⟩
  · intro h
    obtain ⟨s, hs, rfl⟩ := h
    rw [query, statement_start, ← Reading.readOn_bare, hs, s.readOn_tokens]
    rfl

theorem Descent.taken_of_spells {tokens : List Token} {s : Statement}
    (h : s.Spells (significant tokens)) : taken tokens = (significant tokens).length := by
  have hl := congrArg List.length h
  rw [List.length_map] at hl
  rw [taken, statement_start, ← Reading.readOn_bare, h, s.readOn_tokens, hl]
  rfl

theorem exceeded?_cases (levels : Levels) (tokens : List Token) (n : Nat) :
    (∀ i < n, levels.exceeded? tokens i = none) ∨
    ∃ p < n, (∃ refusal, levels.exceeded? tokens p = some refusal) ∧
      ∀ i < p, levels.exceeded? tokens i = none := by
  by_cases h : ∀ i < n, levels.exceeded? tokens i = none
  · exact .inl h
  · have hex : ∃ p, p < n ∧ levels.exceeded? tokens p ≠ none := by
      simpa using h
    refine .inr ⟨Nat.find hex, (Nat.find_spec hex).1, ?_, fun i hi => ?_⟩
    · exact Option.ne_none_iff_exists'.mp (Nat.find_spec hex).2
    · by_contra hne
      exact Nat.find_min hex hi ⟨Nat.lt_trans hi (Nat.find_spec hex).1, hne⟩

theorem Levels.exceeded?_of_length_le (levels : Levels) {tokens : List Token} {i : Nat}
    (h : tokens.length ≤ i) : levels.exceeded? tokens i = none := by
  induction tokens generalizing levels i with
  | nil => rfl
  | cons t rest ih =>
    cases i with
    | zero => cases h
    | succ i => exact ih (levels.next t.kind) (Nat.le_of_succ_le_succ h)

theorem significant_eq_self {tokens : List Token}
    (h : ∀ t ∈ tokens, t.kind ≠ .blank ∧ t.kind ≠ .finish) : significant tokens = tokens := by
  rw [significant, List.filter_eq_self.mpr fun t ht => by simpa using (h t ht).1]
  exact List.takeWhile_eq_self_iff.mpr fun t ht => by simpa using (h t ht).2

theorem Statement.significant_tokens (s : Statement) : significant s.tokens = s.tokens :=
  significant_eq_self fun t ht => (s.bare_tokens t ht).2

theorem Statement.spells_tokens (s : Statement) : s.Spells (significant s.tokens) := by
  rw [s.significant_tokens]
  exact (List.map_congr_left fun t ht => (s.bare_tokens t ht).1).trans (List.map_id' _)

theorem Statement.Spells.within_iff {tokens : List Token} {s : Statement} (h : s.Spells tokens) :
    Levels.Within [] tokens ↔ s.Fits := by
  rw [← Levels.within_bare, h, s.within_tokens]

namespace Query

variable {tokens : List Token}

theorem ofTokens_of_spells {s : Statement} (h : s.Spells (significant tokens)) (hf : s.Fits) :
    ofTokens tokens = .ok s.query := by
  rw [ofTokens_eq_descent fun i _ => h.within_iff.mpr hf i]
  exact (Descent.query_eq_ok_iff tokens s.query).mpr ⟨s, h, rfl⟩

/-- What is read is derived, and what is derived within the limits is read. -/
theorem ofTokens_eq_ok_iff (q : Query) : ofTokens tokens = .ok q ↔
    ∃ s : Statement, s.Spells (significant tokens) ∧ s.Fits ∧ s.query = q := by
  constructor
  · intro h
    rcases exceeded?_cases [] (significant tokens) (Descent.taken tokens) with
      hw | ⟨p, hp, ⟨refusal, hr⟩, hmin⟩
    · rw [ofTokens_eq_descent hw] at h
      obtain ⟨s, hs, hq⟩ := (Descent.query_eq_ok_iff tokens q).mp h
      refine ⟨s, hs, hs.within_iff.mp fun i => ?_, hq⟩
      by_cases hi : i < (significant tokens).length
      · exact hw i (by rwa [Descent.taken_of_spells hs])
      · exact Levels.exceeded?_of_length_le [] (Nat.le_of_not_lt hi)
    -- A token over a limit would have ended the reading with an error.
    · obtain ⟨last, found, he⟩ := ofTokens_eq_error hp hr hmin
      rw [he] at h
      cases h
  · intro h
    obtain ⟨s, hs, hf, rfl⟩ := h
    exact ofTokens_of_spells hs hf

end Query

/-- Tokens are read as a query exactly when a derivation within the limits spells them, and no
tokens have two meanings, within the limits or beyond them. -/
theorem accepts_exactly_sentences (tokens : List Token) :
    (∀ q, Query.ofTokens tokens = .ok q ↔
      ∃ s : Statement, s.Spells (significant tokens) ∧ s.Fits ∧ s.query = q) ∧
    ∀ s s' : Statement, s.Spells tokens → s'.Spells tokens → s.query = s'.query := by
  refine ⟨fun q => Query.ofTokens_eq_ok_iff q, fun s s' hs hs' => ?_⟩
  have h := s.readOn_tokens
  rw [← hs, hs', s'.readOn_tokens] at h
  exact (Prod.mk.inj (Except.ok.inj h)).1.symm

end SmallSql
