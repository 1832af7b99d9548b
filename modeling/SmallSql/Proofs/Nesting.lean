import SmallSql.Proofs.Paths

namespace SmallSql

/-- The most parentheses that are open at once, where `opened` are open before the tokens. -/
def deepest (opened : Nat) : List Token → Nat
  | [] => opened
  | t :: rest =>
    match t.kind with
    | .openParen => deepest (opened + 1) rest
    | .closeParen => max opened (deepest (opened - 1) rest)
    | _ => deepest opened rest

def nesting (tokens : List Token) : Nat := deepest 0 (conditionOf tokens)

theorem deepest_bare (opened : Nat) (tokens : List Token) :
    deepest opened (tokens.map Token.bare) = deepest opened tokens := by
  induction tokens generalizing opened with
  | nil => rfl
  | cons t rest ih => simp only [List.map_cons, deepest, Token.bare_kind, ih]

theorem le_deepest (opened : Nat) (tokens : List Token) : opened ≤ deepest opened tokens := by
  induction tokens generalizing opened with
  | nil => exact Nat.le_refl opened
  | cons t rest ih =>
    rw [deepest]
    split
    · exact Nat.le_of_succ_le (ih (opened + 1))
    · exact Nat.le_max_left _ _
    · exact ih opened

namespace Levels

def Linked (levels : Levels) (tokens : List Token) : Prop :=
  ∀ i, levels.exceeded? tokens i ≠ some .chainTooLong

variable {levels : Levels}

theorem linked_nil : Linked levels [] := by simp [Linked, exceeded?]

theorem linked_cons {t : Token} {rest : List Token} : Linked levels (t :: rest) ↔
    levels.limit? t.kind ≠ some .chainTooLong ∧ Linked (levels.next t.kind) rest :=
  forall_exceeded?_cons (P := (· ≠ some .chainTooLong))

theorem linked_append {a b : List Token} :
    Linked levels (a ++ b) ↔ Linked levels a ∧ Linked (levels.after a) b :=
  forall_exceeded?_append (P := (· ≠ some .chainTooLong)) (by simp)

theorem Within.linked {tokens : List Token} (h : Within levels tokens) : Linked levels tokens := by
  intro i
  simp [h i]

theorem limit?_ne_chainTooLong {kind : Kind}
    (h : kind.junction? = none ∨ levels.total < Nest.maxLinks) :
    levels.limit? kind ≠ some .chainTooLong := by
  unfold limit?
  split
  · simp
  · split
    · rename_i hk
      rcases h with h | h
      · simp [h] at hk
      · omega
    · simp

theorem exceeded?_ne_unexpected (levels : Levels) (tokens : List Token) (i : Nat) :
    levels.exceeded? tokens i ≠ some .unexpected := by
  induction tokens generalizing levels i with
  | nil => simp [exceeded?]
  | cons t rest ih =>
    cases i with
    | zero =>
      simp only [exceeded?, limit?]
      split
      · simp
      · split <;> simp
    | succ i => exact ih (levels.next t.kind) i

end Levels

namespace Phrase

variable {r : Rule}

def nesting : {r : Rule} → Phrase r → Nat
  | _, .compare _ _ _ => 0
  | _, .group inner => inner.nesting + 1
  | _, .last term => term.nesting
  | _, .link term _ rest => max term.nesting rest.nesting

theorem deepest_tokens (opened : Nat) (p : Phrase r) (rest : List Token) :
    deepest opened (p.tokens ++ rest) = max (opened + p.nesting) (deepest opened rest) := by
  have hle := le_deepest opened rest
  induction p generalizing opened rest with
  | compare column c v =>
    have h : deepest opened ((compare column c v).tokens ++ rest) = deepest opened rest := by
      cases v <;> rfl
    rw [h, nesting, Nat.add_zero, Nat.max_eq_right hle]
  | group inner ih =>
    have hclose : deepest (opened + 1) (.mark .closeParen :: rest) =
        max (opened + 1) (deepest opened rest) := rfl
    have hi := ih (opened + 1) (.mark .closeParen :: rest) (le_deepest _ _)
    have h : deepest opened ((group inner).tokens ++ rest) =
        deepest (opened + 1) (inner.tokens ++ .mark .closeParen :: rest) := by
      simp [tokens, deepest, Token.mark]
    rw [h, hi, hclose, nesting]
    omega
  | last term ih => exact ih opened rest hle
  | link term j next iht ihn =>
    have hj : deepest opened (.mark (.keyword j.keyword) :: (next.tokens ++ rest)) =
        deepest opened (next.tokens ++ rest) := rfl
    rw [tokens, List.append_assoc, List.cons_append, iht _ _ (le_deepest _ _), hj, ihn _ _ hle,
      nesting]
    omega

/-- Every link finds room, however deep the groups are. -/
def Linked (links : Nat) : {r : Rule} → Phrase r → Prop
  | _, .compare _ _ _ => True
  | _, .group inner => inner.Linked links
  | _, .last term => term.Linked links
  | _, .link term _ rest =>
    term.Linked links ∧ links < Nest.maxLinks ∧ rest.Linked (links + 1)

theorem fits_iff {depth links : Nat} (p : Phrase r) (hd : depth ≤ Nest.maxDepth) :
    p.Fits depth links ↔ depth + p.nesting ≤ Nest.maxDepth ∧ p.Linked links := by
  induction p generalizing depth links with
  | compare column c v => simp only [Fits, nesting, Linked, Nat.add_zero, hd, true_and]
  | group inner ih =>
    simp only [Fits, nesting, Linked]
    constructor
    · intro h
      obtain ⟨hn, hl⟩ := (ih h.1).mp h.2
      exact ⟨by omega, hl⟩
    · intro h
      obtain ⟨hn, hl⟩ := h
      exact ⟨by omega, (ih (by omega)).mpr ⟨by omega, hl⟩⟩
  | last term ih => exact ih hd
  | link term j rest iht ihr =>
    simp only [Fits, nesting, Linked, iht hd, ihr hd]
    constructor
    · intro h
      obtain ⟨⟨hn, ht⟩, hl, hm, hr⟩ := h
      exact ⟨by omega, ht, hl, hr⟩
    · intro h
      obtain ⟨hn, ht, hl, hr⟩ := h
      exact ⟨⟨by omega, ht⟩, hl, by omega, hr⟩

/-- The links before a place are the junctions that the way there leaves to the right. -/
theorem linked_iff {links : Nat} (p : Phrase r) (hl : links ≤ Nest.maxLinks) :
    p.Linked links ↔ ∀ path : p.meaning.Path, links + path.rights ≤ Nest.maxLinks := by
  induction p generalizing links with
  | compare column c v =>
    simp only [Linked, true_iff]
    intro path
    have : path.rights = 0 := (Condition.Path.plain_compare path).2.1
    omega
  | group inner ih => exact ih hl
  | last term ih => exact ih hl
  | link term j rest iht ihr =>
    constructor
    · intro h path
      obtain ⟨ht, hlt, hr⟩ := h
      cases path with
      | left path => exact (iht hl).mp ht path
      | right path =>
        have := (ihr hlt).mp hr path
        simp only [Condition.Path.rights]
        omega
    · intro h
      have hlt : links < Nest.maxLinks := by
        have := h (.right (.first rest.meaning))
        simp only [Condition.Path.rights] at this
        omega
      refine ⟨(iht hl).mpr fun path => h (.left path), hlt, (ihr hlt).mpr fun path => ?_⟩
      have := h (.right path)
      simp only [Condition.Path.rights] at this
      omega

theorem Linked.levels {links : Nat} {outer : Levels} {p : Phrase r}
    (h : p.Linked (links + outer.total)) : Levels.Linked (links :: outer) p.tokens := by
  induction p generalizing links outer with
  | compare column c v =>
    simp only [tokens, Levels.linked_cons, Levels.linked_nil, and_true]
    refine ⟨Levels.limit?_ne_chainTooLong (.inl rfl), Levels.limit?_ne_chainTooLong (.inl rfl),
      Levels.limit?_ne_chainTooLong (.inl ?_)⟩
    cases v <;> rfl
  | group inner ih =>
    have hi : Levels.Linked (0 :: links :: outer) inner.tokens := by
      apply ih
      rwa [Nat.zero_add]
    simp only [tokens, Levels.linked_cons, Levels.linked_append, Levels.linked_nil, and_true]
    exact ⟨Levels.limit?_ne_chainTooLong (.inl rfl), hi, Levels.limit?_ne_chainTooLong (.inl rfl)⟩
  | last term ih => exact ih h
  | link term j rest iht ihr =>
    obtain ⟨ht, hlt, hr⟩ := h
    have hn : Levels.next (links :: outer) (.keyword j.keyword) = (links + 1) :: outer := by
      cases j <;> rfl
    simp only [tokens, Levels.linked_cons, Levels.linked_append, after_tokens, links_term,
      Nat.add_zero, Token.mark, hn]
    exact ⟨iht ht, Levels.limit?_ne_chainTooLong (.inr hlt), ihr (by rwa [Nat.add_right_comm])⟩

end Phrase

namespace Statement

def Linked (s : Statement) : Prop := ∀ p ∈ s.clause?, p.Linked 0

variable {s : Statement}

theorem linked_iff (s : Statement) :
    s.Linked ↔ ∀ c ∈ s.query.condition?, ∀ path : c.Path, path.rights ≤ Nest.maxLinks := by
  rw [s.query_condition?, Linked]
  cases s.clause? with
  | none => simp
  | some p =>
    have h := p.linked_iff (Nat.zero_le _)
    simp only [Nat.zero_add] at h
    simpa using h

theorem Linked.levels (h : s.Linked) : Levels.Linked [] s.tokens := by
  obtain ⟨ha, hw⟩ := Levels.outside s.lead_kind
  rw [s.tokens_eq_lead, Levels.linked_append, ha]
  refine ⟨hw.linked, ?_⟩
  cases hc : s.clause? with
  | none => exact Levels.linked_nil
  | some p =>
    have hp : p.Linked (0 + Levels.total []) := h p hc
    exact Levels.linked_cons.mpr ⟨by decide, hp.levels⟩

namespace Spells

variable {tokens : List Token}

theorem nesting_eq (h : s.Spells tokens) : nesting tokens = s.clause?.elim 0 Phrase.nesting := by
  rw [nesting, ← deepest_bare, h.conditionOf_eq]
  cases s.clause? with
  | none => rfl
  | some p =>
    have hp := p.deepest_tokens 0 []
    simpa [deepest] using hp

theorem fits_iff (h : s.Spells tokens) : s.Fits ↔ nesting tokens ≤ Nest.maxDepth ∧ s.Linked := by
  rw [h.nesting_eq, Fits, Linked]
  cases s.clause? with
  | none => simp
  | some p =>
    have hp : p.Fits 0 0 ↔ _ := p.fits_iff (Nat.zero_le _)
    simpa using hp

end Spells

end Statement

namespace Query

variable {tokens : List Token} {s : Statement}

theorem exists_ofTokens_iff_fits (h : s.Spells (significant tokens)) :
    (∃ q, ofTokens tokens = .ok q) ↔ s.Fits := by
  constructor
  · intro hq
    obtain ⟨q, hq⟩ := hq
    obtain ⟨s', hs', hf, -⟩ := (ofTokens_eq_ok_iff q).mp hq
    exact h.within_iff.mp (hs'.within_iff.mpr hf)
  · intro hf
    exact ⟨s.query, ofTokens_of_spells h hf⟩

/-- The tokens are read as `q`, unless their groups are nested too deep: then they are refused, and
for nothing else. -/
def OfTokensUnlessDeep (q : Query) (tokens : List Token) : Prop :=
  (nesting (significant tokens) ≤ Nest.maxDepth → ofTokens tokens = .ok q) ∧
  (Nest.maxDepth < nesting (significant tokens) →
    ∃ position, ofTokens tokens = .error (.nestingTooDeep Nest.maxDepth position))

theorem ofTokensUnlessDeep (h : s.Spells (significant tokens)) (hl : s.Linked) :
    s.query.OfTokensUnlessDeep tokens := by
  refine ⟨fun hn => ofTokens_of_spells h (h.fits_iff.mpr ⟨hn, hl⟩), fun hn => ?_⟩
  rcases exceeded?_cases [] (significant tokens) (Descent.taken tokens) with
    hw | ⟨p, hp, ⟨refusal, hr⟩, hmin⟩
  · rw [Descent.taken_of_spells h] at hw
    have hf : s.Fits := h.within_iff.mp fun i => by
      by_cases hi : i < (significant tokens).length
      · exact hw i hi
      · exact Levels.exceeded?_of_length_le [] (Nat.le_of_not_lt hi)
    exact absurd (h.fits_iff.mp hf).1 (Nat.not_le.mpr hn)
  · obtain ⟨last, found, he⟩ := ofTokens_eq_error hp hr hmin
    cases refusal with
    | unexpected => exact absurd hr (Levels.exceeded?_ne_unexpected _ _ _)
    | nestingTooDeep => exact ⟨p, he⟩
    | chainTooLong =>
      rw [← Levels.exceeded?_bare, h] at hr
      exact absurd hr (hl.levels p)

/-- What is left to the right counts against one limit, and a group that is entered on the left
against the other. -/
theorem junctions_le_of_ofTokens {q : Query} {c : Condition} (h : ofTokens tokens = .ok q)
    (hc : q.condition? = some c) (path : c.Path) :
    path.junctions ≤ Nest.maxLinks + Nest.maxDepth := by
  obtain ⟨s, p, -, -, rfl, hf⟩ := exists_phrase_of_ofTokens h hc
  have hj := p.junctions_le hf (Nat.zero_le _) path
  have hg := (hf.path_le (Nat.zero_le _) (Nat.zero_le _) path).2
  omega

end Query

namespace Phrase

def stacked (p : Phrase .chain) : Nat → Phrase .chain
  | 0 => p
  | n + 1 => .link (.group (p.stacked n)) .and (.chained 0)

theorem stacked_fits {n depth : Nat} (h : depth + n ≤ Nest.maxDepth) :
    ((chained Nest.maxLinks).stacked n).Fits depth 0 := by
  induction n generalizing depth with
  | zero => exact chained_fits (Nat.le_of_eq (Nat.zero_add _))
  | succ n ih => exact ⟨⟨by omega, ih (by omega)⟩, by decide, trivial⟩

theorem exists_path_stacked (n : Nat) :
    ∃ path : ((chained Nest.maxLinks).stacked n).meaning.Path,
      path.junctions = Nest.maxLinks + n := by
  induction n with
  | zero => exact exists_path_chained Nest.maxLinks
  | succ n ih =>
    obtain ⟨path, hp⟩ := ih
    exact ⟨.left path, congrArg (· + 1) hp⟩

end Phrase

/-- The deepest groups, with the longest chain in the innermost. -/
def tallest : Statement :=
  .delete "t" (some ((Phrase.chained Nest.maxLinks).stacked Nest.maxDepth))

theorem tallest_accepted : Query.ofTokens tallest.tokens = .ok tallest.query := by
  apply Query.ofTokens_of_spells tallest.spells_tokens
  intro p hp
  obtain rfl := Option.some.inj hp
  exact Phrase.stacked_fits (Nat.le_of_eq (Nat.zero_add _))

/-- A sentence is read exactly if its groups are not nested too deep and its condition goes nowhere
too often to the right. Together the limits bound the junctions on every way, and the bound is
reached. -/
theorem accepted_iff_nesting_and_rights :
    (∀ (tokens : List Token) (s : Statement), s.Spells (significant tokens) →
      ((∃ q, Query.ofTokens tokens = .ok q) ↔ nesting (significant tokens) ≤ Nest.maxDepth ∧
        ∀ c ∈ s.query.condition?, ∀ path : c.Path, path.rights ≤ Nest.maxLinks)) ∧
    (∀ (tokens : List Token) (q : Query) (c : Condition), Query.ofTokens tokens = .ok q →
      q.condition? = some c → ∀ path : c.Path, path.junctions ≤ Nest.maxLinks + Nest.maxDepth) ∧
    ∃ (tokens : List Token) (q : Query) (c : Condition) (path : c.Path),
      Query.ofTokens tokens = .ok q ∧ q.condition? = some c ∧
        path.junctions = Nest.maxLinks + Nest.maxDepth := by
  refine ⟨fun tokens s hs => ?_, fun tokens q c h hc => Query.junctions_le_of_ofTokens h hc, ?_⟩
  · rw [Query.exists_ofTokens_iff_fits hs, hs.fits_iff, s.linked_iff]
  · obtain ⟨path, hp⟩ := Phrase.exists_path_stacked Nest.maxDepth
    exact ⟨tallest.tokens, tallest.query, _, path, tallest_accepted, rfl, hp⟩

theorem tallest_within_limits : (∃ q, Query.ofTokens tallest.tokens = .ok q) ∧
    nesting (significant tallest.tokens) ≤ Nest.maxDepth ∧
    ∀ c ∈ tallest.query.condition?, ∀ path : c.Path, path.rights ≤ Nest.maxLinks :=
  ⟨⟨_, tallest_accepted⟩, (accepted_iff_nesting_and_rights.1 _ _ tallest.spells_tokens).mp
    ⟨_, tallest_accepted⟩⟩

end SmallSql
