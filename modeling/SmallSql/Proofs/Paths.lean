import SmallSql.Proofs.Acceptance

namespace SmallSql

namespace Condition

/-- A way from the root of a condition to one of its leaves. -/
inductive Path : Condition → Type where
  | leaf (operand : Operand) : Path (.leaf operand)
  | left {left right : Condition} {op : Operator} (path : Path left) : Path (.node left op right)
  | right {left right : Condition} {op : Operator} (path : Path right) : Path (.node left op right)

def isJunction : Condition → Bool
  | .node _ (.junction _) _ => true
  | _ => false

def Path.first : (c : Condition) → Path c
  | .leaf operand => .leaf operand
  | .node l _ _ => .left (first l)

namespace Path

def junctions : {c : Condition} → Path c → Nat
  | _, .leaf _ => 0
  | .node _ (.junction _) _, .left path => path.junctions + 1
  | .node _ (.comparison _) _, .left path => path.junctions
  | .node _ (.junction _) _, .right path => path.junctions + 1
  | .node _ (.comparison _) _, .right path => path.junctions

/-- The junctions that are left to the right. -/
def rights : {c : Condition} → Path c → Nat
  | _, .leaf _ => 0
  | _, .left path => path.rights
  | .node _ (.junction _) _, .right path => path.rights + 1
  | .node _ (.comparison _) _, .right path => path.rights

/-- The junctions that are left to the left, for another junction. -/
def groups : {c : Condition} → Path c → Nat
  | _, .leaf _ => 0
  | .node l (.junction _) _, .left path => path.groups + if l.isJunction then 1 else 0
  | .node _ (.comparison _) _, .left path => path.groups
  | _, .right path => path.groups

theorem plain_compare {column : String} {c : Comparison} {v : Value}
    (path : (Condition.compare column c v).Path) :
    path.junctions = 0 ∧ path.rights = 0 ∧ path.groups = 0 := by
  cases path with
  | left path =>
    cases path
    exact ⟨rfl, rfl, rfl⟩
  | right path =>
    cases path
    exact ⟨rfl, rfl, rfl⟩

end Path

end Condition

namespace Phrase

variable {r : Rule}

/-- Every link has room above it: fewer links than the limit stand before it in its chain and in
the chains around it, a link that follows a group counted for the group, too. -/
def Roomy (above : Nat) : {r : Rule} → Phrase r → Prop
  | _, .compare _ _ _ => True
  | _, .group inner => inner.Roomy above
  | _, .last term => term.Roomy above
  | _, .link term _ rest =>
    above < Nest.maxLinks ∧ term.Roomy (above + 1) ∧ rest.Roomy (above + 1)

theorem junctions_eq_zero (p : Phrase r) (h : p.meaning.isJunction = false)
    (path : p.meaning.Path) : path.junctions = 0 := by
  induction p with
  | compare column c v => exact (Condition.Path.plain_compare path).1
  | group inner ih => exact ih h path
  | last term ih => exact ih h path
  | link term j rest _ _ => cases h

theorem roomy_iff {above : Nat} (p : Phrase r) (ha : above ≤ Nest.maxLinks) :
    p.Roomy above ↔ ∀ path : p.meaning.Path, above + path.junctions ≤ Nest.maxLinks := by
  induction p generalizing above with
  | compare column c v =>
    simp only [Roomy, true_iff]
    intro path
    have : path.junctions = 0 := (Condition.Path.plain_compare path).1
    omega
  | group inner ih => exact ih ha
  | last term ih => exact ih ha
  | link term j rest iht ihr =>
    constructor
    · intro h path
      obtain ⟨hl, ht, hr⟩ := h
      cases path with
      | left path =>
        have := (iht hl).mp ht path
        simp only [Condition.Path.junctions]
        omega
      | right path =>
        have := (ihr hl).mp hr path
        simp only [Condition.Path.junctions]
        omega
    · intro h
      have hl : above < Nest.maxLinks := by
        have := h (.left (.first term.meaning))
        simp only [Condition.Path.junctions] at this
        omega
      refine ⟨hl, (iht hl).mpr fun path => ?_, (ihr hl).mpr fun path => ?_⟩
      · have := h (.left path)
        simp only [Condition.Path.junctions] at this
        omega
      · have := h (.right path)
        simp only [Condition.Path.junctions] at this
        omega

theorem junctions_le {depth links : Nat} (p : Phrase r) (hf : p.Fits depth links)
    (hl : links ≤ Nest.maxLinks) (path : p.meaning.Path) :
    links + path.junctions ≤ Nest.maxLinks + path.groups := by
  induction p generalizing depth links with
  | compare column c v =>
    have : path.junctions = 0 := (Condition.Path.plain_compare path).1
    omega
  | group inner ih => exact ih hf.2 hl path
  | last term ih => exact ih hf hl path
  | link term j rest iht ihr =>
    obtain ⟨ht, hlt, hr⟩ := hf
    cases path with
    | left path =>
      have hi := iht ht hl path
      simp only [Condition.Path.junctions, Condition.Path.groups]
      split
      · omega
      · rename_i hj
        have := term.junctions_eq_zero (by simpa using hj) path
        omega
    | right path =>
      have := ihr hr hlt path
      simp only [Condition.Path.junctions, Condition.Path.groups]
      omega

def wraps : {r : Rule} → Phrase r → Nat
  | _, .group _ => 1
  | _, _ => 0

theorem isJunction_le_wraps (term : Phrase .term) :
    (if term.meaning.isJunction then 1 else 0) ≤ term.wraps := by
  cases term with
  | compare column c v => exact Nat.le_refl 0
  | group inner =>
    rw [wraps]
    split <;> omega

/-- The limits count what is left to the right, and what is left to the left for a junction. -/
theorem Fits.path_le {depth links : Nat} {p : Phrase r} (hf : p.Fits depth links)
    (hd : depth ≤ Nest.maxDepth) (hl : links ≤ Nest.maxLinks) (path : p.meaning.Path) :
    links + path.rights ≤ Nest.maxLinks ∧ depth + path.groups + p.wraps ≤ Nest.maxDepth := by
  induction p generalizing depth links with
  | compare column c v =>
    have hr : path.rights = 0 := (Condition.Path.plain_compare path).2.1
    have hg : path.groups = 0 := (Condition.Path.plain_compare path).2.2
    simp only [hr, hg, wraps]
    omega
  | group inner ih =>
    change inner.meaning.Path at path
    obtain ⟨hr, hg⟩ := ih hf.2 hf.1 hl path
    change links + path.rights ≤ _ ∧ depth + path.groups + 1 ≤ _
    omega
  | last term ih =>
    change term.meaning.Path at path
    obtain ⟨hr, hg⟩ := ih hf hd hl path
    change links + path.rights ≤ _ ∧ depth + path.groups ≤ _
    omega
  | link term j rest iht ihr =>
    obtain ⟨ht, hlt, hr⟩ := hf
    cases path with
    | left path =>
      obtain ⟨hr, hg⟩ := iht ht hd hl path
      have := term.isJunction_le_wraps
      simp only [Condition.Path.rights, Condition.Path.groups, wraps]
      omega
    | right path =>
      obtain ⟨hr, hg⟩ := ihr hr hd hlt path
      simp only [Condition.Path.rights, Condition.Path.groups, wraps]
      omega

end Phrase

theorem Statement.query_condition? (s : Statement) :
    s.query.condition? = s.clause?.map Phrase.meaning := by
  cases s <;> rfl

/-- The condition of a query is that of a derivation which keeps to the limits. -/
theorem Query.exists_phrase_of_ofTokens {tokens : List Token} {q : Query} {c : Condition}
    (h : ofTokens tokens = .ok q) (hc : q.condition? = some c) :
    ∃ (s : Statement) (p : Phrase .chain), s.Spells (significant tokens) ∧ s.clause? = some p ∧
      p.meaning = c ∧ p.Fits 0 0 := by
  obtain ⟨s, hs, hf, rfl⟩ := (ofTokens_eq_ok_iff q).mp h
  rw [s.query_condition?] at hc
  obtain ⟨p, hp, hm⟩ := Option.map_eq_some_iff.mp hc
  exact ⟨s, p, hs, hp, hm, hf p hp⟩

/-- A way through a condition passes no more junctions than there may be links, if and only if
every link has room above it. In any case it passes only as many more as it enters groups on the
left. -/
theorem junctions_le_iff_roomy {tokens : List Token} {q : Query} {c : Condition}
    (h : Query.ofTokens tokens = .ok q) (hc : q.condition? = some c) :
    ∃ (s : Statement) (p : Phrase .chain),
      s.Spells (significant tokens) ∧ s.clause? = some p ∧ p.meaning = c ∧
      ((∀ path : c.Path, path.junctions ≤ Nest.maxLinks) ↔ p.Roomy 0) ∧
      ∀ path : c.Path, path.junctions ≤ Nest.maxLinks + path.groups := by
  obtain ⟨s, p, hs, hp, rfl, hf⟩ := Query.exists_phrase_of_ofTokens h hc
  refine ⟨s, p, hs, hp, rfl, ?_, fun path => ?_⟩
  · have hr := p.roomy_iff (Nat.zero_le _)
    simp only [Nat.zero_add] at hr
    exact hr.symm
  · have := p.junctions_le hf (Nat.zero_le _) path
    omega

/-- AND or OR stands nowhere directly behind a closing parenthesis. -/
def NoLinkBehindGroup (tokens : List Token) : Prop :=
  ∀ j : Junction, ¬[.closeParen, .keyword j.keyword] <:+: tokens.map Token.kind

theorem NoLinkBehindGroup.of_part {part tokens : List Token} (h : NoLinkBehindGroup tokens)
    (hp : part <:+: tokens) : NoLinkBehindGroup part :=
  fun j hj => h j (hj.trans (hp.map Token.kind))

theorem Statement.Spells.noLinkBehindGroup_iff {s : Statement} {tokens : List Token}
    (h : s.Spells tokens) : NoLinkBehindGroup s.tokens ↔ NoLinkBehindGroup tokens := by
  have hkinds : s.tokens.map Token.kind = tokens.map Token.kind := by
    rw [← h, List.map_map]
    rfl
  simp only [NoLinkBehindGroup, hkinds]

/-- Without a link behind a group no way goes to the left for a junction. -/
theorem Phrase.groups_eq_zero {r : Rule} (p : Phrase r) (h : NoLinkBehindGroup p.tokens)
    (path : p.meaning.Path) : path.groups = 0 := by
  induction p with
  | compare column c v => exact (Condition.Path.plain_compare path).2.2
  | group inner ih =>
    have hinner : inner.tokens <:+: (Phrase.group inner).tokens :=
      ⟨[.mark .openParen], [.mark .closeParen], rfl⟩
    exact ih (h.of_part hinner) path
  | last term ih => exact ih h path
  | link term j rest iht ihr =>
    cases path with
    | left path =>
      cases term with
      | compare column c v =>
        have hg : path.groups = 0 := (Condition.Path.plain_compare path).2.2
        simp only [Condition.Path.groups, hg]
        rfl
      | group inner =>
        apply absurd _ (h j)
        exact ⟨(Token.mark .openParen :: inner.tokens).map Token.kind, rest.tokens.map Token.kind,
          by simp [tokens, Token.mark]⟩
    | right path =>
      have hrest : rest.tokens <:+: (Phrase.link term j rest).tokens :=
        ⟨term.tokens ++ [.mark (.keyword j.keyword)], [], by simp [tokens]⟩
      exact ihr (h.of_part hrest) path

/-- Where no group is followed by a link, the counter of pending links is the bound: once a group
has taken its links back, there are no more to come. -/
theorem junctions_le_of_noLinkBehindGroup {tokens : List Token} {q : Query} {c : Condition}
    (h : Query.ofTokens tokens = .ok q) (hc : q.condition? = some c)
    (hn : NoLinkBehindGroup (significant tokens)) (path : c.Path) :
    path.junctions ≤ Nest.maxLinks := by
  obtain ⟨s, p, hs, hp, rfl, hf⟩ := Query.exists_phrase_of_ofTokens h hc
  have hclause : p.tokens <:+: s.tokens := by
    rw [s.tokens_eq_lead, hp]
    exact ⟨s.lead ++ [.mark (.keyword .«where»)], [], by simp [Statement.clauseTokens]⟩
  have hg := p.groups_eq_zero ((hs.noLinkBehindGroup_iff.mpr hn).of_part hclause) path
  have := p.junctions_le hf (Nat.zero_le _) path
  omega

def Phrase.chained : Nat → Phrase .chain
  | 0 => .last (.compare "a" .equal (.integer "1"))
  | n + 1 => .link (.compare "a" .equal (.integer "1")) .and (chained n)

/-- A group of `n` links, and one link behind it. -/
def Phrase.overhang (n : Nat) : Phrase .chain := .link (.group (.chained n)) .and (.chained 0)

def overhanging (n : Nat) : Statement := .delete "t" (some (.overhang n))

theorem overhanging_one_roomy :
    Query.ofTokens (overhanging 1).tokens = .ok (overhanging 1).query ∧
    ∃ (s : Statement) (p : Phrase .chain),
      s.Spells (significant (overhanging 1).tokens) ∧ s.clause? = some p ∧
      p.meaning = (Phrase.overhang 1).meaning ∧
      ((∀ path : (Phrase.overhang 1).meaning.Path, path.junctions ≤ Nest.maxLinks) ↔
        p.Roomy 0) ∧
      ∀ path : (Phrase.overhang 1).meaning.Path, path.junctions ≤ Nest.maxLinks + path.groups :=
  ⟨rfl, @junctions_le_iff_roomy (overhanging 1).tokens (overhanging 1).query _ rfl rfl⟩

theorem Phrase.chained_fits {n depth links : Nat} (h : links + n ≤ Nest.maxLinks) :
    (chained n).Fits depth links := by
  induction n generalizing links with
  | zero => trivial
  | succ n ih => exact ⟨trivial, by omega, ih (by omega)⟩

theorem Phrase.exists_path_chained (n : Nat) :
    ∃ path : (chained n).meaning.Path, path.junctions = n := by
  induction n with
  | zero => exact ⟨.first _, rfl⟩
  | succ n ih =>
    obtain ⟨path, hp⟩ := ih
    exact ⟨.right path, congrArg (· + 1) hp⟩

/-- The link behind the group is one link of its own chain, and above all those of the group. -/
theorem overhanging_passes_limit :
    Query.ofTokens (overhanging Nest.maxLinks).tokens = .ok (overhanging Nest.maxLinks).query ∧
    ∃ c, (overhanging Nest.maxLinks).query.condition? = some c ∧
      ∃ path : c.Path, path.junctions = Nest.maxLinks + 1 := by
  constructor
  · apply Query.ofTokens_of_spells (Statement.spells_tokens _)
    intro p hp
    obtain rfl := Option.some.inj hp
    exact ⟨⟨by decide, Phrase.chained_fits (by omega)⟩, by decide, trivial⟩
  · obtain ⟨path, hp⟩ := Phrase.exists_path_chained Nest.maxLinks
    exact ⟨_, rfl, .left path, congrArg (· + 1) hp⟩

namespace Condition

/-- Comparisons are between a column and a literal, and junctions are between comparisons and
junctions. -/
inductive WellFormed : Condition → Prop where
  | compare (column : String) (c : Comparison) (v : Value) : WellFormed (.compare column c v)
  | join {left right : Condition} (hl : WellFormed left) (j : Junction)
    (hr : WellFormed right) : WellFormed (.join left j right)

/-- Inside `depth` groups and behind `links` links, no way through the condition goes too often to
the right, or to the left for a junction. -/
def Bounded (depth links : Nat) (c : Condition) : Prop :=
  ∀ path : c.Path, links + path.rights ≤ Nest.maxLinks ∧ depth + path.groups ≤ Nest.maxDepth

namespace Bounded

variable {depth links : Nat} {l r : Condition} {j : Junction}

theorem lt_maxLinks (h : Bounded depth links (.join l j r)) : links < Nest.maxLinks := by
  have := (h (.right (.first r))).1
  simp only [Path.rights] at this
  omega

theorem right (h : Bounded depth links (.join l j r)) :
    Bounded depth (links + 1) r := by
  intro path
  have := h (.right path)
  simp only [Path.rights, Path.groups] at this
  omega

theorem left (h : Bounded depth links (.join l j r)) :
    Bounded (depth + if l.isJunction then 1 else 0) links l := by
  intro path
  have := h (.left path)
  simp only [Path.rights, Path.groups] at this
  omega

end Bounded

end Condition

theorem Phrase.meaning_wellFormed {r : Rule} (p : Phrase r) : p.meaning.WellFormed := by
  induction p with
  | compare column c v => exact .compare column c v
  | group inner ih => exact ih
  | last term ih => exact ih
  | link term j rest iht ihr => exact .join iht j ihr

theorem Phrase.Fits.bounded {depth links : Nat} {r : Rule} {p : Phrase r} (h : p.Fits depth links)
    (hd : depth ≤ Nest.maxDepth) (hl : links ≤ Nest.maxLinks) :
    p.meaning.Bounded depth links := by
  intro path
  obtain ⟨hr, hg⟩ := h.path_le hd hl path
  omega

namespace Condition.WellFormed

theorem exists_term {c : Condition} (h : c.WellFormed) (p : Phrase .chain) (hp : p.meaning = c)
    (hf : ∀ depth links, c.Bounded depth links → p.Fits depth links) :
    ∃ t : Phrase .term, t.meaning = c ∧ ∀ depth links,
      c.Bounded (depth + if c.isJunction then 1 else 0) links → t.Fits depth links := by
  cases h with
  | compare column op v => exact ⟨.compare column op v, rfl, fun _ _ _ => trivial⟩
  | join hl j hr =>
    refine ⟨.group p, hp, fun depth links hb => ⟨?_, hf (depth + 1) links hb⟩⟩
    have := (hb (.first _)).2
    simp only [Condition.join, isJunction, if_true] at this
    omega

theorem exists_phrase {c : Condition} (h : c.WellFormed) : ∃ p : Phrase .chain,
    p.meaning = c ∧ ∀ depth links, c.Bounded depth links → p.Fits depth links := by
  induction h with
  | compare column op v => exact ⟨.last (.compare column op v), rfl, fun _ _ _ => trivial⟩
  | join hl j hr ihl ihr =>
    obtain ⟨p, hp, hpf⟩ := ihl
    obtain ⟨t, rfl, ht⟩ := hl.exists_term p hp hpf
    obtain ⟨q, rfl, hq⟩ := ihr
    refine ⟨.link t j q, rfl, fun depth links hb => ⟨ht _ _ hb.left, hb.lt_maxLinks, ?_⟩⟩
    exact hq _ _ hb.right

end Condition.WellFormed

end SmallSql
