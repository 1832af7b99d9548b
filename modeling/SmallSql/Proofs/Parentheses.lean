import SmallSql.Proofs.Expectation
import SmallSql.Proofs.Nesting
import SmallSql.Proofs.ReadingOrder

namespace SmallSql

namespace Condition

/-- `c'` is another condition, and no way through it goes more often to the right. -/
structure Regrouped (c c' : Condition) : Prop where
  ne : c ≠ c'
  rights : ∀ path' : c'.Path, ∃ path : c.Path, path'.rights ≤ path.rights

namespace Regrouped

variable {c c' : Condition}

theorem joinLeft (h : Regrouped c c') (j : Junction) (right : Condition) :
    Regrouped (.join c j right) (.join c' j right) := by
  refine ⟨fun he => h.ne (by injection he), fun path' => ?_⟩
  cases path' with
  | left path' =>
    obtain ⟨path, hle⟩ := h.rights path'
    exact ⟨.left path, hle⟩
  | right path' => exact ⟨.right path', Nat.le_refl _⟩

theorem joinRight (h : Regrouped c c') (left : Condition) (j : Junction) :
    Regrouped (.join left j c) (.join left j c') := by
  refine ⟨fun he => h.ne (by injection he), fun path' => ?_⟩
  cases path' with
  | left path' => exact ⟨.left path', Nat.le_refl _⟩
  | right path' =>
    obtain ⟨path, hle⟩ := h.rights path'
    exact ⟨.right path, Nat.succ_le_succ hle⟩

theorem close (h : Regrouped c c') (chain : Chain) :
    Regrouped (chain.close c) (chain.close c') := by
  induction chain generalizing c c' with
  | nil => exact h
  | cons head rest ih => exact ih (h.joinRight head.1 head.2)

end Regrouped

end Condition

theorem Head.condition?_query (head : Head) (condition : Option Condition) :
    (head.query condition).condition? = condition := by
  cases head <;> rfl

namespace Query

def Regrouped (q q' : Query) : Prop :=
  ∃ c c', q.condition? = some c ∧ q'.condition? = some c' ∧ c.Regrouped c'

theorem Regrouped.of_condition (head : Head) {c c' : Condition} (h : c.Regrouped c') :
    Regrouped (head.query (some c)) (head.query (some c')) :=
  ⟨c, c', head.condition?_query _, head.condition?_query _, h⟩

theorem Regrouped.ne {q q' : Query} (h : Regrouped q q') : q ≠ q' := by
  obtain ⟨c, c', hc, hc', h⟩ := h
  rintro rfl
  exact h.ne (Option.some.inj (hc.symm.trans hc'))

end Query

namespace Phrase

variable {r : Rule}

/-- What the phrase means with one more link and `x` behind it. -/
def extended (j : Junction) (x : Condition) : {r : Rule} → Phrase r → Condition
  | _, .link term i rest => .join term.meaning i (rest.extended j x)
  | _, .compare column c v => .join (.compare column c v) j x
  | _, .group inner => .join inner.meaning j x
  | _, .last term => .join term.meaning j x

theorem close_into_join (nest : Nest) (p : Phrase r) (j : Junction) (x : Condition) :
    (p.into nest).1.chain.close (.join (p.into nest).2 j x) =
      nest.chain.close (p.extended j x) := by
  induction p generalizing nest with
  | link term i rest _ ih => exact ih (nest.link term.meaning i)
  | _ => rfl

theorem rights_extended (p : Phrase r) (j : Junction) (x : Condition)
    (path' : (Condition.join p.meaning j x).Path) :
    ∃ path : (p.extended j x).Path, path'.rights ≤ path.rights := by
  induction p with
  | link term i rest _ ih =>
    cases path' with
    | left path' =>
      cases path' with
      | left path' => exact ⟨.left path', Nat.le_refl _⟩
      | right path' =>
        obtain ⟨path, hle⟩ := ih (.left path')
        exact ⟨.right path, Nat.succ_le_succ hle⟩
    | right path' =>
      obtain ⟨path, hle⟩ := ih (.right path')
      exact ⟨.right path, Nat.le_succ_of_le hle⟩
  | _ => exact ⟨path', Nat.le_refl _⟩

/-- Behind more than one term it matters whether a link is joined to the last of them or to all. -/
theorem extended_regrouped {p : Phrase r} (h : p.links ≠ 0) (j : Junction) (x : Condition) :
    (p.extended j x).Regrouped (.join p.meaning j x) := by
  refine ⟨fun he => ?_, p.rights_extended j x⟩
  cases p with
  | link term i rest =>
    have hterm : term.meaning = .join term.meaning i rest.meaning := by injection he
    have hsize := congrArg Condition.size hterm
    rw [Condition.join, Condition.size_node] at hsize
    omega
  | _ => exact h rfl

theorem leave?_into_eq (nest : Nest) (p : Phrase r) :
    (p.into nest).1.leave? (p.into nest).2 = nest.leave? p.meaning := by
  obtain ⟨ho, hd, hl, hc⟩ := p.into_frame nest
  have hclose := p.close_into nest
  simp only [Nest.leave?, ho, hd, hl, hc, hclose, Nat.add_sub_add_right]

theorem into_of_links {p : Phrase r} (h : p.links = 0) (nest : Nest) :
    p.into nest = (nest, p.meaning) := by
  cases p with
  | link term j rest => cases h
  | _ => rfl

theorem tokens_start (p : Phrase r) :
    (∃ column c rest, p.tokens = .named column :: .mark (.comparison c) :: rest) ∨
    ∃ t rest, p.tokens = .mark .openParen :: t :: rest ∧
      (t.kind = .openParen ∨ t.kind = .object) := by
  induction p with
  | compare column c v => exact .inl ⟨column, c, _, rfl⟩
  | group inner ih =>
    rcases ih with ⟨column, c, rest, h⟩ | ⟨t, rest, h, -⟩
    · exact .inr ⟨.named column, _, by rw [tokens, h]; rfl, .inr rfl⟩
    · exact .inr ⟨.mark .openParen, _, by rw [tokens, h]; rfl, .inl rfl⟩
  | last term ih => exact ih
  | link term j rest ih _ =>
    rcases ih with ⟨column, c, rest, h⟩ | ⟨t, rest, h, ht⟩
    · exact .inl ⟨column, c, _, by rw [tokens, h]; rfl⟩
    · exact .inr ⟨t, _, by rw [tokens, h]; rfl, ht⟩

end Phrase

namespace Nest

def chains (nest : Nest) : List Chain := nest.chain :: nest.outer

end Nest

/-- Open chains that differ in one of them, so that closing it leads to another condition. -/
inductive Chain.Regrouped : List Chain → List Chain → Prop where
  | here {a b : Chain} {outer : List Chain}
      (h : ∀ last, (a.close last).Regrouped (b.close last)) : Regrouped (a :: outer) (b :: outer)
  | there {chain : Chain} {a b : List Chain} (h : Regrouped a b) :
      Regrouped (chain :: a) (chain :: b)

theorem Chain.Regrouped.nest {nest nest' : Nest} (h : Chain.Regrouped nest.chains nest'.chains) :
    (nest.outer = nest'.outer ∧
      ∀ last, (nest.chain.close last).Regrouped (nest'.chain.close last)) ∨
    (nest.chain = nest'.chain ∧ Chain.Regrouped nest.outer nest'.outer) := by
  obtain ⟨chain, outer, depth, links⟩ := nest
  obtain ⟨chain', outer', depth', links'⟩ := nest'
  cases h with
  | here h => exact .inl ⟨rfl, h⟩
  | there h => exact .inr ⟨rfl, h⟩

theorem Chain.Regrouped.link {nest nest' : Nest} (h : Chain.Regrouped nest.chains nest'.chains)
    (last : Condition) (j : Junction) :
    Chain.Regrouped (nest.link last j).chains (nest'.link last j).chains := by
  simp only [Nest.chains, Nest.link]
  rcases h.nest with ⟨ho, hc⟩ | ⟨hc, ho⟩
  · rw [ho]
    exact .here fun x => hc (.join last j x)
  · rw [hc]
    exact .there ho

theorem Chain.Regrouped.link_last {nest nest' : Nest} (he : nest.chains = nest'.chains)
    {last last' : Condition} (h : last.Regrouped last') (j : Junction) :
    Chain.Regrouped (nest.link last j).chains (nest'.link last' j).chains := by
  obtain ⟨hc, ho⟩ := List.cons.inj he
  simp only [Nest.chains, Nest.link]
  rw [ho, hc]
  exact .here fun x => (h.joinLeft j x).close nest'.chain

theorem Chain.Regrouped.ne_nil {a b : List Chain} (h : Chain.Regrouped a b) : b ≠ [] := by
  cases h <;> exact List.cons_ne_nil _ _

theorem Nest.leave?_eq_some {nest around : Nest} {last group : Condition}
    (h : nest.leave? last = some (group, around)) :
    nest.outer = around.chains ∧ group = nest.chain.close last := by
  unfold leave? at h
  split at h
  · cases h
  · rename_i chain outer ho
    cases h
    exact ⟨ho, rfl⟩

theorem Nest.exists_leave? {nest : Nest} (h : nest.outer ≠ []) (last : Condition) :
    ∃ around, nest.leave? last = some (nest.chain.close last, around) ∧
      around.chains = nest.outer := by
  cases ho : nest.outer with
  | nil => exact absurd ho h
  | cons chain outer => exact ⟨_, nest.leave?_close last ho, rfl⟩

/-- No link follows, so the chain ends where `tokens` begin. -/
def EndsChain (tokens : List Token) : Prop := ∀ t ∈ tokens.head?, t.kind.junction? = none

namespace Reading

/-- Two readings of a condition at the same place. Whatever comes next, they do not come to the same
condition, and the second goes no more often to the right. -/
inductive Regrouped : Reading → Reading → Prop where
  | term {head : Head} {nest nest' : Nest} (h : Chain.Regrouped nest.chains nest'.chains) :
      Regrouped (.term head nest) (.term head nest')
  | comparison {head : Head} {nest nest' : Nest} {name : String}
      (h : Chain.Regrouped nest.chains nest'.chains) :
      Regrouped (.comparison head nest name) (.comparison head nest' name)
  | literal {head : Head} {nest nest' : Nest} {name : String} {c : Comparison}
      (h : Chain.Regrouped nest.chains nest'.chains) :
      Regrouped (.literal head nest name c) (.literal head nest' name c)
  | chain {head : Head} {nest nest' : Nest} {last : Condition}
      (h : Chain.Regrouped nest.chains nest'.chains) :
      Regrouped (.termEnd head nest last) (.termEnd head nest' last)
  | last {head : Head} {nest nest' : Nest} {last last' : Condition}
      (hn : nest.chains = nest'.chains) (h : last.Regrouped last') :
      Regrouped (.termEnd head nest last) (.termEnd head nest' last')

theorem next?_junction {head : Head} {nest : Nest} {last : Condition} {t : Token} {j : Junction}
    (hj : t.kind.junction? = some j) :
    (termEnd head nest last).next? t = some (.term head (nest.link last j)) := by
  simp only [next?, hj]

theorem next?_close {head : Head} {nest around : Nest} {last group : Condition} {t : Token}
    (hk : t.kind = .closeParen) (hl : nest.leave? last = some (group, around)) :
    (termEnd head nest last).next? t = some (.termEnd head around group) := by
  simp [next?, hk, Kind.junction?, hl]

theorem query?_top {head : Head} {nest : Nest} (h : nest.outer = []) (last : Condition) :
    (termEnd head nest last).query? = some (head.query (some (nest.chain.close last))) := by
  simp [query?, Nest.isTop, h]

theorem query?_termEnd {head : Head} {nest : Nest} {last : Condition} {q : Query}
    (h : (termEnd head nest last).query? = some q) :
    nest.outer = [] ∧ q = head.query (some (nest.chain.close last)) := by
  cases ho : nest.outer with
  | nil =>
    rw [query?_top ho] at h
    exact ⟨rfl, (Option.some.inj h).symm⟩
  | cons chain outer => simp [query?, Nest.isTop, ho] at h

theorem next?_termEnd {head : Head} {nest : Nest} {last : Condition} {t : Token} {next : Reading}
    (h : (termEnd head nest last).next? t = some next) :
    (∃ j, t.kind.junction? = some j ∧ next = .term head (nest.link last j)) ∨
    (t.kind = .closeParen ∧
      ∃ group around, nest.leave? last = some (group, around) ∧
        next = .termEnd head around group) := by
  rw [next?] at h
  cases hj : t.kind.junction? with
  | some j =>
    rw [hj] at h
    exact .inl ⟨j, rfl, (Option.some.inj h).symm⟩
  | none =>
    simp only [hj] at h
    split at h
    · rename_i hk
      obtain ⟨⟨group, around⟩, hl, rfl⟩ := Option.map_eq_some_iff.mp h
      exact .inr ⟨hk, group, around, hl, rfl⟩
    · cases h

end Reading

namespace Reading.Regrouped

variable {reading reading' next : Reading} {t : Token}
variable {nest nest' around : Nest} {last last' group : Condition}

theorem leave_chain (head : Head) (h : Chain.Regrouped nest.chains nest'.chains)
    (hl : nest.leave? last = some (group, around)) :
    ∃ group' around', nest'.leave? last = some (group', around') ∧
      Regrouped (.termEnd head around group) (.termEnd head around' group') := by
  obtain ⟨hout, rfl⟩ := Nest.leave?_eq_some hl
  rcases h.nest with ⟨ho, hc⟩ | ⟨hc, ho⟩
  · have hne : nest'.outer ≠ [] := by
      rw [← ho, hout]
      exact List.cons_ne_nil _ _
    obtain ⟨around', hl', hout'⟩ := Nest.exists_leave? hne last
    exact ⟨_, around', hl', .last (by rw [← hout, ho, hout']) (hc last)⟩
  · obtain ⟨around', hl', hout'⟩ := Nest.exists_leave? ho.ne_nil last
    rw [hc]
    exact ⟨_, around', hl', .chain (by rwa [← hout, hout'])⟩

theorem leave_last (head : Head) (he : nest.chains = nest'.chains) (h : last.Regrouped last')
    (hl : nest.leave? last = some (group, around)) :
    ∃ group' around', nest'.leave? last' = some (group', around') ∧
      Regrouped (.termEnd head around group) (.termEnd head around' group') := by
  obtain ⟨hc, ho⟩ := List.cons.inj he
  obtain ⟨hout, rfl⟩ := Nest.leave?_eq_some hl
  have hne : nest'.outer ≠ [] := by
    rw [← ho, hout]
    exact List.cons_ne_nil _ _
  obtain ⟨around', hl', hout'⟩ := Nest.exists_leave? hne last'
  refine ⟨_, around', hl', .last (by rw [← hout, ho, hout']) ?_⟩
  rw [hc]
  exact h.close nest'.chain

theorem next? (h : Regrouped reading reading') (hn : reading.next? t = some next) :
    ∃ next', reading'.next? t = some next' ∧ Regrouped next next' := by
  -- Inside a term the difference is only handed on. Behind one it goes into the chain, or the chain
  -- that holds it is closed.
  cases h with
  | @term head nest nest' h =>
    simp only [Reading.next?] at hn ⊢
    split at hn
    · cases hn
      exact ⟨_, rfl, .term (.there h)⟩
    · cases hn
      exact ⟨_, rfl, .comparison h⟩
    · cases hn
  | @comparison head nest nest' name h =>
    simp only [Reading.next?, step] at hn ⊢
    split at hn
    · cases hn
      exact ⟨_, rfl, .literal h⟩
    · cases hn
  | @literal head nest nest' name c h =>
    simp only [Reading.next?, step] at hn ⊢
    split at hn
    · cases hn
      exact ⟨_, rfl, .chain h⟩
    · cases hn
  | @chain head nest nest' last h =>
    rcases next?_termEnd hn with ⟨j, hj, rfl⟩ | ⟨hk, group, around, hl, rfl⟩
    · exact ⟨_, next?_junction hj, .term (h.link last j)⟩
    · obtain ⟨group', around', hl', hr⟩ := leave_chain head h hl
      exact ⟨_, next?_close hk hl', hr⟩
  | @last head nest nest' last last' he h =>
    rcases next?_termEnd hn with ⟨j, hj, rfl⟩ | ⟨hk, group, around, hl, rfl⟩
    · exact ⟨_, next?_junction hj, .term (.link_last he h j)⟩
    · obtain ⟨group', around', hl', hr⟩ := leave_last head he h hl
      exact ⟨_, next?_close hk hl', hr⟩

theorem query? {q : Query} (h : Regrouped reading reading') (hq : reading.query? = some q) :
    ∃ q', reading'.query? = some q' ∧ q.Regrouped q' := by
  cases h with
  | @chain head nest nest' last h =>
    obtain ⟨ho, rfl⟩ := query?_termEnd hq
    rcases h.nest with ⟨ho', hc⟩ | ⟨-, ho'⟩
    · refine ⟨_, query?_top (ho' ▸ ho) last, ?_⟩
      exact .of_condition head (hc last)
    · rw [ho] at ho'
      cases ho'
  | @last head nest nest' last last' he h =>
    obtain ⟨ho, rfl⟩ := query?_termEnd hq
    obtain ⟨hc, ho'⟩ := List.cons.inj he
    refine ⟨_, query?_top (ho' ▸ ho) last', ?_⟩
    rw [hc]
    exact .of_condition head (h.close nest'.chain)
  | _ => cases hq

/-- The same tokens lead both readings to an end, but not to the same. -/
theorem gives {tokens : List Token} {q : Query} (h : Regrouped reading reading')
    (hq : reading.Gives tokens q) : ∃ q', reading'.Gives tokens q' ∧ q.Regrouped q' := by
  induction tokens generalizing reading reading' with
  | nil =>
    obtain ⟨last, hlast, hq⟩ := hq
    cases hlast
    obtain ⟨q', hq', hr⟩ := h.query? hq
    exact ⟨q', ⟨reading', rfl, hq'⟩, hr⟩
  | cons t rest ih =>
    obtain ⟨next, hn, hq⟩ := Reading.gives_cons.mp hq
    obtain ⟨next', hn', hr⟩ := h.next? hn
    obtain ⟨q', hq', hr⟩ := ih hr hq
    exact ⟨q', Reading.gives_cons.mpr ⟨next', hn', hq'⟩, hr⟩

end Reading.Regrouped

namespace Reading

theorem exists_term_of_gives {reading : Reading} {r : Rule} {p : Phrase r} {rest : List Token}
    {q : Query} (h : reading.Gives (p.tokens ++ rest) q) :
    ∃ head nest, reading = .term head nest := by
  -- Other readings go on with a name or an open parenthesis too, but not with what comes next.
  rcases p.tokens_start with ⟨column, c, tail, hp⟩ | ⟨t, tail, hp, ht⟩
  · rw [hp, List.cons_append, List.cons_append, gives_cons] at h
    obtain ⟨next, hn, h⟩ := h
    obtain ⟨last, hl, -⟩ := gives_cons.mp h
    cases reading with
    | term head nest => exact ⟨head, nest, rfl⟩
    | column | selectTable | insertTable | deleteTable =>
      cases hn
      cases hl
    | _ => cases hn
  · rw [hp, List.cons_append, List.cons_append, gives_cons] at h
    obtain ⟨next, hn, h⟩ := h
    obtain ⟨last, hl, -⟩ := gives_cons.mp h
    cases reading with
    | term head nest => exact ⟨head, nest, rfl⟩
    | row table rows =>
      cases hn
      rcases ht with ht | ht <;> simp [next?, step, Token.value?, ht, Except.toOption] at hl
    | _ => cases hn

variable {head : Head} {nest : Nest} {p : Phrase .chain} {tokens : List Token} {q : Query}

theorem gives_phrase {r : Rule} (p : Phrase r) :
    (term head nest).Gives (p.tokens ++ tokens) q ↔
      (termEnd head (p.into nest).1 (p.into nest).2).Gives tokens q := by
  rw [gives_iff_readOn _ 0, p.readOn_tokens, ← gives_iff_readOn]

theorem gives_bare {reading : Reading} :
    reading.Gives (tokens.map Token.bare) q ↔ reading.Gives tokens q := by
  rw [gives_iff_readOn _ 0, readOn_bare, ← gives_iff_readOn]

/-- Behind one term, and where no link follows, it does not matter whether the terms were read as a
group. -/
theorem gives_group (h : p.links = 0 ∨ EndsChain tokens) :
    (termEnd head (p.into nest).1 (p.into nest).2).Gives tokens q ↔
      (termEnd head nest p.meaning).Gives tokens q := by
  rcases h with h | h
  · rw [Phrase.into_of_links h]
  · cases tokens with
    | nil =>
      have hq : (termEnd head (p.into nest).1 (p.into nest).2).query? =
          (termEnd head nest p.meaning).query? := by
        obtain ⟨ho, -⟩ := p.into_frame nest
        cases hn : nest.outer with
        | nil => rw [query?_top (ho.trans hn), query?_top hn, p.close_into]
        | cons chain outer => simp [query?, Nest.isTop, ho, hn]
      simp [Gives, after?, hq]
    | cons t rest =>
      have hn : (termEnd head (p.into nest).1 (p.into nest).2).next? t =
          (termEnd head nest p.meaning).next? t := by
        simp only [next?, h t rfl, p.leave?_into_eq]
      rw [gives_cons, gives_cons, hn]

theorem gives_regrouped (hp : p.links ≠ 0) (h : ¬EndsChain tokens)
    (hq : (termEnd head (p.into nest).1 (p.into nest).2).Gives tokens q) :
    ∃ q', (termEnd head nest p.meaning).Gives tokens q' ∧ q.Regrouped q' := by
  obtain ⟨t, ht, hj⟩ : ∃ t ∈ tokens.head?, t.kind.junction? ≠ none := by
    simpa [EndsChain] using h
  obtain ⟨rest, rfl⟩ := List.head?_eq_some_iff.mp ht
  obtain ⟨j, hj⟩ := Option.ne_none_iff_exists'.mp hj
  obtain ⟨next, hn, hq⟩ := gives_cons.mp hq
  rw [next?_junction hj] at hn
  cases hn
  -- One reading joins the link to the last of the terms, the other to all of them.
  have hr : Regrouped (.term head ((p.into nest).1.link (p.into nest).2 j))
      (.term head (nest.link p.meaning j)) := by
    refine .term ?_
    simp only [Nest.chains, Nest.link, (p.into_frame nest).1]
    refine .here fun x => ?_
    have hclose : Chain.close (((p.into nest).2, j) :: (p.into nest).1.chain) x =
        nest.chain.close (p.extended j x) := p.close_into_join nest j x
    rw [hclose]
    exact (Phrase.extended_regrouped hp j x).close nest.chain
  obtain ⟨q', hq', hr⟩ := hr.gives hq
  exact ⟨q', gives_cons.mpr ⟨_, next?_junction hj, hq'⟩, hr⟩

variable {reading : Reading} {a m b : List Token} {op cl : Token}

/-- Whatever stands around terms of a chain, it can stand around the group of them. -/
theorem gives_enclosed (hm : m.map Token.bare = p.tokens) (ho : op.kind = .openParen)
    (hc : cl.kind = .closeParen) (h : reading.Gives (a ++ (m ++ b)) q) :
    ∃ q', reading.Gives (a ++ op :: (m ++ cl :: b)) q' ∧
      ((p.links = 0 ∨ EndsChain b) ∧ q' = q ∨ ¬(p.links = 0 ∨ EndsChain b) ∧ q.Regrouped q') := by
  obtain ⟨next, ha, h⟩ := gives_append.mp h
  rw [← gives_bare, List.map_append, hm] at h
  obtain ⟨head, nest, rfl⟩ := exists_term_of_gives h
  rw [gives_phrase, gives_bare] at h
  have hgroup : (op :: (m ++ cl :: b)).map Token.bare =
      (Phrase.group p).tokens ++ b.map Token.bare := by
    simp [Phrase.tokens, Token.bare_eq_mark, ho, hc, hm, Kind.spelling]
  have henclosed : ∀ q', (termEnd head nest p.meaning).Gives b q' →
      reading.Gives (a ++ op :: (m ++ cl :: b)) q' := by
    intro q' hq'
    refine gives_append.mpr ⟨_, ha, ?_⟩
    rw [← gives_bare, hgroup, gives_phrase, gives_bare]
    exact hq'
  by_cases ht : p.links = 0 ∨ EndsChain b
  · exact ⟨q, henclosed q ((gives_group ht).mp h), .inl ⟨ht, rfl⟩⟩
  · obtain ⟨hl, hb⟩ := not_or.mp ht
    obtain ⟨q', hq', hr⟩ := gives_regrouped hl hb h
    exact ⟨q', henclosed q' hq', .inr ⟨ht, hr⟩⟩

end Reading

theorem significant_cons {t : Token} {rest : List Token} (h : t.kind.isParen = true) :
    significant (t :: rest) = t :: significant rest := by
  cases hk : t.kind <;> simp_all [significant, Kind.isParen]

theorem Query.Regrouped.rights_le {q q' : Query} {n : Nat} (h : Regrouped q q')
    (hq : ∀ c ∈ q.condition?, ∀ path : c.Path, path.rights ≤ n) :
    ∀ c ∈ q'.condition?, ∀ path : c.Path, path.rights ≤ n := by
  obtain ⟨c, c', hc, hc', h⟩ := h
  intro d hd path'
  obtain rfl := Option.some.inj (hc'.symm.trans hd)
  obtain ⟨path, hle⟩ := h.rights path'
  exact Nat.le_trans hle (hq c hc path)

/-- Parentheses around terms that follow each other in a chain, wherever the chain stands. The query
stays the same if they hold one term or the end of the chain, and is another one if they do not.
They can be too many, but they never make a link too many. -/
theorem ofTokens_enclosed {a m b : List Token} {op cl : Token} {q : Query} {p : Phrase .chain}
    (h : Query.ofTokens (a ++ m ++ b) = .ok q) (hf : ∀ t ∈ a ++ m, t.kind ≠ .finish)
    (hm : (significant m).map Token.bare = p.tokens) (ho : op.kind = .openParen)
    (hc : cl.kind = .closeParen) :
    ∃ q' : Query, q'.OfTokensUnlessDeep (a ++ op :: (m ++ cl :: b)) ∧
      (q' = q ↔ p.links = 0 ∨ EndsChain (significant b)) := by
  obtain ⟨hfa, hfm⟩ := List.forall_mem_append.mp hf
  obtain ⟨s, hs, hfits, rfl⟩ := (Query.ofTokens_eq_ok_iff q).mp h
  have hrights := s.linked_iff.mp (hs.fits_iff.mp hfits).2
  have hgives := gives_iff_spells.mpr ⟨s, hs, rfl⟩
  rw [List.append_assoc, significant_append hfa, significant_append hfm,
    ← significant_eq_filter hfm] at hgives
  obtain ⟨q', hq', hcases⟩ := Reading.gives_enclosed hm ho hc hgives
  have hsignificant : significant (a ++ op :: (m ++ cl :: b)) =
      a.filter (·.kind != .blank) ++ op :: (significant m ++ cl :: significant b) := by
    rw [significant_append hfa, significant_cons (by simp [ho, Kind.isParen]),
      significant_append hfm, significant_cons (by simp [hc, Kind.isParen]),
      significant_eq_filter hfm]
  rw [← hsignificant] at hq'
  -- The links are those of some derivation, and they find room since no way through the condition
  -- goes more often to the right than before.
  obtain ⟨s', hs', rfl⟩ := gives_iff_spells.mp hq'
  rcases hcases with ⟨ht, heq⟩ | ⟨ht, hr⟩
  · have hl : s'.Linked := s'.linked_iff.mpr (heq ▸ hrights)
    exact ⟨s'.query, Query.ofTokensUnlessDeep hs' hl, iff_of_true heq ht⟩
  · have hl : s'.Linked := s'.linked_iff.mpr (hr.rights_le hrights)
    exact ⟨s'.query, Query.ofTokensUnlessDeep hs' hl, iff_of_false hr.ne.symm ht⟩

def deletion : List Token :=
  [.mark (.keyword .delete), .mark (.keyword .«from»), .named "t", .mark (.keyword .«where»)]

def firstTwo : Phrase .chain :=
  .link (.compare "a" .equal (.integer "1")) .and (.last (.compare "b" .equal (.integer "2")))

def orThird : List Token :=
  [.mark (.keyword .or), .named "c", .mark (.comparison .equal), (Value.integer "3").token]

theorem firstTwo_enclosed : ∃ q q',
    Query.ofTokens (deletion ++ firstTwo.tokens ++ orThird) = .ok q ∧
    Query.ofTokens (deletion ++
      .mark .openParen :: (firstTwo.tokens ++ .mark .closeParen :: orThird)) = .ok q' ∧ q' ≠ q := by
  have h : Query.ofTokens (deletion ++ firstTwo.tokens ++ orThird) = .ok (.delete ⟨"t", some
    (.join (.compare "a" .equal (.integer "1")) .and (.join (.compare "b" .equal (.integer "2")) .or
      (.compare "c" .equal (.integer "3"))))⟩) := rfl
  obtain ⟨q', hq', hne⟩ := @ofTokens_enclosed deletion firstTwo.tokens orThird (.mark .openParen)
    (.mark .closeParen) _ firstTwo h (by decide) rfl rfl rfl
  refine ⟨_, q', h, hq'.1 (by decide), fun heq => ?_⟩
  rcases hne.mp heq with hlinks | hends
  · cases hlinks
  · cases hends (.mark (.keyword .or)) rfl

end SmallSql
