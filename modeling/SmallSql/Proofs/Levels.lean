import SmallSql.Proofs.Unlimited

namespace SmallSql

/-- How many links have been read in each open chain, innermost first. The condition itself is the
last of them, and outside a condition no chain is open. -/
abbrev Levels := List Nat

namespace Levels

def total : Levels → Nat
  | [] => 0
  | links :: outer => links + total outer

@[simp] theorem total_nil : total [] = 0 := rfl

@[simp] theorem total_cons (links : Nat) (outer : Levels) :
    total (links :: outer) = links + total outer := rfl

def next (levels : Levels) (kind : Kind) : Levels :=
  match levels with
  | [] => if kind = .keyword .«where» then [0] else []
  | links :: outer =>
    match kind with
    | .openParen => 0 :: links :: outer
    | .closeParen => outer
    | .keyword .and | .keyword .or => (links + 1) :: outer
    | _ => links :: outer

/-- The limit that a token goes over: it opens a group inside as many as may be open, or is a link
behind as many as may be pending. -/
def limit? (levels : Levels) (kind : Kind) : Option Refusal :=
  if kind = .openParen ∧ levels.length = Nest.maxDepth + 1 then some .nestingTooDeep
  else if kind.junction?.isSome ∧ levels.total = Nest.maxLinks then some .chainTooLong
  else none

/-- The limit that token number `i` goes over, where the first token finds `levels` open. -/
def exceeded? (levels : Levels) : List Token → Nat → Option Refusal
  | [], _ => none
  | t :: _, 0 => levels.limit? t.kind
  | t :: rest, i + 1 => exceeded? (levels.next t.kind) rest i

end Levels

namespace Nest

def levels (nest : Nest) : Levels := nest.chain.length :: nest.outer.map List.length

structure Counted (nest : Nest) : Prop where
  depth : nest.depth = nest.outer.length
  links : nest.links = nest.levels.total

theorem Counted.empty : Counted empty := ⟨rfl, rfl⟩

theorem Counted.enter {nest : Nest} (h : nest.Counted) : nest.enter.Counted := by
  refine ⟨by simp [Nest.enter, h.depth], ?_⟩
  simp [Nest.enter, Nest.levels, h.links]

theorem Counted.link {nest : Nest} (h : nest.Counted) (term : Condition) (j : Junction) :
    (nest.link term j).Counted := by
  refine ⟨h.depth, ?_⟩
  simp only [Nest.link, Nest.levels, h.links, List.length_cons, Levels.total_cons]
  omega

theorem Counted.leave {nest around : Nest} {term group : Condition} (h : nest.Counted)
    (hl : nest.leave? term = some (group, around)) :
    around.Counted ∧ around.levels = nest.levels.tail := by
  obtain ⟨chain, outer, depth, links⟩ := nest
  obtain ⟨hd, hs⟩ := h
  cases outer with
  | nil => cases hl
  | cons first outer =>
    cases hl
    simp only [levels, List.length_cons, List.map_cons, Levels.total_cons] at hd hs
    refine ⟨⟨?_, ?_⟩, rfl⟩
    · simp only
      omega
    · simp only [levels, Levels.total_cons]
      omega

end Nest

namespace Reading

def nest? : Reading → Option Nest
  | .term _ nest | .comparison _ nest _ | .literal _ nest _ _ | .termEnd _ nest _ => some nest
  | _ => none

def levels (reading : Reading) : Levels := reading.nest?.elim [] Nest.levels

def Counted (reading : Reading) : Prop := ∀ nest ∈ reading.nest?, nest.Counted

/-- What a token without limits does to the open chains. -/
inductive NestStep (t : Token) : Reading → Reading → Prop where
  | outside {reading next : Reading} (hr : reading.nest? = none) (hn : next.nest? = none)
      (ht : t.kind ≠ .keyword .«where») : NestStep t reading next
  | start {head : Head} (ht : t.kind = .keyword .«where») :
      NestStep t (.clause head) (.term head .empty)
  | enter {head : Head} {nest : Nest} (ht : t.kind = .openParen) :
      NestStep t (.term head nest) (.term head nest.enter)
  | link {head : Head} {nest : Nest} {last : Condition} {j : Junction}
      (ht : t.kind = .keyword j.keyword) :
      NestStep t (.termEnd head nest last) (.term head (nest.link last j))
  | leave {head : Head} {nest around : Nest} {last group : Condition} (ht : t.kind = .closeParen)
      (hl : nest.leave? last = some (group, around)) :
      NestStep t (.termEnd head nest last) (.termEnd head around group)
  | inside {reading next : Reading} {nest : Nest} (hr : reading.nest? = some nest)
      (hn : next.nest? = some nest)
      (ht : t.kind = .object ∨ t.kind.comparison?.isSome ∨ t.value?.isSome) :
      NestStep t reading next

theorem nestStep {reading next : Reading} {t : Token} (h : reading.next? t = some next) :
    NestStep t reading next := by
  cases reading with
  | term head nest =>
    simp only [next?] at h
    split at h
    · cases h; exact .enter ‹_›
    · cases h; exact .inside rfl rfl (.inl ‹_›)
    · cases h
  | termEnd head nest last =>
    simp only [next?] at h
    split at h
    · rename_i j hj
      cases h
      exact .link (Kind.junction?_eq_some.mp hj)
    · split at h
      · obtain ⟨⟨group, around⟩, hl, rfl⟩ := Option.map_eq_some_iff.mp h
        exact .leave ‹_› hl
      · cases h
  | comparison head nest name =>
    simp only [next?, step] at h
    split at h
    · rename_i c hc
      cases h
      exact .inside rfl rfl (.inr (.inl (by simp [hc])))
    · cases h
  | literal head nest name c =>
    simp only [next?, step] at h
    split at h
    · rename_i v hv
      cases h
      exact .inside rfl rfl (.inr (.inr (by simp [hv])))
    · cases h
  | clause head =>
    simp only [next?, step] at h
    split at h
    · cases h; exact .start ‹_›
    · cases h
  | rowValue table rows values =>
    simp only [next?, step] at h
    split at h
    · rename_i v hv
      cases h
      apply NestStep.outside rfl rfl
      intro hw
      simp [Token.value?, hw] at hv
    · cases h
  | _ =>
    simp only [next?, step] at h
    split at h <;> cases h
    all_goals exact .outside rfl rfl (by simp_all)

theorem Counted.next {reading next : Reading} {t : Token} (hc : reading.Counted)
    (h : NestStep t reading next) : next.Counted := by
  cases h with
  | outside _ hn _ =>
    intro nest hm
    simp [hn] at hm
  | start =>
    intro nest hm
    cases hm
    exact .empty
  | enter =>
    intro nest hm
    cases hm
    exact (hc _ rfl).enter
  | link =>
    intro nest hm
    cases hm
    exact (hc _ rfl).link _ _
  | leave _ hl =>
    intro nest hm
    cases hm
    exact ((hc _ rfl).leave hl).1
  | inside hr hn _ =>
    intro nest hm
    exact hc nest (by simp_all)

theorem levels_next {reading next : Reading} {t : Token} (hc : reading.Counted)
    (h : NestStep t reading next) : next.levels = reading.levels.next t.kind := by
  cases h with
  | outside hr hn ht => simp [levels, hr, hn, Levels.next, ht]
  | start ht => simp [levels, nest?, ht, Levels.next, Nest.levels, Nest.empty]
  | enter ht => simp [levels, nest?, ht, Levels.next, Nest.levels, Nest.enter]
  | @link _ _ _ j ht =>
    cases j <;> simp [levels, nest?, ht, Levels.next, Nest.levels, Nest.link, Junction.keyword]
  | leave ht hl =>
    simp only [levels, nest?, Option.elim, ((hc _ rfl).leave hl).2]
    simp [ht, Levels.next, Nest.levels]
  | @inside _ _ nest hr hn ht =>
    simp only [levels, hr, hn, Option.elim, Nest.levels, Levels.next]
    split <;> simp_all [Token.value?, Kind.comparison?]

theorem limit?_of_plain (reading : Reading) {kind : Kind} (ho : kind ≠ .openParen)
    (hj : kind.junction? = none) : reading.limit? kind = none := by
  cases reading <;> simp [limit?, ho, hj]

/-- The counters stop the same tokens as the levels, of those that can come next. -/
theorem limit?_eq {reading next : Reading} {t : Token} (hc : reading.Counted)
    (h : NestStep t reading next) : reading.limit? t.kind = reading.levels.limit? t.kind := by
  cases h with
  | outside hr _ _ =>
    have hl : reading.levels.limit? t.kind = none := by
      simp [levels, hr, Levels.limit?, Nest.maxLinks]
    rw [hl]
    cases reading <;> first | rfl | cases hr
  | start ht => simp [ht, limit?, Levels.limit?, Kind.junction?]
  | @enter _ nest ht =>
    obtain ⟨hd, _⟩ := hc nest rfl
    simp [ht, limit?, Levels.limit?, levels, nest?, Nest.levels, hd, Kind.junction?]
  | @link _ nest _ j ht =>
    obtain ⟨_, hl⟩ := hc nest rfl
    simp [ht, limit?, Levels.limit?, levels, nest?, hl]
  | leave ht _ => simp [ht, limit?, Levels.limit?, Kind.junction?]
  | inside _ _ ht =>
    have ho : t.kind ≠ .openParen := by
      intro hk
      simp [hk, Kind.comparison?, Token.value?] at ht
    have hj : t.kind.junction? = none := by
      cases hk : t.kind <;> simp_all [Kind.comparison?, Token.value?, Kind.junction?]
    rw [limit?_of_plain _ ho hj]
    simp [Levels.limit?, ho, hj]

theorem le_stop_readOn (reading : Reading) (position : Nat) (tokens : List Token) :
    position ≤ stop (reading.readOn position tokens) := by
  induction tokens generalizing reading position with
  | nil =>
    simp only [readOn]
    split <;> exact Nat.le_refl _
  | cons t rest ih =>
    simp only [readOn]
    split
    · exact Nat.le_of_succ_le (ih _ _)
    · exact Nat.le_refl _

/-- Where no token that is taken goes over a limit, the limits do not matter. -/
theorem run_eq_readOn {reading : Reading} (hc : reading.Counted) (position : Nat)
    (tokens : List Token)
    (h : ∀ i, position + i < stop (reading.readOn position tokens) →
      reading.levels.exceeded? tokens i = none) :
    reading.run position tokens = (reading.readOn position tokens).map Prod.fst := by
  -- Counted is the invariant: where the counters count, they stop a token exactly if the levels do.
  induction tokens generalizing reading position with
  | nil =>
    cases hq : reading.query? <;> simp [run, readOn, hq, error, Except.map]
  | cons t rest ih =>
    simp only [run, step_eq]
    cases hn : reading.next? t with
    | none => simp [readOn, hn, error, Except.map]
    | some next =>
      have hs := nestStep hn
      rw [readOn_cons next hn] at h ⊢
      have hl : reading.limit? t.kind = none := by
        rw [limit?_eq hc hs]
        exact h 0 (Nat.lt_of_lt_of_le (by omega) (le_stop_readOn next (position + 1) rest))
      simp only [hl]
      apply ih (hc.next hs)
      intro i hi
      rw [levels_next hc hs]
      exact h (i + 1) (by omega)

/-- The first token that is taken and goes over a limit ends the reading with that limit. -/
theorem run_eq_error {reading : Reading} (hc : reading.Counted) (position : Nat)
    (tokens : List Token) {p : Nat} {refusal : Refusal}
    (hp : position + p < stop (reading.readOn position tokens))
    (hr : reading.levels.exceeded? tokens p = some refusal)
    (hmin : ∀ i < p, reading.levels.exceeded? tokens i = none) :
    ∃ (last : Reading) (found : Kind),
      reading.run position tokens = .error (last.error refusal found (position + p)) := by
  induction tokens generalizing reading position p with
  | nil => cases hr
  | cons t rest ih =>
    simp only [run, step_eq]
    cases hn : reading.next? t with
    | none =>
      simp only [readOn, hn, stop, ParseError.position] at hp
      omega
    | some next =>
      have hs := nestStep hn
      rw [readOn_cons next hn] at hp
      cases p with
      | zero =>
        have hl : reading.limit? t.kind = some refusal := (limit?_eq hc hs).trans hr
        exact ⟨reading, t.kind, by simp [hl]⟩
      | succ p =>
        have hl : reading.limit? t.kind = none := (limit?_eq hc hs).trans (hmin 0 (by omega))
        simp only [hl]
        have hnext := levels_next hc hs
        obtain ⟨last, found, he⟩ := ih (hc.next hs) (position + 1) (p := p) (by omega)
          (by rw [hnext]; exact hr)
          (fun i hi => by rw [hnext]; exact hmin (i + 1) (by omega))
        exact ⟨last, found, by rw [he]; congr 2; omega⟩

end Reading

end SmallSql
