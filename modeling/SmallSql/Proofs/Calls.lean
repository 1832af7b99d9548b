import SmallSql.Proofs.Counters

namespace SmallSql

/-- The counters of a nest say what can be counted, and that is no more than the limits. -/
structure Nest.Bounded (nest : Nest) : Prop where
  counted : nest.Counted
  depth : nest.depth ≤ Nest.maxDepth
  links : nest.links ≤ Nest.maxLinks

theorem Nest.le_of_leave? {nest around : Nest} {last group : Condition}
    (h : nest.leave? last = some (group, around)) :
    around.depth ≤ nest.depth ∧ around.links ≤ nest.links := by
  rw [leave?] at h
  split at h
  · cases h
  · cases h
    exact ⟨Nat.sub_le _ _, Nat.sub_le _ _⟩

namespace Reading

def Bounded (reading : Reading) : Prop := ∀ nest ∈ reading.nest?, nest.Bounded

/-- A counter goes up only where it is not at its limit. -/
theorem Bounded.next {reading next : Reading} {t : Token} (h : reading.Bounded)
    (hs : NestStep t reading next) (hlimit : reading.limit? t.kind = none) : next.Bounded := by
  have hcounted : reading.Counted := fun nest hn => (h nest hn).counted
  intro nest hn
  suffices hle : nest.depth ≤ Nest.maxDepth ∧ nest.links ≤ Nest.maxLinks from
    ⟨hcounted.next hs nest hn, hle.1, hle.2⟩
  cases hs with
  | outside _ hnone _ => simp [hnone] at hn
  | start =>
    cases hn
    exact ⟨Nat.zero_le _, Nat.zero_le _⟩
  | @enter _ before ht =>
    cases hn
    obtain ⟨-, hd, hl⟩ := h before rfl
    have hne : before.depth ≠ Nest.maxDepth := by simpa [limit?, ht] using hlimit
    exact ⟨Nat.lt_of_le_of_ne hd hne, hl⟩
  | @link _ before _ _ ht =>
    cases hn
    obtain ⟨-, hd, hl⟩ := h before rfl
    have hne : before.links ≠ Nest.maxLinks := by simpa [limit?, ht] using hlimit
    exact ⟨hd, Nat.lt_of_le_of_ne hl hne⟩
  | @leave _ before _ _ _ ht hleave =>
    cases hn
    obtain ⟨-, hd, hl⟩ := h before rfl
    obtain ⟨hd', hl'⟩ := before.le_of_leave? hleave
    exact ⟨Nat.le_trans hd' hd, Nat.le_trans hl' hl⟩
  | inside hr hnext ht =>
    obtain rfl := Option.some.inj (hnext.symm.trans hn)
    exact ⟨(h _ hr).depth, (h _ hr).links⟩

theorem Bounded.step {reading next : Reading} {t : Token} (h : reading.Bounded)
    (hs : reading.step t = .ok next) : next.Bounded := by
  rw [step_eq] at hs
  cases hnext : reading.next? t with
  | none => simp [hnext] at hs
  | some after =>
    simp only [hnext] at hs
    split at hs
    · cases hs
    · obtain rfl : after = next := Except.ok.inj hs
      exact h.next (nestStep hnext) ‹_›

theorem Bounded.read {reading next : Reading} {ts : List Token} (h : reading.Bounded)
    (hs : ts.foldlM Reading.step reading = .ok next) : next.Bounded := by
  induction ts generalizing reading with
  | nil =>
    cases hs
    exact h
  | cons t rest ih =>
    rw [List.foldlM_cons] at hs
    cases ht : reading.step t with
    | error refusal =>
      rw [ht] at hs
      cases hs
    | ok after =>
      rw [ht] at hs
      exact ih (h.step ht) hs

end Reading

namespace Parser

variable {tokens : List Token} {c : Course} {b : Int} {head : Head}

section
variable {α : Type} {item : Parse α} (opened closed : List α → Reading)
  (hitem : ∀ xs c, c.Within tokens → c.balance ≤ b →
    Follows tokens (opened xs) c b item (fun a => closed (a :: xs)) fun _ c' => c.Returned c' 1 2)
  (hcomma : ∀ xs t, t.kind = .comma → (closed xs).step t = .ok (opened xs))
include hitem hcomma

/-- Behind an item a list goes on with a comma, and it ends where no comma stands. -/
theorem more_follows {fuel : Nat} (hf : c.left tokens < fuel) (items : List α)
    (hw : c.Within tokens) (hb : c.balance + 1 ≤ b) :
    Follows tokens (closed items) c b (more tokens item fuel items) (fun all => closed all.reverse)
      fun _ c' => c.Returned c' 0 (-1) ∧
        (Token.current tokens c'.state.position).kind ≠ .comma := by
  induction fuel generalizing c items with
  | zero => omega
  | succ fuel ih =>
    rw [more]
    apply Follows.turn
    apply Follows.current
    split
    · rename_i hk
      apply Follows.advance hw.turn (hcomma items _ hk)
      intro hw1
      have hr1 := c.turn_returned.trans c.turn.advance_returned
      apply (hitem items _ hw1 ?_).andThen
      · intro next c2 hw2 hr2
        have hr := hr1.trans hr2
        have hleft := hr.left hw2
        apply (ih (by omega) (next :: items) hw2 ?_).imp
        · rintro all c3 ⟨hr3, hend⟩
          exact ⟨(hr.trans hr3).weaken (by omega) (by omega), hend⟩
        · have := hr.balance
          omega
      · have := hr1.balance
        omega
    · rename_i hk
      exact .pure hw.turn ⟨c.turn_returned, hk⟩ (by rw [List.reverse_reverse])

theorem listed_follows {fuel : Nat} (hf : tokens.length < fuel) (hw : c.Within tokens)
    (hb : c.balance ≤ b) :
    Follows tokens (opened []) c b (listed tokens item fuel) (fun all => closed all.reverse)
      fun _ c' => c.Returned c' 1 1 ∧
        (Token.current tokens c'.state.position).kind ≠ .comma := by
  apply (hitem [] c hw hb).andThen
  intro first c1 hw1 hr
  have hleft : c1.left tokens < fuel := Nat.lt_of_le_of_lt (Nat.sub_le _ _) hf
  apply (more_follows opened closed hitem hcomma hleft [first] hw1 ?_).imp
  · rintro all c2 ⟨hr', hend⟩
    exact ⟨hr.trans hr', hend⟩
  · have := hr.balance
    omega

end

theorem row_follows {fuel : Nat} (hf : tokens.length < fuel) (table : String)
    (rows : List (List Value)) (hw : c.Within tokens) (hb : c.balance ≤ b) :
    Follows tokens (.row table rows) c b (row tokens fuel)
      (fun values => .rowEnd table (values :: rows)) fun _ c' => c.Returned c' 1 2 := by
  apply (Follows.expect hw hb rfl rfl rfl).andThen
  rintro - c1 hw1 hr1
  have hb1 := hr1.balance
  apply (listed_follows (.rowValue table rows) (.rowValueEnd table rows)
    (fun xs c hw hb => .value hw hb (fun _ => rfl) rfl rfl) ?_ hf hw1 (by omega)).bind
  · rintro values c2 ⟨hr2, -⟩
    exact Nat.le_of_succ_le hr2.position
  · rintro values c2 hw2 ⟨hr2, hend⟩
    have hb2 := hr2.balance
    have hs : (Reading.rowValueEnd table rows values.reverse).step
        (.current tokens c2.state.position) =
        if (Token.current tokens c2.state.position).kind = .closeParen then
          .ok (.rowEnd table (values :: rows)) else .error .unexpected := by
      simp only [Reading.step, List.reverse_reverse]
      split <;> simp_all
    apply (Follows.expect hw2 (by omega) hs rfl rfl).andThen
    rintro - c3 hw3 hr3
    exact .pure hw3 ((hr1.trans (hr2.trans hr3)).weaken (by omega) (by omega)) rfl
  · intro xs t hk
    simp only [Reading.step, hk]

/-- `m` comes to an end with what the whole reading gives, and the calls and turns are within the
balance. -/
def Decides (tokens : List Token) (reading : Reading) (c : Course) (b : Int) (m : Parse Query) :
    Prop :=
  ∃ c', m.result c = some (reading.walk tokens c.state.position, c') ∧ c'.Within tokens ∧
    c'.balance ≤ b

theorem Decides.current {reading : Reading} {f : Token → Parse Query}
    (h : Decides tokens reading c b (f (.current tokens c.state.position))) :
    Decides tokens reading c b (Parser.current tokens >>= f) := h

theorem Follows.refuses {reading : Reading} {m : Parse Query} {next : Query → Reading}
    (h : Follows tokens reading c b m next fun _ _ => False) : Decides tokens reading c b m := by
  obtain ⟨r, c', hm, hw, h⟩ := h
  cases r with
  | ok a => exact h.1.elim
  | error e => exact ⟨c', h.2.2 ▸ hm, hw, h.2.1⟩

theorem Follows.decides {α : Type} {reading : Reading} {m : Parse α} {f : α → Parse Query}
    {next : α → Reading} {R : α → Course → Prop} (h : Follows tokens reading c b m next R)
    (hf : ∀ a c', c'.Within tokens → R a c' → Decides tokens (next a) c' b (f a)) :
    Decides tokens reading c b (m >>= f) := by
  obtain ⟨r, c1, hm, hw, h⟩ := h
  cases r with
  | ok a =>
    obtain ⟨hr, hwalk⟩ := h
    obtain ⟨c2, hfa, hw2, hb⟩ := hf a c1 hw hr
    refine ⟨c2, ?_, hw2, hb⟩
    rw [result_bind, hm, hwalk]
    exact hfa
  | error e =>
    refine ⟨c1, ?_, hw, h.2.1⟩
    rw [result_bind, hm, h.2.2]
    rfl

theorem expectEnd_decides {reading : Reading} {q : Query} (alternatives : List Kind)
    (hw : c.Within tokens) (hb : c.balance ≤ b)
    (hs : reading.step (.current tokens c.state.position) = .error .unexpected)
    (hq : reading.query? = some q) (he : reading.expected = alternatives ++ [.finish]) :
    Decides tokens reading c b (do
      expectEnd tokens alternatives
      return q) := by
  let ended (c' : Course) := c' = c ∧ (Token.current tokens c.state.position).kind = .finish
  have hend : Follows tokens reading c b (expectEnd tokens alternatives) (fun _ => reading)
      fun _ c' => ended c' := by
    apply Follows.current
    split
    · rename_i hk
      exact .pure hw ⟨rfl, hk⟩ rfl
    · rename_i hk
      rw [← he]
      exact .unexpected hw hb hs fun hf => absurd hf hk
  apply hend.decides
  rintro - c' hw' ⟨rfl, hk⟩
  refine ⟨c', ?_, hw', hb⟩
  rw [Reading.walk_finish hk hq]
  rfl

theorem clause_decides {fuel : Nat} (hf : 2 * tokens.length + 1 < fuel)
    (hw : c.Within tokens) (hc : c.state.Counts .empty) (hb : c.balance ≤ b) :
    Decides tokens (.clause head) c b (clause tokens fuel head) := by
  apply Decides.current
  split
  · rename_i hk
    have hs : (Reading.clause head).step (.current tokens c.state.position) =
        .ok (.term head .empty) := by
      simp only [Reading.step, hk, if_true]
    apply (Follows.advance_only hw hs).decides
    rintro - c1 hw1 rfl
    apply (condition_follows head c.advance .empty fuel ?_ hw1 ⟨hc.depth, hc.links⟩ rfl ?_).decides
    · rintro condition c2 hw2 ⟨hr, hj⟩
      apply expectEnd_decides [.keyword .and, .keyword .or] hw2 ?_ ?_ rfl rfl
      · have := hr.balance
        rw [Course.advance_balance] at this
        omega
      · have hj : (Token.current tokens c2.state.position).kind.junction? = none := hj
        simp only [Reading.step, Reading.afterTerm, hj]
        split <;> rfl
    · have : c.advance.left tokens ≤ tokens.length := Nat.sub_le _ _
      omega
    · rw [Course.advance_balance]
      omega
  · rename_i hk
    exact expectEnd_decides [.keyword .«where»] hw hb
      (by simp only [Reading.step, if_neg hk]) rfl rfl

theorem select_decides {fuel : Nat} (hf : 2 * tokens.length + 1 < fuel)
    (hw : c.Within tokens) (hc : c.state.Counts .empty) (hb : c.balance ≤ b)
    (hk : (Token.current tokens c.state.position).kind = .keyword .select) :
    Decides tokens .statement c b (select tokens fuel) := by
  apply (Follows.expect_known (.column []) hw hk (by simp only [Reading.step, hk])).decides
  rintro - c1 hw1 hr1
  have hb1 := hr1.balance
  apply (listed_follows .column .columnEnd
    (fun columns c hw hb => .name (fun column => .columnEnd (column :: columns)) hw hb
      (fun _ => rfl) rfl rfl) ?_ (by omega) hw1 (by omega)).decides
  · rintro columns c2 hw2 ⟨hr2, hend⟩
    have hb2 := hr2.balance
    have hs : (Reading.columnEnd columns.reverse).step (.current tokens c2.state.position) =
        if (Token.current tokens c2.state.position).kind = .keyword .«from» then
          .ok (.selectTable columns.reverse) else .error .unexpected := by
      simp only [Reading.step]
      split <;> simp_all
    apply (Follows.expect hw2 (by omega) hs rfl rfl).decides
    rintro - c3 hw3 hr3
    have hb3 := hr3.balance
    apply (Follows.name (fun table => .clause (.select columns table)) hw3 (by omega)
      (fun t => by simp only [Reading.step, List.reverse_reverse]) rfl rfl).decides
    intro table c4 hw4 hr4
    have hr := hr1.trans (hr2.trans (hr3.trans hr4))
    have := hr.balance
    exact clause_decides hf hw4 (hr.counts hc) (by omega)
  · intro xs t hk
    simp only [Reading.step, hk]

theorem insert_decides {fuel : Nat} (hf : 2 * tokens.length + 1 < fuel)
    (hw : c.Within tokens) (hb : c.balance ≤ b)
    (hk : (Token.current tokens c.state.position).kind = .keyword .insert) :
    Decides tokens .statement c b (insert tokens fuel) := by
  apply (Follows.expect_known .insertInto hw hk (by simp only [Reading.step, hk])).decides
  rintro - c1 hw1 hr1
  have hb1 := hr1.balance
  apply (Follows.expect hw1 (by omega) rfl rfl rfl).decides
  rintro - c2 hw2 hr2
  have hb2 := hr2.balance
  apply (Follows.name .insertValues hw2 (by omega) (fun _ => rfl) rfl rfl).decides
  intro table c3 hw3 hr3
  have hb3 := hr3.balance
  apply (Follows.expect hw3 (by omega) rfl rfl rfl).decides
  rintro - c4 hw4 hr4
  have hb4 := hr4.balance
  apply (listed_follows (.row table) (.rowEnd table)
    (fun rows c hw hb => row_follows (by omega) table rows hw hb) ?_ (by omega) hw4
    (by omega)).decides
  · rintro rows c5 hw5 ⟨hr5, hend⟩
    have hb5 := hr5.balance
    exact expectEnd_decides [.comma] hw5 (by omega) (by simp only [Reading.step, hend, if_false])
      (by rw [Reading.query?, List.reverse_reverse]) rfl
  · intro xs t hk
    simp only [Reading.step, hk, if_true]

theorem delete_decides {fuel : Nat} (hf : 2 * tokens.length + 1 < fuel)
    (hw : c.Within tokens) (hc : c.state.Counts .empty) (hb : c.balance ≤ b)
    (hk : (Token.current tokens c.state.position).kind = .keyword .delete) :
    Decides tokens .statement c b (delete tokens fuel) := by
  apply (Follows.expect_known .deleteFrom hw hk (by simp only [Reading.step, hk])).decides
  rintro - c1 hw1 hr1
  have hb1 := hr1.balance
  apply (Follows.expect hw1 (by omega) rfl rfl rfl).decides
  rintro - c2 hw2 hr2
  have hb2 := hr2.balance
  apply (Follows.name (fun table => .clause (.delete table)) hw2 (by omega) (fun _ => rfl)
    rfl rfl).decides
  intro table c3 hw3 hr3
  have hr := hr1.trans (hr2.trans hr3)
  have := hr.balance
  exact clause_decides hf hw3 (hr.counts hc) (by omega)

theorem statement_decides {fuel : Nat} (hf : 2 * tokens.length + 1 < fuel)
    (hw : c.Within tokens) (hc : c.state.Counts .empty) (hb : c.balance ≤ b) :
    Decides tokens .statement c b (statement tokens fuel) := by
  apply Decides.current
  split
  · exact select_decides hf hw hc hb ‹_›
  · exact insert_decides hf hw hb ‹_›
  · exact delete_decides hf hw hc hb ‹_›
  · rename_i hs hi hd
    have hunexpected : Follows tokens .statement c b
        (unexpected tokens [.keyword .select, .keyword .insert, .keyword .delete])
        (fun _ => .statement) fun (_ : Query) _ => False := by
      refine .unexpected hw hb ?_ fun _ => rfl
      simp only [Reading.step]
    exact hunexpected.refuses

/-- From `c` on, `m` comes to the end `p`. Fuel for `n` calls inside each other is enough, and more
makes no difference. -/
def Ends {α : Type} (m : Nat → Parse α) (n : Nat) (c : Course)
    (p : Except ParseError α × Course) : Prop :=
  ∀ fuel, n ≤ fuel → (m fuel).result c = some p

/-- A call comes to an end, and all states stay within their bounds. The cursor does not go back,
and two calls and turns for each token that is taken, with two more, are enough. A call that returns
has taken a token and leaves the counters as it found them. -/
def Settles (tokens : List Token) (m : Nat → Parse Condition) (c : Course) : Prop :=
  ∃ r c', Ends m (2 * c.left tokens + 2) c (r, c') ∧ c'.Within tokens ∧
    c.state.position ≤ c'.state.position ∧
    c'.begun ≤ c.begun + 2 * (c'.state.position - c.state.position) + 2 ∧
    ∀ a, r = .ok a → c.state.position < c'.state.position ∧ c'.state.depth = c.state.depth ∧
      c'.state.links = c.state.links

theorem Follows.settles {reading : Reading} {m : Nat → Parse Condition}
    {next : Condition → Reading} {g : Int} (hm : ∀ fuel, (m fuel).Le (m (fuel + 1)))
    (h : Follows tokens reading c (c.balance + 2) (m (2 * c.left tokens + 2)) next
      fun _ c' => c.Returned c' 1 g) (hg : 0 ≤ g) : Settles tokens m c := by
  obtain ⟨r, c', hend, hw, h⟩ := h
  refine ⟨r, c', fun fuel hf => Parse.Le.of_le hm hf c _ hend, hw, ?_⟩
  cases r with
  | ok a =>
    have hr := h.1
    have hp := hr.position
    have hb := hr.balance
    simp only [Course.balance] at hb
    exact ⟨by omega, by omega, fun _ _ => ⟨hp, hr.depth, hr.links⟩⟩
  | error e =>
    obtain ⟨hp, hb, -⟩ := h
    simp only [Course.balance] at hb
    exact ⟨hp, by omega, fun _ h => by cases h⟩

theorem Course.Within.counts (h : c.Within tokens) :
    c.state.Counts ⟨[], [], c.state.depth.toNat, c.state.links.toNat⟩ :=
  ⟨(Int.toNat_of_nonneg h.state.depth.1).symm, (Int.toNat_of_nonneg h.state.links.1).symm⟩

theorem condition_settles (h : c.Within tokens) : Settles tokens (condition tokens) c := by
  have hfollows := condition_follows (.delete "") c _ (2 * c.left tokens + 2) (by omega) h h.counts
    rfl (Int.le_refl _)
  exact (hfollows.imp fun _ _ hr => hr.1).settles
    (fun fuel => (condition_chain_term_le tokens fuel).1) (by omega)

theorem term_settles (h : c.Within tokens) : Settles tokens (term tokens) c := by
  have hfollows := term_follows (b := c.balance + 2) (.delete "") c _ (2 * c.left tokens + 2)
    (by omega) h h.counts (by omega)
  exact hfollows.settles (fun fuel => (condition_chain_term_le tokens fuel).2.2) (by omega)

theorem start_within (tokens : List Token) : Course.start.Within tokens := by
  intro s hs
  obtain rfl := List.mem_singleton.mp hs
  exact ⟨Nat.zero_le _, ⟨Int.le_refl _, Int.natCast_nonneg _⟩, Int.le_refl _, Int.natCast_nonneg _⟩

/-- The whole query is read as by a cursor that goes through all of the tokens. -/
theorem statement_ends (tokens : List Token) : ∃ c,
    Ends (statement tokens) (2 * tokens.length + 2) .start
      (Reading.statement.walk tokens 0, c) ∧
    c.Within tokens ∧ c.begun ≤ 2 * tokens.length + 2 := by
  obtain ⟨c, hend, hw, hb⟩ := statement_decides (b := 2) (Nat.lt_succ_self (2 * tokens.length + 1))
    (start_within tokens) ⟨rfl, rfl⟩ (by decide)
  refine ⟨c, fun fuel hf => Parse.Le.of_le (statement_le tokens) hf .start _ hend, hw, ?_⟩
  have : c.state.position ≤ tokens.length := hw.state.position
  simp only [Course.balance] at hb
  omega

/-- The counters of a reading never go over their limits, and the same is true of the procedures,
which find the same query or error: in no state is the cursor behind the last token or a counter
below zero or over its limit. They come to an end after at most two calls and turns for each token
and two more. Wherever a condition or a term begins and whatever the counters are there, its call
settles. -/
theorem calls_end_within_bounds :
    (∀ (ts : List Token) (reading : Reading), ts.foldlM Reading.step .statement = .ok reading →
      reading.Bounded) ∧
    (∀ tokens : List Token, let input := tokens.filter (·.kind != .blank)
      ∃ c, Ends (statement input) (2 * input.length + 2) .start (Query.ofTokens tokens, c) ∧
        c.Within input ∧ c.begun ≤ 2 * input.length + 2) ∧
    ∀ (tokens : List Token) (c : Course), c.Within tokens →
      Settles tokens (condition tokens) c ∧ Settles tokens (term tokens) c := by
  refine ⟨fun ts reading h => ?_, fun tokens => ?_, fun tokens c h => ?_⟩
  · exact Reading.Bounded.read (fun _ hn => by cases hn) h
  · rw [Query.ofTokens_eq_walk]
    exact statement_ends _
  · exact ⟨condition_settles h, term_settles h⟩

theorem calls_end_next_to_limits :
    let tokens : List Token := [.mark (.keyword .delete), .mark (.keyword .«from»), .named "t",
      .mark (.keyword .«where»), .mark .openParen, .named "a", .mark (.comparison .equal),
      (Value.integer "1").token, .mark .closeParen]
    let c : Course := ⟨⟨4, 255, 511⟩, [], 0⟩
    (tokens.take 5).foldlM Reading.step .statement =
        .ok (.term (.delete "t") Nest.empty.enter) ∧
      (Reading.term (.delete "t") Nest.empty.enter).Bounded ∧
      c.Within tokens ∧ Settles tokens (condition tokens) c ∧ Settles tokens (term tokens) c := by
  intro tokens c
  have hread : (tokens.take 5).foldlM Reading.step .statement =
      .ok (.term (.delete "t") Nest.empty.enter) := rfl
  have hwithin : c.Within tokens := by
    intro s hs
    obtain rfl := List.mem_singleton.mp hs
    exact ⟨by decide, by decide, by decide⟩
  exact ⟨hread, calls_end_within_bounds.1 _ _ hread, hwithin,
    calls_end_within_bounds.2.2 _ _ hwithin⟩

/-- The procedures come to the same query or error with and without an end mark and whatever stands
behind it. -/
theorem statement_end_mark {e : Token} (he : e.kind = .finish) (ts us : List Token) :
    ∃ r c c', Ends (statement ts) (2 * ts.length + 2) .start (r, c) ∧
      Ends (statement (ts ++ [e] ++ us)) (2 * (ts ++ [e] ++ us).length + 2) .start (r, c') := by
  obtain ⟨c, hend, -, -⟩ := statement_ends ts
  obtain ⟨c', hend', -, -⟩ := statement_ends (ts ++ [e] ++ us)
  rw [Reading.walk_end_mark he us _ (Nat.zero_le _)] at hend'
  exact ⟨_, c, c', hend, hend'⟩

end Parser

end SmallSql
