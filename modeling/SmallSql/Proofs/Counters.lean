import SmallSql.Proofs.Following

namespace SmallSql

namespace Reading

variable (head : Head) (nest : Nest) (last : Condition) {t : Token}

theorem step_openParen (hk : t.kind = .openParen) :
    (term head nest).step t =
      if nest.depth = Nest.maxDepth then .error .nestingTooDeep
      else .ok (term head nest.enter) := by
  simp only [step, hk]

theorem step_junction {j : Junction} (hk : t.kind.junction? = some j) :
    (termEnd head nest last).step t =
      if nest.links = Nest.maxLinks then .error .chainTooLong
      else .ok (term head (nest.link last j)) := by
  simp only [step, afterTerm, hk]

/-- Without a junction behind it, a chain inside a group can only be closed. -/
theorem step_closeParen (hk : t.kind.junction? = none) :
    (termEnd head nest.enter last).step t =
      if t.kind = .closeParen then .ok (termEnd head nest last) else .error .unexpected := by
  simp only [step, afterTerm, hk]
  rfl

end Reading

namespace Parser

structure State.Counts (s : State) (nest : Nest) : Prop where
  depth : s.depth = nest.depth
  links : s.links = nest.links

variable {tokens : List Token} {c : Course} {b : Int} {head : Head} {nest : Nest}

namespace State.Counts

variable {s : State}

theorem depth_eq_iff (h : s.Counts nest) (n : Nat) : s.depth = n ↔ nest.depth = n := by
  rw [h.depth, Int.ofNat_inj]

theorem links_eq_iff (h : s.Counts nest) (n : Nat) : s.links = n ↔ nest.links = n := by
  rw [h.links, Int.ofNat_inj]

theorem enter (h : c.state.Counts nest) : c.enter.state.Counts nest.enter :=
  ⟨congrArg (· + 1) h.depth, h.links⟩

theorem link (h : c.state.Counts nest) (last : Condition) (j : Junction) :
    c.link.state.Counts (nest.link last j) :=
  ⟨h.depth, congrArg (· + 1) h.links⟩

end State.Counts

theorem Course.Returned.counts {c' : Course} {n : Nat} {g : Int} (h : c.Returned c' n g)
    (hc : c.state.Counts nest) : c'.state.Counts nest :=
  ⟨h.depth.trans hc.depth, h.links.trans hc.links⟩

/-- No junction stands at the cursor. -/
def Unlinked (tokens : List Token) (c : Course) : Prop :=
  (Token.current tokens c.state.position).kind.junction? = none

theorem comparison_follows (hw : c.Within tokens) (hb : c.balance ≤ b)
    (hk : (Token.current tokens c.state.position).kind = .object) :
    Follows tokens (.term head nest) c b
      (do
        let column ← name tokens
        let operator ← comparison tokens
        let literal ← value tokens
        return .compare column operator literal)
      (.termEnd head nest) fun _ c' => c.Returned c' 3 6 := by
  have hname : Follows tokens (.term head nest) c b (name tokens) (.comparison head nest)
      fun _ c' => c.Returned c' 1 2 :=
    .take_known hw (by rw [Token.name?, if_pos hk]) (by simp only [Reading.step, hk])
  apply hname.andThen
  intro column c1 hw1 hr1
  have hcomparison : Follows tokens (.comparison head nest column) c1 b (comparison tokens)
      (.literal head nest column) fun _ c' => c1.Returned c' 1 2 := by
    refine .take hw1 ?_ ?_ rfl
    · have := hr1.balance
      omega
    · simp only [Reading.step]
      split <;> simp [*]
  apply hcomparison.andThen
  intro operator c2 hw2 hr2
  have hr := hr1.trans hr2
  apply (Follows.value hw2 (by have := hr.balance; omega) (fun _ => rfl) rfl rfl).andThen
  intro literal c3 hw3 hr3
  exact .pure hw3 (hr.trans hr3) rfl

theorem Course.Returned.group {c' : Course} {n : Nat} {g : Int} (h : c.enter.Returned c' n g) :
    c.Returned c'.leave (n + 1) (g + 2) where
  position := by have := h.position; simp only [enter_state, leave_state] at this ⊢; omega
  depth := by have := h.depth; simp only [enter_state, leave_state] at this ⊢; omega
  links := h.links
  balance := by have := h.balance; rw [enter_balance] at this; rw [leave_balance]; omega

/-- A group is read where `condition` reads what is inside. -/
theorem group_follows (fuel : Nat) (hw : c.Within tokens) (hc : c.state.Counts nest)
    (hb : c.balance ≤ b)
    (hk : (Token.current tokens c.state.position).kind = .openParen)
    (hinner : c.enter.Within tokens → c.enter.state.Counts nest.enter →
      Follows tokens (.term head nest.enter) c.enter b (condition tokens fuel)
        (.termEnd head nest.enter) fun _ c' => c.enter.Returned c' 1 3 ∧ Unlinked tokens c') :
    Follows tokens (.term head nest) c b
      (do
        if (← get).state.depth = Nest.maxDepth then fail (.nestingTooDeep Nest.maxDepth)
        else
          advance tokens
          change fun s => { s with depth := s.depth + 1 }
          let inner ← condition tokens fuel
          change fun s => { s with depth := s.depth - 1 }
          expect tokens .closeParen
          return inner)
      (.termEnd head nest) fun _ c' => c.Returned c' 1 7 := by
  have hs := Reading.step_openParen head nest hk
  have hmax := hc.depth_eq_iff Nest.maxDepth
  apply Follows.get
  by_cases hd : nest.depth = Nest.maxDepth
  · rw [if_pos (hmax.mpr hd)]
    rw [if_pos hd] at hs
    exact .fail hw hb (Reading.walk_refused hs fun _ => rfl)
  · rw [if_neg (mt hmax.mp hd)]
    rw [if_neg hd] at hs
    apply Follows.advance hw hs
    intro hw1
    apply Follows.change rfl
    apply (hinner (hw1.enter (mt hmax.mp hd)) hc.enter).bind
    · rintro inner c2 ⟨hr, -⟩
      exact Nat.le_of_succ_le hr.group.position
    · rintro inner c2 hw2 ⟨hr, hj⟩
      have hgroup := hr.group
      have hpos : 0 < c2.state.depth := by
        have := hr.depth
        have := hw.state.depth
        simp only [Course.enter_state] at *
        omega
      apply Follows.change rfl
      apply (Follows.expect (hw2.leave hpos) (by have := hgroup.balance; omega)
        (Reading.step_closeParen head nest inner hj) rfl rfl).andThen
      rintro - c3 hw3 hr3
      exact .pure hw3 ((hgroup.trans hr3).weaken (by omega) (by omega)) rfl

/-- The links of a chain that is read on are pending until its end. -/
theorem Course.Returned.link {c' c'' : Course} {n : Nat} (h : c.link.Returned c' 1 5)
    (h' : (c'.unlink (n + 1)).Returned c'' 0 (-1)) : (c.unlink n).Returned c'' 2 6 where
  position := by
    have := h.position
    have := h'.position
    simp only [link_state, unlink_state] at *
    omega
  depth := h'.depth.trans h.depth
  links := by
    have := h.links
    have := h'.links
    simp only [link_state, unlink_state] at *
    omega
  balance := by
    have := h.balance
    have := h'.balance
    simp only [link_balance, unlink_balance] at *
    omega

/-- A chain is read on where `term` reads the next term and `chain` what is behind it. -/
theorem link_follows {last : Condition} {j : Junction} (fuel : Nat) (hw : c.Within tokens)
    (hc : c.state.Counts nest) (hb : c.balance ≤ b)
    (hk : (Token.current tokens c.state.position).kind.junction? = some j)
    (hterm : c.link.Within tokens → c.link.state.Counts (nest.link last j) →
      Follows tokens (.term head (nest.link last j)) c.link b (term tokens fuel)
        (.termEnd head (nest.link last j)) fun _ c' => c.link.Returned c' 1 5)
    (hrest : ∀ next c', c'.Within tokens → c.link.Returned c' 1 5 →
      Follows tokens (.termEnd head (nest.link last j) next) c' b
        (chain tokens fuel ((last, j) :: nest.chain) next) (.termEnd head nest.settled)
        fun _ c'' => (c'.unlink (nest.chain.length + 1)).Returned c'' 0 (-1) ∧
          Unlinked tokens c'') :
    Follows tokens (.termEnd head nest last) c b
      (do
        if (← get).state.links = Nest.maxLinks then fail (.chainTooLong Nest.maxLinks)
        else
          advance tokens
          change fun s => { s with links := s.links + 1 }
          let next ← term tokens fuel
          chain tokens fuel ((last, j) :: nest.chain) next)
      (.termEnd head nest.settled)
      fun _ c' => (c.unlink nest.chain.length).Returned c' 2 6 ∧ Unlinked tokens c' := by
  have hs := Reading.step_junction head nest last hk
  have hmax := hc.links_eq_iff Nest.maxLinks
  apply Follows.get
  by_cases hl : nest.links = Nest.maxLinks
  · rw [if_pos (hmax.mpr hl)]
    rw [if_pos hl] at hs
    refine .fail hw hb (Reading.walk_refused hs fun hf => ?_)
    rw [hf] at hk
    cases hk
  · rw [if_neg (mt hmax.mp hl)]
    rw [if_neg hl] at hs
    apply Follows.advance hw hs
    intro hw1
    apply Follows.change rfl
    apply (hterm (hw1.link (mt hmax.mp hl)) (hc.link last j)).andThen
    intro next c2 hw2 hr
    apply (hrest next c2 hw2 hr).imp
    rintro _ c3 ⟨hr', hj⟩
    exact ⟨hr.link hr', hj⟩

theorem chainEnd_follows {last : Condition} (hw : c.Within tokens)
    (hc : c.state.Counts nest) (hn : nest.chain.length ≤ nest.links) (hk : Unlinked tokens c) :
    Follows tokens (.termEnd head nest last) c b
      (do
        change fun s => { s with links := s.links - nest.chain.length }
        return nest.chain.close last)
      (.termEnd head nest.settled)
      fun _ c' => c' = c.unlink nest.chain.length := by
  apply Follows.change rfl
  have hlinks : (nest.chain.length : Int) ≤ c.state.links := by
    rw [hc.links]
    exact Int.ofNat_le.mpr hn
  exact .pure (hw.unlink hlinks) rfl (Reading.walk_settled hk)

mutual

-- The induction is on the fuel. A token is worth two calls: a term takes one before it calls
-- `condition`, and no token is taken before `condition` calls `term`.
theorem term_follows {tokens : List Token} {b : Int} (head : Head) (c : Course) (nest : Nest)
    (fuel : Nat) (hf : 2 * c.left tokens < fuel) (hw : c.Within tokens)
    (hc : c.state.Counts nest) (hb : c.balance + 1 ≤ b) :
    Follows tokens (.term head nest) c b (term tokens fuel) (.termEnd head nest)
      fun _ c' => c.Returned c' 1 5 := by
  cases fuel with
  | zero => omega
  | succ fuel =>
    have hturn : c.turn.balance ≤ b := by rwa [Course.turn_balance]
    rw [term]
    apply Follows.turn
    apply Follows.current
    split
    · rename_i hk
      apply (group_follows fuel hw.turn hc hturn hk ?_).imp
      · intro _ c' hr
        exact (c.turn_returned.trans hr).weaken (by omega) (by omega)
      · intro hw' hc'
        have hleft : c.turn.enter.left tokens < c.left tokens := hw'.left_lt rfl
        apply condition_follows head c.turn.enter nest.enter fuel (by omega) hw' hc' rfl
        rw [Course.enter_balance]
        omega
    · rename_i hk
      apply (comparison_follows hw.turn hturn hk).imp
      intro _ c' hr
      exact (c.turn_returned.trans hr).weaken (by omega) (by omega)
    · rename_i ho hn
      refine Follows.unexpected hw.turn hturn ?_ fun _ => rfl
      simp only [Reading.step]
termination_by fuel

theorem condition_follows {tokens : List Token} {b : Int} (head : Head) (c : Course) (nest : Nest)
    (fuel : Nat) (hf : 2 * c.left tokens + 1 < fuel) (hw : c.Within tokens)
    (hc : c.state.Counts nest) (hn : nest.chain = []) (hb : c.balance + 2 ≤ b) :
    Follows tokens (.term head nest) c b (condition tokens fuel) (.termEnd head nest)
      fun _ c' => c.Returned c' 1 3 ∧ Unlinked tokens c' := by
  obtain ⟨chain, outer, depth, links⟩ := nest
  obtain rfl : chain = [] := hn
  cases fuel with
  | zero => omega
  | succ fuel =>
    rw [condition]
    apply Follows.turn
    apply (term_follows head c.turn _ fuel ?_ hw.turn hc ?_).andThen
    · intro first c1 hw1 hr
      have hleft := hr.left hw1
      apply (chain_follows head c1 _ first fuel ?_ hw1 (hr.counts hc) (Nat.zero_le _) ?_).imp
      · rintro _ c' ⟨hr', hj⟩
        have hr := c.turn_returned.trans (hr.trans (c1.unlink_zero_returned.trans hr'))
        exact ⟨hr.weaken (by omega) (by omega), hj⟩
      · have : c.turn.left tokens = c.left tokens := rfl
        omega
      · have := hr.balance
        rw [Course.turn_balance] at this
        omega
    · exact Nat.lt_of_succ_lt_succ hf
    · rw [Course.turn_balance]
      omega
termination_by fuel

theorem chain_follows {tokens : List Token} {b : Int} (head : Head) (c : Course) (nest : Nest)
    (last : Condition) (fuel : Nat) (hf : 2 * c.left tokens < fuel) (hw : c.Within tokens)
    (hc : c.state.Counts nest) (hn : nest.chain.length ≤ nest.links) (hb : c.balance + 1 ≤ b) :
    Follows tokens (.termEnd head nest last) c b (chain tokens fuel nest.chain last)
      (.termEnd head nest.settled) fun _ c' =>
        (c.unlink nest.chain.length).Returned c' 0 (-1) ∧ Unlinked tokens c' := by
  cases fuel with
  | zero => omega
  | succ fuel =>
    have hturn : c.turn.balance ≤ b := by rwa [Course.turn_balance]
    rw [chain]
    apply Follows.turn
    apply Follows.current
    split
    · rename_i j hk
      apply (link_follows fuel hw.turn hc hturn hk ?_ ?_).imp
      · rintro _ c' ⟨hr, hj⟩
        exact ⟨((c.unlink _).turn_returned.trans hr).weaken (by omega) (by omega), hj⟩
      · intro hw' hc'
        have hleft : c.turn.link.left tokens < c.left tokens := hw'.left_lt rfl
        apply term_follows head c.turn.link _ fuel (by omega) hw' hc'
        rw [Course.link_balance]
        omega
      · intro next c' hw' hr
        have hleft := hr.left hw'
        have hlink : c.turn.link.left tokens ≤ c.left tokens :=
          Nat.sub_le_sub_left (Nat.le_succ _) _
        have hcount : c.turn.link.state.Counts (nest.link last j) := hc.link last j
        rw [← Nest.settled_link nest last j]
        apply chain_follows head c' (nest.link last j) next fuel (by omega) hw' (hr.counts hcount)
          (Nat.succ_le_succ hn)
        have := hr.balance
        rw [Course.link_balance] at this
        omega
    · rename_i hk
      apply (chainEnd_follows hw.turn hc hn hk).imp
      rintro _ c' rfl
      exact ⟨(c.unlink _).turn_returned, hk⟩
termination_by fuel

end

end Parser

end SmallSql
