import SmallSql.Proofs.EndMark

namespace SmallSql

namespace Reading

variable {tokens : List Token} {reading : Reading} {cursor : Nat}

theorem walk_next {next : Reading} (h : reading.step (.current tokens cursor) = .ok next) :
    reading.walk tokens cursor = next.walk tokens (cursor + 1) := by
  rw [walk_eq_run, walk_eq_run, Token.ahead_eq_cons (kind_of_step h), run, h]

theorem walk_finish {q : Query} (h : (Token.current tokens cursor).kind = .finish)
    (hq : reading.query? = some q) : reading.walk tokens cursor = .ok q := by
  rw [walk_eq_run, Token.ahead_eq_nil h, run, hq]

theorem walk_refused {refusal : Refusal}
    (h : reading.step (.current tokens cursor) = .error refusal)
    (hq : (Token.current tokens cursor).kind = .finish → reading.query? = none) :
    reading.walk tokens cursor =
      .error (reading.error refusal (Token.current tokens cursor).kind cursor) := by
  rw [walk_eq_run]
  by_cases hk : (Token.current tokens cursor).kind = .finish
  · have hr : refusal = .unexpected := Except.error.inj (h.symm.trans (reading.step_finish hk))
    rw [Token.ahead_eq_nil hk, run, hq hk, hr, hk]
  · rw [Token.ahead_eq_cons hk, run, h]

/-- A settled nest differs from the nest itself only in what a junction would do. -/
theorem walk_settled {head : Head} {nest : Nest} {last : Condition}
    (h : (Token.current tokens cursor).kind.junction? = none) :
    (termEnd head nest last).walk tokens cursor =
      (termEnd head nest.settled (nest.chain.close last)).walk tokens cursor := by
  have hs : (termEnd head nest last).step (.current tokens cursor) =
      (termEnd head nest.settled (nest.chain.close last)).step (.current tokens cursor) := by
    simp only [step, afterTerm, h, Nest.leave?_settled]
  rw [walk_eq_run, walk_eq_run]
  by_cases hk : (Token.current tokens cursor).kind = .finish
  · rw [Token.ahead_eq_nil hk]
    rfl
  · rw [Token.ahead_eq_cons hk, run, run, hs]
    rfl

end Reading

namespace Parser

variable {α β : Type}

namespace State

structure Within (tokens : List Token) (s : State) : Prop where
  position : s.position ≤ tokens.length
  depth : 0 ≤ s.depth ∧ s.depth ≤ Nest.maxDepth
  links : 0 ≤ s.links ∧ s.links ≤ Nest.maxLinks

end State

namespace Course

def change (c : Course) (f : State → State) : Course := ⟨f c.state, c.state :: c.past, c.begun⟩

def turn (c : Course) : Course := ⟨c.state, c.past, c.begun + 1⟩

def advance (c : Course) : Course := c.change fun s => { s with position := s.position + 1 }

def enter (c : Course) : Course := c.advance.change fun s => { s with depth := s.depth + 1 }

def leave (c : Course) : Course := c.change fun s => { s with depth := s.depth - 1 }

def link (c : Course) : Course := c.advance.change fun s => { s with links := s.links + 1 }

def unlink (c : Course) (n : Nat) : Course := c.change fun s => { s with links := s.links - n }

def Within (tokens : List Token) (c : Course) : Prop := ∀ s ∈ c.state :: c.past, s.Within tokens

def left (tokens : List Token) (c : Course) : Nat := tokens.length - c.state.position

/-- The calls and turns that two for each token do not pay for. -/
def balance (c : Course) : Int := c.begun - 2 * c.state.position

variable {tokens : List Token} {c : Course}

section

variable (c : Course)

@[simp] theorem advance_state :
    c.advance.state = { c.state with position := c.state.position + 1 } := rfl

@[simp] theorem enter_state : c.enter.state =
    { c.state with position := c.state.position + 1, depth := c.state.depth + 1 } := rfl

@[simp] theorem leave_state : c.leave.state = { c.state with depth := c.state.depth - 1 } := rfl

@[simp] theorem link_state : c.link.state =
    { c.state with position := c.state.position + 1, links := c.state.links + 1 } := rfl

@[simp] theorem unlink_state (n : Nat) :
    (c.unlink n).state = { c.state with links := c.state.links - n } := rfl

@[simp] theorem turn_balance : c.turn.balance = c.balance + 1 := by
  simp only [balance, turn]
  omega

@[simp] theorem advance_balance : c.advance.balance = c.balance - 2 := by
  simp only [balance, advance, change]
  omega

@[simp] theorem enter_balance : c.enter.balance = c.balance - 2 := c.advance_balance

@[simp] theorem leave_balance : c.leave.balance = c.balance := rfl

@[simp] theorem link_balance : c.link.balance = c.balance - 2 := c.advance_balance

@[simp] theorem unlink_balance (n : Nat) : (c.unlink n).balance = c.balance := rfl

end

theorem Within.state (h : c.Within tokens) : c.state.Within tokens := h _ List.mem_cons_self

theorem Within.turn (h : c.Within tokens) : c.turn.Within tokens := h

theorem Within.change (h : c.Within tokens) {f : State → State} (hf : (f c.state).Within tokens) :
    (c.change f).Within tokens := List.forall_mem_cons.mpr ⟨hf, h⟩

theorem Within.advance (h : c.Within tokens) (hc : c.state.position < tokens.length) :
    c.advance.Within tokens := h.change ⟨hc, h.state.depth, h.state.links⟩

theorem Within.enter (h : c.advance.Within tokens) (hd : c.state.depth ≠ Nest.maxDepth) :
    c.enter.Within tokens := by
  have hdepth := h.state.depth
  refine h.change ⟨h.state.position, ?_, h.state.links⟩
  simp only [advance_state] at hdepth ⊢
  omega

theorem Within.leave (h : c.Within tokens) (hd : 0 < c.state.depth) : c.leave.Within tokens := by
  have hdepth := h.state.depth
  refine h.change ⟨h.state.position, ?_, h.state.links⟩
  simp only
  omega

theorem Within.link (h : c.advance.Within tokens) (hl : c.state.links ≠ Nest.maxLinks) :
    c.link.Within tokens := by
  have hlinks := h.state.links
  refine h.change ⟨h.state.position, h.state.depth, ?_⟩
  simp only [advance_state] at hlinks ⊢
  omega

theorem Within.unlink (h : c.Within tokens) {n : Nat} (hl : n ≤ c.state.links) :
    (c.unlink n).Within tokens := by
  have hlinks := h.state.links
  refine h.change ⟨h.state.position, h.state.depth, ?_⟩
  simp only
  omega

theorem Within.left_lt {c' : Course} (h : c'.Within tokens)
    (hp : c'.state.position = c.state.position + 1) : c'.left tokens < c.left tokens := by
  have := h.state.position
  simp only [Course.left]
  omega

/-- What a rule does to the course if it returns: it takes at least `taken` tokens, and they pay for
its calls and turns with `gain` left. -/
structure Returned (c c' : Course) (taken : Nat) (gain : Int) : Prop where
  position : c.state.position + taken ≤ c'.state.position
  depth : c'.state.depth = c.state.depth
  links : c'.state.links = c.state.links
  balance : c'.balance + gain ≤ c.balance

theorem Returned.weaken {m n : Nat} {g g' : Int} {c' : Course} (h : c.Returned c' m g)
    (hn : n ≤ m) (hg : g' ≤ g) : c.Returned c' n g' where
  position := by have := h.position; omega
  depth := h.depth
  links := h.links
  balance := by have := h.balance; omega

theorem Returned.trans {c' c'' : Course} {m n : Nat} {g g' : Int} (h : c.Returned c' m g)
    (h' : c'.Returned c'' n g') : c.Returned c'' (m + n) (g + g') where
  position := by have := h.position; have := h'.position; omega
  depth := h'.depth.trans h.depth
  links := h'.links.trans h.links
  balance := by have := h.balance; have := h'.balance; omega

theorem turn_returned (c : Course) : c.Returned c.turn 0 (-1) where
  position := Nat.le_refl _
  depth := rfl
  links := rfl
  balance := by rw [turn_balance]; omega

theorem advance_returned (c : Course) : c.Returned c.advance 1 2 where
  position := Nat.le_refl _
  depth := rfl
  links := rfl
  balance := by rw [advance_balance]; omega

theorem unlink_zero_returned (c : Course) : c.Returned (c.unlink 0) 0 0 where
  position := Nat.le_refl _
  depth := rfl
  links := Int.sub_zero _
  balance := Int.le_of_eq (Int.add_zero _)

theorem Returned.left {c' : Course} {n : Nat} {g : Int} (h : c.Returned c' n g)
    (hw : c'.Within tokens) : c'.left tokens + n ≤ c.left tokens := by
  have := h.position
  have := hw.state.position
  simp only [Course.left]
  omega

end Course

/-- From `c` on, `m` does what the reading does at the cursor: either both find the same error, and
the calls and turns are within the balance `b`, or `m` returns where the reading has become `next`,
and `R` holds then. In any case `m` comes to an end, and all states are within their bounds. -/
def Follows (tokens : List Token) (reading : Reading) (c : Course) (b : Int) (m : Parse α)
    (next : α → Reading) (R : α → Course → Prop) : Prop :=
  ∃ r c', m.result c = some (r, c') ∧ c'.Within tokens ∧
    match r with
    | .ok a => R a c' ∧
      reading.walk tokens c.state.position = (next a).walk tokens c'.state.position
    | .error e => c.state.position ≤ c'.state.position ∧ c'.balance ≤ b ∧
      reading.walk tokens c.state.position = .error e

namespace Follows

variable {tokens : List Token} {reading : Reading} {c : Course} {b : Int} {m : Parse α}
  {f : α → Parse β} {next : α → Reading} {R : α → Course → Prop} {last : β → Reading}
  {S : β → Course → Prop}

theorem bind (h : Follows tokens reading c b m next R)
    (hp : ∀ a c', R a c' → c.state.position ≤ c'.state.position)
    (hf : ∀ a c', c'.Within tokens → R a c' → Follows tokens (next a) c' b (f a) last S) :
    Follows tokens reading c b (m >>= f) last S := by
  obtain ⟨r, c', hm, hw, hr⟩ := h
  cases r with
  | ok a =>
    obtain ⟨hr, hwalk⟩ := hr
    obtain ⟨r', c'', hfa, hw', hr'⟩ := hf a c' hw hr
    refine ⟨r', c'', by rw [result_bind, hm]; exact hfa, hw', ?_⟩
    · cases r' with
      | ok a' => exact ⟨hr'.1, hwalk.trans hr'.2⟩
      | error e => exact ⟨Nat.le_trans (hp a c' hr) hr'.1, hr'.2.1, hwalk.trans hr'.2.2⟩
  | error e => exact ⟨.error e, c', by rw [result_bind, hm]; rfl, hw, hr⟩

theorem imp {R' : α → Course → Prop} (h : Follows tokens reading c b m next R)
    (hr : ∀ a c', R a c' → R' a c') : Follows tokens reading c b m next R' := by
  obtain ⟨r, c', hm, hw, h⟩ := h
  refine ⟨r, c', hm, hw, ?_⟩
  cases r with
  | ok a => exact ⟨hr a c' h.1, h.2⟩
  | error e => exact h

theorem andThen {n : Nat} {g : Int}
    (h : Follows tokens reading c b m next fun _ c' => c.Returned c' n g)
    (hf : ∀ a c', c'.Within tokens → c.Returned c' n g →
      Follows tokens (next a) c' b (f a) last S) :
    Follows tokens reading c b (m >>= f) last S :=
  h.bind (fun _ _ hr => Nat.le_trans (Nat.le_add_right _ _) hr.position) hf

theorem pure {a : α} (hw : c.Within tokens) (hr : R a c)
    (h : reading.walk tokens c.state.position = (next a).walk tokens c.state.position) :
    Follows tokens reading c b (Pure.pure a) next R :=
  ⟨.ok a, c, rfl, hw, hr, h⟩

theorem fail {error : Nat → ParseError} (hw : c.Within tokens) (hb : c.balance ≤ b)
    (h : reading.walk tokens c.state.position = .error (error c.state.position)) :
    Follows tokens reading c b (Parser.fail error) next R :=
  ⟨.error _, c, rfl, hw, Nat.le_refl _, hb, h⟩

theorem turn {f : Unit → Parse β} (h : Follows tokens reading c.turn b (f ()) last S) :
    Follows tokens reading c b (Parser.turn >>= f) last S := h

theorem current {f : Token → Parse β}
    (h : Follows tokens reading c b (f (.current tokens c.state.position)) last S) :
    Follows tokens reading c b (Parser.current tokens >>= f) last S := h

theorem get {f : Course → Parse β} (h : Follows tokens reading c b (f c) last S) :
    Follows tokens reading c b (MonadState.get >>= f) last S := h

theorem change {g : State → State} {f : Unit → Parse β}
    (hp : (g c.state).position = c.state.position)
    (h : Follows tokens reading (c.change g) b (f ()) last S) :
    Follows tokens reading c b (Parser.change g >>= f) last S := by
  obtain ⟨r, c', hf, hw, hr⟩ := h
  refine ⟨r, c', hf, hw, ?_⟩
  simpa only [Course.change, hp] using hr

theorem advance_only {after : Reading} (hw : c.Within tokens)
    (hs : reading.step (.current tokens c.state.position) = .ok after) :
    Follows tokens reading c b (Parser.advance tokens) (fun _ => after)
      fun _ c' => c' = c.advance := by
  have hc := Token.lt_length_of_current (Reading.kind_of_step hs)
  have hadvance : (Parser.advance tokens).result c = some (.ok (), c.advance) := by
    rw [Parser.advance, result_bind]
    show (ite (c.state.position < tokens.length) _ _ : Parse Unit).result c = _
    rw [if_pos hc]
    rfl
  exact ⟨_, _, hadvance, hw.advance hc, rfl, Reading.walk_next hs⟩

theorem advance {f : Unit → Parse β} {after : Reading} (hw : c.Within tokens)
    (hs : reading.step (.current tokens c.state.position) = .ok after)
    (h : c.advance.Within tokens → Follows tokens after c.advance b (f ()) last S) :
    Follows tokens reading c b (Parser.advance tokens >>= f) last S := by
  apply (advance_only hw hs).bind
  · rintro _ _ rfl
    exact Nat.le_succ _
  · rintro _ _ hw' rfl
    exact h hw'

theorem unexpected (hw : c.Within tokens) (hb : c.balance ≤ b)
    (hs : reading.step (.current tokens c.state.position) = .error .unexpected)
    (hq : (Token.current tokens c.state.position).kind = .finish → reading.query? = none) :
    Follows tokens reading c b (Parser.unexpected tokens reading.expected) next R :=
  fail hw hb (Reading.walk_refused hs hq)

theorem take {g : Token → Option α} (hw : c.Within tokens) (hb : c.balance ≤ b)
    (hs : reading.step (.current tokens c.state.position) =
      match g (.current tokens c.state.position) with
      | some a => .ok (next a)
      | none => .error .unexpected)
    (hq : reading.query? = none) :
    Follows tokens reading c b (Parser.take tokens reading.expected g) next
      fun _ c' => c.Returned c' 1 2 := by
  apply current
  cases hg : g (Token.current tokens c.state.position) with
  | some a =>
    rw [hg] at hs
    exact advance hw hs fun hw' => pure hw' c.advance_returned rfl
  | none =>
    rw [hg] at hs
    exact unexpected hw hb hs fun _ => hq

theorem take_known {g : Token → Option α} {expected : List Kind} {a : α} (hw : c.Within tokens)
    (hg : g (.current tokens c.state.position) = some a)
    (hs : reading.step (.current tokens c.state.position) = .ok (next a)) :
    Follows tokens reading c b (Parser.take tokens expected g) next
      fun _ c' => c.Returned c' 1 2 := by
  apply current
  rw [hg]
  exact advance hw hs fun hw' => pure hw' c.advance_returned rfl

theorem expect {kind : Kind} {after : Reading} (hw : c.Within tokens) (hb : c.balance ≤ b)
    (hs : reading.step (.current tokens c.state.position) =
      if (Token.current tokens c.state.position).kind = kind then .ok after
      else .error .unexpected)
    (hq : reading.query? = none) (he : reading.expected = [kind]) :
    Follows tokens reading c b (Parser.expect tokens kind) (fun _ => after)
      fun _ c' => c.Returned c' 1 2 := by
  rw [Parser.expect, ← he]
  apply take hw hb ?_ hq
  rw [hs, Token.ofKind?]
  split <;> rfl

theorem expect_known {kind : Kind} (after : Reading) (hw : c.Within tokens)
    (hk : (Token.current tokens c.state.position).kind = kind)
    (hs : reading.step (.current tokens c.state.position) = .ok after) :
    Follows tokens reading c b (Parser.expect tokens kind) (fun _ => after)
      fun _ c' => c.Returned c' 1 2 :=
  take_known hw (by rw [Token.ofKind?, if_pos hk]) hs

theorem name (next : String → Reading) (hw : c.Within tokens) (hb : c.balance ≤ b)
    (hs : ∀ t, reading.step t =
      if t.kind = .object then .ok (next t.content) else .error .unexpected)
    (hq : reading.query? = none) (he : reading.expected = [.object]) :
    Follows tokens reading c b (Parser.name tokens) next fun _ c' => c.Returned c' 1 2 := by
  rw [Parser.name, ← he]
  apply take hw hb ?_ hq
  rw [hs, Token.name?]
  split <;> rfl

theorem value {next : Value → Reading} (hw : c.Within tokens) (hb : c.balance ≤ b)
    (hs : ∀ t, reading.step t =
      match t.value? with
      | some v => .ok (next v)
      | none => .error .unexpected)
    (hq : reading.query? = none) (he : reading.expected = [.string, .integer]) :
    Follows tokens reading c b (Parser.value tokens) next fun _ c' => c.Returned c' 1 2 := by
  rw [Parser.value, ← he]
  apply take hw hb ?_ hq
  rw [hs]
  cases Token.value? _ <;> rfl

end Follows

end Parser

end SmallSql
