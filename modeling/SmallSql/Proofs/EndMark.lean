import SmallSql.Proofs.Lexemes
import SmallSql.Proofs.Refinement
import SmallSql.Query.Parser

namespace SmallSql

namespace Token

/-- What is left to be read before the first end mark. -/
def ahead (tokens : List Token) (cursor : Nat) : List Token :=
  (tokens.drop cursor).takeWhile (·.kind != .finish)

variable {tokens : List Token} {cursor : Nat}

theorem lt_length_of_current (h : (current tokens cursor).kind ≠ .finish) :
    cursor < tokens.length := by
  rcases Nat.lt_or_ge cursor tokens.length with hlt | hge
  · exact hlt
  · rw [current, List.getElem?_eq_none hge] at h
    exact absurd rfl h

theorem ahead_eq_cons (h : (current tokens cursor).kind ≠ .finish) :
    ahead tokens cursor = current tokens cursor :: ahead tokens (cursor + 1) := by
  have hlt := lt_length_of_current h
  rw [current, List.getElem?_eq_getElem hlt, Option.getD_some] at h ⊢
  rw [ahead, List.drop_eq_getElem_cons hlt, List.takeWhile_cons_of_pos (by simpa using h)]
  rfl

theorem ahead_eq_nil (h : (current tokens cursor).kind = .finish) : ahead tokens cursor = [] := by
  rcases Nat.lt_or_ge cursor tokens.length with hlt | hge
  · rw [current, List.getElem?_eq_getElem hlt, Option.getD_some] at h
    rw [ahead, List.drop_eq_getElem_cons hlt, List.takeWhile_cons_of_neg (by simp [h])]
  · rw [ahead, List.drop_eq_nil_of_le hge, List.takeWhile_nil]

theorem ahead_end_mark {ts : List Token} {e : Token} (he : e.kind = .finish) (us : List Token)
    (h : cursor ≤ ts.length) : ahead (ts ++ [e] ++ us) cursor = ahead ts cursor := by
  rw [ahead, ahead, List.append_assoc, List.drop_append_of_le_length h]
  apply takeWhile_append_of_head
  intro t ht
  obtain rfl := Option.some.inj ht
  simp [he]

end Token

namespace Reading

theorem step_finish (reading : Reading) {t : Token} (h : t.kind = .finish) :
    reading.step t = .error .unexpected := by
  rw [step_eq, reading.next?_finish h]

theorem kind_of_step {reading next : Reading} {t : Token} (h : reading.step t = .ok next) :
    t.kind ≠ .finish := by
  intro hk
  rw [reading.step_finish hk] at h
  cases h

/-- Goes on from the cursor. Whether an end mark stands there is asked only where no step leads on,
and then the cursor stays. -/
def walk (tokens : List Token) (reading : Reading) (cursor : Nat) : Except ParseError Query :=
  match h : reading.step (.current tokens cursor) with
  | .ok next =>
    have := Token.lt_length_of_current (kind_of_step h)
    walk tokens next (cursor + 1)
  | .error refusal =>
    let found := (Token.current tokens cursor).kind
    match if found = .finish then reading.query? else none with
    | some q => .ok q
    | none => .error (reading.error refusal found cursor)
termination_by tokens.length - cursor

/-- A walk ends at the first end mark, if not before. -/
theorem walk_eq_run (tokens : List Token) (reading : Reading) (cursor : Nat) :
    walk tokens reading cursor = reading.run cursor (Token.ahead tokens cursor) := by
  fun_induction walk tokens reading cursor with
  | case1 reading cursor next h _ ih =>
    rw [ih, Token.ahead_eq_cons (kind_of_step h), run, h]
  | case2 reading cursor refusal h found q hq =>
    split at hq
    · rename_i hk
      rw [Token.ahead_eq_nil hk, run, hq]
    · cases hq
  | case3 reading cursor refusal h found hq =>
    split at hq
    · rename_i hk
      have hr : refusal = .unexpected := Except.error.inj (h.symm.trans (reading.step_finish hk))
      rw [Token.ahead_eq_nil hk, run, hq, hr, hk]
    · rename_i hk
      rw [Token.ahead_eq_cons hk, run, h]

/-- Wherever the cursor stands before an end mark, and whatever is being read there, all is as if
the tokens ended with that mark or without one. -/
theorem walk_end_mark {ts : List Token} {e : Token} (he : e.kind = .finish) (us : List Token)
    (reading : Reading) {cursor : Nat} (h : cursor ≤ ts.length) :
    walk (ts ++ [e] ++ us) reading cursor = walk ts reading cursor := by
  rw [walk_eq_run, walk_eq_run, Token.ahead_end_mark he us h]

end Reading

theorem Query.ofTokens_eq_walk (tokens : List Token) : ofTokens tokens =
    Reading.statement.walk (tokens.filter (·.kind != .blank)) 0 := by
  rw [Reading.walk_eq_run]
  rfl

/-- Nothing behind an end mark is read, whatever text the mark has, and no end mark is needed. This
is no effect of cutting the tokens at their end mark: a cursor that walks through all of them does
the same. -/
theorem ofTokens_end_mark :
    (∀ tokens, Query.ofTokens tokens =
      Reading.statement.walk (tokens.filter (·.kind != .blank)) 0) ∧
    ∀ (ts us : List Token) (e : Token), e.kind = .finish →
      Query.ofTokens (ts ++ [e] ++ us) = Query.ofTokens ts := by
  refine ⟨Query.ofTokens_eq_walk, fun ts us e he => ?_⟩
  have hkeep : [e].filter (·.kind != .blank) = [e] := by simp [he]
  rw [Query.ofTokens_eq_walk, Query.ofTokens_eq_walk, List.filter_append, List.filter_append,
    hkeep]
  exact Reading.statement.walk_end_mark he _ (Nat.zero_le _)

/-- The text breaks off inside a group. What would have gone on with it stands behind the mark. -/
theorem ofTokens_end_mark_in_group :
    Query.ofTokens ([.mark (.keyword .delete), .mark (.keyword .«from»), .named "t",
      .mark (.keyword .«where»), .mark .openParen, .named "a"] ++ [⟨.finish, some "x"⟩] ++
      [.mark (.comparison .equal), (Value.integer "1").token, .mark .closeParen]) =
    .error (.unexpected (Comparison.all.map .comparison) .finish 6) :=
  (ofTokens_end_mark.2 _ _ ⟨.finish, some "x"⟩ rfl).trans rfl

end SmallSql
