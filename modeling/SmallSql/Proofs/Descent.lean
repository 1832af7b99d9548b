import SmallSql.Proofs.Unlimited

namespace SmallSql

namespace Descent

variable {α β : Type}

/-- The tokens that are left, and how many have been taken before them. -/
structure Cursor where
  position : Nat
  tokens : List Token

def Cursor.kind (c : Cursor) : Kind :=
  match c.tokens with
  | [] => .finish
  | t :: _ => t.kind

def Cursor.unexpected (c : Cursor) (expected : List Kind) : ParseError :=
  .unexpected expected c.kind c.position

/-- What a rule reads from `c`. Every rule takes at least one token. -/
structure Read (c : Cursor) (α : Type) where
  value : α
  next : Cursor
  shorter : next.tokens.length < c.tokens.length

def Read.upTo {c : Cursor} (r : Read c α) (s : Read r.next β) {γ : Type} (value : γ) : Read c γ :=
  ⟨value, s.next, Nat.lt_trans s.shorter r.shorter⟩

def take? (f : Token → Option α) (c : Cursor) : Option (Read c α) :=
  match c with
  | ⟨_, []⟩ => none
  | ⟨position, t :: rest⟩ => (f t).map (⟨·, ⟨position + 1, rest⟩, Nat.lt_succ_self _⟩)

def take (expected : List Kind) (f : Token → Option α) (c : Cursor) :
    Except ParseError (Read c α) :=
  match take? f c with
  | some r => .ok r
  | none => .error (c.unexpected expected)

def expect (kind : Kind) (c : Cursor) : Except ParseError (Read c Unit) :=
  take [kind] (Token.ofKind? kind) c

def name (c : Cursor) : Except ParseError (Read c String) := take [.object] Token.name? c

def comparison (c : Cursor) : Except ParseError (Read c Comparison) :=
  take (Comparison.all.map .comparison) (·.kind.comparison?) c

def value (c : Cursor) : Except ParseError (Read c Value) :=
  take [.string, .integer] Token.value? c

/-- `item (',' item)*` -/
def listed (item : (c : Cursor) → Except ParseError (Read c α)) (c : Cursor) :
    Except ParseError (Read c (List α)) := do
  let first ← item c
  match take? (Token.ofKind? .comma) first.next with
  | none => return ⟨[first.value], first.next, first.shorter⟩
  | some comma =>
    let others ← listed item comma.next
    return first.upTo (comma.upTo others ()) (first.value :: others.value)
termination_by c.tokens.length
decreasing_by exact Nat.lt_trans comma.shorter first.shorter

/-- `'(' value (',' value)* ')'` -/
def row (c : Cursor) : Except ParseError (Read c (List Value)) := do
  let opening ← expect .openParen c
  let values ← listed value opening.next
  let closing ← expect .closeParen values.next
  return opening.upTo (values.upTo closing ()) values.value

mutual

/-- `term | term (AND | OR) condition` -/
def condition (c : Cursor) : Except ParseError (Read c Condition) := do
  let left ← term c
  match take? (·.kind.junction?) left.next with
  | none => return left
  | some link =>
    let right ← condition link.next
    return left.upTo (link.upTo right ()) (.join left.value link.value right.value)
termination_by (c.tokens.length, 1)
decreasing_by
  · exact Prod.Lex.right _ Nat.zero_lt_one
  · exact Prod.Lex.left _ _ (Nat.lt_trans link.shorter left.shorter)

/-- `'(' condition ')' | name comparison value` -/
def term (c : Cursor) : Except ParseError (Read c Condition) :=
  match take? (Token.ofKind? .openParen) c with
  | some opening => do
    let inner ← condition opening.next
    let closing ← expect .closeParen inner.next
    return opening.upTo (inner.upTo closing ()) inner.value
  | none =>
    match take? Token.name? c with
    | some column => do
      let operator ← comparison column.next
      let literal ← value operator.next
      return column.upTo (operator.upTo literal ())
        (.compare column.value operator.value literal.value)
    | none => .error (c.unexpected [.openParen, .object])
termination_by (c.tokens.length, 0)
decreasing_by exact Prod.Lex.left _ _ opening.shorter

end

def expectEnd (alternatives : List Kind) (c : Cursor) : Except ParseError Unit :=
  if c.kind = .finish then .ok () else .error (c.unexpected (alternatives ++ [.finish]))

/-- `(WHERE condition)?`, and nothing behind it. -/
def clause (head : Head) (c : Cursor) : Except ParseError (Query × Nat) :=
  match take? (Token.ofKind? (.keyword .«where»)) c with
  | none => do
    expectEnd [.keyword .«where»] c
    return (head.query none, c.position)
  | some opening => do
    let condition ← condition opening.next
    expectEnd [.keyword .and, .keyword .or] condition.next
    return (head.query (some condition.value), condition.next.position)

def statement (c : Cursor) : Except ParseError (Query × Nat) :=
  match c.kind with
  | .keyword .select => do
    let select ← expect (.keyword .select) c
    let columns ← listed name select.next
    let «from» ← expect (.keyword .«from») columns.next
    let table ← name «from».next
    clause (.select columns.value table.value) table.next
  | .keyword .insert => do
    let insert ← expect (.keyword .insert) c
    let into ← expect (.keyword .into) insert.next
    let table ← name into.next
    let values ← expect (.keyword .values) table.next
    let rows ← listed row values.next
    expectEnd [.comma] rows.next
    return (.insert ⟨table.value, rows.value⟩, rows.next.position)
  | .keyword .delete => do
    let delete ← expect (.keyword .delete) c
    let «from» ← expect (.keyword .«from») delete.next
    let table ← name «from».next
    clause (.delete table.value) table.next
  | _ => .error (c.unexpected [.keyword .select, .keyword .insert, .keyword .delete])

def start (tokens : List Token) : Cursor := ⟨0, tokens.filter (·.kind != .blank)⟩

/-- The query that tokens spell by the rules alone. -/
def query (tokens : List Token) : Except ParseError Query := (statement (start tokens)).map Prod.fst

/-- How many tokens the rules take from a list, blanks left out. -/
def taken (tokens : List Token) : Nat := Reading.stop (statement (start tokens))

variable {c : Cursor}

theorem take?_some {f : Token → Option α} {r : Read c α} (h : take? f c = some r) :
    ∃ t, f t = some r.value ∧ c.tokens = t :: r.next.tokens ∧ r.next.position = c.position + 1 := by
  obtain ⟨position, tokens⟩ := c
  cases tokens with
  | nil => cases h
  | cons t rest =>
    obtain ⟨a, ha, rfl⟩ := Option.map_eq_some_iff.mp h
    exact ⟨t, ha, rfl, rfl⟩

theorem take?_none {f : Token → Option α} (h : take? f c = none) :
    ∀ t ∈ c.tokens.head?, f t = none := by
  obtain ⟨position, tokens⟩ := c
  cases tokens with
  | nil => simp
  | cons t rest => simpa [take?] using h

theorem kind_of_ofKind {kind : Kind} {u : Unit} {t : Token} (h : Token.ofKind? kind t = some u) :
    t.kind = kind := by
  unfold Token.ofKind? at h
  split at h
  · assumption
  · cases h

theorem kind_of_name? {name : String} {t : Token} (h : Token.name? t = some name) :
    t.kind = .object ∧ t.content = name := by
  unfold Token.name? at h
  split at h
  · exact ⟨by assumption, Option.some.inj h⟩
  · cases h

theorem Cursor.kind_eq_of_head {t : Token} (h : t ∈ c.tokens.head?) : c.kind = t.kind := by
  unfold kind
  cases ht : c.tokens with
  | nil => simp [ht] at h
  | cons u rest => simp_all

theorem Cursor.takeWhile_of_finish (h : c.kind = .finish) :
    c.tokens.takeWhile (·.kind != .finish) = [] := by
  obtain ⟨position, tokens⟩ := c
  cases tokens with
  | nil => rfl
  | cons t rest =>
    have hk : t.kind = .finish := h
    exact List.takeWhile_cons_of_neg (by simp [hk])

theorem bind_congr_ok {β : Type} {x : Except ParseError α} {f g : α → Except ParseError β}
    (h : ∀ a, x = .ok a → f a = g a) : x >>= f = x >>= g := by
  cases x with
  | error cause => rfl
  | ok a => exact h a rfl

theorem bind_eq_ok {β : Type} {x : Except ParseError α} {f : α → Except ParseError β} {b : β}
    (h : x >>= f = .ok b) : ∃ a, x = .ok a ∧ f a = .ok b := by
  cases x with
  | error cause => cases h
  | ok a => exact ⟨a, rfl, h⟩

end Descent

namespace Descent

variable {α β : Type} {c : Cursor}

def Cursor.bare (c : Cursor) : List Token :=
  (c.tokens.takeWhile (·.kind != .finish)).map Token.bare

theorem Cursor.bare_finish (h : c.kind = .finish) : c.bare = [] := by
  rw [bare, takeWhile_of_finish h, List.map_nil]

theorem take?_bare {f : Token → Option α} {r : Read c α} (h : take? f c = some r) :
    ∃ t, f t = some r.value ∧ (t.kind ≠ .finish → c.bare = t.bare :: r.next.bare) := by
  obtain ⟨t, ha, ht, _⟩ := take?_some h
  refine ⟨t, ha, fun hk => ?_⟩
  simp only [Cursor.bare, ht]
  rw [List.takeWhile_cons_of_pos (by simpa using hk), List.map_cons]

theorem take_eq_ok {expected : List Kind} {f : Token → Option α} {r : Read c α}
    (h : take expected f c = .ok r) : take? f c = some r := by
  unfold take at h
  split at h
  · rename_i hr
    exact hr.trans (congrArg some (Except.ok.inj h))
  · cases h

theorem expect_bare {kind : Kind} (hs : kind.spelling.isSome = true)
    {r : Read c Unit} (h : take? (Token.ofKind? kind) c = some r) :
    c.bare = .mark kind :: r.next.bare := by
  obtain ⟨t, ha, hb⟩ := take?_bare h
  obtain rfl := kind_of_ofKind ha
  rw [hb fun hf => by simp [hf, Kind.spelling] at hs, Token.bare_eq_mark hs]

theorem name_bare {r : Read c String} (h : take? Token.name? c = some r) :
    c.bare = .named r.value :: r.next.bare := by
  obtain ⟨t, ha, hb⟩ := take?_bare h
  obtain ⟨hk, hc⟩ := kind_of_name? ha
  rw [hb (by simp [hk])]
  simp [Token.bare, Token.named, hk, hc, Kind.showsText]

theorem comparison_bare {r : Read c Comparison} (h : comparison c = .ok r) :
    c.bare = .mark (.comparison r.value) :: r.next.bare := by
  obtain ⟨t, ha, hb⟩ := take?_bare (take_eq_ok h)
  have hk := Kind.comparison?_eq_some.mp ha
  rw [hb (by simp [hk])]
  simp [Token.bare, Token.mark, hk, Kind.showsText]

theorem junction_bare {r : Read c Junction} (h : take? (·.kind.junction?) c = some r) :
    c.bare = .mark (.keyword r.value.keyword) :: r.next.bare := by
  obtain ⟨t, ha, hb⟩ := take?_bare h
  have hk := Kind.junction?_eq_some.mp ha
  rw [hb (by simp [hk])]
  simp [Token.bare, Token.mark, hk, Kind.showsText]

theorem value_bare {r : Read c Value} (h : value c = .ok r) :
    c.bare = r.value.token :: r.next.bare := by
  obtain ⟨t, ha, hb⟩ := take?_bare (take_eq_ok h)
  have ht := Token.bare_of_value? ha
  rw [hb (by rw [← Token.bare_kind, ht]; cases r.value <;> simp [Value.token]), ht]

theorem listed_bare {item : (c : Cursor) → Except ParseError (Read c α)} (spell : β → List Token)
    (f : β → α)
    (hitem : ∀ (c : Cursor) (r : Read c α), item c = .ok r →
      ∃ x, f x = r.value ∧ c.bare = spell x ++ r.next.bare)
    {r : Read c (List α)} (h : listed item c = .ok r) :
    ∃ xs : Listing β, xs.toList.map f = r.value ∧ c.bare = xs.tokens spell ++ r.next.bare := by
  induction c using listed.induct with
  | case1 c ih =>
    rw [listed] at h
    obtain ⟨first, hf, h⟩ := bind_eq_ok h
    obtain ⟨x, hx, hb⟩ := hitem c first hf
    split at h
    · cases h
      exact ⟨⟨x, []⟩, by simp [Listing.toList, hx], by simp [Listing.tokens, hb]⟩
    · rename_i comma hc
      obtain ⟨others, ho, h⟩ := bind_eq_ok h
      cases h
      obtain ⟨⟨y, ys⟩, hys, hbs⟩ := ih first comma ho
      refine ⟨⟨x, y :: ys⟩, ?_, ?_⟩
      · simp only [Listing.toList, List.map_cons, Read.upTo] at hys ⊢
        rw [hx, hys]
      · rw [hb, expect_bare rfl hc, hbs]
        simp [Listing.tokens, Read.upTo]

theorem row_bare {r : Read c (List Value)} (h : row c = .ok r) :
    ∃ x : Listing Value, x.toList = r.value ∧ c.bare = Statement.rowTokens x ++ r.next.bare := by
  obtain ⟨opening, ho, h⟩ := bind_eq_ok h
  obtain ⟨values, hv, h⟩ := bind_eq_ok h
  obtain ⟨closing, hc, h⟩ := bind_eq_ok h
  cases h
  obtain ⟨xs, hxs, hb⟩ := listed_bare (fun v : Value => [v.token]) id
    (fun _ r hr => ⟨r.value, rfl, value_bare hr⟩) hv
  refine ⟨xs, by simpa [Read.upTo] using hxs, ?_⟩
  rw [expect_bare rfl (take_eq_ok ho), hb,
    expect_bare rfl (take_eq_ok hc)]
  simp [Statement.rowTokens, Read.upTo]

/-- One derivation for each rule, built where the rule returns. -/
theorem condition_and_term_bare :
    (∀ (c : Cursor) (r : Read c Condition), condition c = .ok r →
      ∃ p : Phrase .chain, p.meaning = r.value ∧ c.bare = p.tokens ++ r.next.bare) ∧
    (∀ (c : Cursor) (r : Read c Condition), term c = .ok r →
      ∃ p : Phrase .term, p.meaning = r.value ∧ c.bare = p.tokens ++ r.next.bare) := by
  apply condition.mutual_induct
  case case1 =>
    intro c hterm hrest r h
    rw [condition] at h
    obtain ⟨left, hl, h⟩ := bind_eq_ok h
    obtain ⟨p, hp, hb⟩ := hterm left hl
    split at h
    · cases h
      exact ⟨.last p, hp, hb⟩
    · rename_i link hj
      obtain ⟨right, hr, h⟩ := bind_eq_ok h
      cases h
      obtain ⟨q, hq, hbr⟩ := hrest left link right hr
      refine ⟨.link p link.value q, by simp [Phrase.meaning, Read.upTo, hp, hq], ?_⟩
      rw [hb, junction_bare hj, hbr]
      simp [Phrase.tokens, Read.upTo]
  case case2 =>
    intro c opening ho hinner r h
    rw [term, ho] at h
    obtain ⟨inner, hi, h⟩ := bind_eq_ok h
    obtain ⟨closing, hc, h⟩ := bind_eq_ok h
    cases h
    obtain ⟨p, hp, hb⟩ := hinner inner hi
    refine ⟨.group p, hp, ?_⟩
    rw [expect_bare rfl ho, hb, expect_bare rfl (take_eq_ok hc)]
    simp [Phrase.tokens, Read.upTo]
  case case3 =>
    intro c ho column hn r h
    rw [term, ho, hn] at h
    obtain ⟨operator, hop, h⟩ := bind_eq_ok h
    obtain ⟨literal, hv, h⟩ := bind_eq_ok h
    cases h
    refine ⟨.compare column.value operator.value literal.value, rfl, ?_⟩
    rw [name_bare hn, comparison_bare hop, value_bare hv]
    simp [Phrase.tokens, Read.upTo]
  case case4 =>
    intro c ho hn r h
    rw [term, ho, hn] at h
    cases h

theorem expectEnd_bare {alternatives : List Kind} (h : expectEnd alternatives c = .ok ()) :
    c.bare = [] := by
  unfold expectEnd at h
  split at h
  · exact Cursor.bare_finish ‹_›
  · cases h

theorem clause_bare {head : Head} {q : Query} {stop : Nat} (h : clause head c = .ok (q, stop)) :
    ∃ phrase : Option (Phrase .chain), head.query (phrase.map Phrase.meaning) = q ∧
      c.bare = Statement.clauseTokens phrase := by
  unfold clause at h
  split at h
  · obtain ⟨_, he, h⟩ := bind_eq_ok h
    cases h
    exact ⟨none, rfl, expectEnd_bare he⟩
  · rename_i opening ho
    obtain ⟨r, hr, h⟩ := bind_eq_ok h
    obtain ⟨_, he, h⟩ := bind_eq_ok h
    cases h
    obtain ⟨p, hp, hb⟩ := condition_and_term_bare.1 _ _ hr
    refine ⟨some p, by simp [hp], ?_⟩
    rw [expect_bare rfl ho, hb, expectEnd_bare he]
    simp [Statement.clauseTokens]

theorem statement_bare {q : Query} {stop : Nat} (h : statement c = .ok (q, stop)) :
    ∃ s : Statement, s.query = q ∧ c.bare = s.tokens := by
  unfold statement at h
  split at h
  · obtain ⟨select, hs, h⟩ := bind_eq_ok h
    obtain ⟨columns, hc, h⟩ := bind_eq_ok h
    obtain ⟨«from», hf, h⟩ := bind_eq_ok h
    obtain ⟨table, ht, h⟩ := bind_eq_ok h
    obtain ⟨names, hn, hb⟩ := listed_bare (fun name : String => [.named name]) id
      (fun _ r hr => ⟨r.value, rfl, name_bare (take_eq_ok hr)⟩) hc
    obtain ⟨phrase, hq, hcb⟩ := clause_bare h
    refine ⟨.select names table.value phrase, ?_, ?_⟩
    · rw [List.map_id] at hn
      rw [← hq, ← hn]
      rfl
    · rw [expect_bare rfl (take_eq_ok hs), hb,
        expect_bare rfl (take_eq_ok hf), name_bare (take_eq_ok ht), hcb]
      rfl
  · obtain ⟨insert, hi, h⟩ := bind_eq_ok h
    obtain ⟨into, hin, h⟩ := bind_eq_ok h
    obtain ⟨table, ht, h⟩ := bind_eq_ok h
    obtain ⟨values, hv, h⟩ := bind_eq_ok h
    obtain ⟨rows, hr, h⟩ := bind_eq_ok h
    obtain ⟨_, he, h⟩ := bind_eq_ok h
    cases h
    obtain ⟨xs, hxs, hb⟩ :=
      listed_bare Statement.rowTokens Listing.toList (fun _ _ hr => row_bare hr) hr
    refine ⟨.insert table.value xs, by simp [Statement.query, hxs], ?_⟩
    rw [expect_bare rfl (take_eq_ok hi), expect_bare rfl (take_eq_ok hin),
      name_bare (take_eq_ok ht), expect_bare rfl (take_eq_ok hv), hb,
      expectEnd_bare he]
    simp [Statement.tokens]
  · obtain ⟨delete, hd, h⟩ := bind_eq_ok h
    obtain ⟨«from», hf, h⟩ := bind_eq_ok h
    obtain ⟨table, ht, h⟩ := bind_eq_ok h
    obtain ⟨phrase, hq, hcb⟩ := clause_bare h
    refine ⟨.delete table.value phrase, hq, ?_⟩
    rw [expect_bare rfl (take_eq_ok hd), expect_bare rfl (take_eq_ok hf),
      name_bare (take_eq_ok ht), hcb]
    rfl
  · cases h

end Descent

end SmallSql
