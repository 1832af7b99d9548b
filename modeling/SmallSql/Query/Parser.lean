import SmallSql.Query.Reading

namespace SmallSql

/-- The token at a cursor. There is an end mark behind the last one. -/
def Token.current (tokens : List Token) (cursor : Nat) : Token := tokens[cursor]?.getD .finish

namespace Parser

/-- How many tokens have been taken, how many groups are open, and how many links are pending. The
counters may be anything here, less than zero as well. -/
structure State where
  position : Nat
  depth : Int
  links : Int
deriving DecidableEq, Repr

/-- The state, those before it with the latest first, and how many calls and turns of loops have
begun. -/
structure Course where
  state : State
  past : List State
  begun : Nat
deriving DecidableEq, Repr

def Course.start : Course := ⟨⟨0, 0, 0⟩, [], 0⟩

/-- A part of the course that may end with an error. If it is given up, it has no end, which is
`none`. -/
abbrev Parse (α : Type) := ExceptT ParseError (StateT Course Option) α

def turn : Parse Unit := modify fun c => { c with begun := c.begun + 1 }

/-- No fuel is left for a call, or for a turn of a loop. -/
def exhausted {α : Type} : Parse α := ExceptT.mk fun _ => none

def change (f : State → State) : Parse Unit :=
  modify fun c => { c with state := f c.state, past := c.state :: c.past }

def fail {α : Type} (error : Nat → ParseError) : Parse α := do
  throw (error (← get).state.position)

section
variable (tokens : List Token) {α : Type}

def current : Parse Token := return Token.current tokens (← get).state.position

/-- Takes a token. At the end there is none to take. -/
def advance : Parse Unit := do
  if (← get).state.position < tokens.length then
    change fun s => { s with position := s.position + 1 }

def unexpected (expected : List Kind) : Parse α := do
  let t ← current tokens
  fail (.unexpected expected t.kind)

def take (expected : List Kind) (f : Token → Option α) : Parse α := do
  match f (← current tokens) with
  | some a =>
    advance tokens
    return a
  | none => unexpected tokens expected

def expect (kind : Kind) : Parse Unit := take tokens [kind] (Token.ofKind? kind)

def name : Parse String := take tokens [.object] Token.name?

def comparison : Parse Comparison :=
  take tokens (Comparison.all.map .comparison) (·.kind.comparison?)

def value : Parse Value := take tokens [.string, .integer] Token.value?

/-- `(',' item)*`, behind `items`, which are listed latest first. -/
def more (item : Parse α) (fuel : Nat) (items : List α) : Parse (List α) :=
  match fuel with
  | 0 => exhausted
  | fuel + 1 => do
    turn
    if (← current tokens).kind = .comma then
      advance tokens
      let next ← item
      more item fuel (next :: items)
    else return items.reverse

/-- `item (',' item)*` -/
def listed (item : Parse α) (fuel : Nat) : Parse (List α) := do
  let first ← item
  more tokens item fuel [first]

/-- `'(' value (',' value)* ')'` -/
def row (fuel : Nat) : Parse (List Value) := do
  expect tokens .openParen
  let values ← listed tokens (value tokens) fuel
  expect tokens .closeParen
  return values

mutual

/-- `term ((AND | OR) term)*` -/
def condition (fuel : Nat) : Parse Condition :=
  match fuel with
  | 0 => exhausted
  | fuel + 1 => do
    turn
    let first ← term fuel
    chain fuel [] first

/-- The rest of a chain whose latest term is `last`. It is joined from its end. -/
def chain (fuel : Nat) (before : Chain) (last : Condition) : Parse Condition :=
  match fuel with
  | 0 => exhausted
  | fuel + 1 => do
    turn
    match (← current tokens).kind.junction? with
    | some j =>
      if (← get).state.links = Nest.maxLinks then fail (.chainTooLong Nest.maxLinks)
      else
        advance tokens
        change fun s => { s with links := s.links + 1 }
        let next ← term fuel
        chain fuel ((last, j) :: before) next
    | none =>
      change fun s => { s with links := s.links - before.length }
      return before.close last

/-- `'(' condition ')' | name comparison value` -/
def term (fuel : Nat) : Parse Condition :=
  match fuel with
  | 0 => exhausted
  | fuel + 1 => do
    turn
    match (← current tokens).kind with
    | .openParen =>
      if (← get).state.depth = Nest.maxDepth then fail (.nestingTooDeep Nest.maxDepth)
      else
        advance tokens
        change fun s => { s with depth := s.depth + 1 }
        let inner ← condition fuel
        change fun s => { s with depth := s.depth - 1 }
        expect tokens .closeParen
        return inner
    | .object =>
      let column ← name tokens
      let operator ← comparison tokens
      let literal ← value tokens
      return .compare column operator literal
    | _ => unexpected tokens [.openParen, .object]

end

/-- Nothing may be left, though one of `alternatives` might have been. -/
def expectEnd (alternatives : List Kind) : Parse Unit := do
  if (← current tokens).kind = .finish then return ()
  else unexpected tokens (alternatives ++ [.finish])

/-- `(WHERE condition)?`, and nothing behind it. -/
def clause (fuel : Nat) (head : Head) : Parse Query := do
  if (← current tokens).kind = .keyword .«where» then
    advance tokens
    let condition ← condition tokens fuel
    expectEnd tokens [.keyword .and, .keyword .or]
    return head.query (some condition)
  else
    expectEnd tokens [.keyword .«where»]
    return head.query none

def select (fuel : Nat) : Parse Query := do
  expect tokens (.keyword .select)
  let columns ← listed tokens (name tokens) fuel
  expect tokens (.keyword .«from»)
  let table ← name tokens
  clause tokens fuel (.select columns table)

def insert (fuel : Nat) : Parse Query := do
  expect tokens (.keyword .insert)
  expect tokens (.keyword .into)
  let table ← name tokens
  expect tokens (.keyword .values)
  let rows ← listed tokens (row tokens fuel) fuel
  expectEnd tokens [.comma]
  return .insert ⟨table, rows⟩

def delete (fuel : Nat) : Parse Query := do
  expect tokens (.keyword .delete)
  expect tokens (.keyword .«from»)
  let table ← name tokens
  clause tokens fuel (.delete table)

def statement (fuel : Nat) : Parse Query := do
  match (← current tokens).kind with
  | .keyword .select => select tokens fuel
  | .keyword .insert => insert tokens fuel
  | .keyword .delete => delete tokens fuel
  | _ => unexpected tokens [.keyword .select, .keyword .insert, .keyword .delete]

end

section
variable {α β : Type}

def Parse.result (m : Parse α) (c : Course) : Option (Except ParseError α × Course) := m.run.run c

theorem result_bind (m : Parse α) (f : α → Parse β) (c : Course) :
    (m >>= f).result c = (m.result c).bind fun
      | (.ok a, c') => (f a).result c'
      | (.error e, c') => some (.error e, c') := by
  show Option.bind _ _ = Option.bind _ _
  congr 1
  funext p
  obtain ⟨r, c'⟩ := p
  cases r <;> rfl

/-- Where `m` has an end, `m'` has the same. -/
def Parse.Le (m m' : Parse α) : Prop := ∀ c p, m.result c = some p → m'.result c = some p

namespace Parse.Le

variable {m m' : Parse α} {f f' : α → Parse β}

theorem refl (m : Parse α) : m.Le m := fun _ _ h => h

theorem trans {m'' : Parse α} (h : m.Le m') (h' : m'.Le m'') : m.Le m'' :=
  fun c p hp => h' c p (h c p hp)

theorem exhausted (m : Parse α) : Parser.exhausted.Le m := nofun

theorem bind (h : m.Le m') (hf : ∀ a, (f a).Le (f' a)) : (m >>= f).Le (m' >>= f') := by
  intro c p hp
  rw [result_bind] at hp ⊢
  obtain ⟨⟨r, c'⟩, hm, hr⟩ := Option.bind_eq_some_iff.mp hp
  rw [h c _ hm]
  cases r with
  | ok a => exact hf a c' p hr
  | error e => exact hr

theorem behind (m : Parse α) (hf : ∀ a, (f a).Le (f' a)) : (m >>= f).Le (m >>= f') :=
  (refl m).bind hf

theorem of_le {g : Nat → Parse α} (h : ∀ fuel, (g fuel).Le (g (fuel + 1))) {fuel fuel' : Nat}
    (hle : fuel ≤ fuel') : (g fuel).Le (g fuel') := by
  induction hle with
  | refl => exact refl _
  | step _ ih => exact ih.trans (h _)

end Parse.Le

end

section
variable (tokens : List Token) {α : Type} (fuel : Nat)

theorem more_le {item item' : Parse α} (h : item.Le item') (items : List α) :
    (more tokens item fuel items).Le (more tokens item' (fuel + 1) items) := by
  induction fuel generalizing items with
  | zero => exact .exhausted _
  | succ fuel ih =>
    rw [more, more]
    refine .behind _ fun _ => .behind _ fun t => ?_
    split
    · exact .behind _ fun _ => h.bind fun _ => ih _
    · exact .refl _

theorem listed_le {item item' : Parse α} (h : item.Le item') :
    (listed tokens item fuel).Le (listed tokens item' (fuel + 1)) :=
  h.bind fun _ => more_le tokens fuel h _

theorem row_le : (row tokens fuel).Le (row tokens (fuel + 1)) :=
  .behind _ fun _ => (listed_le tokens fuel (.refl _)).bind fun _ => .refl _

theorem condition_chain_term_le :
    (condition tokens fuel).Le (condition tokens (fuel + 1)) ∧
    (∀ before last, (chain tokens fuel before last).Le (chain tokens (fuel + 1) before last)) ∧
    (term tokens fuel).Le (term tokens (fuel + 1)) := by
  induction fuel with
  | zero => exact ⟨.exhausted _, fun _ _ => .exhausted _, .exhausted _⟩
  | succ fuel ih =>
    obtain ⟨hcondition, hchain, hterm⟩ := ih
    refine ⟨?_, fun before last => ?_, ?_⟩
    · rw [condition, condition]
      exact .behind _ fun _ => hterm.bind fun _ => hchain _ _
    · rw [chain, chain]
      refine .behind _ fun _ => .behind _ fun t => ?_
      split
      · refine .behind _ fun c => ?_
        split
        · exact .refl _
        · exact .behind _ fun _ => .behind _ fun _ => hterm.bind fun _ => hchain _ _
      · exact .refl _
    · rw [term, term]
      refine .behind _ fun _ => .behind _ fun t => ?_
      split
      · refine .behind _ fun c => ?_
        split
        · exact .refl _
        · exact .behind _ fun _ => .behind _ fun _ => hcondition.bind fun _ => .refl _
      · exact .refl _
      · exact .refl _

theorem clause_le (head : Head) : (clause tokens fuel head).Le (clause tokens (fuel + 1) head) := by
  refine .behind _ fun t => ?_
  split
  · exact .behind _ fun _ => (condition_chain_term_le tokens fuel).1.bind fun _ => .refl _
  · exact .refl _

theorem statement_le : (statement tokens fuel).Le (statement tokens (fuel + 1)) := by
  have hselect : (select tokens fuel).Le (select tokens (fuel + 1)) :=
    .behind _ fun _ => (listed_le tokens fuel (.refl _)).bind fun _ => .behind _ fun _ =>
      .behind _ fun _ => clause_le tokens fuel _
  have hinsert : (insert tokens fuel).Le (insert tokens (fuel + 1)) :=
    .behind _ fun _ => .behind _ fun _ => .behind _ fun _ => .behind _ fun _ =>
      (listed_le tokens fuel (row_le tokens fuel)).bind fun _ => .refl _
  have hdelete : (delete tokens fuel).Le (delete tokens (fuel + 1)) :=
    .behind _ fun _ => .behind _ fun _ => .behind _ fun _ => clause_le tokens fuel _
  refine .behind _ fun t => ?_
  split
  · exact hselect
  · exact hinsert
  · exact hdelete
  · exact .refl _

end

end Parser

end SmallSql
