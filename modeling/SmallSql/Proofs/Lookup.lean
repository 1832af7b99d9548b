import SmallSql.Executor
import SmallSql.Proofs.Offsets

namespace SmallSql

open Unicode

def namesIn (tokens : List Token) : List Token := tokens.filter (·.kind == .object)

/-- The word `typed` is name number `k` of the text, as it was typed. -/
def TypedName (text : String) (k : Nat) (typed : String) : Prop :=
  ∃ before name after front back, tokenize text = .ok (before ++ .named name :: after) ∧
    (namesIn before).length = k ∧ text.toList = front ++ typed.toList ++ back ∧
    front.flatMap lowercase = Token.print before ∧ folded typed = name.toList

theorem namesIn_append (a b : List Token) : namesIn (a ++ b) = namesIn a ++ namesIn b :=
  List.filter_append _ _

theorem namesIn_bare (tokens : List Token) :
    namesIn (tokens.map Token.bare) = (namesIn tokens).map Token.bare := by
  rw [namesIn, List.filter_map]
  rfl

theorem namesIn_significant {ts : List Token} (h : ∀ t ∈ ts, t.WellFormed) :
    namesIn (significant (ts ++ [.finish])) = namesIn (ts ++ [.finish]) := by
  rw [significant_finish h, namesIn, List.filter_filter, namesIn, List.filter_append]
  have hfinish : [Token.finish].filter (·.kind == .object) = [] := rfl
  rw [hfinish, List.append_nil]
  apply List.filter_congr
  intro t _
  cases t.kind <;> rfl

theorem Listing.namesIn_tokens (names : Listing String) :
    namesIn (names.tokens fun name => [.named name]) = names.toList.map .named := by
  obtain ⟨first, others⟩ := names
  have hothers : namesIn (others.flatMap fun name => [.mark .comma, .named name]) =
      others.map .named := by
    induction others with
    | nil => rfl
    | cons name others ih =>
      rw [List.flatMap_cons, namesIn_append, ih]
      rfl
  rw [tokens, namesIn_append, hothers]
  rfl

theorem columns_first {text : String} {q : Selection} {tokens : List Token}
    (h : compile text = .ok (.select q)) (ht : tokenize text = .ok tokens) :
    q.columns.map .named <+: (namesIn tokens).map Token.bare := by
  obtain ⟨tokens', ht', hq⟩ := compile_eq_ok_iff.mp h
  obtain rfl : tokens' = tokens := Except.ok.inj (ht'.symm.trans ht)
  obtain ⟨ts, rfl, hts, -, -⟩ := tokenize_eq_ok_iff.mp ht
  obtain ⟨s, hs, -, hsq⟩ := (Query.ofTokens_eq_ok_iff _).mp hq
  rw [← namesIn_significant hts, ← namesIn_bare, hs]
  cases s with
  | select columns table clause =>
    cases hsq
    rw [Statement.tokens, ← List.singleton_append, namesIn_append, namesIn_append,
      columns.namesIn_tokens]
    exact List.prefix_append _ _
  | insert table rows => cases hsq
  | delete table clause => cases hsq

theorem Token.WellFormed.head?_ne_dot {t : Token} (h : t.WellFormed) :
    t.written.head? ≠ some '\u0307' := by
  have hs : symbol? '\u0307' [] = none := rfl
  exact head?_ne (g := ⟨'\u0307', 0⟩) (by decide +kernel) (by decide +kernel) (by decide +kernel)
    rfl hs h

theorem eq_dot_of_lowercase {c d e : Char} {b : List Char} (h : lowercase c = d :: e :: b) :
    e = '\u0307' := by
  rw [lowercase] at h
  split at h
  · simp only [List.cons.injEq] at h
    exact h.2.1.symm
  · simp at h

theorem exists_typed_between {typed : List Char} {before after : List Token}
    (ha : ∀ t ∈ after, t.WellFormed)
    (h : typed.flatMap lowercase = Token.print before ++ Token.print after) :
    ∃ front back, typed = front ++ back ∧ front.flatMap lowercase = Token.print before ∧
      back.flatMap lowercase = Token.print after := by
  cases after with
  | nil => exact ⟨typed, [], by simp, by simpa [Token.print] using h, rfl⟩
  | cons t after =>
    obtain ⟨ht, -⟩ := List.forall_mem_cons.mp ha
    obtain ⟨c, cs, hw⟩ := ht.exists_written
    rw [Token.print_cons, hw, List.cons_append] at h
    obtain ⟨front, d, back, a, b, rfl, hd, hb⟩ := exists_of_flatMap_eq h
    cases lowercase_before hd with
    | inl hnil =>
      subst hnil
      rw [List.append_nil] at hb
      refine ⟨front, d :: back, rfl, hb.symm, ?_⟩
      rw [List.flatMap_append, ← hb] at h
      rw [List.append_cancel_left h, Token.print_cons, hw, List.cons_append]
    | inr hi =>
      rw [hi] at hd
      refine absurd ?_ ht.head?_ne_dot
      rw [hw, eq_dot_of_lowercase hd]
      rfl

theorem exists_before_of_namesIn {ts : List Token} {k : Nat} {t : Token}
    (h : (namesIn ts)[k]? = some t) :
    ∃ before after, ts = before ++ t :: after ∧ (namesIn before).length = k := by
  induction ts generalizing k with
  | nil => simp [namesIn] at h
  | cons u rest ih =>
    by_cases hu : u.kind = .object
    · have hcons (us : List Token) : namesIn (u :: us) = u :: namesIn us :=
        List.filter_cons_of_pos (by simp [hu])
      rw [hcons] at h
      cases k with
      | zero =>
        obtain rfl := Option.some.inj h
        exact ⟨[], rest, rfl, rfl⟩
      | succ k =>
        obtain ⟨before, after, rfl, hk⟩ := ih h
        exact ⟨u :: before, after, rfl, by rw [hcons, List.length_cons, hk]⟩
    · have hskip (us : List Token) : namesIn (u :: us) = namesIn us :=
        List.filter_cons_of_neg (by simp [hu])
      rw [hskip] at h
      obtain ⟨before, after, rfl, hk⟩ := ih h
      exact ⟨u :: before, after, rfl, by rw [hskip, hk]⟩

theorem Token.WellFormed.eq_named {t : Token} (h : t.WellFormed) (ho : t.kind = .object) :
    ∃ name, t = .named name := by
  cases h with
  | @name word _ _ => exact ⟨word, rfl⟩
  | @symbol kind hk =>
    rw [show kind = .object from ho] at hk
    cases hk
  | _ => cases ho

theorem exists_typedName {text : String} {tokens : List Token} (h : tokenize text = .ok tokens)
    {k : Nat} {t : Token} (hk : (namesIn tokens)[k]? = some t) :
    ∃ typed, TypedName text k typed := by
  have ho : t.kind = .object := by
    simpa using (List.mem_filter.mp (List.mem_of_getElem? hk)).2
  obtain ⟨ts, rfl, hts, -, hw⟩ := tokenize_eq_ok_iff.mp h
  have hnames : namesIn (ts ++ [.finish]) = namesIn ts := by
    rw [namesIn_append]
    exact List.append_nil _
  rw [hnames] at hk
  obtain ⟨before, after, rfl, hbefore⟩ := exists_before_of_namesIn hk
  obtain ⟨-, ha⟩ := List.forall_mem_append.mp hts
  obtain ⟨name, rfl⟩ := (ha t List.mem_cons_self).eq_named ho
  rw [List.flatMap_append] at hw
  obtain ⟨front, rest, hfront, hf, hrest⟩ := exists_typed_between ha hw
  rw [← List.singleton_append, Token.print_append] at hrest
  obtain ⟨typed, back, rfl, htyped, -⟩ :=
    exists_typed_between (fun u hu => ha u (List.mem_cons_of_mem _ hu)) hrest
  refine ⟨String.ofList typed, before, name, after ++ [.finish], front, back, ?_, hbefore, ?_, hf,
    ?_⟩
  · simpa using h
  · simpa using hfront
  · rw [folded, String.toList_ofList, htyped]
    exact List.append_nil _

/-- A typed name of a text is the name it is folded to. -/
theorem TypedName.column {text : String} {q : Selection} (h : compile text = .ok (.select q))
    {k : Nat} (hk : k < q.columns.length) {typed : String} (ht : TypedName text k typed) :
    q.columns[k] = String.ofList (folded typed) := by
  obtain ⟨before, name, after, -, -, htokens, hbefore, -, -, hfold⟩ := ht
  rw [hfold, String.ofList_toList]
  have hprefix := columns_first h htokens
  have hnames : namesIn (before ++ .named name :: after) =
      namesIn before ++ .named name :: namesIn after := namesIn_append _ _
  rw [hnames] at hprefix
  have hcolumn := hprefix.getElem (i := k) (by simpa using hk)
  subst hbefore
  simp only [List.getElem_map, List.map_append, List.map_cons, List.getElem_append_right,
    List.length_map, Nat.le_refl, Nat.sub_self, List.getElem_cons_zero] at hcolumn
  exact Option.some.inj (congrArg Token.text hcolumn)

theorem toLower_eq_self {c : Char} (h : 128 ≤ c.toNat) : c.toLower = c := by
  apply dif_neg
  intro hletter
  have hz : c.toNat ≤ 90 := UInt32.le_iff_toNat_le.mp hletter.2
  omega

theorem lowercase_eq_toLower {c : Char} (h : c.toNat < 128) : lowercase c = [c.toLower] := by
  have hall : ∀ n < 128, lowercase (Char.ofNat n) = [(Char.ofNat n).toLower] := by decide +kernel
  simpa using hall c.toNat h

theorem toLower_of_folded {c : Char} (h : Folded c) : c.toLower = c := by
  rcases Nat.lt_or_ge c.toNat 128 with hlt | hge
  · rw [Folded, lowercase_eq_toLower hlt] at h
    exact (List.cons.inj h).1
  · exact toLower_eq_self hge

/-- All letters beyond ASCII are in lower case as they are typed. -/
def PlainCase (typed : String) : Prop := ∀ c ∈ typed.toList, 128 ≤ c.toNat → Folded c

instance : DecidablePred PlainCase := fun typed =>
  List.decidableBAll (fun c : Char => 128 ≤ c.toNat → Folded c) typed.toList

theorem folded_eq_toLower {typed : String} (h : PlainCase typed) :
    folded typed = typed.toList.map Char.toLower := by
  rw [folded, List.map_eq_flatMap]
  apply List.flatMap_congr
  intro c hc
  rcases Nat.lt_or_ge c.toNat 128 with hlt | hge
  · exact lowercase_eq_toLower hlt
  · rw [h c hc hge, toLower_eq_self hge]

theorem plainCase_of_folded {typed : String} (h : ∀ c ∈ typed.toList.map Char.toLower, Folded c) :
    PlainCase typed := by
  intro c hc hge
  have hf := h _ (List.mem_map_of_mem hc)
  rwa [toLower_eq_self hge] at hf

theorem sameIgnoringCase_of_folded {name : String} (h : ∀ c ∈ name.toList, Folded c)
    (typed : String) :
    sameIgnoringCase name typed = true ↔ name.toList = typed.toList.map Char.toLower := by
  rw [sameIgnoringCase_iff, List.map_congr_left fun c hc => toLower_of_folded (h c hc),
    List.map_id']

/-- Among names without capital letters, a name is found as it is folded, or not at all. -/
theorem findIdx?_sameIgnoringCase {names : List String}
    (h : ∀ name ∈ names, ∀ c ∈ name.toList, Folded c) {typed : String}
    (hmem : String.ofList (folded typed) ∈ names) : names.findIdx? (sameIgnoringCase · typed) =
      if PlainCase typed then some (names.idxOf (String.ofList (folded typed))) else none := by
  split
  · rename_i hplain
    have hsame : ∀ name ∈ names, sameIgnoringCase name typed = true ↔
        name = String.ofList (folded typed) := by
      intro name hn
      rw [sameIgnoringCase_of_folded (h name hn), ← folded_eq_toLower hplain,
        ← String.toList_inj, String.toList_ofList]
    rw [List.findIdx?_eq_some_iff_getElem]
    refine ⟨List.idxOf_lt_length_of_mem hmem, ?_, fun i hi => ?_⟩
    · exact (hsame _ (List.getElem_mem _)).mpr (List.getElem_idxOf _)
    · rw [hsame _ (List.getElem_mem _)]
      simpa using List.not_of_lt_findIdx hi
  · rename_i hplain
    rw [List.findIdx?_eq_none_iff]
    intro name hn
    rw [Bool.eq_false_iff]
    intro hsame
    apply hplain (plainCase_of_folded _)
    rw [← (sameIgnoringCase_of_folded (h name hn) typed).mp hsame]
    exact h name hn

/-- The value of a selected column is found under the name that was typed for it, whatever the case
of its letters, if and only if all of them beyond ASCII were typed in lower case. Else nothing is
found under that name. -/
theorem get?_typed_column_iff {text : String} {q : Selection}
    (h : compile text = .ok (.select q)) (row : Row) (hcolumns : row.columns = q.columns)
    (hvalues : row.values.length = row.columns.length) {k : Nat} (hk : k < q.columns.length) :
    (∃ typed, TypedName text k typed) ∧ ∀ typed, TypedName text k typed →
      q.columns[k]? = some (String.ofList (folded typed)) ∧
      ∃ value, row.values[row.columns.idxOf (String.ofList (folded typed))]? = some value ∧
        (row.get? typed = some value ↔ PlainCase typed) ∧
        (row.get? typed = none ↔ ¬PlainCase typed) := by
  constructor
  · obtain ⟨tokens, ht, -⟩ := compile_eq_ok_iff.mp h
    have hlt := (columns_first h ht).length_le
    rw [List.length_map, List.length_map] at hlt
    exact exists_typedName ht (List.getElem?_eq_getElem (Nat.lt_of_lt_of_le hk hlt))
  · intro typed ht
    have hcolumn := ht.column h hk
    have hmem : String.ofList (folded typed) ∈ row.columns := by
      rw [hcolumns, ← hcolumn]
      exact List.getElem_mem hk
    have hfolded : ∀ name ∈ row.columns, ∀ c ∈ name.toList, Folded c := by
      intro name hn
      rw [hcolumns] at hn
      exact ((compilable_of_compile h).names name (List.mem_append_left _ hn)).2.1
    have hlt := List.idxOf_lt_length_of_mem hmem
    rw [← hvalues] at hlt
    refine ⟨by rw [List.getElem?_eq_getElem hk, hcolumn], _, List.getElem?_eq_getElem hlt, ?_⟩
    rw [Row.get?, findIdx?_sameIgnoringCase hfolded hmem]
    by_cases hplain : PlainCase typed <;> simp [hplain, hlt]

theorem get?_typed_accent :
    compile "SELECT id, NAMé FROM t" = .ok (.select ⟨["id", "namé"], "t", none⟩) ∧
    Row.get? ⟨["id", "namé"], ["1", "alice"]⟩ "NAMé" = some "alice" := by
  have h : compile "SELECT id, NAMé FROM t" = .ok (.select ⟨["id", "namé"], "t", none⟩) := by
    decide +kernel
  have ht : TypedName "SELECT id, NAMé FROM t" 1 "NAMé" :=
    ⟨[.mark (.keyword .select), .gap " ", .named "id", .spelled .comma, .gap " "], "namé",
      [.gap " ", .mark (.keyword .«from»), .gap " ", .named "t", .finish],
      "SELECT id, ".toList, " FROM t".toList, by decide +kernel⟩
  obtain ⟨-, hall⟩ := get?_typed_column_iff h ⟨["id", "namé"], ["1", "alice"]⟩ rfl rfl
    (k := 1) (by decide)
  obtain ⟨-, value, hvalue, hiff, -⟩ := hall "NAMé" ht
  obtain rfl : value = "alice" := Option.some.inj (hvalue.symm.trans (by decide +kernel))
  exact ⟨h, hiff.mpr (by decide +kernel)⟩

/-- A capital letter beyond ASCII is folded in the text and not in the look-up. -/
theorem get?_typed_capital_accent :
    compile "SELECT É FROM t" = .ok (.select ⟨["é"], "t", none⟩) ∧
    TypedName "SELECT É FROM t" 0 "É" ∧ String.ofList (folded "É") = "é" ∧
    Row.get? ⟨["é"], ["0"]⟩ "É" = none ∧ Row.get? ⟨["é"], ["0"]⟩ "é" = some "0" := by
  refine ⟨by decide +kernel, ?_, by decide +kernel, by decide +kernel, by decide +kernel⟩
  exact ⟨[.mark (.keyword .select), .gap " "], "é",
    [.gap " ", .mark (.keyword .«from»), .gap " ", .named "t", .finish],
    "SELECT ".toList, " FROM t".toList, by decide +kernel⟩

end SmallSql
