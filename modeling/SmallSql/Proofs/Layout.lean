import Mathlib.Logic.Relation
import SmallSql.Proofs.Printing

namespace SmallSql

open Unicode

/-- One change of case or layout. The tokens of the text show where its white space is. -/
inductive Relaid (text text' : String) : Prop where
  | recased (h : folded text' = folded text)
  | replaced {before after : List Token} {run run' : String}
    (ht : tokenize text = .ok (before ++ .gap run :: after ++ [.finish])) (hr : IsGap run')
    (h : folded text' = Token.print (before ++ .gap run' :: after))
  | inserted {before after : List Token} {run : String}
    (ht : tokenize text = .ok (before ++ after ++ [.finish])) (hr : IsGap run)
    (h : folded text' = Token.print (before ++ .gap run :: after))
  | removedFirst {after : List Token} {run : String}
    (ht : tokenize text = .ok (.gap run :: after ++ [.finish]))
    (h : folded text' = Token.print after)
  | removedLast {before : List Token} {run : String}
    (ht : tokenize text = .ok (before ++ [.gap run] ++ [.finish]))
    (h : folded text' = Token.print before)
  | removed {before after : List Token} {t u : Token} {run : String}
    (ht : tokenize text = .ok (before ++ t :: .gap run :: u :: after ++ [.finish]))
    (hf : t.kind.fuses u.kind = false)
    (h : folded text' = Token.print (before ++ t :: u :: after))

theorem folded_of_blank {text : String} (h : ∀ c ∈ text.toList, isWhiteSpace c = true) :
    folded text = text.toList :=
  flatMap_lowercase_of_folded fun c hc => folded_of_isWhiteSpace (h c hc)

theorem IsGap.append {a b : String} (ha : IsGap a) (hb : IsGap b) : IsGap (a ++ b) := by
  obtain ⟨hn, ha⟩ := ha
  obtain ⟨-, hb⟩ := hb
  refine ⟨by simp [hn], ?_⟩
  rw [String.toList_append, List.forall_mem_append]
  exact ⟨ha, hb⟩

namespace Token

def inked (ts : List Token) : List Token := ts.filter (·.kind != .blank)

theorem inked_gap (before after : List Token) (run : String) :
    inked (before ++ gap run :: after) = inked (before ++ after) := by
  simp [inked, gap]

theorem canonical_gap {run : String} : (gap run).Canonical ↔ IsGap run := by
  simp [Canonical, gap]

theorem Canonical.eq_gap {t : Token} (h : t.Canonical) (hk : t.kind = .blank) :
    ∃ run, t = gap run ∧ IsGap run := by
  obtain ⟨kind, text⟩ := t
  obtain rfl : kind = .blank := hk
  obtain ⟨run, rfl, hr⟩ := h
  exact ⟨run, rfl, hr⟩

namespace Legible

variable {before after : List Token} {run run' : String}

theorem replace (h : Legible (before ++ gap run :: after)) (hr : IsGap run') :
    Legible (before ++ gap run' :: after) := by
  obtain ⟨hc, ha⟩ := h
  refine ⟨?_, by simpa [Apart, gap] using ha⟩
  simp only [List.forall_mem_append, List.forall_mem_cons] at hc ⊢
  exact ⟨hc.1, canonical_gap.mpr hr, hc.2.2⟩

theorem remove {t u : Token} (h : Legible (before ++ t :: gap run :: u :: after))
    (hf : t.kind.fuses u.kind = false) : Legible (before ++ t :: u :: after) := by
  obtain ⟨hc, ha⟩ := h
  simp only [List.forall_mem_append, List.forall_mem_cons] at hc
  refine ⟨by simpa only [List.forall_mem_append, List.forall_mem_cons] using
    ⟨hc.1, hc.2.1, hc.2.2.2⟩, ?_⟩
  simp only [Apart, List.map_append, List.map_cons, List.isChain_append_cons_cons] at ha ⊢
  exact ⟨ha.1, hf, ha.2.2.tail⟩

theorem insert_between (h : Legible (before ++ after)) (hr : IsGap run)
    (hb : ∀ t ∈ before.getLast?, t.kind ≠ .blank) (ha : ∀ t ∈ after.head?, t.kind ≠ .blank) :
    Legible (before ++ gap run :: after) := by
  constructor
  · have hc := h.canonical
    simp only [List.forall_mem_append, List.forall_mem_cons] at hc ⊢
    exact ⟨hc.1, canonical_gap.mpr hr, hc.2⟩
  · rw [Apart, List.map_append, List.map_cons, List.isChain_append, List.isChain_cons]
    refine ⟨h.left.apart, ⟨?_, h.right.apart⟩, ?_⟩
    · rw [List.head?_map]
      intro kind hk
      obtain ⟨t, ht, rfl⟩ := Option.map_eq_some_iff.mp hk
      exact beq_false_of_ne (ha t ht)
    · rw [List.getLast?_map]
      intro kind hk _ hgap
      obtain ⟨t, ht, rfl⟩ := Option.map_eq_some_iff.mp hk
      obtain rfl := Option.some.inj hgap
      exact Kind.fuses_blank (hb t ht)

/-- White space beside the place takes in what is put there. -/
theorem insert (h : Legible (before ++ after)) (hr : IsGap run) :
    ∃ ts, Legible ts ∧ print ts = print (before ++ gap run :: after) ∧
      inked ts = inked (before ++ after) := by
  by_cases hb : ∃ t ∈ before.getLast?, t.kind = .blank
  · obtain ⟨t, ht, hk⟩ := hb
    obtain ⟨before, rfl⟩ := List.getLast?_eq_some_iff.mp ht
    obtain ⟨run', rfl, hr'⟩ := (h.canonical t (by simp)).eq_gap hk
    rw [List.append_assoc, List.singleton_append] at h
    exact ⟨_, h.replace (hr'.append hr), by simp, by simp [inked_gap]⟩
  by_cases ha : ∃ t ∈ after.head?, t.kind = .blank
  · obtain ⟨t, ht, hk⟩ := ha
    obtain ⟨after, rfl⟩ := List.head?_eq_some_iff.mp ht
    obtain ⟨run', rfl, hr'⟩ := (h.canonical t (by simp)).eq_gap hk
    exact ⟨_, h.replace (hr.append hr'), by simp, by simp [inked_gap]⟩
  · refine ⟨_, h.insert_between hr ?_ ?_, rfl, inked_gap before after run⟩
    · exact fun t ht hk => hb ⟨t, ht, hk⟩
    · exact fun t ht hk => ha ⟨t, ht, hk⟩

end Legible

end Token

theorem Relaid.exists_inked_eq {text text' : String} (h : Relaid text text') {ts : List Token}
    (ht : tokenize text = .ok (ts ++ [.finish])) :
    ∃ us, tokenize text' = .ok (us ++ [.finish]) ∧ Token.inked us = Token.inked ts := by
  have hscan {us : List Token} (hu : Token.Legible us) (hp : folded text' = Token.print us) :
      tokenize text' = .ok (us ++ [.finish]) := tokenize_eq_ok_iff_legible.mpr ⟨us, rfl, hu, hp⟩
  obtain ⟨us, hus, hl, hp⟩ := tokenize_eq_ok_iff_legible.mp ht
  obtain rfl := List.append_cancel_right hus
  cases h with
  | recased h => exact ⟨ts, hscan hl (h.trans hp), rfl⟩
  | @replaced before after run run' ht' hr h =>
    obtain rfl := List.append_cancel_right (Except.ok.inj (ht'.symm.trans ht))
    exact ⟨_, hscan (hl.replace hr) h, by simp only [Token.inked_gap]⟩
  | inserted ht' hr h =>
    obtain rfl := List.append_cancel_right (Except.ok.inj (ht'.symm.trans ht))
    obtain ⟨us, hu, hp, hi⟩ := hl.insert hr
    exact ⟨us, hscan hu (h.trans hp.symm), hi⟩
  | @removedFirst after run ht' h =>
    obtain rfl := List.append_cancel_right (Except.ok.inj (ht'.symm.trans ht))
    have hl : Token.Legible ([.gap run] ++ after) := hl
    exact ⟨after, hscan hl.right h, rfl⟩
  | @removedLast before run ht' h =>
    obtain rfl := List.append_cancel_right (Except.ok.inj (ht'.symm.trans ht))
    exact ⟨before, hscan hl.left h, by simp [Token.inked_gap before [] run]⟩
  | @removed before after t u run ht' hf h =>
    obtain rfl := List.append_cancel_right (Except.ok.inj (ht'.symm.trans ht))
    refine ⟨_, hscan (hl.remove hf) h, ?_⟩
    have := Token.inked_gap (before ++ [t]) (u :: after) run
    simpa using this.symm

theorem compile_eq_of_inked {text : String} {ts : List Token}
    (ht : tokenize text = .ok (ts ++ [.finish])) :
    compile text = (Reading.statement.run 0 (Token.inked ts)).mapError .parse := by
  obtain ⟨us, hus, hl, -⟩ := tokenize_eq_ok_iff_legible.mp ht
  obtain rfl := List.append_cancel_right hus
  rw [compile, ht]
  simp only [Query.ofTokens]
  rw [significant_finish fun t h => (hl.canonical t h).wellFormed.1]
  rfl

/-- Changes of case and layout, one after the other, keep a text readable and its meaning, an error
of its tokens and the place of the error included. -/
theorem compile_relaid {text text' : String} {tokens : List Token}
    (ht : tokenize text = .ok tokens) (h : Relation.ReflTransGen Relaid text text') :
    (∃ tokens', tokenize text' = .ok tokens') ∧ compile text' = compile text := by
  obtain ⟨ts, rfl, -⟩ := tokenize_eq_ok_iff_legible.mp ht
  obtain ⟨us, hu, hi⟩ : ∃ us, tokenize text' = .ok (us ++ [.finish]) ∧
      Token.inked us = Token.inked ts := by
    induction h with
    | refl => exact ⟨ts, ht, rfl⟩
    | tail _ hstep ih =>
      obtain ⟨us, hu, hi⟩ := ih
      obtain ⟨vs, hv, hiv⟩ := hstep.exists_inked_eq hu
      exact ⟨vs, hv, hiv.trans hi⟩
  refine ⟨⟨_, hu⟩, ?_⟩
  rw [compile_eq_of_inked hu, compile_eq_of_inked ht, hi]

/-- The space in the string stays, and so does the place of the error. -/
theorem compile_relaid_around_string :
    compile "SELECT a FROM T' '\u00A0" = compile "select a from t ' '" ∧
      compile "select a from t ' '" =
        .error (.parse (.unexpected [.keyword .«where», .finish] .string 4)) := by
  have hspaced : tokenize "select a from t ' '" = .ok ([⟨.keyword .select, none⟩, .gap " ",
      .named "a", .gap " ", ⟨.keyword .«from», none⟩, .gap " "] ++ .named "t" :: .gap " " ::
      ⟨.string, some " "⟩ :: [] ++ [.finish]) :=
    tokenize_eq_ok_iff_legible.mpr ⟨_, rfl, by decide +kernel, by decide +kernel⟩
  have htight : tokenize "select A from t' '" = .ok ([⟨.keyword .select, none⟩, .gap " ",
      .named "a", .gap " ", ⟨.keyword .«from», none⟩, .gap " ", .named "t",
      ⟨.string, some " "⟩] ++ [] ++ [.finish]) :=
    tokenize_eq_ok_iff_legible.mpr ⟨_, rfl, by decide +kernel, by decide +kernel⟩
  have hremoved : Relaid "select a from t ' '" "select A from t' '" :=
    .removed hspaced rfl (by decide +kernel)
  have hinserted : Relaid "select A from t' '" "SELECT a FROM T' '\u00A0" :=
    .inserted htight (show IsGap "\u00A0" by decide +kernel) (by decide +kernel)
  have h := compile_relaid hspaced (.tail (.single hremoved) hinserted)
  exact ⟨h.2, (compile_eq_of_inked hspaced).trans rfl⟩

end SmallSql
