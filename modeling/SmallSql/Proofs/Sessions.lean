import SmallSql.Executor.Tally
import SmallSql.Proofs.Expectation
import SmallSql.Proofs.Layout

namespace SmallSql

def kept {α : Type} (keep : Nat → Bool) : List α → List α
  | [] => []
  | x :: xs =>
    if keep 0 then x :: kept (fun i => keep (i + 1)) xs else kept (fun i => keep (i + 1)) xs

namespace Executor

variable {σ : Type}

/-- How one text is answered, and which state is left. -/
inductive Handled (e : Executor σ) (text : String) (s : σ) : Except Error ResultSet → σ → Prop where
  | blank (hb : Unicode.isBlank text.toList = true) : Handled e text s (.error .emptyQuery) s
  | rejected {cause : Error} (hb : Unicode.isBlank text.toList = false)
    (hc : compile text = .error cause) : Handled e text s (.error cause) s
  | select {q : Selection} (hb : Unicode.isBlank text.toList = false)
    (hc : compile text = .ok (.select q)) : Handled e text s (e.select q s).1 (e.select q s).2
  | insert {q : Insertion} (hb : Unicode.isBlank text.toList = false)
    (hc : compile text = .ok (.insert q)) : Handled e text s (e.insert q s).1 (e.insert q s).2
  | delete {q : Deletion} (hb : Unicode.isBlank text.toList = false)
    (hc : compile text = .ok (.delete q)) : Handled e text s (e.delete q s).1 (e.delete q s).2

theorem handled_answer (e : Executor σ) (text : String) (s : σ) :
    e.Handled text s (e.answer text s).1 (e.answer text s).2 := by
  rw [answer]
  cases hb : Unicode.isBlank text.toList with
  | true => exact .blank hb
  | false =>
    cases hc : compile text with
    | error cause => exact .rejected hb hc
    | ok q =>
      cases q with
      | select q => exact .select hb hc
      | insert q => exact .insert hb hc
      | delete q => exact .delete hb hc

theorem session_append (e : Executor σ) (a b : List String) (s : σ) :
    e.session (a ++ b) s = ((e.session a s).1 ++ (e.session b (e.session a s).2).1,
      (e.session b (e.session a s).2).2) := by
  induction a generalizing s with
  | nil => rfl
  | cons text rest ih => simp only [List.cons_append, session_cons, ih]

theorem length_session (e : Executor σ) (texts : List String) (s : σ) :
    (e.session texts s).1.length = texts.length := by
  induction texts generalizing s with
  | nil => rfl
  | cons text rest ih => simp only [session_cons, List.length_cons, ih]

def noting {ρ : Type} (call : σ → ρ × σ) (q : Query) (state : σ × List Query) :
    ρ × σ × List Query :=
  ((call state.1).1, (call state.1).2, state.2 ++ [q])

/-- The executor that does the same and notes every call, the latest last. -/
def recording (e : Executor σ) : Executor (σ × List Query) where
  select q := noting (e.select q) (.select q)
  insert q := noting (e.insert q) (.insert q)
  delete q := noting (e.delete q) (.delete q)

theorem recording_execute (e : Executor σ) (q : Query) (s : σ) (calls : List Query) :
    e.recording.execute q (s, calls) =
      ((e.execute q s).1, (e.execute q s).2, calls ++ [q]) := by
  cases q <;> rfl

theorem recording_session (e : Executor σ) (texts : List String) (s : σ) (calls : List Query) :
    e.recording.session texts (s, calls) =
      ((e.session texts s).1, (e.session texts s).2, calls ++ texts.filterMap accepted?) := by
  induction texts generalizing s calls with
  | nil => simp [session]
  | cons text rest ih =>
    cases h : accepted? text with
    | none =>
      obtain ⟨cause, ha⟩ := answer_of_refused h
      rw [session_cons, session_cons, ha, ha, ih, List.filterMap_cons_none h]
    | some q =>
      rw [session_cons, session_cons, answer_of_accepted h, answer_of_accepted h,
        recording_execute, ih, List.filterMap_cons_some h, List.append_assoc,
        List.singleton_append]

theorem session_kept (e : Executor σ) {texts : List String} {keep : Nat → Bool} (s : σ)
    (h : ∀ i text, texts[i]? = some text → keep i = false → accepted? text = none) :
    e.session (kept keep texts) s =
      (kept keep (e.session texts s).1, (e.session texts s).2) := by
  induction texts generalizing keep s with
  | nil => rfl
  | cons text rest ih =>
    have hrest (s : σ) := @ih (fun i => keep (i + 1)) s fun i => h (i + 1)
    cases hk : keep 0 with
    | true => simp only [kept, session_cons, hk, if_true, hrest]
    | false =>
      obtain ⟨cause, ha⟩ := answer_of_refused (h 0 text rfl hk)
      simp only [kept, session_cons, hk, Bool.false_eq_true, if_false, hrest, ha]

/-- Every text has one answer, which comes from the state that the texts before it have left. The
queries of the accepted texts are all the calls there are, and refused texts, as many and wherever
they are, make no difference to the rest of the session. -/
theorem session_calls_accepted (e : Executor σ) (texts : List String) (s : σ) :
    (e.session texts s).1.length = texts.length ∧
    (∀ before text after, texts = before ++ text :: after →
      ∃ reply, (e.session texts s).1[before.length]? = some reply ∧
        e.Handled text (e.session before s).2 reply (e.session (before ++ [text]) s).2) ∧
    (∀ calls, e.recording.session texts (s, calls) =
      ((e.session texts s).1, (e.session texts s).2, calls ++ texts.filterMap accepted?)) ∧
    ∀ keep : Nat → Bool,
      (∀ i text, texts[i]? = some text → keep i = false → accepted? text = none) →
      e.session (kept keep texts) s =
        (kept keep (e.session texts s).1, (e.session texts s).2) := by
  refine ⟨e.length_session texts s, ?_, e.recording_session texts s, fun keep => e.session_kept s⟩
  rintro before text after rfl
  have hlength := e.length_session before s
  refine ⟨(e.answer text (e.session before s).2).1, ?_, ?_⟩
  · rw [session_append, session_cons, ← hlength]
    simp
  · rw [session_append]
    exact e.handled_answer text _

end Executor

namespace Unicode

theorem isBlank_iff {cs : List Char} : isBlank cs = true ↔ ∀ c ∈ cs, isWhiteSpace c = true :=
  List.all_eq_true

theorem trim_eq_nil_iff {cs : List Char} : trim cs = [] ↔ isBlank cs = true := by
  rw [isBlank_iff, trim, List.reverse_eq_nil_iff, List.dropWhile_eq_nil_iff]
  constructor
  · intro h
    rw [← List.takeWhile_append_dropWhile (p := isWhiteSpace) (l := cs), List.forall_mem_append]
    exact ⟨fun c => List.mem_takeWhile_imp, fun c hc => h c (List.mem_reverse.mpr hc)⟩
  · intro h c hc
    apply h
    exact (List.dropWhile_sublist _).mem (List.mem_reverse.mp hc)

end Unicode

open Unicode

theorem isBlank_folded (text : String) : isBlank (folded text) = isBlank text.toList := by
  rw [Bool.eq_iff_iff, isBlank_iff, isBlank_iff, folded, List.forall_mem_flatMap]
  constructor
  · intro h c hc
    obtain ⟨d, ds, hd⟩ := exists_lowercase c
    have hm : d ∈ lowercase c := by simp [hd]
    exact isWhiteSpace_of_mem_lowercase hm (h c hc d hm)
  · intro h c hc d hd
    rw [folded_of_isWhiteSpace (h c hc), List.mem_singleton] at hd
    rw [hd, h c hc]

namespace Token

theorem Canonical.isBlank_written_iff {t : Token} (h : t.Canonical) :
    isBlank t.written = true ↔ t.kind = .blank := by
  constructor
  · intro hb
    by_contra hk
    obtain ⟨c, cs, hw⟩ := h.wellFormed.1.exists_written
    have hc := h.wellFormed.1.not_isWhiteSpace hk c (by simp [hw])
    rw [isBlank_iff.mp hb c (by simp [hw])] at hc
    cases hc
  · intro hk
    obtain ⟨run, rfl, hr⟩ := h.eq_gap hk
    exact isBlank_iff.mpr hr.2

theorem Legible.isBlank_print_iff {ts : List Token} (h : Legible ts) :
    isBlank (print ts) = true ↔ ∀ t ∈ ts, t.kind = .blank := by
  rw [print, isBlank_iff, List.forall_mem_flatMap]
  exact forall₂_congr fun t ht =>
    isBlank_iff.symm.trans (h.canonical t ht).isBlank_written_iff

end Token

theorem exists_tokenize_of_isBlank {text : String} (h : isBlank text.toList = true) :
    ∃ tokens, tokenize text = .ok tokens := by
  have hfolded := folded_of_blank (isBlank_iff.mp h)
  by_cases hn : text.toList = []
  · have hl : Token.Legible [] := ⟨by simp, by simp [Token.Apart]⟩
    exact ⟨_, tokenize_eq_ok_iff_legible.mpr ⟨[], rfl, hl, by rw [hfolded, hn]; rfl⟩⟩
  · have hgap : IsGap text := ⟨hn, isBlank_iff.mp h⟩
    have hl : Token.Legible [.gap text] :=
      ⟨by simpa using Token.canonical_gap.mpr hgap, by simp [Token.Apart]⟩
    exact ⟨_, tokenize_eq_ok_iff_legible.mpr ⟨_, rfl, hl, by simp [hfolded, Token.print]⟩⟩

section
variable {text : String} {tokens : List Token}

theorem isBlank_iff_of_tokenize (h : tokenize text = .ok tokens) : isBlank text.toList = true ↔
    ∀ t ∈ tokens, t.kind = .blank ∨ t.kind = .finish := by
  obtain ⟨ts, rfl, hl, hp⟩ := tokenize_eq_ok_iff_legible.mp h
  rw [← isBlank_folded, hp, hl.isBlank_print_iff]
  constructor
  · intro hb t ht
    rcases List.mem_append.mp ht with ht | ht
    · exact .inl (hb t ht)
    · obtain rfl := List.mem_singleton.mp ht
      exact .inr rfl
  · intro hb t ht
    apply (hb t (List.mem_append_left _ ht)).resolve_right
    exact (hl.canonical t ht).wellFormed.1.kind_ne_finish

theorem significant_eq_nil_iff (h : tokenize text = .ok tokens) :
    significant tokens = [] ↔ isBlank text.toList = true := by
  obtain ⟨ts, rfl, hl, hp⟩ := tokenize_eq_ok_iff_legible.mp h
  rw [← isBlank_folded, hp, hl.isBlank_print_iff,
    significant_finish fun t ht => (hl.canonical t ht).wellFormed.1, List.filter_eq_nil_iff]
  simp

end

theorem ofTokens_ends_at_start_iff (tokens : List Token) :
    (∃ expected, Query.ofTokens tokens = .error (.unexpected expected .finish 0)) ↔
      significant tokens = [] := by
  constructor
  · intro h
    obtain ⟨expected, h⟩ := h
    have hf : ∀ t ∈ significant tokens, t.kind ≠ .finish := by
      intro t ht
      simpa using List.mem_takeWhile_imp ht
    obtain ⟨n, last, hn, -, -, -, hk, -⟩ := Reading.run_unexpected hf h
    obtain rfl : n = 0 := by omega
    cases hs : significant tokens with
    | nil => rfl
    | cons t rest =>
      rw [hs] at hk
      exact absurd hk (hf t (by simp [hs]))
  · intro h
    rw [Query.ofTokens, h]
    exact ⟨_, rfl⟩

/-- What is no query for want of a first token is blank, and a blank text is no query for nothing
else. -/
theorem compile_ends_at_start_iff (text : String) :
    (∃ expected, compile text = .error (.parse (.unexpected expected .finish 0))) ↔
      isBlank text.toList = true := by
  cases ht : tokenize text with
  | error cause =>
    constructor
    · intro h
      obtain ⟨expected, h⟩ := h
      simp [compile, ht] at h
    · intro h
      obtain ⟨tokens, hok⟩ := exists_tokenize_of_isBlank h
      rw [ht] at hok
      cases hok
  | ok tokens =>
    rw [← significant_eq_nil_iff ht, ← ofTokens_ends_at_start_iff]
    simp only [compile, ht]
    cases Query.ofTokens tokens <;> simp [Except.mapError]

theorem isCompileError_of_compile {text : String} {cause : Error}
    (h : compile text = .error cause) : cause.isCompileError = true := by
  unfold compile at h
  split at h
  · cases h
    rfl
  · rename_i tokens _
    cases hq : Query.ofTokens tokens with
    | error cause =>
      rw [hq] at h
      cases h
      rfl
    | ok q =>
      rw [hq] at h
      cases h

namespace Executor

variable {σ : Type} {e : Executor σ}

/-- Where it fails, the executor gives no cause but the execution. -/
def BlamesExecution (e : Executor σ) : Prop :=
  ∀ (q : Query) (s : σ) (cause : Error), (e.execute q s).1 = .error cause →
    ∃ text, cause = .execution text

/-- Any other cause was found before the executor was called. -/
theorem cause_of_answer (he : e.BlamesExecution) {text : String} {s : σ} {cause : Error}
    (h : (e.answer text s).1 = .error cause) (hne : ∀ text, cause ≠ .execution text) :
    (isBlank text.toList = true ∧ cause = .emptyQuery) ∨
      (isBlank text.toList = false ∧ compile text = .error cause) := by
  have hexecuted (q : Query) : (e.execute q s).1 ≠ .error cause := by
    intro hq
    obtain ⟨text, hx⟩ := he q s cause hq
    exact hne text hx
  have handled := e.handled_answer text s
  generalize (e.answer text s).1 = reply, (e.answer text s).2 = next at h handled
  cases handled with
  | blank hb => exact .inl ⟨hb, (Except.error.inj h).symm⟩
  | rejected hb hc => exact .inr ⟨hb, by rw [hc, Except.error.inj h]⟩
  | @select q => exact absurd h (hexecuted (.select q))
  | @insert q => exact absurd h (hexecuted (.insert q))
  | @delete q => exact absurd h (hexecuted (.delete q))

theorem answer_of_isBlank (e : Executor σ) {text : String} (h : isBlank text.toList = true)
    (s : σ) : e.answer text s = (.error .emptyQuery, s) := if_pos h

theorem emptyQuery_iff_isBlank (he : e.BlamesExecution) (text : String) (s : σ) :
    (e.answer text s).1 = .error .emptyQuery ↔ isBlank text.toList = true := by
  constructor
  · intro h
    rcases cause_of_answer he h (by simp) with ⟨hb, -⟩ | ⟨-, hc⟩
    · exact hb
    · cases isCompileError_of_compile hc
  · intro h
    rw [e.answer_of_isBlank h]

/-- The texts without a query in them are those of which nothing is left when they are trimmed, and
also those with no token but white space, and also those in which the reading misses its very first
token. So that is never the error with which a text is answered. -/
theorem answer_emptyQuery_iff (he : e.BlamesExecution) (text : String) (s : σ) :
    ((e.answer text s).1 = .error .emptyQuery ↔ trim text.toList = []) ∧
    ((e.answer text s).1 = .error .emptyQuery ↔
      ∃ tokens, tokenize text = .ok tokens ∧ ∀ t ∈ tokens, t.kind = .blank ∨ t.kind = .finish) ∧
    ((e.answer text s).1 = .error .emptyQuery ↔
      ∃ expected, compile text = .error (.parse (.unexpected expected .finish 0))) ∧
    ∀ expected, (e.answer text s).1 ≠ .error (.parse (.unexpected expected .finish 0)) := by
  rw [emptyQuery_iff_isBlank he, compile_ends_at_start_iff]
  refine ⟨trim_eq_nil_iff.symm, ?_, Iff.rfl, fun expected h => ?_⟩
  · constructor
    · intro hb
      obtain ⟨tokens, ht⟩ := exists_tokenize_of_isBlank hb
      exact ⟨tokens, ht, (isBlank_iff_of_tokenize ht).mp hb⟩
    · intro h
      obtain ⟨tokens, ht, hk⟩ := h
      exact (isBlank_iff_of_tokenize ht).mpr hk
  · rcases cause_of_answer he h (by simp) with ⟨-, hx⟩ | ⟨hb, hc⟩
    · cases hx
    · rw [(compile_ends_at_start_iff text).mp ⟨expected, hc⟩] at hb
      cases hb

end Executor

namespace Tally

theorem executor_blamesExecution : executor.BlamesExecution := by
  intro q s cause h
  cases q <;> exact onTable_error h

end Tally

/-- A no-break space is white space, and a space of no width is none. -/
theorem Executor.answer_emptyQuery_no_break :
    (Tally.executor.answer "\u00A0\t" (.start [])).1 = .error .emptyQuery ∧
      (Tally.executor.answer "\u200B" (.start [])).1 ≠ .error .emptyQuery := by
  have hblank : trim "\u00A0\t".toList = [] := by decide +kernel
  have hshown : trim "\u200B".toList ≠ [] := by decide +kernel
  constructor
  · exact (answer_emptyQuery_iff Tally.executor_blamesExecution _ _).1.mpr hblank
  · exact fun h => hshown ((answer_emptyQuery_iff Tally.executor_blamesExecution _ _).1.mp h)

end SmallSql
