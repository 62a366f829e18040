import Mathlib.Data.List.Basic
import RegisterMachine.Text.Blank
import RegisterMachine.Text.Lower
/-! Lines put together from tokens, and texts from lines: cutting gives the pieces back. -/
namespace RegisterMachine.Text

/-- An ASCII character that is not blank and opens neither a comment nor a macro line, nor marks a
label. -/
def isPlain (c : Char) : Bool :=
  c.toNat < 128 && !isBlank c && c != '/' && c != '#' && c != ':'

def Plain (t : Token) : Prop := t ≠ [] ∧ ∀ c ∈ t, isPlain c = true

def joined (ts : List Token) : Line := [' '].intercalate ts

theorem plain_toNat_lt {c : Char} (h : isPlain c = true) : c.toNat < 128 := by
  simp only [isPlain, Bool.and_eq_true, decide_eq_true_eq] at h
  exact h.1.1.1.1

theorem not_isBlank_of_isPlain {c : Char} (h : isPlain c = true) : isBlank c = false := by
  simp only [isPlain, Bool.and_eq_true, Bool.not_eq_true'] at h
  exact h.1.1.1.2

theorem isPlain_toLower {c : Char} (h : isPlain c = true) : isPlain c.toLower = true := by
  have table : ∀ n < 128, isPlain (Char.ofNat n) = true →
      isPlain (Char.ofNat n).toLower = true := by decide
  have lower := table c.toNat (plain_toNat_lt h)
  rw [Char.ofNat_toNat] at lower
  exact lower h

theorem Plain.map_toLower {t : Token} (h : Plain t) : Plain (t.map Char.toLower) := by
  refine ⟨by simpa using h.1, fun c hc => ?_⟩
  obtain ⟨d, hd, rfl⟩ := List.mem_map.1 hc
  exact isPlain_toLower (h.2 d hd)

theorem splitWhere_eq_splitOnP (p : Char → Bool) (text : List Char) :
    splitWhere p text = text.splitOnP p := by
  induction text with
  | nil => rfl
  | cons c rest ih => rw [splitWhere_cons, ih, List.splitOnP_cons_eq_if_modifyHead]

theorem lines_intercalate {ls : List Line} (hne : ls ≠ []) (h : ∀ l ∈ ls, '\n' ∉ l) :
    lines (['\n'].intercalate ls) = ls := by
  rw [lines, splitWhere_eq_splitOnP, ← List.splitOn_eq_splitOnP]
  exact List.splitOn_intercalate '\n' h hne

theorem splitWhere_joined {ts : List Token} (hne : ts ≠ []) (h : ∀ t ∈ ts, Plain t) :
    splitWhere isBlank (joined ts) = ts := by
  have unblank (t : Token) (ht : Plain t) (c : Char) (hc : c ∈ t) : isBlank c = false :=
    not_isBlank_of_isPlain (ht.2 c hc)
  rw [splitWhere_eq_splitOnP, joined]
  induction ts with
  | nil => exact absurd rfl hne
  | cons t rest ih =>
    obtain ⟨ht, hrest⟩ := List.forall_mem_cons.1 h
    cases rest with
    | nil =>
      rw [List.intercalate_singleton]
      exact List.splitOnP_eq_singleton (unblank t ht)
    | cons u us =>
      rw [List.intercalate_cons_cons, List.append_assoc, List.singleton_append,
        List.splitOnP_append_cons_of_forall_mem (unblank t ht) ' ' (by decide),
        ih (List.cons_ne_nil u us) hrest]

theorem words_joined {ts : List Token} (h : ∀ t ∈ ts, Plain t) : words (joined ts) = ts := by
  cases ts with
  | nil => rfl
  | cons t rest =>
    rw [words, splitWhere_joined (List.cons_ne_nil t rest) h]
    apply List.filter_eq_self.2
    intro u hu
    simpa using (h u hu).1

theorem joined_ne_nil {t : Token} {ts : List Token} (h : Plain t) : joined (t :: ts) ≠ [] := by
  obtain ⟨c, cs, rfl⟩ := List.exists_cons_of_ne_nil h.1
  simp [joined]

theorem exists_of_getLast?_joined {ts : List Token} (h : ∀ t ∈ ts, Plain t) {c : Char}
    (hc : (joined ts).getLast? = some c) : ∃ t ∈ ts, c ∈ t := by
  induction ts with
  | nil => simp [joined] at hc
  | cons t rest ih =>
    cases rest with
    | nil => exact ⟨t, List.mem_cons_self, List.mem_of_getLast? (by simpa [joined] using hc)⟩
    | cons u us =>
      obtain ⟨-, hrest⟩ := List.forall_mem_cons.1 h
      have hne : joined (u :: us) ≠ [] := joined_ne_nil (hrest u List.mem_cons_self)
      have hsplit : joined (t :: u :: us) = t ++ [' '] ++ joined (u :: us) :=
        List.intercalate_cons_cons
      rw [hsplit, List.getLast?_append_of_ne_nil _ hne] at hc
      obtain ⟨v, hv, hcv⟩ := ih hrest hc
      exact ⟨v, List.mem_cons_of_mem t hv, hcv⟩

theorem trim_of_ends {line : Line} (first : ∀ c ∈ line.head?, isBlank c = false)
    (last : ∀ c ∈ line.getLast?, isBlank c = false) : trim line = line := by
  have unblank (l : Line) (h : ∀ c ∈ l.head?, isBlank c = false) : l.dropWhile isBlank = l := by
    cases l with
    | nil => rfl
    | cons c rest => simp [h c rfl]
  rw [trim, unblank line first, unblank line.reverse (by simpa using last), List.reverse_reverse]

theorem trim_joined {ts : List Token} (h : ∀ t ∈ ts, Plain t) : trim (joined ts) = joined ts := by
  apply trim_of_ends
  · intro c hc
    cases ts with
    | nil => simp [joined] at hc
    | cons t rest =>
      have ht := h t List.mem_cons_self
      obtain ⟨d, ds, rfl⟩ := List.exists_cons_of_ne_nil ht.1
      obtain rfl : d = c := by simpa [joined] using hc
      exact not_isBlank_of_isPlain (ht.2 d List.mem_cons_self)
  · intro c hc
    obtain ⟨t, ht, hct⟩ := exists_of_getLast?_joined h hc
    exact not_isBlank_of_isPlain ((h t ht).2 c hct)

theorem mem_joined {ts : List Token} {c : Char} (hc : c ∈ joined ts) :
    c = ' ' ∨ ∃ t ∈ ts, c ∈ t := by
  induction ts with
  | nil => simp [joined] at hc
  | cons t rest ih =>
    cases rest with
    | nil => exact .inr ⟨t, List.mem_cons_self, by simpa [joined] using hc⟩
    | cons u us =>
      have hsplit : joined (t :: u :: us) = t ++ [' '] ++ joined (u :: us) :=
        List.intercalate_cons_cons
      rw [hsplit, List.append_assoc, List.mem_append, List.mem_append, List.mem_singleton] at hc
      rcases hc with hc | hc | hc
      · exact .inr ⟨t, List.mem_cons_self, hc⟩
      · exact .inl hc
      · cases ih hc with
        | inl hd => exact .inl hd
        | inr hv =>
          obtain ⟨v, hv, hcv⟩ := hv
          exact .inr ⟨v, List.mem_cons_of_mem t hv, hcv⟩

theorem lower_of_ascii {text : List Char} (h : ∀ c ∈ text, c.toNat < 128) :
    lower text = text.map Char.toLower := by
  have all (before : List Char) : lowerFrom before text = text.map Char.toLower := by
    induction text generalizing before with
    | nil => rfl
    | cons c rest ih =>
      obtain ⟨hc, hrest⟩ := List.forall_mem_cons.1 h
      have hsigma : c ≠ 'Σ' := by
        intro same
        subst same
        exact absurd hc (by decide)
      simp [lowerFrom, lowerChar, hsigma, hc, ih hrest]
  exact all []

theorem map_joined {f : Char → Char} (hf : f ' ' = ' ') (ts : List Token) :
    (joined ts).map f = joined (ts.map (List.map f)) := by
  induction ts with
  | nil => rfl
  | cons t rest ih =>
    cases rest with
    | nil => simp [joined]
    | cons u us =>
      simp only [joined, List.map_cons, List.intercalate_cons_cons, List.map_append] at ih ⊢
      rw [ih, List.map_nil, hf]

theorem lower_joined {ts : List Token} (h : ∀ t ∈ ts, Plain t) :
    lower (joined ts) = joined (ts.map (List.map Char.toLower)) := by
  have ascii : ∀ c ∈ joined ts, c.toNat < 128 := by
    intro c hc
    rcases mem_joined hc with rfl | ⟨t, ht, hct⟩
    · decide
    · exact plain_toNat_lt ((h t ht).2 c hct)
  rw [lower_of_ascii ascii, map_joined (by decide)]

theorem newline_not_mem_joined {ts : List Token} (h : ∀ t ∈ ts, Plain t) : '\n' ∉ joined ts := by
  intro hc
  cases mem_joined hc with
  | inl hd => exact absurd hd (by decide)
  | inr hv =>
    obtain ⟨t, ht, hct⟩ := hv
    exact absurd ((h t ht).2 '\n' hct) (by decide)

end RegisterMachine.Text
