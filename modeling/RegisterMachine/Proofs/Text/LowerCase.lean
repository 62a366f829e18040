import RegisterMachine.Text.Lower
/-! Text in lower case. It is its own lower-case form, since no counterpart of a letter is a letter
with a counterpart again. -/
namespace RegisterMachine.Text

def IsLow (c : Char) : Prop := c ≠ 'Σ' ∧ lowerChar c = [c]

/-- The counterparts of a run lie apart from the letters of every run, or alternate with them. -/
theorem letterRuns_alternate : ∀ r ∈ letterRuns, ∀ s ∈ letterRuns,
    r.image + (r.last - r.first) < s.first ∨ s.last < r.image ∨
      (r.first = r.last ∨ r.step = 2) ∧ s.step = 2 ∧ (r.image + s.first) % 2 = 1 := by
  -- the tests on numbers that are built in, since there are many pairs
  have table : letterRuns.all fun r => letterRuns.all fun s =>
      Nat.blt (r.image + (r.last - r.first)) s.first || Nat.blt s.last r.image ||
        (Nat.beq r.first r.last || Nat.beq r.step 2) && Nat.beq s.step 2 &&
          Nat.beq ((r.image + s.first) % 2) 1 := by
    decide +kernel
  simpa [or_assoc, and_assoc] using table

/-- The only counterpart in ASCII is that of the Kelvin sign, and the dotted capital I is none. -/
theorem letterRuns_beyond : ∀ r ∈ letterRuns,
    (0x80 ≤ r.image ∨ r.first = r.last ∧ r.image = 0x6B) ∧
      (r.image + (r.last - r.first) < 0x130 ∨ 0x130 < r.image) := by
  decide +kernel

section
variable {r s : LetterRun} {n : Nat}

theorem not_contains_counterpart (hr : r ∈ letterRuns) (hs : s ∈ letterRuns)
    (hn : r.contains n = true) : s.contains (r.lower n) = false := by
  simp only [LetterRun.contains, Bool.and_eq_true, decide_eq_true_eq, beq_iff_eq] at hn
  obtain ⟨⟨low, high⟩, even⟩ := hn
  refine Bool.eq_false_iff.2 fun inside => ?_
  simp only [LetterRun.contains, Bool.and_eq_true, decide_eq_true_eq, beq_iff_eq] at inside
  simp only [LetterRun.lower] at inside
  obtain ⟨⟨low', high'⟩, even'⟩ := inside
  rcases letterRuns_alternate r hr s hs with below | above | ⟨spread, two, odd⟩
  · omega
  · omega
  · rw [two] at even'
    rcases spread with single | two'
    · omega
    · rw [two'] at even
      omega

theorem isLow_counterpart (hr : r ∈ letterRuns) (hn : r.contains n = true) :
    IsLow (Char.ofNat (r.lower n)) := by
  have apart (s : LetterRun) (hs : s ∈ letterRuns) := not_contains_counterpart hr hs hn
  obtain ⟨ascii, dotted⟩ := letterRuns_beyond r hr
  simp only [LetterRun.contains, Bool.and_eq_true, decide_eq_true_eq] at hn
  by_cases valid : (r.lower n).isValidChar
  · have code : (Char.ofNat (r.lower n)).toNat = r.lower n := by
      rw [Char.ofNat, dif_pos valid]
      rfl
    generalize Char.ofNat (r.lower n) = c at code
    rw [← code] at apart
    simp only [LetterRun.lower] at code
    refine ⟨?_, ?_⟩
    · rintro rfl
      have letter : (letterRuns.any fun s => s.contains 'Σ'.toNat) = true := by decide +kernel
      obtain ⟨s, hs, inside⟩ := List.any_eq_true.1 letter
      rw [apart s hs] at inside
      cases inside
    · unfold lowerChar
      split
      · obtain rfl : c = 'k' := by
          rw [← Char.ofNat_toNat c, show c.toNat = 0x6B by omega]
        rfl
      split
      · rename_i same
        subst same
        have : ('\u0130').toNat = 0x130 := rfl
        omega
      split
      · rename_i s found
        have inside : s.contains c.toNat = true := by simpa using List.find?_some found
        simp [apart s (List.mem_of_find?_eq_some found)] at inside
      · rfl
  · rw [Char.ofNat, dif_neg valid]
    exact ⟨by decide, rfl⟩

end

theorem isLow_of_mem_lowerChar {c d : Char} (notSigma : c ≠ 'Σ') (hd : d ∈ lowerChar c) :
    IsLow d := by
  by_cases low : lowerChar c = [c]
  · obtain rfl : d = c := by simpa [low] using hd
    exact ⟨notSigma, low⟩
  unfold lowerChar at hd
  split at hd
  · have table : ∀ n < 0x80, IsLow (Char.ofNat n).toLower := by
      unfold IsLow
      decide +kernel
    have entry := table c.toNat (by assumption)
    rw [Char.ofNat_toNat] at entry
    rwa [List.mem_singleton.1 hd]
  split at hd
  · simp only [List.mem_cons, List.not_mem_nil, or_false] at hd
    rcases hd with rfl | rfl
    · exact ⟨by decide, rfl⟩
    · exact ⟨by decide, by decide +kernel⟩
  split at hd
  · rename_i r found
    have inside : r.contains c.toNat = true := by simpa using List.find?_some found
    rw [List.mem_singleton.1 hd]
    exact isLow_counterpart (List.mem_of_find?_eq_some found) inside
  · rename_i ascii dotted _ none
    exact absurd (by simp only [lowerChar, ascii, dotted, none, if_false]) low

theorem isLow_of_mem_lowerFrom {before text : List Char} {d : Char}
    (hd : d ∈ lowerFrom before text) : IsLow d := by
  induction text generalizing before with
  | nil => cases hd
  | cons c rest ih =>
    rw [lowerFrom, List.mem_append] at hd
    rcases hd with here | later
    · split at here
      · rw [List.mem_singleton.1 here]
        split <;> exact ⟨by decide, by decide +kernel⟩
      · rename_i notSigma
        exact isLow_of_mem_lowerChar notSigma here
    · exact ih later

theorem lowerFrom_of_isLow {text : List Char} (low : ∀ c ∈ text, IsLow c) (before : List Char) :
    lowerFrom before text = text := by
  induction text generalizing before with
  | nil => rfl
  | cons c rest ih =>
    obtain ⟨⟨notSigma, same⟩, low⟩ := List.forall_mem_cons.1 low
    rw [lowerFrom, if_neg notSigma, same, ih low]
    rfl

theorem lower_lower (text : List Char) : lower (lower text) = lower text :=
  lowerFrom_of_isLow (fun _ hd => isLow_of_mem_lowerFrom hd) []

end RegisterMachine.Text
