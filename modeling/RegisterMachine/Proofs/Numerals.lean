import RegisterMachine.Numeral
import RegisterMachine.Proofs.Text.Joined
/-! Words as decimal literals: reading what is written gives the word back. -/
namespace RegisterMachine.Numeral
open Text (isPlain Plain)

theorem isDigit_bounds {c : Char} (h : c.isDigit = true) : 48 ≤ c.toNat ∧ c.toNat ≤ 57 := by
  simp only [Char.isDigit, Bool.and_eq_true, decide_eq_true_eq, ge_iff_le,
    UInt32.le_iff_toNat_le] at h
  exact h

theorem digit?_of_isDigit {c : Char} (h : c.isDigit = true) : digit? c = some (c.toNat - 48) := by
  obtain ⟨low, high⟩ := isDigit_bounds h
  have range : '0' ≤ c ∧ c ≤ '9' := ⟨low, high⟩
  rw [digit?, if_pos range]
  rfl

theorem digitsFrom?_digits {digits : List Char} (h : ∀ c ∈ digits, c.isDigit = true) (n : Nat) :
    digitsFrom? 10 n digits = some (Nat.ofDigitChars 10 digits n) := by
  induction digits generalizing n with
  | nil => rfl
  | cons c rest ih =>
    obtain ⟨hc, hrest⟩ := List.forall_mem_cons.1 h
    have small : c.toNat - 48 < 10 := by
      have := isDigit_bounds hc
      omega
    simp only [digitsFrom?, digit?_of_isDigit hc, small, if_true, ih hrest,
      Nat.ofDigitChars_cons, Nat.mul_comm n 10]
    rfl

theorem isDigit_of_mem_digits {n : Nat} {c : Char} (hc : c ∈ Nat.toDigits 10 n) :
    c.isDigit = true :=
  Nat.isDigit_of_mem_toDigits (by decide) (by decide) hc

theorem magnitude?_digits (n : Nat) : magnitude? 10 (Nat.toDigits 10 n) = some n := by
  have read := digitsFrom?_digits (fun c hc => isDigit_of_mem_digits (n := n) hc) 0
  rw [Nat.ofDigitChars_ten_toDigits] at read
  cases hd : Nat.toDigits 10 n with
  | nil => exact absurd hd Nat.toDigits_ne_nil
  | cons c rest => rwa [hd] at read

theorem word?_toInt (w : Word) : word? w.toInt = some w := by
  have low := w.le_toInt
  have high := w.toInt_lt
  have range : -2147483648 ≤ w.toInt ∧ w.toInt ≤ 2147483647 := by omega
  rw [word?, if_pos range, Int32.ofInt_toInt]

theorem takeRadix_digits {digits : List Char} (h : ∀ c ∈ digits, c.isDigit = true) :
    takeRadix digits = (.decimal, digits) := by
  unfold takeRadix
  split
  · exact absurd (h 'b' (by simp)) (by decide)
  · exact absurd (h 'o' (by simp)) (by decide)
  · exact absurd (h 'x' (by simp)) (by decide)
  · rfl

theorem takeSign_digits {digits : List Char} (h : ∀ c ∈ digits, c.isDigit = true) :
    takeSign digits = (false, false, digits) := by
  unfold takeSign
  split
  · exact absurd (h '-' (by simp)) (by decide)
  · exact absurd (h '+' (by simp)) (by decide)
  · rfl

theorem startsWithDigit_digits (n : Nat) : startsWithDigit (Nat.toDigits 10 n) = true := by
  cases hd : Nat.toDigits 10 n with
  | nil => exact absurd hd Nat.toDigits_ne_nil
  | cons c rest => exact isDigit_of_mem_digits (n := n) (by simp [hd])

theorem read_digits {n : Nat} {w : Word} (h : word? n = some w) :
    read (Nat.toDigits 10 n) = .value w := by
  have digits : ∀ c ∈ Nat.toDigits 10 n, c.isDigit = true := fun c hc => isDigit_of_mem_digits hc
  simp [read, takeSign_digits digits, startsWithDigit_digits n, takeRadix_digits digits, Radix.base,
    magnitude?_digits n, h]

theorem read_minus {n : Nat} {w : Word} (h : word? (-(n : Int)) = some w) :
    read ('-' :: Nat.toDigits 10 n) = .value w := by
  have digits : ∀ c ∈ Nat.toDigits 10 n, c.isDigit = true := fun c hc => isDigit_of_mem_digits hc
  simp [read, takeSign, startsWithDigit_digits n, takeRadix_digits digits, Radix.base,
    magnitude?_digits n, h]

theorem read_write (w : Word) : read (write w) = .value w := by
  have value : word? w.toInt = some w := word?_toInt w
  unfold write
  by_cases hw : w.toInt < 0
  · have sign : -(w.toInt.natAbs : Int) = w.toInt := by omega
    rw [if_pos hw]
    exact read_minus (by rw [sign, value])
  · have sign : (w.toInt.natAbs : Int) = w.toInt := by omega
    rw [if_neg hw]
    exact read_digits (by rw [sign, value])

theorem mem_write {w : Word} {c : Char} (hc : c ∈ write w) : c = '-' ∨ c.isDigit = true := by
  unfold write at hc
  split at hc
  · cases List.mem_cons.1 hc with
    | inl h => exact .inl h
    | inr h => exact .inr (isDigit_of_mem_digits h)
  · exact .inr (isDigit_of_mem_digits hc)

theorem write_plain (w : Word) : Plain (write w) := by
  constructor
  · unfold write
    split
    · exact List.cons_ne_nil _ _
    · exact Nat.toDigits_ne_nil
  · intro c hc
    cases mem_write hc with
    | inl h =>
      rw [h]
      decide
    | inr h =>
      have table : ∀ n < 58, 48 ≤ n → isPlain (Char.ofNat n) = true := by decide
      obtain ⟨low, high⟩ := isDigit_bounds h
      simpa using table c.toNat (Nat.lt_succ_of_le high) low

theorem toLower_of_mem_write {w : Word} {c : Char} (hc : c ∈ write w) : c.toLower = c := by
  cases mem_write hc with
  | inl h => simp [h]
  | inr h =>
    have table : ∀ n < 58, (Char.ofNat n).toLower = Char.ofNat n := by decide
    simpa using table c.toNat (Nat.lt_succ_of_le (isDigit_bounds h).2)

theorem map_toLower_write (w : Word) : (write w).map Char.toLower = write w := by
  rw [List.map_congr_left fun c hc => toLower_of_mem_write hc, List.map_id']

/-! ### Leading zeros -/

theorem digitChar_of_digit? {c : Char} {d : Nat} (h : digit? c = some d) (small : d < 10) :
    Nat.digitChar d = c := by
  unfold digit? at h
  split at h
  · rename_i range
    have low : 48 ≤ c.toNat := range.1
    obtain rfl : c.toNat - 48 = d := by simpa using h
    apply Char.toNat_inj.1
    rw [Nat.toNat_digitChar_of_lt_ten small]
    omega
  · -- the letters stand for ten and more
    split at h
    · obtain rfl : c.toNat - 97 + 10 = d := by simpa using h
      omega
    · split at h
      · obtain rfl : c.toNat - 65 + 10 = d := by simpa using h
        omega
      · cases h

theorem toDigits_append_of_digitsFrom? {digits : List Char} {m n : Nat} (positive : 0 < m)
    (h : digitsFrom? 10 m digits = some n) : Nat.toDigits 10 m ++ digits = Nat.toDigits 10 n := by
  induction digits generalizing m with
  | nil =>
    obtain rfl : m = n := by simpa [digitsFrom?] using h
    exact List.append_nil _
  | cons c rest ih =>
    unfold digitsFrom? at h
    cases hc : digit? c with
    | none => simp [hc] at h
    | some d =>
      by_cases small : d < 10
      · have shifted : 0 < m * 10 + d := by omega
        have next : Nat.toDigits 10 m ++ [c] = Nat.toDigits 10 (m * 10 + d) := by
          rw [Nat.mul_comm m, ← Nat.toDigits_append_toDigits (by decide) positive small,
            Nat.toDigits_of_lt_base small, digitChar_of_digit? hc small]
        rw [hc] at h
        rw [← ih shifted (by simpa [small] using h), ← next, List.append_assoc]
        rfl
      · simp [hc, small] at h

/-- Digits have a value when they are its decimal digits after any number of zeros. -/
theorem magnitude?_eq_some_iff {digits : List Char} {n : Nat} :
    magnitude? 10 digits = some n ↔
      ∃ zeros, digits = List.replicate zeros '0' ++ Nat.toDigits 10 n := by
  constructor
  · intro h
    induction digits with
    | nil => cases h
    | cons c rest ih =>
      have h : digitsFrom? 10 0 (c :: rest) = some n := h
      unfold digitsFrom? at h
      cases hc : digit? c with
      | none => simp [hc] at h
      | some d =>
        by_cases small : d < 10
        · have char := digitChar_of_digit? hc small
          have h : digitsFrom? 10 d rest = some n := by simpa [hc, small] using h
          rcases Nat.eq_zero_or_pos d with rfl | positive
          · cases rest with
            | nil =>
              obtain rfl : 0 = n := by simpa [digitsFrom?] using h
              exact ⟨0, by rw [← char]; rfl⟩
            | cons c' rest =>
              obtain ⟨zeros, same⟩ := ih h
              exact ⟨zeros + 1, by rw [same, ← char]; rfl⟩
          · refine ⟨0, ?_⟩
            rw [← toDigits_append_of_digitsFrom? positive h, Nat.toDigits_of_lt_base small, char]
            rfl
        · simp [hc, small] at h
  · rintro ⟨zeros, rfl⟩
    have skip : digitsFrom? 10 0 (List.replicate zeros '0' ++ Nat.toDigits 10 n) =
        digitsFrom? 10 0 (Nat.toDigits 10 n) := by
      induction zeros with
      | zero => rfl
      | succ zeros ih => exact ih
    have value := magnitude?_digits n
    unfold magnitude? at value ⊢
    split
    · rename_i nil
      simp [Nat.toDigits_ne_nil] at nil
    · rw [skip]
      split at value
      · cases value
      · exact value

theorem head_digits {n : Nat} (positive : 0 < n) : (Nat.toDigits 10 n).head? ≠ some '0' := by
  induction n using Nat.strongRecOn with
  | ind n ih =>
    by_cases small : n < 10
    · have nonzero : ∀ d < 10, 0 < d → Nat.digitChar d ≠ '0' := by decide
      rw [Nat.toDigits_of_lt_base small]
      simpa using nonzero n small positive
    · have lead := ih (n / 10) (by omega) (by omega)
      rw [Nat.toDigits_eq_if (by decide), if_neg small,
        List.head?_append_of_ne_nil _ Nat.toDigits_ne_nil]
      exact lead

end RegisterMachine.Numeral
