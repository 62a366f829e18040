import Mathlib.Data.List.Forall2
import Mathlib.Data.Nat.Digits.Defs
import RegisterMachine.Proofs.Numerals
/-! Number literals as a notation. Its literals are given by a sign, a radix and digits, and each
stands for an integer; a token is read by it without loss. -/
namespace RegisterMachine

inductive Sign where
  | none | plus | minus
  deriving DecidableEq

namespace Sign

def text : Sign → List Char
  | .none => []
  | .plus => ['+']
  | .minus => ['-']

def apply : Sign → Int → Int
  | .minus, n => -n
  | _, n => n

end Sign

namespace Radix

def marker : Radix → List Char
  | .binary => ['0', 'b']
  | .octal => ['0', 'o']
  | .decimal => []
  | .hexadecimal => ['0', 'x']

inductive SelectedBy (token : Token) : Radix → Prop where
  | marked {sign : Sign} {radix : Radix} (special : radix ≠ .decimal)
    (start : sign.text ++ radix.marker <+: token) : SelectedBy token radix
  | unmarked (none : ∀ (sign : Sign) (radix : Radix),
    sign.text ++ radix.marker <+: token → radix = .decimal) : SelectedBy token .decimal

theorem base_le (radix : Radix) : radix.base ≤ 16 := by
  cases radix <;> decide

end Radix

/-- A literal, of any length: leading zeros are digits like others. -/
structure Literal where
  sign : Sign
  radix : Radix
  digits : List (Fin radix.base)
  nonempty : digits ≠ []

namespace Numeral

def Writes (d : Nat) (c : Char) : Prop := c = Nat.digitChar d ∨ c = (Nat.digitChar d).toUpper

instance (d : Nat) (c : Char) : Decidable (Writes d c) := inferInstanceAs (Decidable (_ ∨ _))

end Numeral

namespace Literal

def value (l : Literal) : Int :=
  l.sign.apply (Nat.ofDigits l.radix.base (l.digits.map Fin.val).reverse : Nat)

def Fits (l : Literal) : Prop := -2 ^ 31 ≤ l.value ∧ l.value ≤ 2 ^ 31 - 1

/-- The token is a sign, a marker and digits of the literal. -/
def SpelledBy (l : Literal) (token : Token) : Prop :=
  ∃ written, token = l.sign.text ++ (l.radix.marker ++ written) ∧
    List.Forall₂ (fun d c => Numeral.Writes d.val c) l.digits written

end Literal

namespace Numeral

/-- The token spells a literal that stands for the word. -/
def Spells (token : Token) (w : Word) : Prop :=
  ∃ l : Literal, l.SpelledBy token ∧ l.Fits ∧ l.value = w.toInt

def Wordy (token : Token) : Prop := ∀ c ∈ token.head?, c ≠ '+' ∧ c ≠ '-' ∧ c.isDigit = false

/-- The token starts like a number, but spells no literal of a word. -/
def Misspells (token : Token) (radix : Radix) : Prop :=
  radix.SelectedBy token ∧ (¬∃ l : Literal, l.SpelledBy token ∧ l.Fits) ∧ ¬Wordy token

instance (token : Token) : Decidable (Wordy token) :=
  decidable_of_iff ((token.head?.all fun c => c != '+' && c != '-' && !c.isDigit) = true) (by
    cases token <;> simp [Wordy, and_assoc])

theorem digit?_eq_some_iff {c : Char} {d : Nat} : digit? c = some d ↔ d < 16 ∧ Writes d c := by
  constructor
  · intro h
    have table : ∀ n < 103, ∀ d ∈ digit? (Char.ofNat n), d < 16 ∧ Writes d (Char.ofNat n) := by
      decide
    have bounded : c.toNat < 103 := by
      by_contra above
      have numeral : ¬ c ≤ '9' := fun le => above (Nat.lt_of_le_of_lt le (by decide))
      have small : ¬ c ≤ 'f' := fun le => above (Nat.lt_of_le_of_lt le (by decide))
      have capital : ¬ c ≤ 'F' := fun le => above (Nat.lt_of_le_of_lt le (by decide))
      simp [digit?, numeral, small, capital] at h
    simpa [h] using table c.toNat bounded
  · have table : ∀ d < 16, digit? (Nat.digitChar d) = some d ∧
        digit? (Nat.digitChar d).toUpper = some d := by decide
    rintro ⟨small, rfl | rfl⟩
    · exact (table d small).1
    · exact (table d small).2

/-- Digits are read on from `n` as if `n` stood before them. -/
theorem digitsFrom?_eq_some_iff {base : Nat} (small : base ≤ 16) {n m : Nat}
    {written : List Char} :
    digitsFrom? base n written = some m ↔ ∃ digits : List (Fin base),
      List.Forall₂ (fun d c => Writes d.val c) digits written ∧
      Nat.ofDigits base ((digits.map Fin.val).reverse ++ [n]) = m := by
  induction written generalizing n with
  | nil =>
    constructor
    · intro h
      exact ⟨[], .nil, by simpa [digitsFrom?] using h⟩
    · rintro ⟨digits, spelled, value⟩
      obtain rfl := List.forall₂_nil_right_iff.1 spelled
      simpa [digitsFrom?] using value
  | cons c rest ih =>
    -- a further digit in front moves what stood there one place up
    have shift (d : Nat) (digits : List Nat) :
        Nat.ofDigits base ((d :: digits).reverse ++ [n]) =
          Nat.ofDigits base (digits.reverse ++ [n * base + d]) := by
      have last : Nat.ofDigits base [d, n] = Nat.ofDigits base [n * base + d] := by
        simp [Nat.ofDigits, Nat.mul_comm n, Nat.add_comm]
      rw [List.reverse_cons, List.append_assoc, List.singleton_append, Nat.ofDigits_append, last,
        ← Nat.ofDigits_append]
    unfold digitsFrom?
    constructor
    · intro h
      split at h
      · cases h
      · rename_i d digit
        split at h
        · rename_i below
          obtain ⟨digits, spelled, value⟩ := ih.1 h
          refine ⟨⟨d, below⟩ :: digits, .cons (digit?_eq_some_iff.1 digit).2 spelled, ?_⟩
          rw [← value]
          exact shift d _
        · cases h
    · rintro ⟨digits, spelled, value⟩
      cases digits with
      | nil => cases spelled
      | cons d digits =>
        obtain ⟨digit, spelled⟩ := List.forall₂_cons.1 spelled
        have read := digit?_eq_some_iff.2 ⟨by omega, digit⟩
        simp only [read, d.isLt, if_true]
        exact ih.2 ⟨digits, spelled, by rw [← value]; exact (shift d _).symm⟩

theorem magnitude?_spelled {base : Nat} (small : base ≤ 16) {m : Nat} {written : List Char} :
    magnitude? base written = some m ↔ ∃ digits : List (Fin base), digits ≠ [] ∧
      List.Forall₂ (fun d c => Writes d.val c) digits written ∧
      Nat.ofDigits base (digits.map Fin.val).reverse = m := by
  have lead (digits : List (Fin base)) : Nat.ofDigits base ((digits.map Fin.val).reverse ++ [0]) =
      Nat.ofDigits base (digits.map Fin.val).reverse := by
    simp [Nat.ofDigits_append]
  cases written with
  | nil => simp [magnitude?]
  | cons c rest =>
    change digitsFrom? base 0 (c :: rest) = some m ↔ _
    simp only [digitsFrom?_eq_some_iff small, lead]
    refine exists_congr fun digits => (and_iff_right_of_imp ?_).symm
    rintro ⟨spelled, -⟩ rfl
    cases spelled

theorem word?_eq_some_iff {n : Int} {w : Word} : word? n = some w ↔ w.toInt = n := by
  constructor
  · intro h
    unfold word? at h
    split at h
    · rename_i range
      obtain rfl : Int32.ofInt n = w := Option.some.inj h
      exact Int32.toInt_ofInt_of_le range.1 (Int.lt_add_one_of_le range.2)
    · cases h
  · rintro rfl
    exact word?_toInt w

def ofBody (sign : Sign) (body : List Char) : Reading :=
  match magnitude? (takeRadix body).1.base (takeRadix body).2 with
  | none => .malformed (takeRadix body).1
  | some n =>
    match word? (sign.apply n) with
    | none => .malformed (takeRadix body).1
    | some w => .value w

def Follows (sign : Sign) (body : List Char) : Prop :=
  sign = .none → ∀ c ∈ body.head?, c ≠ '+' ∧ c ≠ '-'

theorem exists_sign (token : Token) :
    ∃ (sign : Sign) (body : List Char), token = sign.text ++ body ∧ Follows sign body := by
  by_cases unsigned : ∀ c ∈ token.head?, c ≠ '+' ∧ c ≠ '-'
  · exact ⟨.none, token, rfl, fun _ => unsigned⟩
  · cases token with
    | nil => simp at unsigned
    | cons c body =>
      by_cases plus : c = '+'
      · exact ⟨.plus, body, by rw [plus]; rfl, nofun⟩
      · obtain rfl : c = '-' := by simpa [plus] using unsigned
        exact ⟨.minus, body, rfl, nofun⟩

theorem takeSign_text {sign : Sign} {body : List Char} (follows : Follows sign body) :
    takeSign (sign.text ++ body) = (decide (sign ≠ .none), decide (sign = .minus), body) := by
  cases sign with
  | none =>
    have unsigned := follows rfl
    change takeSign body = (false, false, body)
    unfold takeSign
    split
    · exact absurd rfl (unsigned '-' rfl).2
    · exact absurd rfl (unsigned '+' rfl).1
    · rfl
  | plus => rfl
  | minus => rfl

/-- How a token is read: by its digits, or as a sign that none follow, or not at all. -/
theorem read_text {sign : Sign} {body : List Char} (follows : Follows sign body) :
    read (sign.text ++ body) =
      if startsWithDigit body = true then ofBody sign body
      else if sign = .none then .other else .malformed .decimal := by
  unfold read
  rw [takeSign_text follows]
  cases sign <;> rfl

theorem startsWithDigit_eq_true_iff {body : List Char} :
    startsWithDigit body = true ↔ ∃ c ∈ body.head?, c.isDigit = true := by
  cases body <;> simp [startsWithDigit]

theorem follows_of_digit {body : List Char} (digit : startsWithDigit body = true) (sign : Sign) :
    Follows sign body := by
  rintro - c head
  obtain ⟨c', head', numeral⟩ := startsWithDigit_eq_true_iff.1 digit
  obtain rfl : c' = c := Option.some.inj (head'.symm.trans head)
  constructor <;>
  · rintro rfl
    exact absurd numeral (by decide)

/-! ### Markers -/

theorem marker_takeRadix (body : List Char) :
    body = (takeRadix body).1.marker ++ (takeRadix body).2 := by
  unfold takeRadix
  split <;> rfl

theorem takeRadix_marker {radix : Radix} (special : radix ≠ .decimal) (rest : List Char) :
    takeRadix (radix.marker ++ rest) = (radix, rest) := by
  cases radix with
  | decimal => exact absurd rfl special
  | _ => rfl

theorem takeRadix_of_no_digit {body : List Char} (h : startsWithDigit body = false) :
    (takeRadix body).1 = .decimal := by
  unfold takeRadix
  split
  · cases h
  · cases h
  · cases h
  · rfl

theorem follows_marker {radix : Radix} (special : radix ≠ .decimal) (sign : Sign)
    (rest : List Char) : Follows sign (radix.marker ++ rest) := by
  refine follows_of_digit ?_ sign
  cases radix with
  | decimal => exact absurd rfl special
  | _ => rfl

theorem selectedBy_iff {sign : Sign} {body : List Char} (follows : Follows sign body)
    {radix : Radix} :
    radix.SelectedBy (sign.text ++ body) ↔ (takeRadix body).1 = radix := by
  have marked {sign' : Sign} {radix : Radix} (special : radix ≠ .decimal)
      (start : sign'.text ++ radix.marker <+: sign.text ++ body) :
      (takeRadix body).1 = radix := by
    obtain ⟨rest, same⟩ := start
    have taken := congrArg (fun token => (takeSign token).2.2) same
    rw [List.append_assoc, takeSign_text follows,
      takeSign_text (follows_marker special sign' rest)] at taken
    obtain rfl : radix.marker ++ rest = body := taken
    rw [takeRadix_marker special]
  have start : sign.text ++ (takeRadix body).1.marker <+: sign.text ++ body :=
    ⟨(takeRadix body).2, by rw [List.append_assoc, ← marker_takeRadix]⟩
  constructor
  · intro selected
    cases selected with
    | marked special start => exact marked special start
    | unmarked none => exact none sign _ start
  · rintro rfl
    by_cases special : (takeRadix body).1 = .decimal
    · rw [special]
      refine .unmarked fun sign' radix start => ?_
      by_contra other
      exact other ((marked other start).symm.trans special)
    · exact .marked special start

/-! ### Reading is exact -/

theorem isDigit_of_writes {d : Nat} {c : Char} (small : d < 10) (h : Writes d c) :
    c.isDigit = true := by
  have table : ∀ d < 10, (Nat.digitChar d).isDigit = true ∧
      (Nat.digitChar d).toUpper.isDigit = true := by decide
  obtain rfl | rfl := h
  · exact (table d small).1
  · exact (table d small).2

theorem isDigit_of_spelled {base : Nat} (ten : base ≤ 10) {digits : List (Fin base)}
    {written : List Char} (spelled : List.Forall₂ (fun d c => Writes d.val c) digits written) :
    ∀ c ∈ written, c.isDigit = true := by
  induction spelled with
  | nil => nofun
  | cons writes _ ih => exact List.forall_mem_cons.2 ⟨isDigit_of_writes (by omega) writes, ih⟩

theorem takeRadix_spelled {radix : Radix} {digits : List (Fin radix.base)} {written : List Char}
    (nonempty : digits ≠ []) (spelled : List.Forall₂ (fun d c => Writes d.val c) digits written) :
    startsWithDigit (radix.marker ++ written) = true ∧
      takeRadix (radix.marker ++ written) = (radix, written) := by
  cases radix with
  | decimal =>
    have numerals := isDigit_of_spelled (Nat.le_refl 10) spelled
    refine ⟨?_, takeRadix_digits numerals⟩
    cases spelled with
    | nil => exact absurd rfl nonempty
    | cons => exact numerals _ List.mem_cons_self
  | _ => exact ⟨rfl, rfl⟩

theorem read_spelled {l : Literal} {token : Token} (spelled : l.SpelledBy token) :
    read token =
      match word? l.value with
      | none => .malformed l.radix
      | some w => .value w := by
  obtain ⟨written, rfl, digits⟩ := spelled
  obtain ⟨digit, marker⟩ := takeRadix_spelled l.nonempty digits
  have magnitude := (magnitude?_spelled l.radix.base_le).2 ⟨l.digits, l.nonempty, digits, rfl⟩
  rw [read_text (follows_of_digit digit l.sign), if_pos digit]
  simp only [ofBody, marker, magnitude]
  rfl

theorem spelled_of_ofBody {sign : Sign} {body : List Char} {w : Word}
    (h : ofBody sign body = .value w) :
    ∃ l : Literal, l.SpelledBy (sign.text ++ body) ∧ l.value = w.toInt := by
  unfold ofBody at h
  split at h
  · cases h
  · rename_i n magnitude
    split at h
    · cases h
    · rename_i w' word
      obtain rfl : w' = w := by simpa using h
      obtain ⟨digits, nonempty, spelled, value⟩ :=
        (magnitude?_spelled (takeRadix body).1.base_le).1 magnitude
      refine ⟨⟨sign, (takeRadix body).1, digits, nonempty⟩, ⟨(takeRadix body).2, ?_, spelled⟩, ?_⟩
      · rw [← marker_takeRadix]
      · rw [word?_eq_some_iff.1 word, ← value]
        rfl

theorem fits_iff {l : Literal} : l.Fits ↔ ∃ w : Word, l.value = w.toInt := by
  constructor
  · rintro ⟨low, high⟩
    exact ⟨.ofInt l.value, (Int32.toInt_ofInt_of_le low (Int.lt_add_one_of_le high)).symm⟩
  · rintro ⟨w, value⟩
    have low := w.le_toInt
    have high := w.toInt_lt
    exact ⟨by omega, by omega⟩

theorem read_eq_value_iff {token : Token} {w : Word} : read token = .value w ↔ Spells token w := by
  constructor
  · intro h
    obtain ⟨sign, body, rfl, follows⟩ := exists_sign token
    rw [read_text follows] at h
    split at h
    · obtain ⟨l, spelled, value⟩ := spelled_of_ofBody h
      exact ⟨l, spelled, fits_iff.2 ⟨w, value⟩, value⟩
    · split at h <;> cases h
  · rintro ⟨l, spelled, -, value⟩
    rw [read_spelled spelled, word?_eq_some_iff.2 value.symm]

theorem read_eq_other_iff {token : Token} : read token = .other ↔ Wordy token := by
  unfold Wordy
  obtain ⟨sign, body, rfl, follows⟩ := exists_sign token
  have digits : ofBody sign body ≠ .other := by
    unfold ofBody
    split
    · nofun
    · split <;> nofun
  rw [read_text follows]
  cases sign with
  | none =>
    have unsigned := follows rfl
    change _ ↔ ∀ c ∈ body.head?, _
    cases body with
    | nil => simp [startsWithDigit]
    | cons c rest =>
      have unsigned := unsigned c rfl
      cases digit : c.isDigit <;> simp_all [startsWithDigit]
  | plus => split <;> simp_all [Sign.text]
  | minus => split <;> simp_all [Sign.text]

theorem selectedBy_of_malformed {token : Token} {radix : Radix}
    (h : read token = .malformed radix) : radix.SelectedBy token := by
  obtain ⟨sign, body, rfl, follows⟩ := exists_sign token
  rw [selectedBy_iff follows]
  rw [read_text follows] at h
  split at h
  · unfold ofBody at h
    split at h
    · simpa using h
    · split at h
      · simpa using h
      · cases h
  · rename_i digit
    split at h
    · cases h
    · obtain rfl : Radix.decimal = radix := by simpa using h
      exact takeRadix_of_no_digit (by simpa using digit)

theorem selectedBy_unique {token : Token} {radix radix' : Radix} (h : radix.SelectedBy token)
    (h' : radix'.SelectedBy token) : radix = radix' := by
  obtain ⟨sign, body, rfl, follows⟩ := exists_sign token
  exact ((selectedBy_iff follows).1 h).symm.trans ((selectedBy_iff follows).1 h')

theorem read_eq_malformed_iff {token : Token} {radix : Radix} :
    read token = .malformed radix ↔ Misspells token radix := by
  constructor
  · intro malformed
    refine ⟨selectedBy_of_malformed malformed, ?_, ?_⟩
    · rintro ⟨l, spelled, fits⟩
      obtain ⟨w, value⟩ := fits_iff.1 fits
      cases malformed.symm.trans (read_eq_value_iff.2 ⟨l, spelled, fits, value⟩)
    · intro wordy
      cases malformed.symm.trans (read_eq_other_iff.2 wordy)
  · rintro ⟨selected, unfit, number⟩
    cases reading : read token with
    | other => exact absurd (read_eq_other_iff.1 reading) number
    | malformed radix' =>
      rw [selectedBy_unique selected (selectedBy_of_malformed reading)]
    | value w =>
      obtain ⟨l, spelled, fits, -⟩ := read_eq_value_iff.1 reading
      exact absurd ⟨l, spelled, fits⟩ unfit

theorem Wordy.not_spells {token : Token} {w : Word} (wordy : Wordy token) : ¬Spells token w := by
  intro spells
  cases (read_eq_other_iff.2 wordy).symm.trans (read_eq_value_iff.2 spells)

namespace Misspells
variable {token : Token} {radix radix' : Radix}

theorem not_spells {w : Word} (misspells : Misspells token radix) : ¬Spells token w := by
  rintro ⟨l, spelled, fits, -⟩
  exact misspells.2.1 ⟨l, spelled, fits⟩

theorem not_wordy (misspells : Misspells token radix) : ¬Wordy token := misspells.2.2

theorem unique (h : Misspells token radix) (h' : Misspells token radix') : radix = radix' :=
  selectedBy_unique h.1 h'.1

end Misspells

/-- Reading is exact for every token. It has a value when it spells a literal, of any length, whose
integer fits a word; that integer is then the value. It is no number when neither a sign nor a digit
is at its start. Any other is reported with the radix that it selects: nothing is cut or wrapped. -/
theorem read_is_exact (token : Token) :
    (∀ w : Word, read token = .value w ↔
      ∃ l : Literal, l.SpelledBy token ∧ l.Fits ∧ l.value = w.toInt) ∧
    (read token = .other ↔ ∀ c ∈ token.head?, c ≠ '+' ∧ c ≠ '-' ∧ c.isDigit = false) ∧
    ∀ radix : Radix, read token = .malformed radix ↔
      radix.SelectedBy token ∧ (¬ ∃ l : Literal, l.SpelledBy token ∧ l.Fits) ∧
      ¬ ∀ c ∈ token.head?, c ≠ '+' ∧ c ≠ '-' ∧ c.isDigit = false := by
  exact ⟨fun w => read_eq_value_iff, read_eq_other_iff, fun radix => read_eq_malformed_iff⟩

/-- Both ends of the range of words, the second one with digits beyond 64 bits. -/
example : read "-0b10000000000000000000000000000000".toList = .value (-2147483648) ∧
    read "+00000000000000000000002147483647".toList = .value 2147483647 ∧
    read "0x80000000".toList = .malformed .hexadecimal ∧
    read "-x".toList = .malformed .decimal := by
  decide

end Numeral

end RegisterMachine
