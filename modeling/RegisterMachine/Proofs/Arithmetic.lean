import Mathlib.Data.Int.ModEq
import RegisterMachine.Proofs.SignedComparison
/-! The arithmetic unit against the integers. A result is the one word that stands for the exact
result modulo 2 ^ 32; division goes toward zero, and shifts are by an amount from 0 to 31. -/
namespace RegisterMachine

namespace Word

theorem toInt_modEq_iff (w : Word) (n : Int) : w.toInt ≡ n [ZMOD 2 ^ 32] ↔ w = .ofInt n := by
  have low := w.le_toInt
  have high := w.toInt_lt
  rw [← Int32.toInt_inj, Int32.toInt_ofInt, Int.bmod_def]
  simp only [Int.ModEq, Int32.size]
  split <;> omega

theorem toNat_shiftAmount (b : Word) : (b.toBitVec.smod 32).toNat = (b.toInt % 32).toNat := by
  have value : (b.toBitVec.smod 32).toInt = b.toInt % 32 := by
    rw [BitVec.toInt_smod]
    exact Int.fmod_eq_emod_of_nonneg _ (by decide)
  have unsigned : (b.toBitVec.smod 32).msb = false := by
    rw [BitVec.msb_eq_toInt, value, decide_eq_false_iff_not]
    omega
  rw [← value, BitVec.toNat_toInt_of_msb _ unsigned]

theorem toInt_shiftLeft_modEq (a b : Word) :
    (a <<< b).toInt ≡ a.toInt * 2 ^ (b.toInt % 32).toNat [ZMOD 2 ^ 32] := by
  have bits (x : BitVec 32) : x.toInt ≡ x.toNat [ZMOD 2 ^ 32] := by
    rw [BitVec.toInt_eq_toNat_bmod]
    exact Int.bmod_emod
  rw [← Int32.toInt_toBitVec, Int32.toBitVec_shiftLeft, BitVec.shiftLeft_eq', toNat_shiftAmount]
  calc (a.toBitVec <<< (b.toInt % 32).toNat).toInt
      ≡ (a.toBitVec <<< (b.toInt % 32).toNat).toNat [ZMOD 2 ^ 32] := bits _
    _ ≡ a.toBitVec.toNat * 2 ^ (b.toInt % 32).toNat [ZMOD 2 ^ 32] := by
      rw [BitVec.toNat_shiftLeft, Nat.shiftLeft_eq]
      push_cast
      exact Int.mod_modEq _ _
    _ ≡ a.toInt * 2 ^ (b.toInt % 32).toNat [ZMOD 2 ^ 32] := (bits a.toBitVec).symm.mul_right _

theorem toInt_shiftRight (a b : Word) :
    (a >>> b).toInt = a.toInt.fdiv (2 ^ (b.toInt % 32).toNat) := by
  have positive : (0 : Int) ≤ 2 ^ (b.toInt % 32).toNat := Int.pow_nonneg (by decide)
  rw [← Int32.toInt_toBitVec, Int32.toBitVec_shiftRight, BitVec.toInt_sshiftRight',
    toNat_shiftAmount, Int.shiftRight_eq_div_pow, Int.fdiv_eq_ediv_of_nonneg _ positive]
  push_cast
  rfl

end Word

/-- Division toward zero: the remainder is smaller than the divisor, and zero or of the sign of the
dividend. -/
structure DividesTo (a b q r : Int) : Prop where
  equation : a = q * b + r
  small : |r| < |b|
  sign : r = 0 ∨ 0 < a ∧ 0 < r ∨ a < 0 ∧ r < 0

instance (a b q r : Int) : Decidable (DividesTo a b q r) :=
  decidable_of_iff (a = q * b + r ∧ |r| < |b| ∧ (r = 0 ∨ 0 < a ∧ 0 < r ∨ a < 0 ∧ r < 0))
    ⟨fun h => ⟨h.1, h.2.1, h.2.2⟩, fun h => ⟨h.equation, h.small, h.sign⟩⟩

theorem dividesTo_iff {a b q r : Int} (nonzero : b ≠ 0) :
    DividesTo a b q r ↔ a.tdiv b = q ∧ a.tmod b = r := by
  have product : q * b = b * q := Int.mul_comm q b
  have bounds : |r| < |b| ↔ r.natAbs < b.natAbs := by
    rw [Int.abs_eq_natAbs, Int.abs_eq_natAbs, Int.ofNat_lt]
  constructor
  · rintro ⟨equation, small, sign⟩
    have small := bounds.1 small
    rcases Int.le_total 0 a with up | down
    · exact (Int.tdiv_tmod_unique up nonzero).2 (by omega)
    · exact (Int.tdiv_tmod_unique' down nonzero).2 (by omega)
  · intro h
    have ofZero : a = 0 → r = 0 := by
      rintro rfl
      simpa using h.2.symm
    rcases Int.le_total 0 a with up | down
    · have unique := (Int.tdiv_tmod_unique up nonzero).1 h
      exact ⟨by omega, bounds.2 (by omega), by omega⟩
    · have unique := (Int.tdiv_tmod_unique' down nonzero).1 h
      exact ⟨by omega, bounds.2 (by omega), by omega⟩

/-- What an operation has to make of the integers `a` and `b`: its result, and the extra output. -/
def Arith.Computes (x : Arith) (a b result extra : Int) : Prop :=
  match x with
  | .add => result ≡ a + b [ZMOD 2 ^ 32] ∧ extra = 0
  | .sub => result ≡ a - b [ZMOD 2 ^ 32] ∧ extra = 0
  | .mul => result ≡ a * b [ZMOD 2 ^ 32] ∧ extra = 0
  | .div =>
    if a = -2 ^ 31 ∧ b = -1 then result = -2 ^ 31 ∧ extra = 0 else DividesTo a b result extra
  | .leftShift => result ≡ a * 2 ^ (b % 32).toNat [ZMOD 2 ^ 32] ∧ extra = 0
  | .rightShift => result = a.fdiv (2 ^ (b % 32).toNat) ∧ extra = 0

instance : (x : Arith) → (a b result extra : Int) → Decidable (x.Computes a b result extra)
  | .add, _, _, _, _ | .sub, _, _, _, _ | .mul, _, _, _, _ | .leftShift, _, _, _, _ =>
    inferInstanceAs (Decidable (_ ≡ _ [ZMOD _] ∧ _ = _))
  | .div, a, b, result, extra => inferInstanceAs <| Decidable <|
    if a = -2 ^ 31 ∧ b = -1 then result = -2 ^ 31 ∧ extra = 0 else DividesTo a b result extra
  | .rightShift, _, _, _, _ => inferInstanceAs (Decidable (_ = _ ∧ _ = _))

namespace Alu
variable {a b : Word}

structure Gives (o : Outcome Fault Alu Output) (out : Output) : Prop where
  result : o.result = .ok out
  cleared : o.state.dividedByZero = false
  zero : o.state.flags = .zero ↔ out.result.toInt = 0
  positive : o.state.flags = .positive ↔ 0 < out.result.toInt
  negative : o.state.flags = .negative ↔ out.result.toInt < 0

theorem perform_gives {op : Opcode} {o : Operation} (known : op.aluOperation? = some o)
    {out : Output} (given : o.output? a b = some out) (alu : Alu) :
    Gives (alu.perform op a b) out := by
  have performed : alu.perform op a b = .ok out ⟨false, .ofWord out.result⟩ := by
    simp only [perform, known, run, given]
  rw [performed]
  exact ⟨rfl, rfl, Flags.ofWord_eq_zero_iff _, Flags.ofWord_eq_positive_iff _,
    Flags.ofWord_eq_negative_iff _⟩

theorem congruent_iff {w : Word} {n : Int} (h : w.toInt ≡ n [ZMOD 2 ^ 32]) (other : Output) :
    other.result.toInt ≡ n [ZMOD 2 ^ 32] ∧ other.extra.toInt = 0 ↔ other = ⟨w, 0⟩ := by
  obtain ⟨result, extra⟩ := other
  rw [Word.toInt_modEq_iff, ← (Word.toInt_modEq_iff w n).1 h, Output.mk.injEq,
    ← Int32.toInt_inj (x := extra)]
  rfl

theorem division_iff (nonzero : b ≠ 0) (other : Output) :
    Arith.div.Computes a.toInt b.toInt other.result.toInt other.extra.toInt ↔
      other = ⟨a / b, a % b⟩ := by
  have hb : b.toInt ≠ 0 := fun zero => nonzero (Int32.toInt_inj.1 zero)
  obtain ⟨result, extra⟩ := other
  rw [Output.mk.injEq, ← Int32.toInt_inj, ← Int32.toInt_inj, Int32.toInt_mod]
  unfold Arith.Computes
  dsimp only
  split
  · rename_i outermost
    obtain ⟨least, minus⟩ := outermost
    rw [Int32.toInt_div, least, minus]
    rfl
  · rename_i inner
    have quotient : (a / b).toInt = a.toInt.tdiv b.toInt := by
      by_cases least : a = Int32.minValue
      · refine Int32.toInt_div_of_ne_right a b fun minus => inner ⟨?_, ?_⟩
        · rw [least]
          rfl
        · rw [minus]
          rfl
      · exact Int32.toInt_div_of_ne_left a b least
    rw [dividesTo_iff hb, quotient, eq_comm, @eq_comm _ (a.toInt.tmod b.toInt)]

theorem computes_iff {x : Arith} {out : Output}
    (given : Operation.output? (.arith x) a b = some out) (other : Output) :
    x.Computes a.toInt b.toInt other.result.toInt other.extra.toInt ↔ other = out := by
  cases x with
  | add =>
    obtain rfl : ⟨a + b, 0⟩ = out := Option.some.inj given
    have sum : (a + b).toInt ≡ a.toInt + b.toInt [ZMOD 2 ^ 32] := by
      rw [Int32.toInt_add]
      exact Int.bmod_emod
    exact congruent_iff sum other
  | sub =>
    obtain rfl : ⟨a - b, 0⟩ = out := Option.some.inj given
    have difference : (a - b).toInt ≡ a.toInt - b.toInt [ZMOD 2 ^ 32] := by
      rw [Int32.toInt_sub]
      exact Int.bmod_emod
    exact congruent_iff difference other
  | mul =>
    obtain rfl : ⟨a * b, 0⟩ = out := Option.some.inj given
    have product : (a * b).toInt ≡ a.toInt * b.toInt [ZMOD 2 ^ 32] := by
      rw [Int32.toInt_mul]
      exact Int.bmod_emod
    exact congruent_iff product other
  | div =>
    by_cases zero : b = 0
    · simp [Operation.output?, zero] at given
    · obtain rfl : ⟨a / b, a % b⟩ = out := by simpa [Operation.output?, zero] using given
      exact division_iff zero other
  | leftShift =>
    obtain rfl : ⟨a <<< b, 0⟩ = out := Option.some.inj given
    exact congruent_iff (Word.toInt_shiftLeft_modEq a b) other
  | rightShift =>
    obtain rfl : ⟨a >>> b, 0⟩ = out := Option.some.inj given
    obtain ⟨result, extra⟩ := other
    unfold Arith.Computes
    dsimp only
    rw [← Word.toInt_shiftRight, Output.mk.injEq, Int32.toInt_inj, ← Int32.toInt_inj (x := extra)]
    rfl

/-- The arithmetic of the unit is that of two's complement, with any words and any status before.
Each operation gives the one output that computes it, and the status then tells the sign of the
result. Only a division by zero has none: it gives zeros, and keeps the flags. Immediate forms do
what register forms do. -/
theorem arithmetic_is_twos_complement (alu : Alu) (a b : Word) :
    (∀ x : Arith, (x = .div → b ≠ 0) → ∃ out,
      (∀ other : Output, x.Computes a.toInt b.toInt other.result.toInt other.extra.toInt ↔
        other = out) ∧
      Gives (alu.perform x.opcode a b) out) ∧
    Gives (alu.perform .equal a b) ⟨if a = b then 1 else 0, 0⟩ ∧
    (b = 0 → (alu.perform .div a b).result = .ok ⟨0, 0⟩ ∧
      (alu.perform .div a b).state = { alu with dividedByZero := true }) ∧
    ∀ x : Arith, alu.perform x.immediateOpcode a b = alu.perform x.opcode a b := by
  refine ⟨fun x defined => ?_, perform_gives rfl rfl alu, fun zero => ?_, fun x => ?_⟩
  · have some : ∃ out, Operation.output? (.arith x) a b = some out := by
      cases x with
      | div => exact ⟨_, if_neg (defined rfl)⟩
      | _ => exact ⟨_, rfl⟩
    obtain ⟨out, given⟩ := some
    exact ⟨out, computes_iff given, perform_gives (Opcode.aluOperation?_forms x).1 given alu⟩
  · rw [zero]
    exact ⟨rfl, rfl⟩
  · unfold perform
    rw [(Opcode.aluOperation?_forms x).1, (Opcode.aluOperation?_forms x).2]

/-- The quotient that is no word, a shift to the right by a negative amount, and a division by zero
after a negative result. -/
theorem arithmetic_is_twos_complement_extremes :
    let alu : Alu := ⟨false, .negative⟩
    Gives (alu.perform .divI (-2147483648) (-1)) ⟨-2147483648, 0⟩ ∧
      Gives (alu.perform .rightShift (-9) (-31)) ⟨-5, 0⟩ ∧
      (alu.perform .div (-9) 0).result = .ok ⟨0, 0⟩ ∧
      (alu.perform .div (-9) 0).state = ⟨true, .negative⟩ := by
  intro alu
  obtain ⟨divides, -, -, forms⟩ := arithmetic_is_twos_complement alu (-2147483648) (-1)
  obtain ⟨shifts, -, -, -⟩ := arithmetic_is_twos_complement alu (-9) (-31)
  obtain ⟨-, -, byZero, -⟩ := arithmetic_is_twos_complement alu (-9) 0
  obtain ⟨quotient, only, gives⟩ := divides .div fun _ => by decide
  obtain ⟨shifted, only', gives'⟩ := shifts .rightShift nofun
  have least : (⟨-2147483648, 0⟩ : Output) = quotient := (only _).1 (by decide)
  have floor : (⟨-5, 0⟩ : Output) = shifted := (only' _).1 (by decide)
  have immediate : alu.perform .divI (-2147483648) (-1) = alu.perform .div (-2147483648) (-1) :=
    forms .div
  refine ⟨?_, floor ▸ gives', byZero rfl⟩
  rw [immediate, least]
  exact gives

end Alu

end RegisterMachine
