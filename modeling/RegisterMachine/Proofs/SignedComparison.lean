import Mathlib.Logic.ExistsUnique
import RegisterMachine.Machine.Execute
/-! Branches against the order of signed integers. A branch looks at the sign of a wrapped
difference. It is exact on equality; on the order it is exact as long as the difference fits a word,
and errs whenever it does not. -/
namespace RegisterMachine

namespace Word

def DifferenceFits (x y : Word) : Prop :=
  -2147483648 ≤ x.toInt - y.toInt ∧ x.toInt - y.toInt < 2147483648

theorem toInt_sub_cases (x y : Word) :
    DifferenceFits x y ∧ (x - y).toInt = x.toInt - y.toInt ∨
      2147483648 ≤ x.toInt - y.toInt ∧ (x - y).toInt < 0 ∨
      x.toInt - y.toInt < -2147483648 ∧ 0 < (x - y).toInt := by
  have hx := Int32.toInt_lt x
  have hx' := Int32.le_toInt x
  have hy := Int32.toInt_lt y
  have hy' := Int32.le_toInt y
  have hd : (x - y).toInt = (x.toInt - y.toInt).bmod (2 ^ 32) := Int32.toInt_sub x y
  rw [Int.bmod_def] at hd
  unfold DifferenceFits
  split at hd <;> omega

theorem toInt_sub_eq_zero_iff (x y : Word) : (x - y).toInt = 0 ↔ x.toInt = y.toInt := by
  have h := toInt_sub_cases x y
  unfold DifferenceFits at h
  omega

end Word

namespace Flags

theorem ofWord_eq (w : Word) :
    ofWord w = if w.toInt = 0 then .zero else if 0 < w.toInt then .positive else .negative := by
  have hz : w = 0 ↔ w.toInt = 0 := Int32.toInt_inj.symm
  have hp : 0 < w ↔ 0 < w.toInt := Int32.lt_iff_toInt_lt
  simp only [ofWord, hz, hp]

theorem ofWord_eq_zero_iff (w : Word) : ofWord w = .zero ↔ w.toInt = 0 := by
  rw [ofWord_eq]
  split
  · simpa
  · split <;> simpa

theorem ofWord_eq_negative_iff (w : Word) : ofWord w = .negative ↔ w.toInt < 0 := by
  rw [ofWord_eq]
  split
  · simp; omega
  · split <;> simp <;> omega

theorem ofWord_eq_positive_iff (w : Word) : ofWord w = .positive ↔ 0 < w.toInt := by
  rw [ofWord_eq]
  split
  · simp; omega
  · split <;> simp <;> omega

end Flags

namespace Comparison

/-- The relation of integers that a comparison is named for. -/
def Relates : Comparison → Int → Int → Prop
  | .equal, x, y => x = y
  | .notEqual, x, y => x ≠ y
  | .less, x, y => x < y
  | .greater, x, y => y < x
  | .lessOrEqual, x, y => x ≤ y
  | .greaterOrEqual, x, y => y ≤ x

instance : (c : Comparison) → (x y : Int) → Decidable (c.Relates x y)
  | .equal, x, y => inferInstanceAs (Decidable (x = y))
  | .notEqual, x, y => inferInstanceAs (Decidable (x ≠ y))
  | .less, x, y => inferInstanceAs (Decidable (x < y))
  | .greater, x, y => inferInstanceAs (Decidable (y < x))
  | .lessOrEqual, x, y => inferInstanceAs (Decidable (x ≤ y))
  | .greaterOrEqual, x, y => inferInstanceAs (Decidable (y ≤ x))

def isOrder : Comparison → Bool
  | .equal | .notEqual => false
  | .less | .greater | .lessOrEqual | .greaterOrEqual => true

theorem holds_ofWord_iff (c : Comparison) (w : Word) :
    c.holds (.ofWord w) = true ↔ c.Relates w.toInt 0 := by
  have hz := Flags.ofWord_eq_zero_iff w
  have hn := Flags.ofWord_eq_negative_iff w
  have hp := Flags.ofWord_eq_positive_iff w
  cases c <;> simp [holds, Relates, hz, hn, hp] <;> omega

/-- Comparing the difference with zero is comparing the words, but for the order of words whose
difference is too large: there it gives the opposite. -/
theorem relates_sub_iff (c : Comparison) (x y : Word) :
    (c.Relates (x - y).toInt 0 ↔ c.Relates x.toInt y.toInt) ↔
      (c.isOrder = true → Word.DifferenceFits x y) := by
  have hd := Word.toInt_sub_cases x y
  unfold Word.DifferenceFits at hd ⊢
  cases c with
  | equal => simpa [Relates, isOrder] using Word.toInt_sub_eq_zero_iff x y
  | notEqual => simpa [Relates, isOrder] using not_congr (Word.toInt_sub_eq_zero_iff x y)
  | less | greater | lessOrEqual | greaterOrEqual =>
    simp only [Relates, isOrder, forall_const]
    omega

theorem existsUnique_order (x y : Int) :
    ∃! c, c ∈ [Comparison.less, .equal, .greater] ∧ c.Relates x y := by
  have only (c : Comparison) (hc : c ∈ [Comparison.less, .equal, .greater]) :
      c = .less ∨ c = .equal ∨ c = .greater := by simpa using hc
  rcases Int.lt_trichotomy x y with h | h | h
  · refine ⟨.less, ⟨by simp, h⟩, ?_⟩
    intro c hc
    obtain ⟨hc, hr⟩ := hc
    obtain rfl | rfl | rfl := only c hc
    · rfl
    · exact absurd hr (Int.ne_of_lt h)
    · exact absurd hr (Int.lt_asymm h)
  · refine ⟨.equal, ⟨by simp, h⟩, ?_⟩
    intro c hc
    obtain ⟨hc, hr⟩ := hc
    obtain rfl | rfl | rfl := only c hc
    · exact absurd h (Int.ne_of_lt hr)
    · rfl
    · exact absurd h.symm (Int.ne_of_lt hr)
  · refine ⟨.greater, ⟨by simp, h⟩, ?_⟩
    intro c hc
    obtain ⟨hc, hr⟩ := hc
    obtain rfl | rfl | rfl := only c hc
    · exact absurd hr (Int.lt_asymm h)
    · exact absurd hr.symm (Int.ne_of_lt h)
    · rfl

end Comparison

namespace Machine
variable {ω : Type}

/-- Executing the branch goes to its target: the program counter is left one before it, and the
cycle moves it on. -/
def Jumps (m : Machine ω) (b : Branch) (target : Word) : Prop :=
  (m.execute (.branch b target)).events = [.branchTaken target] ∧
    (m.execute (.branch b target)).state.reg .pc = target - 1

def FallsThrough (m : Machine ω) (b : Branch) (target : Word) : Prop :=
  (m.execute (.branch b target)).events = [] ∧
    (m.execute (.branch b target)).state.reg .pc = m.reg .pc

theorem branchOn_eq (m : Machine ω) (c : Comparison) (x y target : Word) :
    m.branchOn c x y target =
      let compared : Machine ω := { m with alu := ⟨false, .ofWord (x - y)⟩ }
      if c.holds (.ofWord (x - y)) then .ok () (compared.jump target) [.branchTaken target]
      else .ok () compared := rfl

theorem jumps_iff (m : Machine ω) (c : Comparison) (a b : Register) (target : Word) :
    m.Jumps (.on c a b) target ↔ c.Relates (m.reg a - m.reg b).toInt 0 := by
  rw [← Comparison.holds_ofWord_iff]
  unfold Jumps
  simp only [execute, branchOn_eq]
  split <;> simp_all [Outcome.ok, jump, setReg, reg, RegisterFile.set, RegisterFile.get]

theorem fallsThrough_of_not_jumps (m : Machine ω) (c : Comparison) (a b : Register) (target : Word)
    (h : ¬ m.Jumps (.on c a b) target) : m.FallsThrough (.on c a b) target := by
  rw [jumps_iff, ← Comparison.holds_ofWord_iff] at h
  unfold FallsThrough
  simp only [execute, branchOn_eq, if_neg h]
  exact ⟨rfl, rfl⟩

theorem jumps_onZero_iff (m : Machine ω) (a : Register) (target : Word) :
    m.Jumps (.onZero a) target ↔ m.Jumps (.on .equal a .ze) target := by
  simp only [Jumps, execute, reg_ze]

theorem jumps_onNotZero_iff (m : Machine ω) (a : Register) (target : Word) :
    m.Jumps (.onNotZero a) target ↔ m.Jumps (.on .notEqual a .ze) target := by
  simp only [Jumps, execute, reg_ze]

/-- A branch on the order of two registers goes by the order of their values exactly when the
difference of the values fits a word. Branches on equality always do, and in either case the
outcomes of the six branches exclude and complete each other as those of an order. -/
theorem branches_follow_order_iff (m : Machine ω) (a b : Register) (target : Word) :
    (∀ c : Comparison,
      (m.Jumps (.on c a b) target ↔ c.Relates (m.reg a).toInt (m.reg b).toInt) ↔
        (c.isOrder = true → Word.DifferenceFits (m.reg a) (m.reg b))) ∧
    (m.Jumps (.onZero a) target ↔ (m.reg a).toInt = 0) ∧
    (m.Jumps (.onNotZero a) target ↔ (m.reg a).toInt ≠ 0) ∧
    (∀ c : Comparison, ¬ m.Jumps (.on c a b) target → m.FallsThrough (.on c a b) target) ∧
    (∃! c, c ∈ [Comparison.less, .equal, .greater] ∧ m.Jumps (.on c a b) target) ∧
    (m.Jumps (.on .lessOrEqual a b) target ↔ ¬ m.Jumps (.on .greater a b) target) ∧
    (m.Jumps (.on .greaterOrEqual a b) target ↔ ¬ m.Jumps (.on .less a b) target) := by
  have equality (c : Comparison) (h : c.isOrder = false) (x y : Word) :
      c.Relates (x - y).toInt 0 ↔ c.Relates x.toInt y.toInt :=
    (c.relates_sub_iff x y).2 (by simp [h])
  refine ⟨fun c => ?_, ?_, ?_, fun c => m.fallsThrough_of_not_jumps c a b target, ?_, ?_, ?_⟩
  · rw [jumps_iff]
    exact c.relates_sub_iff (m.reg a) (m.reg b)
  · rw [jumps_onZero_iff, jumps_iff, equality .equal rfl, reg_ze]
    rfl
  · rw [jumps_onNotZero_iff, jumps_iff, equality .notEqual rfl, reg_ze]
    rfl
  · simp only [jumps_iff]
    exact Comparison.existsUnique_order _ 0
  · simp only [jumps_iff, Comparison.Relates, Int.not_lt]
  · simp only [jumps_iff, Comparison.Relates, Int.not_lt]

/-- The least word is below one, yet the branch on less does not see it: the difference wraps to the
greatest word. -/
theorem least_word_not_below_one :
    ¬ ∀ (m : Machine Unit) (a b : Register) (target : Word),
      m.Jumps (.on .less a b) target ↔ (m.reg a).toInt < (m.reg b).toInt := by
  intro h
  let m : Machine Unit :=
    { (onBus (.ofSize 0 ()) 0) with registers := { v0 := -2147483648, v1 := 1 } }
  have hm : (m.reg .v0).toInt < (m.reg .v1).toInt := by decide
  have hj := (m.jumps_iff .less .v0 .v1 5).1 ((h m .v0 .v1 5).2 hm)
  exact absurd hj (by decide)

end Machine

end RegisterMachine
