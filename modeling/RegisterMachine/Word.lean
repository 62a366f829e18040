/-! Machine words: the numbers that registers, stack slots and memory cells hold. -/
namespace RegisterMachine

abbrev Word := Int32

namespace Word

/-- The cell that a word names in a block of `size` cells: none below zero or past the end. -/
def index? (w : Word) (size : Nat) : Option (Fin size) :=
  if h : 0 ≤ w.toInt ∧ w.toInt.toNat < size then some ⟨w.toInt.toNat, h.2⟩ else none

theorem index?_eq_none_iff (w : Word) (size : Nat) :
    index? w size = none ↔ w.toInt < 0 ∨ (size : Int) ≤ w.toInt := by
  unfold index?
  split <;> simp <;> omega

theorem index?_eq_some_iff (w : Word) (size : Nat) (i : Fin size) :
    index? w size = some i ↔ w.toInt = i.val := by
  unfold index?
  split
  · rename_i h
    simp only [Option.some.injEq, Fin.ext_iff]
    omega
  · rename_i h
    simp only [reduceCtorEq, false_iff]
    intro e
    exact h ⟨by omega, by omega⟩

end Word

end RegisterMachine
