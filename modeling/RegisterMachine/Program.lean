import RegisterMachine.Instruction
/-! Programs: the instructions to run, and whether a run has come to its end. -/
namespace RegisterMachine

structure Program where
  instructions : Array Instruction
  finished : Bool
  deriving DecidableEq, Repr

namespace Program

def ofArray (is : Array Instruction) : Program := ⟨is, false⟩

def size (p : Program) : Nat := p.instructions.size

def isEmpty (p : Program) : Bool := p.instructions.isEmpty

def get? (p : Program) (i : Nat) : Option Instruction := p.instructions[i]?

def fetch? (p : Program) (w : Word) : Option Instruction :=
  if w.toInt < 0 then none else p.get? w.toInt.toNat

theorem fetch?_eq_none_iff (p : Program) (w : Word) :
    p.fetch? w = none ↔ w.toInt < 0 ∨ (p.size : Int) ≤ w.toInt := by
  unfold fetch? get? size
  split
  · simp [*]
  · rw [Array.getElem?_eq_none_iff]
    omega

def listing (p : Program) : List String := p.instructions.toList.map Instruction.text

end Program

end RegisterMachine
