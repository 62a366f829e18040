import RegisterMachine.Outcome
/-! The arithmetic unit: its operations, and the status that they leave. -/
namespace RegisterMachine

inductive Flags where
  | none
  | zero | positive | negative
  deriving DecidableEq, Repr

namespace Flags

def ofWord (w : Word) : Flags :=
  if w = 0 then .zero else if 0 < w then .positive else .negative

end Flags

structure Alu where
  dividedByZero : Bool := false
  flags : Flags := .none
  deriving DecidableEq, Repr

namespace Alu

inductive Operation where
  | arith (op : Arith)
  | equal
  /-- Gives zero. -/
  | idle
  deriving DecidableEq, Repr

/-- A result, and the remainder of a division. -/
structure Output where
  result : Word
  extra : Word
  deriving DecidableEq, Repr

/-- What an operation gives, but for a division by zero. Shifts are by the amount modulo 32, and a
right shift keeps the sign. -/
def Operation.output? (op : Operation) (a b : Word) : Option Output :=
  match op with
  | .arith .add => some ⟨a + b, 0⟩
  | .arith .sub => some ⟨a - b, 0⟩
  | .arith .mul => some ⟨a * b, 0⟩
  | .arith .div => if b = 0 then none else some ⟨a / b, a % b⟩
  | .arith .leftShift => some ⟨a <<< b, 0⟩
  | .arith .rightShift => some ⟨a >>> b, 0⟩
  | .equal => some ⟨if a = b then 1 else 0, 0⟩
  | .idle => some ⟨0, 0⟩

theorem Operation.output?_eq_none_iff (operation : Operation) (a b : Word) :
    operation.output? a b = none ↔ operation = .arith .div ∧ b = 0 := by
  cases operation with
  | arith op => cases op <;> simp [output?]
  | equal | idle => simp [output?]

def run (op : Operation) (a b : Word) (alu : Alu) : Alu × Option Output :=
  match op.output? a b with
  | some out => (⟨false, .ofWord out.result⟩, some out)
  | none => ({ alu with dividedByZero := true }, none)

end Alu

namespace Opcode

def aluOperation? : Opcode → Option Alu.Operation
  | .add | .addI => some (.arith .add)
  | .sub | .subI => some (.arith .sub)
  | .mul | .mulI => some (.arith .mul)
  | .div | .divI => some (.arith .div)
  | .leftShift | .leftShiftI => some (.arith .leftShift)
  | .rightShift | .rightShiftI => some (.arith .rightShift)
  | .equal => some .equal
  | .noop => some .idle
  | _ => none

theorem aluOperation?_forms (x : Arith) :
    x.opcode.aluOperation? = some (.arith x) ∧
      x.immediateOpcode.aluOperation? = some (.arith x) := by
  cases x <;> exact ⟨rfl, rfl⟩

end Opcode

namespace Alu

/-- Carries out the operation of an opcode; a division by zero gives zeros. -/
def perform (op : Opcode) (a b : Word) (alu : Alu) : Outcome Fault Alu Output :=
  match op.aluOperation? with
  | none => .fail (.invalidOpcode op) alu
  | some o =>
    match alu.run o a b with
    | (alu, some out) => .ok out alu
    | (alu, none) => .ok ⟨0, 0⟩ alu [.dividedByZero a]

end Alu

end RegisterMachine
