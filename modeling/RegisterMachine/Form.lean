import RegisterMachine.Assembly.Problem
import RegisterMachine.Instruction
/-! Operand forms: which operands an operation takes in source text, in order, and the instruction
that they make. -/
namespace RegisterMachine

inductive Form where
  | plain (i : Instruction)
  | reg (make : Register → Instruction)
  | regImm (make : Register → Word → Instruction)
  | regReg (make : Register → Register → Instruction)
  | regRegReg (make : Register → Register → Register → Instruction)
  | regImmReg (make : Register → Word → Register → Instruction)
  | target (b : Branch)
  | regTarget (make : Register → Branch)
  | regRegTarget (make : Register → Register → Branch)

namespace Form

def kinds : Form → List OperandKind
  | .plain _ => []
  | .reg _ => [.register]
  | .regImm _ => [.register, .immediate]
  | .regReg _ => [.register, .register]
  | .regRegReg _ => [.register, .register, .register]
  | .regImmReg _ => [.register, .immediate, .register]
  | .target _ => [.target]
  | .regTarget _ => [.register, .target]
  | .regRegTarget _ => [.register, .register, .target]

end Form

namespace Opcode

def form : Opcode → Form
  | .invalid => .plain .invalid
  | .noop => .plain .noop
  | .exit => .plain .exit
  | .print => .reg .print
  | .add => .regRegReg (.arith .add)
  | .sub => .regRegReg (.arith .sub)
  | .mul => .regRegReg (.arith .mul)
  | .div => .regRegReg (.arith .div)
  | .leftShift => .regRegReg (.arith .leftShift)
  | .rightShift => .regRegReg (.arith .rightShift)
  | .equal => .regRegReg .equal
  | .addI => .regImmReg (.arithImm .add)
  | .subI => .regImmReg (.arithImm .sub)
  | .mulI => .regImmReg (.arithImm .mul)
  | .divI => .regImmReg (.arithImm .div)
  | .leftShiftI => .regImmReg (.arithImm .leftShift)
  | .rightShiftI => .regImmReg (.arithImm .rightShift)
  | .loadI => .regImm .loadImm
  | .loadMem => .regImm .loadMem
  | .loadReg => .regReg .loadReg
  | .move => .regReg .move
  | .storeMem => .regImm .storeMem
  | .storeReg => .regReg .storeReg
  | .push => .reg .push
  | .pop => .reg .pop
  | .jump => .target .always
  | .jumpRegister => .reg .jumpReg
  | .branchOnZero => .regTarget .onZero
  | .branchOnNotZero => .regTarget .onNotZero
  | .branchOnEqual => .regRegTarget (.on .equal)
  | .branchOnNotEqual => .regRegTarget (.on .notEqual)
  | .branchOnLessThan => .regRegTarget (.on .less)
  | .branchOnGreaterThan => .regRegTarget (.on .greater)
  | .branchOnLessThanOrEqual => .regRegTarget (.on .lessOrEqual)
  | .branchOnGreaterThanOrEqual => .regRegTarget (.on .greaterOrEqual)

end Opcode

end RegisterMachine
