import RegisterMachine.Numeral
import RegisterMachine.Opcode
import RegisterMachine.Register
/-! Instructions. Each carries exactly the operands that its operation takes, so none is
malformed; opcode, operand shape and text are views of it. -/
namespace RegisterMachine

inductive Arith where
  | add | sub | mul | div | leftShift | rightShift
  deriving DecidableEq, Repr

namespace Arith

def all : List Arith := [.add, .sub, .mul, .div, .leftShift, .rightShift]

def opcode : Arith → Opcode
  | .add => .add
  | .sub => .sub
  | .mul => .mul
  | .div => .div
  | .leftShift => .leftShift
  | .rightShift => .rightShift

def immediateOpcode : Arith → Opcode
  | .add => .addI
  | .sub => .subI
  | .mul => .mulI
  | .div => .divI
  | .leftShift => .leftShiftI
  | .rightShift => .rightShiftI

end Arith

inductive Comparison where
  | equal | notEqual | less | greater | lessOrEqual | greaterOrEqual
  deriving DecidableEq, Repr

namespace Comparison

def opcode : Comparison → Opcode
  | .equal => .branchOnEqual
  | .notEqual => .branchOnNotEqual
  | .less => .branchOnLessThan
  | .greater => .branchOnGreaterThan
  | .lessOrEqual => .branchOnLessThanOrEqual
  | .greaterOrEqual => .branchOnGreaterThanOrEqual

end Comparison

/-- A transfer of control without its target: always taken, or upon a test of registers. -/
inductive Branch where
  | always
  | onZero (a : Register)
  | onNotZero (a : Register)
  | on (c : Comparison) (a b : Register)
  deriving DecidableEq, Repr

namespace Branch

def opcode : Branch → Opcode
  | .always => .jump
  | .onZero _ => .branchOnZero
  | .onNotZero _ => .branchOnNotZero
  | .on c _ _ => c.opcode

end Branch

inductive Instruction where
  | invalid
  | noop
  | exit
  | print (a : Register)
  | arith (op : Arith) (a b dest : Register)
  | equal (a b dest : Register)
  | arithImm (op : Arith) (a : Register) (imm : Word) (dest : Register)
  | loadImm (dest : Register) (imm : Word)
  | loadMem (dest : Register) (address : Word)
  | loadReg (dest address : Register)
  | move (source dest : Register)
  | storeMem (source : Register) (address : Word)
  | storeReg (source address : Register)
  | push (source : Register)
  | pop (dest : Register)
  | jumpReg (target : Register)
  | branch (b : Branch) (target : Word)
  deriving DecidableEq, Repr

/-- The operands of an instruction by shape, branch targets among the immediate values. -/
inductive Operands where
  | none
  | reg (a : Register)
  | imm (w : Word)
  | regImm (a : Register) (w : Word)
  | regReg (a b : Register)
  | regRegReg (a b c : Register)
  | regImmReg (a : Register) (w : Word) (b : Register)
  | regRegImm (a b : Register) (w : Word)
  deriving DecidableEq, Repr

namespace Operands

def immediate : Operands → Word
  | .imm w | .regImm _ w | .regImmReg _ w _ | .regRegImm _ _ w => w
  | _ => 0

def tokens : Operands → List Token
  | .none => []
  | .reg a => [a.name.toList]
  | .imm w => [Numeral.write w]
  | .regImm a w => [a.name.toList, Numeral.write w]
  | .regReg a b => [a.name.toList, b.name.toList]
  | .regRegReg a b c => [a.name.toList, b.name.toList, c.name.toList]
  | .regImmReg a w b => [a.name.toList, Numeral.write w, b.name.toList]
  | .regRegImm a b w => [a.name.toList, b.name.toList, Numeral.write w]

end Operands

namespace Branch

def operands (target : Word) : Branch → Operands
  | .always => .imm target
  | .onZero a | .onNotZero a => .regImm a target
  | .on _ a b => .regRegImm a b target

end Branch

namespace Instruction

def opcode : Instruction → Opcode
  | .invalid => .invalid
  | .noop => .noop
  | .exit => .exit
  | .print _ => .print
  | .arith op _ _ _ => op.opcode
  | .equal _ _ _ => .equal
  | .arithImm op _ _ _ => op.immediateOpcode
  | .loadImm _ _ => .loadI
  | .loadMem _ _ => .loadMem
  | .loadReg _ _ => .loadReg
  | .move _ _ => .move
  | .storeMem _ _ => .storeMem
  | .storeReg _ _ => .storeReg
  | .push _ => .push
  | .pop _ => .pop
  | .jumpReg _ => .jumpRegister
  | .branch b _ => b.opcode

def operands : Instruction → Operands
  | .invalid | .noop | .exit => .none
  | .print a | .push a | .pop a | .jumpReg a => .reg a
  | .arith _ a b c | .equal a b c => .regRegReg a b c
  | .arithImm _ a w b => .regImmReg a w b
  | .loadImm a w | .loadMem a w | .storeMem a w => .regImm a w
  | .loadReg a b | .move a b | .storeReg a b => .regReg a b
  | .branch b target => b.operands target

def immediate (i : Instruction) : Word := i.operands.immediate

def tokens (i : Instruction) : List Token := i.opcode.mnemonic.toList :: i.operands.tokens

def text (i : Instruction) : String := String.ofList ([' '].intercalate i.tokens)

end Instruction

end RegisterMachine
