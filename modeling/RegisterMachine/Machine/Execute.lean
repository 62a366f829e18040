import RegisterMachine.Machine.Basic
/-! What each instruction does to the machine. A branch or jump leaves the program counter one
before its target, since every cycle ends by moving it on by one. -/
namespace RegisterMachine

/-- Whether the flags that a subtraction leaves satisfy a comparison of its operands. -/
def Comparison.holds : Comparison → Flags → Bool
  | .equal, f => f == .zero
  | .notEqual, f => f != .zero
  | .less, f => f == .negative
  | .greater, f => f == .positive
  | .lessOrEqual, f => f == .negative || f == .zero
  | .greaterOrEqual, f => f == .positive || f == .zero

namespace Machine
variable {ω : Type}

/-- Writes a result to its destination and then the remainder to the extra register. After a
division by zero both stay as they are. -/
def compute (op : Opcode) (operation : Alu.Operation) (a b : Word) (dest : Register)
    (m : Machine ω) : Outcome Fault (Machine ω) Unit :=
  match m.alu.run operation a b with
  | (alu, some out) =>
    .ok () { m with alu, registers := (m.registers.set dest out.result).set .ex out.extra }
      [.computed op a b out.result]
  | (alu, none) => .ok () { m with alu } [.dividedByZero a, .notComputed op a b]

def jump (m : Machine ω) (target : Word) : Machine ω := m.setReg .pc (target - 1)

def branchOn (c : Comparison) (a b target : Word) (m : Machine ω) :
    Outcome Fault (Machine ω) Unit :=
  let m := { m with alu := (m.alu.run (.arith .sub) a b).1 }
  if c.holds m.alu.flags then .ok () (m.jump target) [.branchTaken target] else .ok () m

def loadFrom (dest : Register) (a : Word) (m : Machine ω) : Outcome Fault (Machine ω) Unit :=
  (m.viaBus (Bus.read a)).andThen fun w m => .ok () (m.setReg dest w)

def storeAt (a w : Word) (m : Machine ω) : Outcome Fault (Machine ω) Unit :=
  m.viaBus (Bus.write a w)

def pushWord (w : Word) (m : Machine ω) : Outcome Fault (Machine ω) Unit :=
  match m.stack.write (m.reg .sp) w with
  | .error e => .fail e m
  | .ok stack => .ok () ({ m with stack }.setReg .sp (m.reg .sp + 1))

def popTo (dest : Register) (m : Machine ω) : Outcome Fault (Machine ω) Unit :=
  let top := m.reg .sp - 1
  match m.stack.read top with
  | .error e => .fail e m
  | .ok w => .ok () ((m.setReg .sp top).setReg dest w)

def execute (i : Instruction) (m : Machine ω) : Outcome Fault (Machine ω) Unit :=
  match i with
  | .invalid => .fail (.invalidOpcode .invalid) m
  | .noop => .ok () m
  | .exit => if m.program.isSome then .ok () (m.setFinished true) else .fail .noProgram m
  | .print a => .ok () m [.printed a (m.reg a) m.hasSink]
  | .arith op a b dest => m.compute op.opcode (.arith op) (m.reg a) (m.reg b) dest
  | .equal a b dest => m.compute .equal .equal (m.reg a) (m.reg b) dest
  | .arithImm op a w dest => m.compute op.immediateOpcode (.arith op) (m.reg a) w dest
  | .loadImm dest w => .ok () (m.setReg dest w)
  | .loadMem dest a => m.loadFrom dest a
  | .loadReg dest a => m.loadFrom dest (m.reg a)
  | .move source dest => .ok () (m.setReg dest (m.reg source))
  | .storeMem source a => m.storeAt a (m.reg source)
  | .storeReg source a => m.storeAt (m.reg a) (m.reg source)
  | .push source => m.pushWord (m.reg source)
  | .pop dest => m.popTo dest
  | .jumpReg target => .ok () (m.jump (m.reg target))
  | .branch .always target => .ok () (m.jump target)
  | .branch (.onZero a) target => m.branchOn .equal (m.reg a) 0 target
  | .branch (.onNotZero a) target => m.branchOn .notEqual (m.reg a) 0 target
  | .branch (.on c a b) target => m.branchOn c (m.reg a) (m.reg b) target

end Machine

end RegisterMachine
