import RegisterMachine.Alu
import RegisterMachine.Memory.Bus
import RegisterMachine.Program
import RegisterMachine.Stack
/-! The machine: registers, arithmetic unit, stack and program, on a bus. -/
namespace RegisterMachine

structure Machine (ω : Type) where
  registers : RegisterFile := {}
  alu : Alu := {}
  stack : Stack
  program : Option Program := none
  /-- Whether printed lines go to a sink; otherwise they go to the log. A sink only receives lines:
  it has no access to the machine, to its memory or to the devices. -/
  hasSink : Bool := false
  bus : Bus ω

namespace Machine
variable {ω α : Type}

def defaultStackSize : Nat := 1024

def onBus (bus : Bus ω) (stackSize : Nat := defaultStackSize) : Machine ω :=
  { stack := .ofCapacity stackSize, bus }

def reg (m : Machine ω) (r : Register) : Word := m.registers.get r

def setReg (m : Machine ω) (r : Register) (w : Word) : Machine ω :=
  { m with registers := m.registers.set r w }

@[simp] theorem reg_ze (m : Machine ω) : m.reg .ze = 0 := m.registers.get_ze

def load (m : Machine ω) (p : Program) : Machine ω := { m with program := some p }

def unload (m : Machine ω) : Machine ω := { m with program := none }

def isFinished (m : Machine ω) : Bool := m.program.any Program.finished

def setFinished (m : Machine ω) (finished : Bool) : Machine ω :=
  { m with program := m.program.map fun p => { p with finished } }

def viaBus (access : Bus ω → Outcome Fault (Bus ω) α) (m : Machine ω) :
    Outcome Fault (Machine ω) α :=
  (access m.bus).mapState fun bus => { m with bus }

end Machine

end RegisterMachine
