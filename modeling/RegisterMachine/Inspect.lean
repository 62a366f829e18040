import RegisterMachine.Machine.Basic
/-! Texts that show the inner state of a machine and of a window, field by field. -/
namespace RegisterMachine

def showFields (name : String) (fields : List (String × String)) : String :=
  s!"{name} \x7b " ++ ", ".intercalate (fields.map fun f => s!"{f.1}: {f.2}") ++ " \x7d"

def showList (items : List String) : String := "[" ++ ", ".intercalate items ++ "]"

def showOption : Option String → String
  | none => "None"
  | some s => s!"Some({s})"

namespace Operands

def inspect : Operands → String
  | .none => "None"
  | .reg a => s!"Reg({a.name})"
  | .imm w => s!"Imm({w})"
  | .regImm a w => s!"RegImm({a.name}, {w})"
  | .regReg a b => s!"RegReg({a.name}, {b.name})"
  | .regRegReg a b c => s!"RegRegReg({a.name}, {b.name}, {c.name})"
  | .regImmReg a w b => s!"RegImmReg({a.name}, {w}, {b.name})"
  | .regRegImm a b w => s!"RegRegImm({a.name}, {b.name}, {w})"

end Operands

namespace Instruction

def inspect (i : Instruction) : String :=
  showFields "Instruction" [("opcode", i.opcode.name), ("operands", i.operands.inspect)]

end Instruction

namespace Program

def inspect (p : Program) : String :=
  showFields "Program"
    [("instructions", showList (p.instructions.toList.map Instruction.inspect)),
     ("finished", toString p.finished)]

end Program

namespace RegisterFile

def inspect (f : RegisterFile) : String :=
  let cell (r : Register) : String :=
    showFields "Register" [("name", s!"\"{r.name}\""), ("value", toString (f.get r))]
  showFields "Registers" [("cells", showList (Register.all.map cell))]

end RegisterFile

namespace Flags

def name : Flags → String
  | .none => "None"
  | .zero => "Zero"
  | .positive => "Positive"
  | .negative => "Negative"

end Flags

namespace Alu

def errorName (alu : Alu) : String := if alu.dividedByZero then "DivisionByZero" else "None"

def inspect (alu : Alu) : String :=
  showFields "Alu" [("error", alu.errorName), ("flags", alu.flags.name)]

end Alu

namespace Machine

def inspect {ω : Type} (m : Machine ω) : String :=
  showFields "Processor"
    [("registers", m.registers.inspect), ("alu", m.alu.inspect),
     ("program", showOption (m.program.map Program.inspect))]

end Machine

namespace Window

def inspect {ω : Type} (w : Window ω) : String :=
  showFields "MemoryMap"
    [("base_address", toString w.extent.base), ("length", toString w.extent.length),
     ("setter", toString w.onWrite.isSome), ("getter", toString w.onRead.isSome)]

end Window

end RegisterMachine
