import RegisterMachine.Text.Lower
/-! The operations of the machine: their names, mnemonics and codes. -/
namespace RegisterMachine

inductive Opcode where
  /-- Holds the place of an instruction; never executes. -/
  | invalid
  | noop
  | exit
  | print
  | add | sub | mul | div | leftShift | rightShift | equal
  | addI | subI | mulI | divI | leftShiftI | rightShiftI
  | loadI | loadMem | loadReg | move | storeMem | storeReg | push | pop
  | jump | jumpRegister
  | branchOnZero | branchOnNotZero
  | branchOnEqual | branchOnNotEqual | branchOnLessThan | branchOnGreaterThan
  | branchOnLessThanOrEqual | branchOnGreaterThanOrEqual
  deriving DecidableEq, Repr

namespace Opcode

def all : List Opcode :=
  [.invalid, .noop, .exit, .print,
   .add, .sub, .mul, .div, .leftShift, .rightShift, .equal,
   .addI, .subI, .mulI, .divI, .leftShiftI, .rightShiftI,
   .loadI, .loadMem, .loadReg, .move, .storeMem, .storeReg, .push, .pop,
   .jump, .jumpRegister, .branchOnZero, .branchOnNotZero,
   .branchOnEqual, .branchOnNotEqual, .branchOnLessThan, .branchOnGreaterThan,
   .branchOnLessThanOrEqual, .branchOnGreaterThanOrEqual]

theorem mem_all (op : Opcode) : op ∈ all := by cases op <;> decide

def name : Opcode → String
  | .invalid => "Invalid"
  | .noop => "NoOp"
  | .exit => "Exit"
  | .print => "Print"
  | .add => "Add"
  | .sub => "Sub"
  | .mul => "Mul"
  | .div => "Div"
  | .leftShift => "LeftShift"
  | .rightShift => "RightShift"
  | .equal => "Equal"
  | .addI => "AddI"
  | .subI => "SubI"
  | .mulI => "MulI"
  | .divI => "DivI"
  | .leftShiftI => "LeftShiftI"
  | .rightShiftI => "RightShiftI"
  | .loadI => "LoadI"
  | .loadMem => "LoadMem"
  | .loadReg => "LoadReg"
  | .move => "Move"
  | .storeMem => "StoreMem"
  | .storeReg => "StoreReg"
  | .push => "Push"
  | .pop => "Pop"
  | .jump => "Jump"
  | .jumpRegister => "JumpRegister"
  | .branchOnZero => "BranchOnZero"
  | .branchOnNotZero => "BranchOnNotZero"
  | .branchOnEqual => "BranchOnEqual"
  | .branchOnNotEqual => "BranchOnNotEqual"
  | .branchOnLessThan => "BranchOnLessThan"
  | .branchOnGreaterThan => "BranchOnGreaterThan"
  | .branchOnLessThanOrEqual => "BranchOnLessThanOrEqual"
  | .branchOnGreaterThanOrEqual => "BranchOnGreaterThanOrEqual"

def mnemonic : Opcode → String
  | .invalid => "invalid"
  | .noop => "noop"
  | .exit => "exit"
  | .print => "print"
  | .add => "add"
  | .sub => "sub"
  | .mul => "mul"
  | .div => "div"
  | .leftShift => "ls"
  | .rightShift => "rs"
  | .equal => "equal"
  | .addI => "addi"
  | .subI => "subi"
  | .mulI => "muli"
  | .divI => "divi"
  | .leftShiftI => "lsi"
  | .rightShiftI => "rsi"
  | .loadI => "loadi"
  | .loadMem => "loadm"
  | .loadReg => "loadr"
  | .move => "move"
  | .storeMem => "storem"
  | .storeReg => "storer"
  | .push => "push"
  | .pop => "pop"
  | .jump => "jump"
  | .jumpRegister => "jumpr"
  | .branchOnZero => "boz"
  | .branchOnNotZero => "bonz"
  | .branchOnEqual => "boe"
  | .branchOnNotEqual => "bone"
  | .branchOnLessThan => "bolt"
  | .branchOnGreaterThan => "bogt"
  | .branchOnLessThanOrEqual => "bolte"
  | .branchOnGreaterThanOrEqual => "bogte"

def code : Opcode → UInt8
  | .invalid => 0xFF
  | .noop => 0x00
  | .exit => 0x01
  | .print => 0x02
  | .add => 0x10
  | .sub => 0x11
  | .mul => 0x12
  | .div => 0x13
  | .leftShift => 0x14
  | .rightShift => 0x15
  | .equal => 0x16
  | .addI => 0x20
  | .subI => 0x21
  | .mulI => 0x22
  | .divI => 0x23
  | .leftShiftI => 0x24
  | .rightShiftI => 0x25
  | .loadI => 0x30
  | .loadMem => 0x31
  | .loadReg => 0x32
  | .move => 0x33
  | .storeMem => 0x34
  | .storeReg => 0x35
  | .push => 0x36
  | .pop => 0x37
  | .jump => 0x40
  | .jumpRegister => 0x41
  | .branchOnZero => 0x42
  | .branchOnNotZero => 0x43
  | .branchOnEqual => 0x44
  | .branchOnNotEqual => 0x45
  | .branchOnLessThan => 0x46
  | .branchOnGreaterThan => 0x47
  | .branchOnLessThanOrEqual => 0x48
  | .branchOnGreaterThanOrEqual => 0x49

def aliases : List (String × Opcode) := [("load", .loadI)]

/-- The operation that a token of source text names, in any letter case. The placeholder cannot be
written. -/
def ofMnemonic? (t : Token) : Option Opcode :=
  ((all.filter (· ≠ .invalid)).find? fun op => Text.sameName op.mnemonic.toList t).or
    ((aliases.find? fun a => Text.sameName a.1.toList t).map (·.2))

end Opcode

end RegisterMachine
