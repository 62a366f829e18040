import RegisterMachine.Form
/-! Operands in source text: reading them from the left, by the form of the operation. -/
namespace RegisterMachine

inductive Draft where
  | complete (i : Instruction)
  | waiting (b : Branch) (label : Token)
  deriving DecidableEq, Repr

inductive Target where
  | index (w : Word)
  | label (l : Token)
  deriving DecidableEq, Repr

namespace Operand

def takeRegister : List Token → Except Problem (Register × List Token)
  | [] => .error (.missingOperand .register)
  | t :: rest =>
    match Register.ofName? t with
    | some r => .ok (r, rest)
    | none => .error (.unknownRegister t)

def takeImmediate : List Token → Except Problem (Word × List Token)
  | [] => .error (.missingOperand .immediate)
  | t :: rest =>
    match Numeral.read t with
    | .value w => .ok (w, rest)
    | .malformed radix => .error (.badImmediate radix t)
    | .other => .error (.badImmediate .decimal t)

/-- Reads a branch target. A token that is neither a register nor like a number is a label;
`bound` gives the number of the instruction that it stands for. -/
def takeTarget (bound : Token → Option Nat) : List Token → Except Problem (Target × List Token)
  | [] => .error (.missingOperand .target)
  | t :: rest =>
    if (Register.ofName? t).isSome then .error (.registerAsTarget t)
    else match Numeral.read t with
      | .value w => .ok (.index w, rest)
      | .malformed radix => .error (.badTargetNumber radix t)
      | .other =>
        match bound t with
        | some index => .ok (.index (.ofNat index), rest)
        | none => .ok (.label t, rest)

end Operand

namespace Draft

def ofTarget (b : Branch) : Target → Draft
  | .index w => .complete (.branch b w)
  | .label l => .waiting b l

def resolve (index : Nat) : Draft → Draft
  | .complete i => .complete i
  | .waiting b _ => .complete (.branch b (.ofNat index))

end Draft

namespace Form
open Operand

/-- Reads the operands of a form from the left; gives the instruction and what is left over. -/
def take (bound : Token → Option Nat) (form : Form) (tokens : List Token) :
    Except Problem (Draft × List Token) :=
  match form with
  | .plain i => .ok (.complete i, tokens)
  | .reg make => do
    let (a, rest) ← takeRegister tokens
    return (.complete (make a), rest)
  | .regImm make => do
    let (a, rest) ← takeRegister tokens
    let (w, rest) ← takeImmediate rest
    return (.complete (make a w), rest)
  | .regReg make => do
    let (a, rest) ← takeRegister tokens
    let (b, rest) ← takeRegister rest
    return (.complete (make a b), rest)
  | .regRegReg make => do
    let (a, rest) ← takeRegister tokens
    let (b, rest) ← takeRegister rest
    let (c, rest) ← takeRegister rest
    return (.complete (make a b c), rest)
  | .regImmReg make => do
    let (a, rest) ← takeRegister tokens
    let (w, rest) ← takeImmediate rest
    let (b, rest) ← takeRegister rest
    return (.complete (make a w b), rest)
  | .target b => do
    let (goal, rest) ← takeTarget bound tokens
    return (.ofTarget b goal, rest)
  | .regTarget make => do
    let (a, rest) ← takeRegister tokens
    let (goal, rest) ← takeTarget bound rest
    return (.ofTarget (make a) goal, rest)
  | .regRegTarget make => do
    let (a, rest) ← takeRegister tokens
    let (b, rest) ← takeRegister rest
    let (goal, rest) ← takeTarget bound rest
    return (.ofTarget (make a b) goal, rest)

def read (bound : Token → Option Nat) (form : Form) (tokens : List Token) :
    Except Problem Draft := do
  match ← form.take bound tokens with
  | (draft, []) => return draft
  | (_, t :: _) => throw (.surplusOperand t)

end Form

end RegisterMachine
