import RegisterMachine.Numeral
/-! What can be wrong with source text, where, and how it is reported. -/
namespace RegisterMachine

inductive OperandKind where
  | register | immediate | target
  deriving DecidableEq, Repr

namespace OperandKind

def text : OperandKind → String
  | .register => "a register"
  | .immediate => "an immediate value"
  | .target => "a branch target"

end OperandKind

inductive ErrorClass where
  | invalidInstruction
  | invalidRegister
  | invalidImmediate (radix : Radix)
  | invalidLabel
  | invalidTarget
  | missingOperand
  | trailingOperand
  | unresolvedLabel
  | malformedMacro
  | macroArity
  | macroRecursion
  deriving DecidableEq, Repr

namespace ErrorClass

def text : ErrorClass → String
  | .invalidInstruction => "failed to resolve instruction"
  | .invalidRegister => "invalid register"
  | .invalidImmediate radix => s!"failed to parse number with radix `{radix.base}`"
  | .invalidLabel => "invalid label"
  | .invalidTarget => "invalid branch target"
  | .missingOperand => "missing operand"
  | .trailingOperand => "too many operands"
  | .unresolvedLabel => "label was never defined"
  | .malformedMacro => "malformed macro"
  | .macroArity => "wrong number of macro arguments"
  | .macroRecursion => "macro expansion nested too deep"

end ErrorClass

def maxMacroDepth : Nat := 64

inductive Problem where
  | unknownOperation (op : Token)
  | unknownRegister (t : Token)
  | badImmediate (radix : Radix) (t : Token)
  | badTargetNumber (radix : Radix) (t : Token)
  | registerAsTarget (t : Token)
  | missingOperand (expected : OperandKind)
  | surplusOperand (t : Token)
  | badLabel (t : Token)
  | undefinedLabel (label : Token)
  | nestedDefinition (opened : Token)
  | namelessMacro
  | badMacroName (name : Token)
  | macroNamedAsInstruction (name : Token)
  | macroNamedAsRegister (name : Token)
  | macroRedefined (name : Token)
  /-- The parameter at this place, counted from one, is not its placeholder. -/
  | badParameter (place : Nat) (name found : Token)
  | strayMacroEnd
  | unclosedMacro (name : Token)
  | wrongArity (name : Token) (expected given : Nat)
  | tooDeep (name : Token)
  deriving DecidableEq, Repr

namespace Problem
open Text (quoted)

def errorClass : Problem → ErrorClass
  | .unknownOperation _ => .invalidInstruction
  | .unknownRegister _ => .invalidRegister
  | .badImmediate radix _ | .badTargetNumber radix _ => .invalidImmediate radix
  | .registerAsTarget _ => .invalidTarget
  | .missingOperand _ => .missingOperand
  | .surplusOperand _ => .trailingOperand
  | .badLabel _ => .invalidLabel
  | .undefinedLabel _ => .unresolvedLabel
  | .nestedDefinition _ | .namelessMacro | .badMacroName _ | .macroNamedAsInstruction _
  | .macroNamedAsRegister _ | .macroRedefined _ | .badParameter _ _ _ | .strayMacroEnd
  | .unclosedMacro _ => .malformedMacro
  | .wrongArity _ _ _ => .macroArity
  | .tooDeep _ => .macroRecursion

def detail : Problem → String
  | .unknownOperation op => s!"no instruction or macro named {quoted op}"
  | .unknownRegister t => s!"unrecognized register {quoted t}"
  | .badImmediate _ t => s!"invalid immediate value {quoted t}"
  | .badTargetNumber _ t => s!"invalid instruction number {quoted t}"
  | .registerAsTarget t => s!"register {quoted t} cannot be a branch target"
  | .missingOperand expected => s!"expected {expected.text}"
  | .surplusOperand t => s!"unexpected {quoted t}"
  | .badLabel t => s!"{quoted t} is not a valid label identifier"
  | .undefinedLabel label => s!"could not find an instruction for the label {quoted label}"
  | .nestedDefinition opened => s!"nested macro inside {quoted opened}"
  | .namelessMacro => "macro has no name"
  | .badMacroName name => s!"{quoted name} is not a valid macro name"
  | .macroNamedAsInstruction name => s!"{quoted name} shadows an instruction"
  | .macroNamedAsRegister name => s!"{quoted name} shadows a register"
  | .macroRedefined name => s!"macro {quoted name} is already defined"
  | .badParameter place name found =>
    s!"parameter {place} of macro {quoted name} should be `${place}`, found {quoted found}"
  | .strayMacroEnd => "end of macro without a definition"
  | .unclosedMacro name => s!"macro {quoted name} is never closed"
  | .wrongArity name expected given =>
    s!"macro {quoted name} expects {expected} arguments, given {given}"
  | .tooDeep name => s!"expanding {quoted name} exceeded {maxMacroDepth} nested macros"

end Problem

/-- A problem with the number of the line that has it, counted from one in its fragment. -/
structure ParseError where
  line : Nat
  problem : Problem
  deriving DecidableEq, Repr

namespace ParseError

def message (e : ParseError) : String :=
  s!"error [ln: {e.line}]: {e.problem.errorClass.text} - {e.problem.detail}"

end ParseError

end RegisterMachine
