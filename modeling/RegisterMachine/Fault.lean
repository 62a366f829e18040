import RegisterMachine.Assembly.Problem
import RegisterMachine.Opcode
/-! Faults: what stops an operation of the machine. Division by zero is not among them; the
program sees it in the status of the arithmetic unit. -/
namespace RegisterMachine

inductive BadWindow where
  | negativeBase (base : Word)
  | negativeLength (length : Word)
  | insideMemory (base : Word) (size : Nat)
  deriving DecidableEq, Repr

namespace BadWindow

def text : BadWindow → String
  | .negativeBase base => s!"memory map base address `{base}` is negative"
  | .negativeLength length => s!"memory map length `{length}` is negative"
  | .insideMemory base size =>
    s!"memory map at `{base}` lies inside primary memory of size `{size}`"

end BadWindow

inductive Fault where
  | invalidOpcode (op : Opcode)
  | memoryOutOfBounds (address : Word)
  | stackOverflow (index : Word)
  | stackUnderflow (index : Word)
  | badWindow (why : BadWindow)
  | windowOverlap (base : Word) (stop : Int)
  /-- The memory is asked for something while an access to it is under way. -/
  | reentrantAccess
  | noProgram
  | programCounterOutOfRange (pc : Word) (size : Nat)
  | assembly (e : ParseError)
  deriving DecidableEq, Repr

namespace Fault

def message : Fault → String
  | .invalidOpcode op => s!"invalid opcode `{op.mnemonic}` (0x{Numeral.hexByte op.code})"
  | .memoryOutOfBounds address => s!"out of bounds memory access at address {address}"
  | .stackOverflow index => s!"stack overflow at index {index}"
  | .stackUnderflow index => s!"stack underflow at index {index}"
  | .badWindow why => s!"bad argument: {why.text}"
  | .windowOverlap base stop => s!"memory map [{base}, {stop}) overlaps a registered map"
  | .reentrantAccess => "memory was accessed again from inside a memory map callback"
  | .noProgram => "cannot run a program until one is loaded"
  | .programCounterOutOfRange pc size =>
    s!"program counter {pc} is outside of the loaded program ({size} instructions)"
  | .assembly e => e.message

end Fault

end RegisterMachine
