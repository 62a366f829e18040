import RegisterMachine.Fault
import RegisterMachine.Instruction
/-! Events: what an operation reports beside its result. Most have a record for the log. -/
namespace RegisterMachine

/-- Names a device window for as long as a memory exists. -/
structure Handle where
  number : Nat
  deriving DecidableEq, Repr

inductive Severity where
  | error | warning | info | debug
  deriving DecidableEq, Repr

namespace Severity

def rank : Severity → Nat
  | .error => 0
  | .warning => 1
  | .info => 2
  | .debug => 3

def covers (least s : Severity) : Bool := s.rank ≤ least.rank

end Severity

inductive Event where
  | instructionFound (line : Nat) (op : Opcode)
  | labelAwaited (line : Nat) (label : Token)
  | labelBound (line : Nat) (label : Token) (index : Nat)
  | labelRebound (line : Nat) (label : Token) (index : Nat)
  | macroOpened (line : Nat) (name : Token) (params : Nat)
  | macroExpanded (line : Nat) (name : Token)
  | rejected (e : ParseError)
  | assembled (size : Nat)
  | dividedByZero (a : Word)
  | fetched (pc : Word) (i : Instruction)
  | computed (op : Opcode) (a b result : Word)
  | notComputed (op : Opcode) (a b : Word)
  | branchTaken (target : Word)
  /-- The machine prints a register, to its sink or else to the log. -/
  | printed (r : Register) (w : Word) (toSink : Bool)
  | terminated (steps : Nat) (pc : Word)
  | windowAttached (base : Word) (stop : Int)
  | deviceRead (device : Handle) (address : Word)
  | deviceWritten (device : Handle) (address value : Word)
  | characterDropped (w : Word)
  | terminalAttached (base : Word) (stop : Int)
  | computerReady (memory stack : Nat) (terminal : Word)
  deriving DecidableEq, Repr

namespace Event
open Text (quoted)

def record? : Event → Option (Severity × String)
  | .instructionFound line op => some (.debug, s!"[{line}] Found instruction {op.name}")
  | .labelAwaited line label => some (.debug, s!"[{line}] Waiting for label {quoted label}")
  | .labelBound line label index =>
    some (.debug, s!"[{line}] Label {quoted label} at instruction {index}")
  | .labelRebound line label index =>
    some (.warning,
      s!"[{line}] Label {quoted label} is already bound to instruction {index}; ignoring")
  | .macroOpened line name params =>
    some (.debug, s!"[{line}] Found macro {quoted name} with {params} parameters")
  | .macroExpanded line name => some (.debug, s!"[{line}] Expanding macro {quoted name}")
  | .rejected e => some (.error, e.message)
  | .assembled size => some (.debug, s!"Assembled {size} instructions")
  | .dividedByZero a => some (.debug, s!"ALU division by zero: {a} / 0")
  | .fetched pc i => some (.debug, s!"[{pc}] {i.text}")
  | .computed op a b result => some (.debug, s!"{op.name} {a} {b}: {result}")
  | .notComputed op a b => some (.debug, s!"{op.name} {a} {b}: DivisionByZero")
  | .branchTaken target => some (.debug, s!"branch taken to {target}")
  | .printed _ _ true => none
  | .printed r w false => some (.info, RegisterFile.line r w)
  | .terminated steps pc =>
    some (.info, s!"Program terminated after {steps} steps. PC: {pc}")
  | .windowAttached base stop => some (.debug, s!"Registered memory map [{base}, {stop})")
  | .deviceRead _ _ | .deviceWritten _ _ _ => none
  | .characterDropped w => some (.warning, s!"Terminal dropped `{w}`, not a character")
  | .terminalAttached base stop => some (.debug, s!"Terminal attached at [{base}, {stop})")
  | .computerReady memory stack terminal =>
    some (.info, s!"System ready: {memory} words of memory, {stack} stack slots, "
      ++ s!"terminal at {terminal}")

def sunk? : Event → Option String
  | .printed r w true => some (RegisterFile.line r w)
  | _ => none

end Event

def logAt (least : Severity) (events : List Event) : List (Severity × String) :=
  (events.filterMap Event.record?).filter fun r => least.covers r.1

end RegisterMachine
