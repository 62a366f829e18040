import RegisterMachine.Assembly.Session
import RegisterMachine.Machine.Run
import RegisterMachine.Terminal
/-! A computer: a machine with a terminal and an assembler, ready to run source text. -/
namespace RegisterMachine

structure Computer.Config where
  memorySize : Nat := 65536
  stackSize : Nat := Machine.defaultStackSize
  terminalBase : Word := 65536
  deriving DecidableEq, Repr

structure Computer (ω : Type) where
  config : Computer.Config
  machine : Machine ω
  terminal : Handle
  assembler : Assembler := {}

namespace Computer
variable {ω : Type}

/-- Builds a computer whose terminal shows its characters on the world by `sink`. -/
def build (config : Computer.Config) (sink : Char → ω → ω) (world : ω) :
    Outcome Fault (Bus ω) (Computer ω) :=
  (Terminal.attach config.terminalBase sink (.ofSize config.memorySize world)).andThen
    fun terminal bus =>
      .ok { config, machine := .onBus bus config.stackSize, terminal } bus
        [.computerReady config.memorySize config.stackSize config.terminalBase]

/-- Assembles a source text, loads the program and runs it for at most `fuel` cycles. A text that is
rejected leaves the machine as it is. -/
def runSource (fuel : Nat) (source : String) (s : Computer ω) : Machine.Run ω × Computer ω :=
  let o := s.assembler.assemble source
  match o.result with
  | .error e =>
    (⟨.failed (.assembly e), s.machine, 0, o.events.toArray⟩, { s with assembler := o.state })
  | .ok p =>
    let r := (s.machine.load p).run fuel
    ({ r with events := o.events.toArray ++ r.events },
      { s with machine := r.machine, assembler := o.state })

end Computer

end RegisterMachine
