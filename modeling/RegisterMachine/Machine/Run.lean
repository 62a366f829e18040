import RegisterMachine.Machine.Execute
/-! Cycles of the machine, and runs of a program from its first instruction to its exit. -/
namespace RegisterMachine

namespace Machine
variable {ω : Type}

def fetch (m : Machine ω) : Except Fault Instruction :=
  match m.program with
  | none => .error .noProgram
  | some p =>
    match p.fetch? (m.reg .pc) with
    | some i => .ok i
    | none => .error (.programCounterOutOfRange (m.reg .pc) p.size)

def cycle (m : Machine ω) : Outcome Fault (Machine ω) Unit :=
  match m.fetch with
  | .error e => .fail e m
  | .ok i =>
    ((m.execute i).andThen fun _ m => .ok () (m.setReg .pc (m.reg .pc + 1))).after
      [.fetched (m.reg .pc) i]

def step (m : Machine ω) : Outcome Fault (Machine ω) Bool :=
  m.cycle.andThen fun _ m => .ok m.isFinished m

inductive Ending where
  | finished
  | failed (e : Fault)
  | outOfCycles
  deriving DecidableEq, Repr

structure Run (ω : Type) where
  ending : Ending
  machine : Machine ω
  /-- The number of cycles that did not fail. -/
  steps : Nat
  events : Array Event

def runFrom : Nat → Nat → Array Event → Machine ω → Run ω
  | 0, steps, events, m => ⟨.outOfCycles, m, steps, events⟩
  | fuel + 1, steps, events, m =>
    let o := m.cycle
    let events := events ++ o.events
    match o.result with
    | .error e => ⟨.failed e, o.state, steps, events⟩
    | .ok () =>
      if o.state.isFinished then
        ⟨.finished, o.state, steps + 1, events.push (.terminated (steps + 1) (o.state.reg .pc))⟩
      else runFrom fuel (steps + 1) events o.state

/-- The machine about to run its program from the first instruction, with an empty stack. -/
def rewind (m : Machine ω) : Machine ω := ((m.setFinished false).setReg .pc 0).setReg .sp 0

def run (fuel : Nat) (m : Machine ω) : Run ω :=
  if m.program.isSome then runFrom fuel 0 #[] m.rewind else ⟨.failed .noProgram, m, 0, #[]⟩

end Machine

end RegisterMachine
