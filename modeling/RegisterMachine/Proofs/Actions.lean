import RegisterMachine.Terminal
import RegisterMachine.Proofs.Footprint
import RegisterMachine.Proofs.Memory.Reentry
/-! What is done to a memory from outside: requests, visits and programs that run on it. All of it
comes to requests, one after the other. -/
namespace RegisterMachine

def Visit.making {ω : Type} (rs : List (Request (Window ω))) : Visit ω Unit :=
  rs.foldr (fun r rest => .direct r fun _ => rest) (.reply ())

namespace Bus
variable {ω : Type} {b : Bus ω}

theorem perform_state (idle : b.busy = false) (r : Request (Window ω)) :
    (perform (serve 1) r { b with busy := true }).state =
      { (b.submit r).state with busy := true } := by
  have held := (perform_held (b := { b with busy := true }) rfl 1 r).busy
  rw [submit_eq, holding_idle idle]
  generalize perform (serve 1) r { b with busy := true } = o at held
  obtain ⟨result, ⟨memory, world, busy⟩, events⟩ := o
  obtain rfl : busy = true := held
  rfl

theorem converse_idle (idle : b.busy = false) (rs : List (Request (Window ω))) :
    (b.converse rs).1.busy = false := by
  induction rs generalizing b with
  | nil => exact idle
  | cons r rest ih =>
    rw [converse_cons]
    exact ih (submit_idle idle r).1

theorem visit_making (idle : b.busy = false) (rs : List (Request (Window ω))) :
    (b.visit (.making rs)).state = (b.converse rs).1 := by
  have held : (carryOut (serve 1) (.making rs) { b with busy := true }).state =
      { (b.converse rs).1 with busy := true } := by
    induction rs generalizing b with
    | nil => rfl
    | cons r rest ih =>
      have next : (carryOut (serve 1) (.making (r :: rest)) { b with busy := true }).state =
          (carryOut (serve 1) (.making rest)
            (perform (serve 1) r { b with busy := true }).state).state := rfl
      rw [next, perform_state idle, converse_cons]
      exact ih (submit_idle idle r).1
  have rest := converse_idle idle rs
  rw [visit, holding_idle idle]
  simp only [Outcome.mapState, held]
  generalize (b.converse rs).1 = c at rest
  obtain ⟨memory, world, busy⟩ := c
  obtain rfl : busy = false := rest
  rfl

end Bus

def Request.ofAccess {W : Type} : Word × Option Word → Request W
  | (a, none) => .read a
  | (a, some value) => .write a value

namespace Terminal
variable {ω : Type}

def asks (base : Word) (sink : Char → ω → ω) : List (Request (Window ω)) :=
  match window base sink with
  | .error _ => []
  | .ok w => [.attach w]

theorem attach_asks (base : Word) (sink : Char → ω → ω) (b : Bus ω) :
    (attach base sink b).state = (b.converse (asks base sink)).1 := by
  unfold attach asks
  cases window base sink with
  | error e => rfl
  | ok w =>
    simp only [Outcome.reporting, Outcome.andThen]
    cases hr : (b.attach w).result with
    | error e => rfl
    | ok h => rfl

end Terminal

namespace Machine
variable {ω : Type} {m : Machine ω} {i : Instruction}

def asks (m : Machine ω) (i : Instruction) : List (Request (Window ω)) :=
  ((m.access? i).map Request.ofAccess).toList

theorem asks_of_no_store (mem : i.opcode ≠ .storeMem) (reg : i.opcode ≠ .storeReg) :
    m.asks i = [] ∨ ∃ a, m.asks i = [.read a] := by
  cases i with
  | loadMem dest a | loadReg dest a => exact .inr ⟨_, rfl⟩
  | storeMem source a => exact absurd rfl mem
  | storeReg source a => exact absurd rfl reg
  | invalid | noop | exit | print | arith | equal | arithImm | loadImm | move | push | pop | jumpReg
  | branch => exact .inl rfl

def stepAsks (m : Machine ω) : List (Request (Window ω)) :=
  match m.fetch with
  | .error _ => []
  | .ok i => m.asks i

def runAsks : Nat → Machine ω → List (Request (Window ω))
  | 0, _ => []
  | fuel + 1, m =>
    m.stepAsks ++ match m.step.result with
      | .ok false => runAsks fuel m.step.state
      | _ => []

theorem execute_inner (inner : m.access? i = none) : (m.execute i).state.bus = m.bus := by
  cases hr : (m.execute i).result with
  | error e =>
    rw [execute_cleanFrom m i e hr]
    rfl
  | ok u => exact ((execute_reach hr).bus_of_inner inner).1

theorem loadFrom_bus (dest : Register) (a : Word) :
    (m.loadFrom dest a).state.bus = (m.bus.read a).state := by
  simp only [loadFrom, viaBus, Outcome.andThen, Outcome.mapState]
  cases (m.bus.read a).result with
  | error e => rfl
  | ok w => rfl

theorem execute_asks (m : Machine ω) (i : Instruction) :
    (m.execute i).state.bus = (m.bus.converse (m.asks i)).1 := by
  cases i with
  | loadMem dest a | loadReg dest a => exact loadFrom_bus dest _
  | storeMem source a | storeReg source a => rfl
  | invalid | noop | exit | print | arith | equal | arithImm | loadImm | move | push | pop | jumpReg
  | branch => exact execute_inner rfl

theorem step_asks (m : Machine ω) : m.step.state.bus = (m.bus.converse m.stepAsks).1 := by
  have same : m.step.state = m.cycle.state := by
    cases hc : m.cycle.result with
    | error e => exact (step_of_cycle_error hc).2.1
    | ok u => exact (step_of_cycle_ok hc).2.1
  rw [same]
  unfold cycle stepAsks
  cases m.fetch with
  | error e => rfl
  | ok i =>
    rw [← execute_asks m i]
    simp only [Outcome.after, Outcome.andThen]
    cases (m.execute i).result with
    | error e => rfl
    | ok u => rfl

theorem runFrom_asks (fuel steps : Nat) (events : Array Event) (m : Machine ω) :
    (runFrom fuel steps events m).machine.bus = (m.bus.converse (runAsks fuel m)).1 := by
  induction fuel generalizing steps events m with
  | zero => rfl
  | succ fuel ih =>
    rw [runAsks, Bus.converse_append, ← step_asks]
    cases hr : m.step.result with
    | error e =>
      rw [runFrom_of_error hr]
      rfl
    | ok finished =>
      cases finished with
      | true =>
        rw [runFrom_of_finished hr]
        rfl
      | false =>
        rw [runFrom_of_unfinished hr]
        exact ih _ _ _

end Machine

inductive Action (ω : Type) where
  | request (r : Request (Window ω))
  | visit (rs : List (Request (Window ω)))
  | terminal (base : Word) (sink : Char → ω → ω)
  /-- Goes on with another machine on the same memory, or with other registers, another stack or
  another program. -/
  | machine (other : Machine ω)
  | execute (i : Instruction)
  | step
  | run (fuel : Nat)

namespace Action
variable {ω : Type}

def act : Action ω → Machine ω → Machine ω
  | .request r, m => { m with bus := (m.bus.submit r).state }
  | .visit rs, m => { m with bus := (m.bus.visit (.making rs)).state }
  | .terminal base sink, m => { m with bus := (Terminal.attach base sink m.bus).state }
  | .machine other, m => { other with bus := m.bus }
  | .execute i, m => (m.execute i).state
  | .step, m => m.step.state
  | .run fuel, m => (m.run fuel).machine

def asks : Action ω → Machine ω → List (Request (Window ω))
  | .request r, _ => [r]
  | .visit rs, _ => rs
  | .terminal base sink, _ => Terminal.asks base sink
  | .machine _, _ => []
  | .execute i, m => m.asks i
  | .step, m => m.stepAsks
  | .run fuel, m => if m.program.isSome then m.rewind.runAsks fuel else []

theorem act_asks (action : Action ω) {m : Machine ω} (idle : m.bus.busy = false) :
    (action.act m).bus = (m.bus.converse (action.asks m)).1 := by
  cases action with
  | request r | machine other => rfl
  | visit rs => exact Bus.visit_making idle rs
  | terminal base sink => exact Terminal.attach_asks base sink m.bus
  | execute i => exact m.execute_asks i
  | step => exact m.step_asks
  | run fuel =>
    simp only [act, asks, Machine.run]
    split
    · exact Machine.runFrom_asks fuel 0 #[] m.rewind
    · rfl

end Action

namespace Machine
variable {ω : Type}

def actAll : List (Action ω) → Machine ω → Machine ω
  | [], m => m
  | action :: rest, m => actAll rest (action.act m)

def asked : List (Action ω) → Machine ω → List (Request (Window ω))
  | [], _ => []
  | action :: rest, m => action.asks m ++ asked rest (action.act m)

/-- Actions leave a memory as the requests leave it that they come to. -/
theorem actAll_asks (actions : List (Action ω)) {m : Machine ω} (idle : m.bus.busy = false) :
    (actAll actions m).bus = (m.bus.converse (asked actions m)).1 := by
  induction actions generalizing m with
  | nil => rfl
  | cons action rest ih =>
    have first := action.act_asks idle
    rw [actAll, asked, Bus.converse_append, ← first]
    exact ih (first ▸ Bus.converse_idle idle _)

end Machine

end RegisterMachine
