import Mathlib.Data.List.Forall2
import RegisterMachine.Proofs.Memory.Routing
import RegisterMachine.Proofs.SignedComparison
import RegisterMachine.Proofs.Stepping
/-! Runs start afresh. The control registers, the finished flag and the status of the arithmetic
unit that earlier work has left behind have no part in a run, nor has the place that lines are
printed to: two machines that hold the same data run side by side. -/
namespace RegisterMachine

namespace Event

/-- The same event, but that each of two machines prints to where it prints its lines. -/
inductive Same (sink sink' : Bool) : Event → Event → Prop
  | refl (e : Event) : Same sink sink' e e
  | printed (r : Register) (w : Word) : Same sink sink' (.printed r w sink) (.printed r w sink')

def printedLine? : Event → Option String
  | .printed r w _ => some (RegisterFile.line r w)
  | _ => none

def deviceCall? : Event → Option (Handle × Word × Option Word)
  | .deviceRead device a => some (device, a, none)
  | .deviceWritten device a value => some (device, a, some value)
  | _ => none

variable {sink sink' : Bool}

theorem filterMap_eq_of_same {α : Type} {f : Event → Option α}
    (hf : ∀ {e e'}, Same sink sink' e e' → f e = f e') {events events' : List Event}
    (h : List.Forall₂ (Same sink sink') events events') :
    events.filterMap f = events'.filterMap f := by
  induction h with
  | nil => rfl
  | cons same _ ih => rw [List.filterMap_cons, List.filterMap_cons, hf same, ih]

theorem Same.printedLine? {e e' : Event} (h : Same sink sink' e e') :
    e.printedLine? = e'.printedLine? := by
  cases h <;> rfl

theorem Same.deviceCall? {e e' : Event} (h : Same sink sink' e e') :
    e.deviceCall? = e'.deviceCall? := by
  cases h <;> rfl

theorem same_refl (events : List Event) : List.Forall₂ (Same sink sink') events events :=
  List.forall₂_same.2 fun e _ => .refl e

end Event

namespace Machine
variable {ω α β : Type}

/-- The machines differ at most in the arithmetic unit and in where they print. -/
structure Alike (sink sink' : Bool) (m m' : Machine ω) : Prop where
  registers : m.registers = m'.registers
  stack : m.stack = m'.stack
  program : m.program = m'.program
  bus : m.bus = m'.bus
  sink : m.hasSink = sink
  sink' : m'.hasSink = sink'

structure Parallel (sink sink' : Bool) (o o' : Outcome Fault (Machine ω) α) : Prop where
  result : o.result = o'.result
  state : Alike sink sink' o.state o'.state
  events : List.Forall₂ (Event.Same sink sink') o.events o'.events

namespace Parallel
variable {sink sink' : Bool} {m m' : Machine ω} {o o' : Outcome Fault (Machine ω) α}

theorem ok (h : Alike sink sink' m m') (a : α) (events : List Event) :
    Parallel sink sink' (.ok a m events) (.ok a m' events) :=
  ⟨rfl, h, Event.same_refl events⟩

theorem fail (h : Alike sink sink' m m') (e : Fault) :
    Parallel sink sink' (.fail e m : Outcome Fault (Machine ω) α) (.fail e m') :=
  ⟨rfl, h, .nil⟩

theorem after (h : Parallel sink sink' o o') (earlier : List Event) :
    Parallel sink sink' (o.after earlier) (o'.after earlier) :=
  ⟨h.result, h.state, List.rel_append (Event.same_refl earlier) h.events⟩

theorem andThen (h : Parallel sink sink' o o')
    {next : α → Machine ω → Outcome Fault (Machine ω) β}
    (hn : ∀ a {m m'}, Alike sink sink' m m' → Parallel sink sink' (next a m) (next a m')) :
    Parallel sink sink' (o.andThen next) (o'.andThen next) := by
  unfold Outcome.andThen
  rw [← h.result]
  cases o.result with
  | error e => exact ⟨rfl, h.state, h.events⟩
  | ok a =>
    have rest := hn a h.state
    exact ⟨rest.result, rest.state, List.rel_append h.events rest.events⟩

end Parallel

theorem compute_eq (m : Machine ω) (op : Opcode) (operation : Alu.Operation) (a b : Word)
    (dest : Register) :
    m.compute op operation a b dest =
      match operation.output? a b with
      | some out =>
        .ok () { m with
            alu := ⟨false, .ofWord out.result⟩
            registers := (m.registers.set dest out.result).set .ex out.extra }
          [.computed op a b out.result]
      | none =>
        .ok () { m with alu := { m.alu with dividedByZero := true } }
          [.dividedByZero a, .notComputed op a b] := by
  unfold compute Alu.run
  cases operation.output? a b <;> rfl

namespace Alike
variable {sink sink' : Bool} {m m' : Machine ω} (h : Alike sink sink' m m')
include h

theorem reg (r : Register) : m.reg r = m'.reg r := congrArg (fun f => f.get r) h.registers

theorem setReg (r : Register) (w : Word) : Alike sink sink' (m.setReg r w) (m'.setReg r w) :=
  ⟨congrArg (fun f => f.set r w) h.registers, h.stack, h.program, h.bus, h.sink, h.sink'⟩

theorem setFinished (finished : Bool) :
    Alike sink sink' (m.setFinished finished) (m'.setFinished finished) := by
  refine ⟨h.registers, h.stack, ?_, h.bus, h.sink, h.sink'⟩
  simp only [Machine.setFinished, h.program]

theorem isFinished : m.isFinished = m'.isFinished := by
  simp only [Machine.isFinished, h.program]

theorem viaBus (access : Bus ω → Outcome Fault (Bus ω) α) :
    Parallel sink sink' (m.viaBus access) (m'.viaBus access) := by
  unfold Machine.viaBus
  rw [← h.bus]
  exact ⟨rfl, ⟨h.registers, h.stack, h.program, rfl, h.sink, h.sink'⟩, Event.same_refl _⟩

theorem compute (op : Opcode) (operation : Alu.Operation) (a b : Word) (dest : Register) :
    Parallel sink sink' (m.compute op operation a b dest) (m'.compute op operation a b dest) := by
  rw [compute_eq, compute_eq]
  cases operation.output? a b with
  | some out =>
    refine ⟨rfl, ⟨?_, h.stack, h.program, h.bus, h.sink, h.sink'⟩, Event.same_refl _⟩
    exact congrArg (fun f => (f.set dest out.result).set .ex out.extra) h.registers
  | none =>
    exact ⟨rfl, ⟨h.registers, h.stack, h.program, h.bus, h.sink, h.sink'⟩, Event.same_refl _⟩

/-- A branch sets the flags that it looks at. -/
theorem branchOn (c : Comparison) (a b target : Word) :
    Parallel sink sink' (m.branchOn c a b target) (m'.branchOn c a b target) := by
  rw [branchOn_eq, branchOn_eq]
  dsimp only
  have compared (alu : Alu) : Alike sink sink' { m with alu } { m' with alu } :=
    ⟨h.registers, h.stack, h.program, h.bus, h.sink, h.sink'⟩
  split
  · exact .ok ((compared _).setReg .pc _) _ _
  · exact .ok (compared _) _ _

theorem loadFrom (dest : Register) (a : Word) :
    Parallel sink sink' (m.loadFrom dest a) (m'.loadFrom dest a) :=
  (h.viaBus (Bus.read a)).andThen fun w _ _ h => .ok (h.setReg dest w) _ _

theorem pushWord (w : Word) : Parallel sink sink' (m.pushWord w) (m'.pushWord w) := by
  unfold Machine.pushWord
  rw [← h.stack, ← h.reg]
  split
  · exact .fail h _
  · rename_i stack _
    have pushed : Alike sink sink' { m with stack } { m' with stack } :=
      ⟨h.registers, rfl, h.program, h.bus, h.sink, h.sink'⟩
    exact .ok (pushed.setReg .sp _) _ _

theorem popTo (dest : Register) : Parallel sink sink' (m.popTo dest) (m'.popTo dest) := by
  simp only [Machine.popTo, ← h.stack, ← h.reg]
  split
  · exact .fail h _
  · exact .ok ((h.setReg .sp _).setReg dest _) _ _

theorem execute (i : Instruction) : Parallel sink sink' (m.execute i) (m'.execute i) := by
  cases i with
  | invalid => exact .fail h _
  | noop => exact .ok h _ _
  | exit =>
    simp only [Machine.execute, ← h.program]
    split
    · exact .ok (h.setFinished true) _ _
    · exact .fail h _
  | print a =>
    simp only [Machine.execute, ← h.reg, h.sink, h.sink']
    exact ⟨rfl, h, .cons (.printed a (m.reg a)) .nil⟩
  | loadImm dest w => exact .ok (h.setReg dest w) _ _
  | move source dest =>
    simp only [Machine.execute, ← h.reg]
    exact .ok (h.setReg dest _) _ _
  | jumpReg target =>
    simp only [Machine.execute, ← h.reg]
    exact .ok (h.setReg .pc _) _ _
  | arith op a b dest =>
    simp only [Machine.execute, ← h.reg]
    exact h.compute _ _ _ _ _
  | equal a b dest =>
    simp only [Machine.execute, ← h.reg]
    exact h.compute _ _ _ _ _
  | arithImm op a w dest =>
    simp only [Machine.execute, ← h.reg]
    exact h.compute _ _ _ _ _
  | loadMem dest a => exact h.loadFrom dest a
  | loadReg dest a =>
    simp only [Machine.execute, ← h.reg]
    exact h.loadFrom dest _
  | storeMem source a =>
    simp only [Machine.execute, ← h.reg]
    exact h.viaBus _
  | storeReg source a =>
    simp only [Machine.execute, ← h.reg]
    exact h.viaBus _
  | push source =>
    simp only [Machine.execute, ← h.reg]
    exact h.pushWord _
  | pop dest => exact h.popTo dest
  | branch b target =>
    cases b with
    | always => exact .ok (h.setReg .pc _) _ _
    | onZero a | onNotZero a | on c a b =>
      simp only [Machine.execute, ← h.reg]
      exact h.branchOn _ _ _ _

theorem fetch : m.fetch = m'.fetch := by
  unfold Machine.fetch
  rw [h.program, h.reg]

theorem cycle : Parallel sink sink' m.cycle m'.cycle := by
  unfold Machine.cycle
  rw [← h.fetch, ← h.reg]
  cases m.fetch with
  | error e => exact .fail h e
  | ok i =>
    refine ((h.execute i).andThen fun _ m m' h => ?_).after _
    rw [← h.reg]
    exact .ok (h.setReg .pc _) _ _

end Alike

structure Run.Parallel (sink sink' : Bool) (r r' : Run ω) : Prop where
  ending : r.ending = r'.ending
  steps : r.steps = r'.steps
  machine : Alike sink sink' r.machine r'.machine
  events : List.Forall₂ (Event.Same sink sink') r.events.toList r'.events.toList

theorem Alike.runFrom {sink sink' : Bool} {m m' : Machine ω} (h : Alike sink sink' m m')
    (fuel steps : Nat) {events events' : Array Event}
    (earlier : List.Forall₂ (Event.Same sink sink') events.toList events'.toList) :
    Run.Parallel sink sink' (runFrom fuel steps events m) (runFrom fuel steps events' m') := by
  induction fuel generalizing m m' steps events events' with
  | zero => exact ⟨rfl, rfl, h, earlier⟩
  | succ fuel ih =>
    have cycle := h.cycle
    have all : List.Forall₂ (Event.Same sink sink') (events ++ m.cycle.events).toList
        (events' ++ m'.cycle.events).toList := by
      simpa using List.rel_append earlier cycle.events
    simp only [Machine.runFrom, ← cycle.result, ← cycle.state.isFinished]
    cases m.cycle.result with
    | error e => exact ⟨rfl, rfl, cycle.state, all⟩
    | ok u =>
      dsimp only
      split
      · rw [← cycle.state.reg]
        refine ⟨rfl, rfl, cycle.state, ?_⟩
        simpa using List.rel_append all (Event.same_refl [_])
      · exact ih cycle.state (steps + 1) all

/-- The machines hold the same data and instructions. Beside that they may stand anywhere in their
programs and stacks, have finished or not, have any status of the arithmetic unit, and print to a
sink or not. -/
structure SameData (m m' : Machine ω) : Prop where
  registers : ∀ r, r ≠ .pc → r ≠ .sp → m.reg r = m'.reg r
  stack : m.stack = m'.stack
  instructions : m.program.map Program.instructions = m'.program.map Program.instructions
  bus : m.bus = m'.bus

theorem SameData.rewind {m m' : Machine ω} (h : SameData m m') :
    Alike m.hasSink m'.hasSink m.rewind m'.rewind := by
  have first := m.rewound
  have second := m'.rewound
  refine ⟨?_, h.stack, ?_, h.bus, rfl, rfl⟩
  · apply RegisterFile.ext_get
    intro r
    change m.rewind.reg r = m'.rewind.reg r
    by_cases counter : r = .pc
    · rw [counter, first.counter, second.counter]
    by_cases pointer : r = .sp
    · rw [pointer, first.pointer, second.pointer]
    rw [first.registers r counter pointer, second.registers r counter pointer,
      h.registers r counter pointer]
  · have instructions := h.instructions
    rw [first.program, second.program]
    cases hp : m.program <;> cases hp' : m'.program <;> simp_all

/-- A run depends on the data and the program that a machine holds, and on nothing else. On two
machines that hold the same it ends or does not end alike, with the same registers, stack, memory,
devices, outside world and program, after the same device calls and printed lines; only the status
of the arithmetic unit may differ. -/
theorem run_ignores_leftovers {m m' : Machine ω} (same : SameData m m')
    (loaded : m.program.isSome = true) :
    ((∃ fuel, (m.run fuel).ending ≠ .outOfCycles) ↔
      ∃ fuel, (m'.run fuel).ending ≠ .outOfCycles) ∧
    ∀ fuel,
      let r := m.run fuel
      let r' := m'.run fuel
      r.ending = r'.ending ∧ r.steps = r'.steps ∧
      r.machine.registers = r'.machine.registers ∧ r.machine.stack = r'.machine.stack ∧
      r.machine.program = r'.machine.program ∧ r.machine.bus = r'.machine.bus ∧
      r.events.toList.filterMap Event.deviceCall? = r'.events.toList.filterMap Event.deviceCall? ∧
      r.events.toList.filterMap Event.printedLine? =
        r'.events.toList.filterMap Event.printedLine? ∧
      List.Forall₂ (Event.Same m.hasSink m'.hasSink) r.events.toList r'.events.toList := by
  have loaded' : m'.program.isSome = true := by
    rw [← Option.isSome_map (f := Program.instructions), ← same.instructions, Option.isSome_map]
    exact loaded
  have parallel (fuel : Nat) :
      Run.Parallel m.hasSink m'.hasSink (m.run fuel) (m'.run fuel) := by
    unfold run
    rw [if_pos loaded, if_pos loaded']
    exact same.rewind.runFrom fuel 0 .nil
  refine ⟨?_, fun fuel => ?_⟩
  · simp only [fun fuel => (parallel fuel).ending]
  · obtain ⟨ending, steps, machine, events⟩ := parallel fuel
    exact ⟨ending, steps, machine.registers, machine.stack, machine.program, machine.bus,
      Event.filterMap_eq_of_same Event.Same.deviceCall? events,
      Event.filterMap_eq_of_same Event.Same.printedLine? events, events⟩

/-- One machine is at rest; the other has stopped elsewhere after a negative result, and has a sink.
The division by zero keeps the flags, so they are what the runs leave different. -/
theorem run_ignores_leftovers_dividing :
    let p := Program.ofArray
      #[.print .v0, .arithImm .div .v0 0 .v1, .storeMem .v0 17, .push .v0, .exit]
    let bus := ((Bus.ofSize 8 []).attach Bus.recorder).state
    let m : Machine (List (Word × Word)) := ((onBus bus 2).setReg .v0 5).load p
    let m' : Machine (List (Word × Word)) :=
      { (((onBus bus 2).setReg .v0 5).setReg .pc 77).setReg .sp (-3) with
        alu := ⟨true, .negative⟩
        hasSink := true
        program := some ⟨p.instructions, true⟩ }
    SameData m m' ∧ (m.run 9).ending = .finished ∧ (m'.run 9).ending = .finished ∧
      (m'.run 9).machine.registers = (m.run 9).machine.registers ∧
      (m'.run 9).machine.bus.world = [(17, 5)] ∧
      (m'.run 9).events.toList.filterMap Event.printedLine? = ["V0: 5"] ∧
      (m.run 9).machine.alu = ⟨true, .none⟩ ∧ (m'.run 9).machine.alu = ⟨true, .negative⟩ := by
  intro p bus m m'
  have same : SameData m m' := by
    refine ⟨fun r hpc hsp => ?_, rfl, rfl, rfl⟩
    cases r <;> first | rfl | contradiction
  obtain ⟨ending, -, registers, -, -, shared, -, printed, -⟩ :=
    (run_ignores_leftovers same rfl).2 9
  have ends : (m.run 9).ending = .finished := by decide
  have world : (m.run 9).machine.bus.world = [(17, 5)] := by decide
  refine ⟨same, ends, ending ▸ ends, registers.symm, shared ▸ world, printed ▸ ?_, ?_, ?_⟩
  · decide
  · decide
  · decide

end Machine

end RegisterMachine
