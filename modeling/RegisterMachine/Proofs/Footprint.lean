import RegisterMachine.Proofs.Control
/-! What a step touches. Beside the registers an instruction changes one part of the machine at
most: the arithmetic unit, a slot of the stack, the bus or the program. -/
namespace RegisterMachine

namespace Call
variable {ω : Type}

def reports (c : Call ω) (world : ω) : List Event :=
  match c.written with
  | none => (c.window.callRead c.device c.address world).events
  | some value => (c.window.callWrite c.device c.address value world).events

end Call

namespace Bus
variable {ω : Type} {b : Bus ω}

/-- One access leads from one bus to the other. It comes to a storage cell, or it calls the device
at the address once. -/
inductive TouchedOnce (b b' : Bus ω) (a : Word) (written : Option Word) (events : List Event) : Prop
  | storage (k : Fin b.memory.cells.size) (place : a.toInt = k.val)
      (after : b' = { b with memory := { b.memory with
        cells := written.elim b.memory.cells fun w => b.memory.cells.set k.val w k.isLt } })
      (silent : events = [])
  | device {h : Handle} {w : Window ω} (outside : b.memory.cell? a = none)
      (there : b.memory.windowAt? a = some (h, w))
      (after : b' = { b with world := Call.effect ⟨h, w, a, written⟩ b.world })
      (reported : events = Call.reports ⟨h, w, a, written⟩ b.world)

theorem idle_of_holding {α : Type} {access : Bus ω → Outcome Fault (Bus ω) α} {x : α}
    (succeeds : (b.holding access).result = .ok x) : b.busy = false := by
  cases busy : b.busy with
  | false => rfl
  | true => simp [holding, busy, Outcome.fail] at succeeds

theorem read_touches {a w : Word} (succeeds : (b.read a).result = .ok w) :
    TouchedOnce b (b.read a).state a none (b.read a).events := by
  have idle := idle_of_holding succeeds
  cases hc : b.memory.cell? a with
  | some k =>
    rw [read_cell idle hc]
    exact .storage k (Memory.cell?_eq_some_iff.1 hc) rfl rfl
  | none =>
    cases hw : b.memory.windowAt? a with
    | none => simp [read_unowned idle hc hw, Outcome.fail] at succeeds
    | some p =>
      rw [read_window idle hc hw]
      exact .device hc hw rfl rfl

theorem write_touches {a value : Word} (succeeds : (b.write a value).result = .ok ()) :
    TouchedOnce b (b.write a value).state a (some value) (b.write a value).events := by
  have idle := idle_of_holding succeeds
  cases hc : b.memory.cell? a with
  | some k =>
    rw [write_cell idle hc]
    exact .storage k (Memory.cell?_eq_some_iff.1 hc) rfl rfl
  | none =>
    cases hw : b.memory.windowAt? a with
    | none => simp [write_unowned idle hc hw, Outcome.fail] at succeeds
    | some p =>
      rw [write_window idle hc hw]
      exact .device hc hw rfl rfl

theorem TouchedOnce.memory {b' : Bus ω} {a : Word} {written : Option Word} {events : List Event}
    (h : TouchedOnce b b' a written events) :
    b'.memory.windows = b.memory.windows ∧ (written = none → b'.memory = b.memory) := by
  cases h with
  | storage k place after silent =>
    subst after
    refine ⟨rfl, ?_⟩
    rintro rfl
    rfl
  | device outside there after reported =>
    subst after
    exact ⟨rfl, fun _ => rfl⟩

end Bus

namespace Instruction

/-- The instruction with another destination, if it has one. -/
def redirect (dest : Register) : Instruction → Instruction
  | .arith op a b _ => .arith op a b dest
  | .equal a b _ => .equal a b dest
  | .arithImm op a w _ => .arithImm op a w dest
  | .loadImm _ w => .loadImm dest w
  | .loadMem _ a => .loadMem dest a
  | .loadReg _ a => .loadReg dest a
  | .move source _ => .move source dest
  | .pop _ => .pop dest
  | i => i

end Instruction

namespace Machine
variable {ω : Type} {m : Machine ω} {i : Instruction}

def access? (m : Machine ω) : Instruction → Option (Word × Option Word)
  | .loadMem _ a => some (a, none)
  | .loadReg _ a => some (m.reg a, none)
  | .storeMem source a => some (a, some (m.reg source))
  | .storeReg source a => some (m.reg a, some (m.reg source))
  | _ => none

/-- The part of the machine, beside the registers, that an instruction has changed. -/
inductive Reach (m : Machine ω) (i : Instruction) (m' : Machine ω) (events : List Event) : Prop
  | registers (file : RegisterFile) (after : m' = { m with registers := file })
      (inner : m.access? i = none) (quiet : events.filterMap Event.deviceCall? = [])
  | unit (file : RegisterFile) (alu : Alu) (after : m' = { m with registers := file, alu })
      (uses : i.isArithmetic = true ∨ ∃ b target, i = .branch b target ∧ b ≠ .always)
      (inner : m.access? i = none) (quiet : events.filterMap Event.deviceCall? = [])
  | slot (file : RegisterFile) {a : Register} (push : i = .push a) (k : Nat)
      (inside : k < m.stack.slots.size) (place : (m.reg .sp).toInt = k)
      (after : m' = { m with registers := file, stack := ⟨m.stack.slots.set k (m.reg a) inside⟩ })
      (inner : m.access? i = none) (silent : events = [])
  | bus (file : RegisterFile) (b : Bus ω) (after : m' = { m with registers := file, bus := b })
      {a : Word} {written : Option Word} (access : m.access? i = some (a, written))
      (touched : m.bus.TouchedOnce b a written events)
  | program (exit : i = .exit) (after : m' = m.setFinished true) (inner : m.access? i = none)
      (silent : events = [])

theorem compute_reach (op : Opcode) (operation : Alu.Operation) (a b : Word) (dest : Register)
    (uses : i.isArithmetic = true) (inner : m.access? i = none) :
    m.Reach i (m.compute op operation a b dest).state (m.compute op operation a b dest).events := by
  rw [compute_eq]
  cases operation.output? a b with
  | some out => exact .unit _ _ rfl (.inl uses) inner rfl
  | none => exact .unit m.registers _ rfl (.inl uses) inner rfl

theorem branchOn_reach (c : Comparison) (a b target : Word)
    (uses : ∃ b target, i = .branch b target ∧ b ≠ .always) (inner : m.access? i = none) :
    m.Reach i (m.branchOn c a b target).state (m.branchOn c a b target).events := by
  by_cases taken : c.holds (m.alu.run (.arith .sub) a b).1.flags = true
  · rw [branchOn_taken taken]
    exact .unit _ _ rfl (.inr uses) inner rfl
  · rw [branchOn_passed taken]
    exact .unit m.registers _ rfl (.inr uses) inner rfl

theorem loadFrom_reach {dest : Register} {a : Word} (access : m.access? i = some (a, none))
    (succeeds : (m.loadFrom dest a).result = .ok ()) :
    m.Reach i (m.loadFrom dest a).state (m.loadFrom dest a).events := by
  obtain ⟨w, hr⟩ := exists_read_of_loadFrom succeeds
  have touched := Bus.read_touches hr
  simp only [loadFrom, viaBus, Outcome.andThen, Outcome.mapState, hr]
  refine .bus _ _ rfl access ?_
  simpa [Outcome.after, Outcome.ok] using touched

theorem storeAt_reach {a w : Word} (access : m.access? i = some (a, some w))
    (succeeds : (m.storeAt a w).result = .ok ()) :
    m.Reach i (m.storeAt a w).state (m.storeAt a w).events :=
  .bus m.registers _ rfl access (Bus.write_touches succeeds)

theorem pushWord_reach {source : Register} (push : i = .push source)
    (succeeds : (m.pushWord (m.reg source)).result = .ok ()) :
    m.Reach i (m.pushWord (m.reg source)).state (m.pushWord (m.reg source)).events := by
  cases hs : m.stack.slot (m.reg .sp) with
  | error e => simp [(pushWord_error_iff _).2 hs] at succeeds
  | ok k =>
    have place := (m.stack.slot_eq_ok_iff _ k).1 hs
    simp only [pushWord, Stack.write_of_lt place k.isLt]
    exact .slot _ push k.val k.isLt place rfl (push ▸ rfl) rfl

theorem popTo_reach {dest : Register} (inner : m.access? i = none) :
    m.Reach i (m.popTo dest).state (m.popTo dest).events := by
  simp only [popTo]
  split
  · exact .registers m.registers rfl inner rfl
  · exact .registers _ rfl inner rfl

theorem execute_reach (succeeds : (m.execute i).result = .ok ()) :
    m.Reach i (m.execute i).state (m.execute i).events := by
  cases i with
  | invalid | noop | print => exact .registers m.registers rfl rfl rfl
  | loadImm | move | jumpReg => exact .registers _ rfl rfl rfl
  | exit =>
    by_cases loaded : m.program.isSome = true
    · rw [execute_eq_perform, Instruction.effect, perform_finish loaded]
      exact .program rfl rfl rfl rfl
    · simp [execute, loaded, Outcome.fail] at succeeds
  | arith | equal | arithImm => exact compute_reach _ _ _ _ _ rfl rfl
  | loadMem | loadReg => exact loadFrom_reach rfl succeeds
  | storeMem | storeReg => exact storeAt_reach rfl succeeds
  | push => exact pushWord_reach rfl succeeds
  | pop => exact popTo_reach rfl
  | branch b target =>
    cases b with
    | always => exact .registers _ rfl rfl rfl
    | onZero | onNotZero | on => exact branchOn_reach _ _ _ _ ⟨_, _, rfl, by simp⟩ rfl

structure Footprint (m : Machine ω) (i : Instruction) (m' : Machine ω) (events : List Event) :
    Prop where
  registers : ∀ r, m'.reg r ≠ m.reg r → r = .pc ∨ i.dest? = some r ∨
    (r = .ex ∧ i.isArithmetic = true ∧ ¬m.DividesByZero i) ∨
    (r = .sp ∧ (i.opcode = .push ∨ i.opcode = .pop))
  withheld : m.DividesByZero i → ∀ r, r ≠ .pc → m'.reg r = m.reg r
  extra : i.isArithmetic = true → ¬m.DividesByZero i →
    ∃ out, (i.effect m.reg).output? = some out ∧ m'.reg .ex = out.extra
  zero : m.reg .ze = 0 ∧ m'.reg .ze = 0
  slots : m'.stack = m.stack ∨ ∃ a k, ∃ inside : k < m.stack.slots.size, i = .push a ∧
    (m.reg .sp).toInt = k ∧ m'.stack = ⟨m.stack.slots.set k (m.reg a) inside⟩
  inner : m.access? i = none → m'.bus = m.bus ∧ events.filterMap Event.deviceCall? = []
  accessed : ∀ a written, m.access? i = some (a, written) →
    ∃ own, events = .fetched (m.reg .pc) i :: own ∧ m.bus.TouchedOnce m'.bus a written own
  loads : ∀ a, m.access? i = some (a, none) → m'.bus.memory = m.bus.memory
  windows : m'.bus.memory.windows = m.bus.memory.windows
  unit : m'.alu ≠ m.alu → i.isArithmetic = true ∨ ∃ b target, i = .branch b target ∧ b ≠ .always
  instructions : m'.program.map Program.instructions = m.program.map Program.instructions
  finished : m'.isFinished ≠ m.isFinished →
    i = .exit ∧ m.isFinished = false ∧ m'.isFinished = true
  sink : m'.hasSink = m.hasSink

section Parts
variable {m' : Machine ω} {events : List Event}

theorem Reach.stack (h : m.Reach i m' events) : m'.stack = m.stack ∨
    ∃ a k, ∃ inside : k < m.stack.slots.size, i = .push a ∧ (m.reg .sp).toInt = k ∧
      m'.stack = ⟨m.stack.slots.set k (m.reg a) inside⟩ := by
  cases h with
  | registers file after | unit file alu after | bus file b after | program exit after =>
    exact .inl (after ▸ rfl)
  | slot file push k inside place after => exact .inr ⟨_, k, inside, push, place, after ▸ rfl⟩

theorem Reach.bus_of_inner (h : m.Reach i m' events) (absent : m.access? i = none) :
    m'.bus = m.bus ∧ events.filterMap Event.deviceCall? = [] := by
  cases h with
  | registers file after inner quiet => exact ⟨after ▸ rfl, quiet⟩
  | unit file alu after uses inner quiet => exact ⟨after ▸ rfl, quiet⟩
  | slot file push k inside place after inner silent => exact ⟨after ▸ rfl, silent ▸ rfl⟩
  | program exit after inner silent => exact ⟨after ▸ rfl, silent ▸ rfl⟩
  | bus file b after access touched => simp [absent] at access

theorem Reach.bus_of_access (h : m.Reach i m' events) {a : Word} {written : Option Word}
    (present : m.access? i = some (a, written)) : m.bus.TouchedOnce m'.bus a written events := by
  cases h with
  | registers _ _ inner | unit _ _ _ _ inner | slot _ _ _ _ _ _ inner | program _ _ inner =>
    simp [present] at inner
  | bus file b after access touched =>
    obtain ⟨rfl, rfl⟩ := Prod.mk.inj (Option.some.inj (access.symm.trans present))
    rw [after]
    exact touched

theorem Reach.windows (h : m.Reach i m' events) :
    m'.bus.memory.windows = m.bus.memory.windows := by
  cases h with
  | bus file b after access touched =>
    rw [after]
    exact touched.memory.1
  | registers file after | unit file alu after | slot file push k inside place after
  | program exit after => exact after ▸ rfl

theorem Reach.alu (h : m.Reach i m' events) (changed : m'.alu ≠ m.alu) :
    i.isArithmetic = true ∨ ∃ b target, i = .branch b target ∧ b ≠ .always := by
  cases h with
  | unit file alu after uses => exact uses
  | registers file after | slot file push k inside place after | bus file b after
  | program exit after => exact absurd (after ▸ rfl) changed

theorem Reach.program_eq (h : m.Reach i m' events) :
    m'.program = m.program ∨ i = .exit ∧ m' = m.setFinished true := by
  cases h with
  | program exit after => exact .inr ⟨exit, after⟩
  | registers file after | unit file alu after | slot file push k inside place after
  | bus file b after => exact .inl (after ▸ rfl)

theorem instructions_setFinished (finished : Bool) :
    (m.setFinished finished).program.map Program.instructions =
      m.program.map Program.instructions := by
  simp [setFinished, Function.comp_def]

theorem Reach.instructions (h : m.Reach i m' events) :
    m'.program.map Program.instructions = m.program.map Program.instructions := by
  rcases h.program_eq with same | ⟨-, rfl⟩
  · rw [same]
  · exact instructions_setFinished true

theorem Reach.finished (h : m.Reach i m' events) {p : Program} (loaded : m.program = some p)
    (changed : m'.isFinished ≠ m.isFinished) :
    i = .exit ∧ m.isFinished = false ∧ m'.isFinished = true := by
  rcases h.program_eq with same | ⟨exit, rfl⟩
  · exact absurd (congrArg (Option.any Program.finished) same) changed
  · have after : (m.setFinished true).isFinished = true := by
      simp [setFinished, isFinished, loaded]
    rw [after] at changed
    exact ⟨exit, by simpa using changed.symm, after⟩

theorem Reach.sink (h : m.Reach i m' events) : m'.hasSink = m.hasSink := by
  cases h with
  | registers file after | unit file alu after | slot file push k inside place after
  | bus file b after | program exit after => exact after ▸ rfl

end Parts

theorem mem_written {r : Register} (h : r ∈ i.written) : r = .pc ∨ i.dest? = some r ∨
    (r = .ex ∧ i.isArithmetic = true) ∨ (r = .sp ∧ (i.opcode = .push ∨ i.opcode = .pop)) := by
  rcases List.mem_append.1 h with named | implied
  · exact .inr (.inl (Option.mem_toList.1 named))
  · cases i with
    | arith | equal | arithImm =>
      exact .inr (.inr (.inl ⟨List.mem_singleton.1 implied, rfl⟩))
    | push => exact .inr (.inr (.inr ⟨List.mem_singleton.1 implied, .inl rfl⟩))
    | pop => exact .inr (.inr (.inr ⟨List.mem_singleton.1 implied, .inr rfl⟩))
    | jumpReg | branch => exact .inl (List.mem_singleton.1 implied)
    | _ => exact absurd implied List.not_mem_nil

/-- After arithmetic the extra register holds the extra word, be it the destination too. -/
theorem execute_extra {out : Alu.Output} (given : (i.effect m.reg).output? = some out) :
    (m.execute i).state.reg .ex = out.extra := by
  rw [execute_eq_perform]
  cases he : i.effect m.reg with
  | compute op operation a b dest =>
    have computed : operation.output? a b = some out := by rwa [he] at given
    rw [perform, compute_eq, computed]
    exact RegisterFile.get_set_self _ .ex _ (by decide)
  | _ => simp [he, Effect.output?] at given

theorem setReg_setReg (r : Register) (w w' : Word) :
    (m.setReg r w).setReg r w' = m.setReg r w' := by
  cases r <;> rfl

theorem compute_redirect (op : Opcode) (operation : Alu.Operation) (a b : Word)
    (dest : Register) :
    SameBut dest (m.compute op operation a b dest) (m.compute op operation a b .ze) := by
  rw [compute_eq, compute_eq]
  cases operation.output? a b with
  | some out => exact ⟨rfl, rfl, by cases dest <;> rfl⟩
  | none => exact ⟨rfl, rfl, rfl⟩

theorem loadFrom_redirect (dest : Register) (a : Word) :
    SameBut dest (m.loadFrom dest a) (m.loadFrom .ze a) := by
  simp only [loadFrom, viaBus, Outcome.andThen, Outcome.mapState]
  cases (m.bus.read a).result with
  | error e => exact ⟨rfl, rfl, rfl⟩
  | ok w => exact ⟨rfl, rfl, setReg_setReg _ _ _⟩

theorem popTo_redirect (dest : Register) : SameBut dest (m.popTo dest) (m.popTo .ze) := by
  simp only [popTo]
  split
  · exact ⟨rfl, rfl, rfl⟩
  · exact ⟨rfl, rfl, setReg_setReg _ _ _⟩

theorem execute_redirect {dest : Register} (names : i.dest? = some dest) :
    SameBut dest (m.execute i) (m.execute (i.redirect .ze)) := by
  cases i with
  | arith | arithImm =>
    obtain rfl := Option.some.inj names
    exact compute_redirect _ _ _ _ _
  | equal a b =>
    obtain rfl := Option.some.inj names
    exact compute_redirect .equal .equal (m.reg a) (m.reg b) _
  | loadImm | move =>
    obtain rfl := Option.some.inj names
    exact ⟨rfl, rfl, setReg_setReg _ _ _⟩
  | loadMem | loadReg =>
    obtain rfl := Option.some.inj names
    exact loadFrom_redirect _ _
  | pop =>
    obtain rfl := Option.some.inj names
    exact popTo_redirect _
  | _ => simp [Instruction.dest?] at names

theorem step_events (fetched : m.fetch = .ok i) (executed : (m.execute i).result = .ok ()) :
    m.step.events = .fetched (m.reg .pc) i :: (m.execute i).events := by
  simp [step, cycle, fetched, executed, Outcome.andThen, Outcome.after, Outcome.ok]

theorem execute_registers {r : Register} (changed : (m.execute i).state.reg r ≠ m.reg r) :
    r = .pc ∨ i.dest? = some r ∨ (r = .ex ∧ i.isArithmetic = true ∧ ¬m.DividesByZero i) ∨
    (r = .sp ∧ (i.opcode = .push ∨ i.opcode = .pop)) := by
  have divides : ¬m.DividesByZero i := fun zero =>
    changed (by rw [execute_dividesByZero zero]; rfl)
  have written : r ∈ i.written := Decidable.byContradiction fun h => changed (execute_reg h)
  rcases mem_written written with pc | dest | ⟨ex, arithmetic⟩ | sp
  · exact .inl pc
  · exact .inr (.inl dest)
  · exact .inr (.inr (.inl ⟨ex, arithmetic, divides⟩))
  · exact .inr (.inr (.inr sp))

/-- A step touches what its instruction names, and nothing else. The zero register takes no word
from anyone, and an instruction that has it for its destination does all else that it does. -/
theorem step_touches_what_it_names {finished : Bool} (fetched : m.fetch = .ok i)
    (succeeds : m.step.result = .ok finished) :
    m.Footprint i m.step.state m.step.events ∧ (∀ w, m.setReg .ze w = m) ∧
      ∀ dest, i.dest? = some dest → SameBut dest (m.execute i) (m.execute (i.redirect .ze)) := by
  obtain ⟨executed, moved⟩ := step_of_succeeded fetched succeeds
  have reach := execute_reach executed
  have others {r : Register} (hr : r ≠ .pc) : m.step.state.reg r = (m.execute i).state.reg r := by
    rw [moved, reg_setReg_of_ne _ hr]
  have reported := step_events fetched executed
  obtain ⟨p, loaded, -⟩ := fetch_eq_ok_iff.1 fetched
  refine ⟨?_, fun _ => rfl, fun dest names => execute_redirect names⟩
  exact {
    registers := fun r changed => by
      by_cases pc : r = .pc
      · exact .inl pc
      · rw [others pc] at changed
        exact execute_registers changed
    withheld := fun zero r pc => by
      rw [others pc, execute_dividesByZero zero]
      rfl
    extra := fun arithmetic nonzero => by
      obtain ⟨out, given⟩ := Option.ne_none_iff_exists'.1
        fun none => nonzero ((output?_effect_eq_none_iff arithmetic).1 none)
      exact ⟨out, given, (others (by decide)).trans (execute_extra given)⟩
    zero := ⟨m.reg_ze, m.step.state.reg_ze⟩
    slots := by
      rw [moved]
      exact reach.stack
    inner := fun absent => by
      rw [moved, reported]
      exact reach.bus_of_inner absent
    accessed := fun a written present => by
      rw [moved]
      exact ⟨_, reported, reach.bus_of_access present⟩
    loads := fun a load => by
      rw [moved]
      exact (reach.bus_of_access load).memory.2 rfl
    windows := by
      rw [moved]
      exact reach.windows
    unit := by
      rw [moved]
      exact reach.alu
    instructions := by
      rw [moved]
      exact reach.instructions
    finished := by
      rw [moved]
      exact reach.finished loaded
    sink := by
      rw [moved]
      exact reach.sink }

theorem step_touches_what_it_names_storing :
    let bus := ((Bus.ofSize 8 []).attach Bus.recorder).state
    let p := Program.ofArray #[.arithImm .div .v0 2 .ex, .storeMem .v0 17]
    let m : Machine (List (Word × Word)) := ((onBus bus 2).setReg .v0 5).load p
    let m' := m.setReg .pc 1
    m.step.result = .ok false ∧ m.step.state.reg .ex = 1 ∧ m.step.state.bus = bus ∧
      m'.step.result = .ok false ∧ m'.step.state.bus = { bus with world := [(17, 5)] } ∧
      ∀ r, r ≠ .pc → m'.step.state.reg r = m'.reg r := by
  intro bus p m m'
  have divided : m.step.result = .ok false := by decide
  have stored : m'.step.result = .ok false := by decide
  obtain ⟨divides, -⟩ :=
    step_touches_what_it_names (m := m) (i := .arithImm .div .v0 2 .ex) rfl divided
  obtain ⟨stores, -⟩ := step_touches_what_it_names (m := m') (i := .storeMem .v0 17) rfl stored
  refine ⟨divided, ?_, (divides.inner rfl).1, stored, ?_, fun r pc => ?_⟩
  · obtain ⟨out, given, extra⟩ := divides.extra rfl nofun
    have remainder : (Alu.Operation.output? (.arith .div) 5 2) = some ⟨2, 1⟩ := by decide
    obtain rfl : (⟨2, 1⟩ : Alu.Output) = out := Option.some.inj (remainder.symm.trans given)
    exact extra
  · obtain ⟨own, -, touched⟩ := stores.accessed 17 (some 5) rfl
    have found : bus.memory.windowAt? 17 = some (⟨0⟩, Bus.recorder) := rfl
    cases touched with
    | storage k place => cases Memory.cell?_eq_some_iff.2 place
    | device outside there after =>
      obtain ⟨rfl, rfl⟩ := Prod.mk.inj (Option.some.inj (found.symm.trans there))
      exact after
  · by_contra changed
    rcases stores.registers r changed with rfl | named | ⟨-, arithmetic, -⟩ | ⟨-, push | pop⟩
    · exact pc rfl
    · cases named
    · cases arithmetic
    · cases push
    · cases pop

end Machine

end RegisterMachine
