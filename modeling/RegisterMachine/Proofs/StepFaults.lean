import RegisterMachine.Proofs.Assembly.Listing
import RegisterMachine.Proofs.CleanFailure
import RegisterMachine.Proofs.Exit
import RegisterMachine.Proofs.Memory.Routing
import RegisterMachine.Proofs.SignedComparison
/-! What makes a step of an assembled program fail: a program counter outside of the program, an
address that nobody owns, or a stack slot that does not exist. Nothing else does. -/
namespace RegisterMachine

theorem Stack.slot_eq_error_iff (s : Stack) (w : Word) (e : Fault) :
    s.slot w = .error e ↔ w.toInt < 0 ∧ e = .stackUnderflow w ∨
      (s.capacity : Int) ≤ w.toInt ∧ e = .stackOverflow w := by
  unfold slot capacity
  cases h : Word.index? w s.slots.size with
  | some i =>
    have place := (Word.index?_eq_some_iff w _ i).1 h
    have := i.isLt
    simp only [reduceCtorEq, false_iff]
    omega
  | none =>
    have outside := (Word.index?_eq_none_iff w _).1 h
    by_cases negative : w.toInt < 0
    · have short : ¬(s.slots.size : Int) ≤ w.toInt := by omega
      simp [negative, short, eq_comm]
    · have past : (s.slots.size : Int) ≤ w.toInt := by omega
      simp [negative, past, eq_comm]

/-- A failure of two operations in a row is one of the first, if the second cannot fail. -/
theorem Outcome.andThen_error_iff {ε σ α β : Type} {o : Outcome ε σ α}
    {next : α → σ → Outcome ε σ β} (hn : ∀ a s, ∃ b, (next a s).result = .ok b) (e : ε) :
    (o.andThen next).result = .error e ↔ o.result = .error e := by
  cases h : o.result with
  | error e' => simp [andThen, h]
  | ok a =>
    obtain ⟨b, hb⟩ := hn a o.state
    simp [andThen, h, after, hb]

theorem Memory.unowned_iff {ω : Type} {m : Memory ω} {a : Word} :
    (∀ o, ¬m.Owns a o) ↔ m.cell? a = none ∧ m.windowAt? a = none := by
  constructor
  · intro nobody
    refine ⟨cell?_eq_none fun inside => nobody .storage (.storage inside.1 inside.2),
      List.find?_eq_none.2 fun p hp inside => nobody (.window p.1) (.window hp inside)⟩
  · rintro ⟨hc, hw⟩ o owns
    cases owns with
    | storage low high =>
      obtain ⟨i, hi⟩ := exists_cell low high
      simp [hi] at hc
    | window attached inside => exact List.find?_eq_none.1 hw _ attached inside

namespace Bus
variable {ω : Type} {b : Bus ω} (idle : b.busy = false)
include idle

theorem read_error_iff (a : Word) (e : Fault) :
    (b.read a).result = .error e ↔ (∀ o, ¬b.memory.Owns a o) ∧ e = .memoryOutOfBounds a := by
  rw [Memory.unowned_iff]
  cases hc : b.memory.cell? a with
  | some i => simp [read_cell idle hc, Outcome.ok]
  | none =>
    cases hw : b.memory.windowAt? a with
    | none => simp [read_unowned idle hc hw, Outcome.fail, eq_comm]
    | some p =>
      have answered : ∃ w, (p.2.callRead p.1 a b.world).result = .ok w := by
        unfold Window.callRead
        cases p.2.onRead with
        | none => exact ⟨0, rfl⟩
        | some f => exact (f a).alone_result b.world
      obtain ⟨w, hw'⟩ := answered
      simp [read_window idle hc hw, Outcome.mapState, hw']

theorem write_error_iff (a value : Word) (e : Fault) :
    (b.write a value).result = .error e ↔
      (∀ o, ¬b.memory.Owns a o) ∧ e = .memoryOutOfBounds a := by
  rw [Memory.unowned_iff]
  cases hc : b.memory.cell? a with
  | some i => simp [write_cell idle hc, Outcome.ok]
  | none =>
    cases hw : b.memory.windowAt? a with
    | none => simp [write_unowned idle hc hw, Outcome.fail, eq_comm]
    | some p =>
      have answered : ∃ u, (p.2.callWrite p.1 a value b.world).result = .ok u := by
        unfold Window.callWrite
        cases p.2.onWrite with
        | none => exact ⟨(), rfl⟩
        | some f => exact (f a value).alone_result b.world
      obtain ⟨u, hu⟩ := answered
      simp [write_window idle hc hw, Outcome.mapState, hu]

end Bus

namespace Machine
variable {ω : Type} {m : Machine ω} {e : Fault}

def addressOf? (m : Machine ω) : Instruction → Option Word
  | .loadMem _ a | .storeMem _ a => some a
  | .loadReg _ a | .storeReg _ a => some (m.reg a)
  | _ => none

def slotOf? (m : Machine ω) : Instruction → Option Word
  | .push _ => some (m.reg .sp)
  | .pop _ => some (m.reg .sp - 1)
  | _ => none

inductive Lacks (m : Machine ω) (i : Instruction) : Fault → Prop
  | address {a : Word} (access : m.addressOf? i = some a) (unowned : ∀ o, ¬m.bus.memory.Owns a o) :
      Lacks m i (.memoryOutOfBounds a)
  | below {w : Word} (use : m.slotOf? i = some w) (negative : w.toInt < 0) :
      Lacks m i (.stackUnderflow w)
  | above {w : Word} (use : m.slotOf? i = some w) (past : (m.stack.capacity : Int) ≤ w.toInt) :
      Lacks m i (.stackOverflow w)

inductive Blocked (m : Machine ω) (p : Program) : Fault → Prop
  | counter (outside : (m.reg .pc).toInt < 0 ∨ (p.size : Int) ≤ (m.reg .pc).toInt) :
      Blocked m p (.programCounterOutOfRange (m.reg .pc) p.size)
  | instruction {i : Instruction} (current : p.fetch? (m.reg .pc) = some i) {e : Fault}
      (lacks : m.Lacks i e) : Blocked m p e

theorem lacks_iff (i : Instruction) : m.Lacks i e ↔
    (∃ a, m.addressOf? i = some a ∧ (∀ o, ¬m.bus.memory.Owns a o) ∧ e = .memoryOutOfBounds a) ∨
    ∃ w, m.slotOf? i = some w ∧ m.stack.slot w = .error e := by
  simp only [Stack.slot_eq_error_iff]
  constructor
  · intro h
    cases h with
    | address access unowned => exact .inl ⟨_, access, unowned, rfl⟩
    | below use negative => exact .inr ⟨_, use, .inl ⟨negative, rfl⟩⟩
    | above use past => exact .inr ⟨_, use, .inr ⟨past, rfl⟩⟩
  · rintro (⟨a, access, unowned, rfl⟩ | ⟨w, use, ⟨negative, rfl⟩ | ⟨past, rfl⟩⟩)
    · exact .address access unowned
    · exact .below use negative
    · exact .above use past

/-- Has the arithmetic unit perform an opcode, and takes over what it gives unless it reports a
division by zero. -/
def calculate (op : Opcode) (a b : Word) (dest : Register) (m : Machine ω) :
    Outcome Fault (Machine ω) Unit :=
  ((m.alu.perform op a b).mapState fun alu => { m with alu }).andThen fun out m =>
    if m.alu.dividedByZero then .ok () m [.notComputed op a b]
    else
      .ok () { m with registers := (m.registers.set dest out.result).set .ex out.extra }
        [.computed op a b out.result]

/-- Has the arithmetic unit subtract, and jumps by the flags that it leaves. -/
def compare (c : Comparison) (a b target : Word) (m : Machine ω) :
    Outcome Fault (Machine ω) Unit :=
  ((m.alu.perform .sub a b).mapState fun alu => { m with alu }).andThen fun _ m =>
    if c.holds m.alu.flags then .ok () (m.jump target) [.branchTaken target] else .ok () m

theorem branchOn_eq_compare (c : Comparison) (a b target : Word) :
    m.branchOn c a b target = m.compare c a b target := by
  have performed : m.alu.perform .sub a b = .ok ⟨a - b, 0⟩ ⟨false, .ofWord (a - b)⟩ := rfl
  rw [branchOn_eq, compare, performed]
  rfl

theorem compare_result (c : Comparison) (a b target : Word) :
    (m.compare c a b target).result = .ok () := by
  rw [← branchOn_eq_compare, branchOn_eq]
  dsimp only
  split <;> rfl

section Arithmetic
variable {op : Opcode} {operation : Alu.Operation} (accepted : op.aluOperation? = some operation)
  (a b : Word) (dest : Register)
include accepted

/-- An opcode that the arithmetic unit accepts is carried out as the unit performs it. -/
theorem compute_eq_calculate : m.compute op operation a b dest = m.calculate op a b dest := by
  unfold compute calculate Alu.perform Alu.run
  rw [accepted]
  cases h : operation.output? a b <;> simp [h, Outcome.andThen, Outcome.mapState, Outcome.ok,
    Outcome.after]

theorem calculate_result : (m.calculate op a b dest).result = .ok () := by
  rw [← compute_eq_calculate accepted]
  unfold compute
  split <;> rfl

end Arithmetic

theorem pushWord_error_iff (w : Word) :
    (m.pushWord w).result = .error e ↔ m.stack.slot (m.reg .sp) = .error e := by
  unfold pushWord Stack.write
  cases m.stack.slot (m.reg .sp) <;> simp [Except.map, Outcome.ok, Outcome.fail]

theorem popTo_error_iff (dest : Register) :
    (m.popTo dest).result = .error e ↔ m.stack.slot (m.reg .sp - 1) = .error e := by
  simp only [popTo, Stack.read]
  cases m.stack.slot (m.reg .sp - 1) <;> simp [Except.map, Outcome.ok, Outcome.fail]

section Idle
variable (idle : m.bus.busy = false)
include idle

theorem loadFrom_error_iff (dest : Register) (a : Word) :
    (m.loadFrom dest a).result = .error e ↔
      (∀ o, ¬m.bus.memory.Owns a o) ∧ e = .memoryOutOfBounds a := by
  rw [loadFrom, Outcome.andThen_error_iff fun w m => ⟨(), rfl⟩]
  exact Bus.read_error_iff idle a e

theorem storeAt_error_iff (a w : Word) :
    (m.storeAt a w).result = .error e ↔
      (∀ o, ¬m.bus.memory.Owns a o) ∧ e = .memoryOutOfBounds a :=
  Bus.write_error_iff idle a w e

/-- An instruction of a loaded program fails only if it lacks something, and then it does fail. -/
theorem execute_error_iff (loaded : m.program.isSome = true) {i : Instruction}
    (valid : i ≠ .invalid) : (m.execute i).result = .error e ↔ m.Lacks i e := by
  rw [lacks_iff]
  cases i with
  | invalid => exact absurd rfl valid
  | noop | print | loadImm | move | jumpReg => simp [execute, Outcome.ok, addressOf?, slotOf?]
  | exit => simp [execute, loaded, Outcome.ok, addressOf?, slotOf?]
  | arith op a b dest =>
    rw [execute, compute_eq_calculate (Opcode.aluOperation?_forms op).1,
      calculate_result (Opcode.aluOperation?_forms op).1]
    simp [addressOf?, slotOf?]
  | arithImm op a w dest =>
    rw [execute, compute_eq_calculate (Opcode.aluOperation?_forms op).2,
      calculate_result (Opcode.aluOperation?_forms op).2]
    simp [addressOf?, slotOf?]
  | equal a b dest =>
    have accepted : Opcode.equal.aluOperation? = some .equal := rfl
    rw [execute, compute_eq_calculate accepted, calculate_result accepted]
    simp [addressOf?, slotOf?]
  | loadMem | loadReg => simp [execute, loadFrom_error_iff idle, addressOf?, slotOf?]
  | storeMem | storeReg => simp [execute, storeAt_error_iff idle, addressOf?, slotOf?]
  | push source => simp [execute, pushWord_error_iff, addressOf?, slotOf?]
  | pop dest => simp [execute, popTo_error_iff, addressOf?, slotOf?]
  | branch b target =>
    cases b <;>
      simp [execute, branchOn_eq_compare, compare_result, Outcome.ok, addressOf?, slotOf?]

end Idle

theorem step_error_iff : m.step.result = .error e ↔
    m.fetch = .error e ∨ ∃ i, m.fetch = .ok i ∧ (m.execute i).result = .error e := by
  have same : m.step.result = .error e ↔ m.cycle.result = .error e :=
    ⟨cycle_error_of_step, fun h => (step_of_cycle_error h).1⟩
  rw [same, cycle]
  cases m.fetch with
  | error e' => simp [Outcome.fail]
  | ok i =>
    let next (_ : Unit) (m : Machine ω) : Outcome Fault (Machine ω) Unit :=
      .ok () (m.setReg .pc (m.reg .pc + 1))
    have executed : ((m.execute i).andThen next).result = .error e ↔
        (m.execute i).result = .error e := Outcome.andThen_error_iff (fun _ _ => ⟨(), rfl⟩) e
    simpa [Outcome.after] using executed

theorem step_error_iff_blocked (idle : m.bus.busy = false) {p : Program} {finished : Bool}
    (loaded : m.program = some ⟨p.instructions, finished⟩)
    (valid : ∀ i ∈ p.instructions, i ≠ .invalid) :
    m.step.result = .error e ↔ m.Blocked p e := by
  have fetch : m.fetch = (p.fetch? (m.reg .pc)).elim
      (.error (.programCounterOutOfRange (m.reg .pc) p.size)) .ok := by
    have same : Program.fetch? ⟨p.instructions, finished⟩ (m.reg .pc) = p.fetch? (m.reg .pc) := rfl
    simp only [Machine.fetch, loaded, same]
    cases p.fetch? (m.reg .pc) <;> rfl
  rw [step_error_iff]
  cases current : p.fetch? (m.reg .pc) with
  | none =>
    simp only [current, Option.elim] at fetch
    rw [fetch]
    have outside := (p.fetch?_eq_none_iff _).1 current
    constructor
    · simp only [Except.error.injEq, reduceCtorEq, false_and, exists_false, or_false]
      rintro rfl
      exact .counter outside
    · intro blocked
      cases blocked with
      | counter => exact .inl rfl
      | instruction here => simp [current] at here
  | some i =>
    simp only [current, Option.elim] at fetch
    rw [fetch]
    have inside : i ≠ .invalid := by
      unfold Program.fetch? at current
      split at current
      · cases current
      · exact valid i (Array.mem_of_getElem? current)
    have executed := execute_error_iff (e := e) idle (by simp [loaded]) inside
    simp only [reduceCtorEq, Except.ok.injEq, exists_eq_left', false_or, executed]
    constructor
    · exact .instruction current
    · intro blocked
      cases blocked with
      | counter outside => simp [(p.fetch?_eq_none_iff _).2 outside] at current
      | instruction here lacks =>
        rw [current, Option.some.injEq] at here
        rwa [here]

theorem execute_bus (i : Instruction) : (m.execute i).state.bus = m.bus ∨
    (∃ a, (m.execute i).state.bus = (m.bus.read a).state) ∨
    ∃ a w, (m.execute i).state.bus = (m.bus.write a w).state := by
  have load (dest : Register) (a : Word) :
      (m.loadFrom dest a).state.bus = (m.bus.read a).state := by
    unfold loadFrom Outcome.andThen
    split <;> rfl
  cases i with
  | invalid | noop | print | loadImm | move | jumpReg => exact .inl rfl
  | exit =>
    refine .inl ?_
    simp only [execute]
    split <;> rfl
  | arith | equal | arithImm =>
    refine .inl ?_
    simp only [execute, compute]
    split <;> rfl
  | loadMem dest a => exact .inr (.inl ⟨a, load dest a⟩)
  | loadReg dest a => exact .inr (.inl ⟨m.reg a, load dest (m.reg a)⟩)
  | storeMem source a => exact .inr (.inr ⟨a, m.reg source, rfl⟩)
  | storeReg source a => exact .inr (.inr ⟨m.reg a, m.reg source, rfl⟩)
  | push source =>
    refine .inl ?_
    simp only [execute, pushWord]
    split <;> rfl
  | pop dest =>
    refine .inl ?_
    simp only [execute, popTo]
    split <;> rfl
  | branch b target =>
    refine .inl ?_
    cases b with
    | always => rfl
    | onZero | onNotZero | on =>
      simp only [execute, branchOn]
      split <;> rfl

theorem execute_idle (idle : m.bus.busy = false) (i : Instruction) :
    (m.execute i).state.bus.busy = false := by
  rcases execute_bus (m := m) i with same | ⟨a, read⟩ | ⟨a, w, written⟩
  · rw [same, idle]
  · obtain ⟨world, hs⟩ := Bus.read_state idle a
    rw [read, hs]
    exact idle
  · obtain ⟨cells, world, -, hs⟩ := Bus.write_state idle a w
    rw [written, hs]
    exact idle

theorem Continues.idle {n : Nat} {m' : Machine ω} (h : Continues n m m')
    (idle : m.bus.busy = false) : m'.bus.busy = false := by
  induction h with
  | start m => exact idle
  | step unfinished _ ih =>
    obtain ⟨i, -, hs⟩ := cycle_eq_ok unfinished
    exact ih (by rw [hs]; exact execute_idle idle i)

def accessing : List Opcode := [.loadMem, .loadReg, .storeMem, .storeReg, .push, .pop]

theorem not_lacks {i : Instruction} (h : i.opcode ∉ accessing) : ¬m.Lacks i e := by
  rw [lacks_iff]
  cases i with
  | loadMem | loadReg | storeMem | storeReg | push | pop =>
    simp [accessing, Instruction.opcode] at h
  | invalid | noop | exit | print | arith | equal | arithImm | loadImm | move | jumpReg | branch =>
    simp [addressOf?, slotOf?]

/-- With an assembled program loaded, a step fails exactly if the program counter is out of range,
the address of a load or store has no owner, or the slot of a push or pop does not exist; every
other instruction succeeds. A run fails for these causes alone. -/
theorem assembled_step_fails_iff {asm : Assembler} {source : String} {p : Program}
    (assembled : (asm.assemble source).result = .ok p) {finished : Bool}
    (loaded : m.program = some ⟨p.instructions, finished⟩) (idle : m.bus.busy = false) :
    (∀ e, m.step.result = .error e ↔ m.Blocked p e) ∧
    (∀ i, p.fetch? (m.reg .pc) = some i → i.opcode ∉ accessing →
      ∃ done, m.step.result = .ok done) ∧
    ∀ fuel e, (m.run fuel).ending = .failed e →
      ∃ n before, Continues n m.rewind before ∧ (m.run fuel).machine = before ∧
        before.Blocked p e := by
  obtain ⟨is, rfl, written⟩ := Assembler.exists_of_assemble assembled
  have valid : ∀ i ∈ (Program.ofArray is.toArray).instructions, i ≠ .invalid := by
    simpa [Program.ofArray] using written
  refine ⟨fun e => step_error_iff_blocked idle loaded valid, fun i here other => ?_,
    fun fuel e fails => ?_⟩
  · cases hr : m.step.result with
    | ok done => exact ⟨done, rfl⟩
    | error e =>
      cases (step_error_iff_blocked idle loaded valid).1 hr with
      | counter outside => simp [(Program.fetch?_eq_none_iff _ _).2 outside] at here
      | instruction current lacks =>
        rw [here, Option.some.injEq] at current
        exact absurd (current ▸ lacks) (not_lacks other)
  · have hrun : m.run fuel = runFrom fuel 0 #[] m.rewind := by simp [run, loaded]
    rw [hrun] at fails ⊢
    obtain ⟨n, before, hn, he, hm, -⟩ := runFrom_failed fails
    have still : before.program = some ⟨(Program.ofArray is.toArray).instructions, false⟩ := by
      rw [hn.program]
      rw [m.rewound.program, loaded]
      rfl
    have kept : m.rewind.bus.busy = false := idle
    exact ⟨n, before, hn, hm.trans (step_failed he).1,
      (step_error_iff_blocked (hn.idle kept) still valid).1 he⟩

theorem assembled_step_fails_iff_popping :
    let source := "divi v0 0 v1\nboz v1 last\nloadm v2 -1\nlast: pop v3"
    let p := Program.ofArray #[.arithImm .div .v0 0 .v1, .branch (.onZero .v1) 3,
      .loadMem .v2 (-1), .pop .v3]
    let m : Machine Unit := (onBus (.ofSize 4 ()) 2).load p
    (({} : Assembler).assemble source).result = .ok p ∧
      (m.run 5).ending = .failed (.stackUnderflow (-1)) ∧
      (∃ n before, Continues n m.rewind before ∧ (m.run 5).machine = before ∧
        before.Blocked p (.stackUnderflow (-1))) ∧
      (m.setReg .pc 2).Blocked p (.memoryOutOfBounds (-1)) := by
  intro source p m
  have assembled : (({} : Assembler).assemble source).result = .ok p := by decide +kernel
  have fails : (m.run 5).ending = .failed (.stackUnderflow (-1)) := by decide
  have there : (m.setReg .pc 2).step.result = .error (.memoryOutOfBounds (-1)) := by decide
  obtain ⟨-, -, running⟩ := assembled_step_fails_iff assembled (m := m) rfl rfl
  have stepping := (assembled_step_fails_iff assembled (m := m.setReg .pc 2) rfl rfl).1
  exact ⟨assembled, fails, running 5 _ fails, (stepping _).1 there⟩

end Machine

end RegisterMachine
