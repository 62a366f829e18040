import RegisterMachine.Proofs.CallStack
import RegisterMachine.Proofs.FreshStart
/-! Where control goes. An instruction reads its source registers, the program counter among them,
before it has any effect; its step then ends one past what stands in the program counter, which
jumps and taken branches have set to one before their target. -/
namespace RegisterMachine

/-- What an instruction comes to once its sources have been read: words stand in their place, and
only the destination is still a register. -/
inductive Effect where
  | refuse
  | idle
  | finish
  | print (source : Register) (w : Word)
  | compute (op : Opcode) (operation : Alu.Operation) (a b : Word) (dest : Register)
  | put (dest : Register) (w : Word)
  | load (dest : Register) (address : Word)
  | store (address w : Word)
  | push (w : Word)
  | pop (dest : Register)
  | jump (target : Word)
  | compare (c : Comparison) (a b target : Word)

/-- What the arithmetic unit gives for an effect, if the effect needs a result of it. -/
def Effect.output? : Effect → Option Alu.Output
  | .compute _ operation a b _ => operation.output? a b
  | _ => none

namespace Instruction

def isArithmetic : Instruction → Bool
  | .arith _ _ _ _ | .equal _ _ _ | .arithImm _ _ _ _ => true
  | _ => false

def effect (value : Register → Word) : Instruction → Effect
  | .invalid => .refuse
  | .noop => .idle
  | .exit => .finish
  | .print a => .print a (value a)
  | .arith op a b dest => .compute op.opcode (.arith op) (value a) (value b) dest
  | .equal a b dest => .compute .equal .equal (value a) (value b) dest
  | .arithImm op a w dest => .compute op.immediateOpcode (.arith op) (value a) w dest
  | .loadImm dest w => .put dest w
  | .loadMem dest a => .load dest a
  | .loadReg dest a => .load dest (value a)
  | .move source dest => .put dest (value source)
  | .storeMem source a => .store a (value source)
  | .storeReg source a => .store (value a) (value source)
  | .push source => .push (value source)
  | .pop dest => .pop dest
  | .jumpReg target => .jump (value target)
  | .branch .always target => .jump target
  | .branch (.onZero a) target => .compare .equal (value a) 0 target
  | .branch (.onNotZero a) target => .compare .notEqual (value a) 0 target
  | .branch (.on c a b) target => .compare c (value a) (value b) target

end Instruction

def Branch.holds (flags : Flags) : Branch → Bool
  | .always => true
  | .onZero _ => Comparison.equal.holds flags
  | .onNotZero _ => Comparison.notEqual.holds flags
  | .on c _ _ => c.holds flags

theorem Branch.holds_of_compares {b : Branch} {value : Register → Word} {c : Comparison}
    {x y target : Word}
    (compares : (Instruction.branch b target).effect value = .compare c x y target)
    (flags : Flags) : b.holds flags = c.holds flags := by
  cases b with
  | always => cases compares
  | onZero | onNotZero | on =>
    cases compares
    rfl

namespace Machine
variable {ω : Type}

def perform (e : Effect) (m : Machine ω) : Outcome Fault (Machine ω) Unit :=
  match e with
  | .refuse => .fail (.invalidOpcode .invalid) m
  | .idle => .ok () m
  | .finish => if m.program.isSome then .ok () (m.setFinished true) else .fail .noProgram m
  | .print source w => .ok () m [.printed source w m.hasSink]
  | .compute op operation a b dest => m.compute op operation a b dest
  | .put dest w => .ok () (m.setReg dest w)
  | .load dest a => m.loadFrom dest a
  | .store a w => m.storeAt a w
  | .push w => m.pushWord w
  | .pop dest => m.popTo dest
  | .jump target => .ok () (m.jump target)
  | .compare c a b target => m.branchOn c a b target

/-- The word that an effect gives to its destination, if it has one to give. -/
def given? (m : Machine ω) : Effect → Option Word
  | .compute op operation a b dest =>
    (Effect.compute op operation a b dest).output?.map Alu.Output.result
  | .put _ w => some w
  | .load _ a => (m.bus.read a).result.toOption
  | .pop _ => (m.stack.read (m.reg .sp - 1)).toOption
  | _ => none

inductive DividesByZero (m : Machine ω) : Instruction → Prop
  | register {a b dest : Register} (zero : m.reg b = 0) : DividesByZero m (.arith .div a b dest)
  | immediate {a dest : Register} : DividesByZero m (.arithImm .div a 0 dest)

structure SameBut (r : Register) (o o' : Outcome Fault (Machine ω) Unit) : Prop where
  result : o.result = o'.result
  events : o.events = o'.events
  state : o.state.setReg r 0 = o'.state.setReg r 0

variable {m : Machine ω} {i : Instruction}

theorem execute_eq_perform (m : Machine ω) (i : Instruction) :
    m.execute i = m.perform (i.effect m.reg) := by
  cases i with
  | branch b target => cases b <;> rfl
  | _ => rfl

theorem perform_finish (loaded : m.program.isSome = true) :
    m.perform .finish = .ok () (m.setFinished true) := if_pos loaded

theorem perform_finish_unloaded (unloaded : ¬m.program.isSome = true) :
    m.perform .finish = .fail .noProgram m := if_neg unloaded

section Comparing
variable {c : Comparison} {a b target : Word}

theorem branchOn_taken (holds : c.holds (m.alu.run (.arith .sub) a b).1.flags = true) :
    m.branchOn c a b target =
      .ok () ({ m with alu := (m.alu.run (.arith .sub) a b).1 }.jump target)
        [.branchTaken target] := if_pos holds

theorem branchOn_passed (fails : ¬c.holds (m.alu.run (.arith .sub) a b).1.flags = true) :
    m.branchOn c a b target = .ok () { m with alu := (m.alu.run (.arith .sub) a b).1 } :=
  if_neg fails

end Comparing

/-- Once the sources have been read, the program counter plays no part. -/
theorem perform_ignores_counter (m : Machine ω) (e : Effect) (q : Word) :
    SameBut .pc (m.perform e) ((m.setReg .pc q).perform e) := by
  -- each effect either keeps the counter or overwrites it, and no effect looks at it
  cases e with
  | refuse | idle | print | jump => exact ⟨rfl, rfl, rfl⟩
  | put dest w => exact ⟨rfl, rfl, by cases dest <;> rfl⟩
  | store => exact ⟨rfl, rfl, rfl⟩
  | finish =>
    by_cases loaded : m.program.isSome = true
    · rw [perform_finish loaded, perform_finish (m := m.setReg .pc q) loaded]
      exact ⟨rfl, rfl, rfl⟩
    · rw [perform_finish_unloaded loaded, perform_finish_unloaded (m := m.setReg .pc q) loaded]
      exact ⟨rfl, rfl, rfl⟩
  | compute op operation a b dest =>
    simp only [perform, compute, Alu.run, setReg]
    cases operation.output? a b with
    | none => exact ⟨rfl, rfl, rfl⟩
    | some out => exact ⟨rfl, rfl, by cases dest <;> rfl⟩
  | load dest a =>
    simp only [perform, loadFrom, viaBus, Outcome.andThen, Outcome.mapState, setReg]
    cases (m.bus.read a).result with
    | error => exact ⟨rfl, rfl, rfl⟩
    | ok w => exact ⟨rfl, rfl, by cases dest <;> rfl⟩
  | push w =>
    have pointer : (m.setReg .pc q).reg .sp = m.reg .sp := rfl
    simp only [perform, pushWord, setReg_stack, pointer]
    split <;> exact ⟨rfl, rfl, rfl⟩
  | pop dest =>
    have pointer : (m.setReg .pc q).reg .sp = m.reg .sp := rfl
    simp only [perform, popTo, setReg_stack, pointer]
    split
    · exact ⟨rfl, rfl, rfl⟩
    · exact ⟨rfl, rfl, by cases dest <;> rfl⟩
  | compare c a b target =>
    by_cases taken : c.holds (m.alu.run (.arith .sub) a b).1.flags = true
    · rw [perform, branchOn_taken taken, perform, branchOn_taken (m := m.setReg .pc q) taken]
      exact ⟨rfl, rfl, rfl⟩
    · rw [perform, branchOn_passed taken, perform, branchOn_passed (m := m.setReg .pc q) taken]
      exact ⟨rfl, rfl, rfl⟩

/-! ### The program counter after an instruction -/

theorem branchOn_counter (c : Comparison) (a b target : Word) :
    (m.branchOn c a b target).state.reg .pc =
      if c.holds (m.branchOn c a b target).state.alu.flags then target - 1 else m.reg .pc := by
  by_cases taken : c.holds (m.alu.run (.arith .sub) a b).1.flags = true
  · rw [branchOn_taken taken]
    exact (if_pos taken).symm
  · rw [branchOn_passed taken]
    exact (if_neg taken).symm

theorem branchOn_flags (c : Comparison) (a b target : Word) :
    (m.branchOn c a b target).state.alu.flags = .ofWord (a - b) := by
  by_cases taken : c.holds (m.alu.run (.arith .sub) a b).1.flags = true
  · rw [branchOn_taken taken]
    rfl
  · rw [branchOn_passed taken]
    rfl

theorem execute_branch_counter (b : Branch) (target : Word) :
    (m.execute (.branch b target)).state.reg .pc =
      if b.holds (m.execute (.branch b target)).state.alu.flags then target - 1
      else m.reg .pc := by
  cases b with
  | always => rfl
  | onZero a => exact m.branchOn_counter _ _ _ _
  | onNotZero a => exact m.branchOn_counter _ _ _ _
  | on c a b => exact m.branchOn_counter _ _ _ _

/-- Arithmetic has a result, unless it divides by zero. -/
theorem output?_effect_eq_none_iff (arithmetic : i.isArithmetic = true) :
    (i.effect m.reg).output? = none ↔ m.DividesByZero i := by
  cases i with
  | arith op a b dest =>
    refine (Alu.Operation.output?_eq_none_iff _ _ _).trans ⟨?_, ?_⟩
    · rintro ⟨⟨⟩, zero⟩
      exact .register zero
    · rintro ⟨zero⟩
      exact ⟨rfl, zero⟩
  | arithImm op a w dest =>
    refine (Alu.Operation.output?_eq_none_iff _ _ _).trans ⟨?_, ?_⟩
    · rintro ⟨⟨⟩, rfl⟩
      exact .immediate
    · rintro ⟨⟩
      exact ⟨rfl, rfl⟩
  | equal => exact ⟨nofun, nofun⟩
  | _ => simp [Instruction.isArithmetic] at arithmetic

theorem exists_read_of_loadFrom {dest : Register} {a : Word}
    (succeeds : (m.loadFrom dest a).result = .ok ()) : ∃ w, (m.bus.read a).result = .ok w := by
  cases hr : (m.bus.read a).result with
  | ok w => exact ⟨w, rfl⟩
  | error e => simp [loadFrom, viaBus, Outcome.andThen, Outcome.mapState, hr] at succeeds

theorem given?_eq_none_iff {dest : Register} (names : i.dest? = some dest)
    (succeeds : (m.execute i).result = .ok ()) :
    m.given? (i.effect m.reg) = none ↔ m.DividesByZero i := by
  cases i with
  | arith | arithImm | equal =>
    rw [← output?_effect_eq_none_iff rfl]
    simp only [Instruction.effect, given?, Option.map_eq_none_iff]
  | loadImm | move => exact ⟨nofun, nofun⟩
  | loadMem | loadReg =>
    obtain ⟨w, hw⟩ := exists_read_of_loadFrom succeeds
    simp only [Instruction.effect, given?, hw]
    exact ⟨nofun, nofun⟩
  | pop dest =>
    cases hr : m.stack.read (m.reg .sp - 1) with
    | ok w =>
      simp only [Instruction.effect, given?, hr]
      exact ⟨nofun, nofun⟩
    | error e => simp [execute, popTo, hr, Outcome.fail] at succeeds
  | _ => simp [Instruction.dest?] at names

theorem compute_given (op : Opcode) {operation : Alu.Operation} {a b w : Word} {dest : Register}
    (given : (operation.output? a b).map Alu.Output.result = some w) (hz : dest ≠ .ze)
    (hx : dest ≠ .ex) : (m.compute op operation a b dest).state.reg dest = w := by
  obtain ⟨out, hout, rfl⟩ := Option.map_eq_some_iff.1 given
  rw [compute_eq, hout]
  exact (RegisterFile.get_set_of_ne _ _ hx).trans (RegisterFile.get_set_self _ _ _ hz)

theorem loadFrom_given {dest : Register} {a w : Word}
    (given : (m.bus.read a).result.toOption = some w) (hz : dest ≠ .ze) :
    (m.loadFrom dest a).state.reg dest = w := by
  cases hr : (m.bus.read a).result with
  | error e => simp [hr, Except.toOption] at given
  | ok v =>
    obtain rfl : v = w := by simpa [hr, Except.toOption] using given
    simp only [loadFrom, viaBus, Outcome.andThen, Outcome.mapState, hr]
    exact reg_setReg_self v hz

theorem popTo_given {dest : Register} {w : Word}
    (given : (m.stack.read (m.reg .sp - 1)).toOption = some w) (hz : dest ≠ .ze) :
    (m.popTo dest).state.reg dest = w := by
  cases hr : m.stack.read (m.reg .sp - 1) with
  | error e => simp [hr, Except.toOption] at given
  | ok v =>
    obtain rfl : v = w := by simpa [hr, Except.toOption] using given
    simp only [popTo, hr]
    exact reg_setReg_self v hz

/-- The destination ends with the word given to it. The extra register may not: it is written
after it. -/
theorem execute_given {dest : Register} {w : Word} (names : i.dest? = some dest)
    (given : m.given? (i.effect m.reg) = some w) (hz : dest ≠ .ze) (hx : dest ≠ .ex) :
    (m.execute i).state.reg dest = w := by
  cases i with
  | arith | equal | arithImm =>
    obtain rfl := Option.some.inj names
    exact compute_given _ given hz hx
  | loadImm | move =>
    obtain rfl := Option.some.inj names
    exact (reg_setReg_self _ hz).trans (Option.some.inj given)
  | loadMem | loadReg =>
    obtain rfl := Option.some.inj names
    exact loadFrom_given given hz
  | pop =>
    obtain rfl := Option.some.inj names
    exact popTo_given given hz
  | _ => simp [Instruction.dest?] at names

theorem execute_dividesByZero (h : m.DividesByZero i) :
    (m.execute i).state = { m with alu := ⟨true, m.alu.flags⟩ } := by
  cases h with
  | @register a b dest zero =>
    have withheld :=
      (Alu.Operation.output?_eq_none_iff (.arith .div) (m.reg a) (m.reg b)).2 ⟨rfl, zero⟩
    rw [execute, compute_eq, withheld]
    rfl
  | @immediate a dest =>
    have withheld := (Alu.Operation.output?_eq_none_iff (.arith .div) (m.reg a) 0).2 ⟨rfl, rfl⟩
    rw [execute, compute_eq, withheld]
    rfl

theorem counter_unwritten (notBranch : ∀ b target, i ≠ .branch b target)
    (notJump : ∀ r, i ≠ .jumpReg r) (elsewhere : i.dest? ≠ some .pc) : Register.pc ∉ i.written := by
  cases i <;> simp_all [Instruction.written, Instruction.dest?, eq_comm]

/-- Where a step leads. A taken branch leads to its target and a jump to the value of its register,
whatever they are. An instruction with the program counter for its destination leads one past the
word that it gives; every other one, and a division by zero, leads to the next index. A branch is
taken if the difference of its operands relates to zero as it asks. What an instruction does comes
of the register values before the step, the program counter being one. -/
theorem step_leads_to_target_or_next {finished : Bool} (fetched : m.fetch = .ok i)
    (succeeds : m.step.result = .ok finished) :
    let e := i.effect m.reg
    let p := m.reg .pc
    let after := m.step.state
    (∀ b target, i = .branch b target →
      after.reg .pc = (if b.holds after.alu.flags then target else p + 1) ∧
      ∀ c x y, e = .compare c x y target → after.alu.flags = .ofWord (x - y) ∧
        (b.holds after.alu.flags = true ↔ c.Relates (x - y).toInt 0)) ∧
    (∀ r, i = .jumpReg r → after.reg .pc = m.reg r) ∧
    (i.dest? = some .pc →
      (m.DividesByZero i → after.reg .pc = p + 1) ∧
      (¬m.DividesByZero i → ∃ v, m.given? e = some v ∧ after.reg .pc = v + 1)) ∧
    ((∀ b target, i ≠ .branch b target) → (∀ r, i ≠ .jumpReg r) → i.dest? ≠ some .pc →
      after.reg .pc = p + 1) ∧
    m.execute i = m.perform e ∧
      ∀ q, SameBut .pc (m.perform e) ((m.setReg .pc q).perform e) := by
  intro e p after
  obtain ⟨executed, moved⟩ := step_of_succeeded fetched succeeds
  have counter : after.reg .pc = (m.execute i).state.reg .pc + 1 := by
    rw [show after = _ from moved, reg_setReg_self _ (by decide)]
  have flags : after.alu.flags = (m.execute i).state.alu.flags := by
    rw [show after = _ from moved]
    rfl
  refine ⟨?_, ?_, ?_, ?_, m.execute_eq_perform i, m.perform_ignores_counter e⟩
  · rintro b target rfl
    refine ⟨?_, fun c x y compares => ?_⟩
    · rw [counter, execute_branch_counter, flags]
      split
      · exact Int32.sub_add_cancel _ _
      · rfl
    · have compared : after.alu.flags = .ofWord (x - y) := by
        rw [flags, execute_eq_perform]
        rw [show (Instruction.branch b target).effect m.reg = _ from compares, perform]
        exact branchOn_flags c x y target
      refine ⟨compared, ?_⟩
      rw [compared, Branch.holds_of_compares compares]
      exact c.holds_ofWord_iff (x - y)
  · rintro r rfl
    rw [counter]
    exact Int32.sub_add_cancel _ _
  · intro names
    refine ⟨fun zero => ?_, fun nonzero => ?_⟩
    · rw [counter, execute_dividesByZero zero]
      rfl
    · obtain ⟨v, given⟩ := Option.ne_none_iff_exists'.1
        fun none => nonzero ((given?_eq_none_iff names executed).1 none)
      refine ⟨v, given, ?_⟩
      rw [counter, execute_given names given (by decide) (by decide)]
  · intro notBranch notJump elsewhere
    rw [counter, execute_reg (counter_unwritten notBranch notJump elsewhere)]

/-- A division by zero into the program counter, a copy of it onto itself, the lowest target that a
word can name, a jump to the jump itself, and a branch that is not taken. -/
theorem step_leads_to_target_or_next_extremes :
    let p := Program.ofArray #[.arithImm .div .v0 0 .pc, .move .pc .pc,
      .branch (.onZero .v0) (-2147483648), .jumpReg .pc, .branch (.on .less .pc .v0) 9]
    let m := (onBus (Bus.ofSize 0 ()) 0).load p
    let leads (k target : Word) := (m.setReg .pc k).step.result = .ok false ∧
      (m.setReg .pc k).step.state.reg .pc = target
    leads 0 1 ∧ leads 1 2 ∧ leads 2 (-2147483648) ∧ leads 3 3 ∧ leads 4 5 := by
  intro p m leads
  have compares : (m.setReg .pc 2).step.result = .ok false := by decide
  have compares' : (m.setReg .pc 4).step.result = .ok false := by decide
  refine ⟨⟨rfl, ?_⟩, ⟨rfl, ?_⟩, ⟨compares, ?_⟩, ⟨rfl, ?_⟩, ⟨compares', ?_⟩⟩
  · obtain ⟨-, -, into, -⟩ := step_leads_to_target_or_next (m := m.setReg .pc 0)
      (i := .arithImm .div .v0 0 .pc) rfl rfl
    exact (into rfl).1 .immediate
  · obtain ⟨-, -, into, -⟩ := step_leads_to_target_or_next (m := m.setReg .pc 1)
      (i := .move .pc .pc) rfl rfl
    obtain ⟨v, given, lands⟩ := (into rfl).2 nofun
    obtain rfl : 1 = v := Option.some.inj given
    exact lands
  · obtain ⟨branch, -⟩ := step_leads_to_target_or_next (m := m.setReg .pc 2)
      (i := .branch (.onZero .v0) (-2147483648)) rfl compares
    obtain ⟨lands, tested⟩ := branch _ _ rfl
    have taken := (tested .equal 0 0 rfl).2
    exact lands.trans (if_pos (taken.2 (by decide)))
  · obtain ⟨-, jump, -⟩ := step_leads_to_target_or_next (m := m.setReg .pc 3)
      (i := .jumpReg .pc) rfl rfl
    exact jump .pc rfl
  · obtain ⟨branch, -⟩ := step_leads_to_target_or_next (m := m.setReg .pc 4)
      (i := .branch (.on .less .pc .v0) 9) rfl compares'
    obtain ⟨lands, tested⟩ := branch _ _ rfl
    have taken := (tested .less 4 0 rfl).2
    exact lands.trans (if_neg fun holds => absurd (taken.1 holds) (by decide))

end Machine

end RegisterMachine
