import RegisterMachine.Proofs.Exit
/-! What an instruction leaves alone: every register but those that it writes, and the stack unless
it is a push. -/
namespace RegisterMachine

namespace Instruction

def dest? : Instruction → Option Register
  | .arith _ _ _ dest | .equal _ _ dest | .arithImm _ _ _ dest | .loadImm dest _ | .loadMem dest _
  | .loadReg dest _ | .move _ dest | .pop dest => some dest
  | .invalid | .noop | .exit | .print _ | .storeMem _ _ | .storeReg _ _ | .push _ | .jumpReg _
  | .branch _ _ => none

def written (i : Instruction) : List Register :=
  i.dest?.toList ++ match i with
    | .arith _ _ _ _ | .equal _ _ _ | .arithImm _ _ _ _ => [.ex]
    | .push _ | .pop _ => [.sp]
    | .jumpReg _ | .branch _ _ => [.pc]
    | _ => []

end Instruction

namespace Machine
variable {ω : Type} {m : Machine ω}

@[simp] theorem setReg_stack (r : Register) (w : Word) : (m.setReg r w).stack = m.stack := rfl

@[simp] theorem setReg_program (r : Register) (w : Word) : (m.setReg r w).program = m.program := rfl

theorem reg_setReg_self {r : Register} (w : Word) (h : r ≠ .ze) : (m.setReg r w).reg r = w :=
  m.registers.get_set_self r w h

theorem reg_setReg_of_ne {r s : Register} (w : Word) (h : s ≠ r) :
    (m.setReg r w).reg s = m.reg s :=
  m.registers.get_set_of_ne w h

theorem compute_stack (op : Opcode) (operation : Alu.Operation) (a b : Word) (dest : Register) :
    (m.compute op operation a b dest).state.stack = m.stack := by
  unfold compute
  split <;> rfl

theorem compute_reg (op : Opcode) (operation : Alu.Operation) (a b : Word) {dest r : Register}
    (hd : r ≠ dest) (hx : r ≠ .ex) : (m.compute op operation a b dest).state.reg r = m.reg r := by
  unfold compute
  split
  · exact (RegisterFile.get_set_of_ne _ _ hx).trans (RegisterFile.get_set_of_ne _ _ hd)
  · rfl

theorem branchOn_stack (c : Comparison) (a b target : Word) :
    (m.branchOn c a b target).state.stack = m.stack := by
  simp only [branchOn]
  split <;> rfl

theorem branchOn_reg (c : Comparison) (a b target : Word) {r : Register} (hr : r ≠ .pc) :
    (m.branchOn c a b target).state.reg r = m.reg r := by
  simp only [branchOn]
  split
  · exact reg_setReg_of_ne _ hr
  · rfl

theorem loadFrom_stack (dest : Register) (a : Word) :
    (m.loadFrom dest a).state.stack = m.stack := by
  unfold loadFrom Outcome.andThen
  split <;> rfl

theorem loadFrom_reg {dest r : Register} (a : Word) (hr : r ≠ dest) :
    (m.loadFrom dest a).state.reg r = m.reg r := by
  unfold loadFrom Outcome.andThen
  split
  · exact reg_setReg_of_ne _ hr
  · rfl

theorem pushWord_reg (w : Word) {r : Register} (hr : r ≠ .sp) :
    (m.pushWord w).state.reg r = m.reg r := by
  unfold pushWord
  split
  · rfl
  · exact reg_setReg_of_ne _ hr

theorem popTo_stack (dest : Register) : (m.popTo dest).state.stack = m.stack := by
  simp only [popTo]
  split <;> rfl

theorem popTo_reg {dest r : Register} (hd : r ≠ dest) (hs : r ≠ .sp) :
    (m.popTo dest).state.reg r = m.reg r := by
  simp only [popTo]
  split
  · rfl
  · exact (reg_setReg_of_ne _ hd).trans (reg_setReg_of_ne _ hs)

/-- Only a push writes the stack. -/
theorem execute_stack {i : Instruction} (h : ∀ a, i ≠ .push a) :
    (m.execute i).state.stack = m.stack := by
  cases i with
  | push a => exact absurd rfl (h a)
  | invalid | noop | print | loadImm | move | jumpReg | storeMem | storeReg => rfl
  | exit =>
    simp only [execute]
    split <;> rfl
  | arith => exact m.compute_stack _ _ _ _ _
  | equal => exact m.compute_stack _ _ _ _ _
  | arithImm => exact m.compute_stack _ _ _ _ _
  | loadMem dest a => exact m.loadFrom_stack dest a
  | loadReg dest a => exact m.loadFrom_stack dest _
  | pop dest => exact m.popTo_stack dest
  | branch b target =>
    cases b with
    | always => rfl
    | onZero a => exact m.branchOn_stack _ _ _ _
    | onNotZero a => exact m.branchOn_stack _ _ _ _
    | on c a b => exact m.branchOn_stack _ _ _ _

theorem execute_reg {i : Instruction} {r : Register} (h : r ∉ i.written) :
    (m.execute i).state.reg r = m.reg r := by
  cases i with
  | invalid | noop | print | storeMem | storeReg => rfl
  | exit =>
    simp only [execute]
    split <;> rfl
  | arith op a b dest =>
    obtain ⟨hd, hx⟩ : r ≠ dest ∧ r ≠ .ex := by
      simpa [Instruction.written, Instruction.dest?] using h
    exact m.compute_reg _ _ _ _ hd hx
  | equal a b dest =>
    obtain ⟨hd, hx⟩ : r ≠ dest ∧ r ≠ .ex := by
      simpa [Instruction.written, Instruction.dest?] using h
    exact m.compute_reg _ _ _ _ hd hx
  | arithImm op a w dest =>
    obtain ⟨hd, hx⟩ : r ≠ dest ∧ r ≠ .ex := by
      simpa [Instruction.written, Instruction.dest?] using h
    exact m.compute_reg _ _ _ _ hd hx
  | loadImm dest w | move source dest =>
    exact reg_setReg_of_ne _ (by simpa [Instruction.written, Instruction.dest?] using h)
  | loadMem dest a | loadReg dest a =>
    exact m.loadFrom_reg _ (by simpa [Instruction.written, Instruction.dest?] using h)
  | push source =>
    exact m.pushWord_reg _ (by simpa [Instruction.written, Instruction.dest?] using h)
  | pop dest =>
    obtain ⟨hd, hs⟩ : r ≠ dest ∧ r ≠ .sp := by
      simpa [Instruction.written, Instruction.dest?] using h
    exact m.popTo_reg hd hs
  | jumpReg target =>
    exact reg_setReg_of_ne _ (by simpa [Instruction.written, Instruction.dest?] using h)
  | branch b target =>
    have other : r ≠ .pc := by simpa [Instruction.written, Instruction.dest?] using h
    cases b with
    | always => exact reg_setReg_of_ne _ other
    | onZero a => exact m.branchOn_reg _ _ _ _ other
    | onNotZero a => exact m.branchOn_reg _ _ _ _ other
    | on c a b => exact m.branchOn_reg _ _ _ _ other

theorem step_of_executed {i : Instruction} (hf : m.fetch = .ok i) {m' : Machine ω}
    {events : List Event} (he : m.execute i = .ok () m' events) :
    m.step.result = .ok m'.isFinished ∧ m.step.state = m'.setReg .pc (m'.reg .pc + 1) := by
  simp [step, cycle, hf, he, Outcome.andThen, Outcome.after, Outcome.ok, isFinished]

end Machine

end RegisterMachine
