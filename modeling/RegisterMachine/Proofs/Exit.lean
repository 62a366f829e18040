import RegisterMachine.Proofs.Stepping
/-! A run is its steps, and the only way out of it is an exit instruction: no other instruction
touches the program or tells that it has finished. -/
namespace RegisterMachine.Machine
variable {ω α : Type} {m : Machine ω}

theorem compute_program (op : Opcode) (operation : Alu.Operation) (a b : Word) (dest : Register) :
    (m.compute op operation a b dest).state.program = m.program := by
  unfold compute
  split <;> rfl

theorem branchOn_program (c : Comparison) (a b target : Word) :
    (m.branchOn c a b target).state.program = m.program := by
  simp only [branchOn]
  split <;> rfl

theorem loadFrom_program (dest : Register) (a : Word) :
    (m.loadFrom dest a).state.program = m.program := by
  unfold loadFrom Outcome.andThen
  split <;> rfl

theorem pushWord_program (w : Word) : (m.pushWord w).state.program = m.program := by
  unfold pushWord
  split <;> rfl

theorem popTo_program (dest : Register) : (m.popTo dest).state.program = m.program := by
  simp only [popTo]
  split <;> rfl

theorem execute_program {i : Instruction} (h : i ≠ .exit) :
    (m.execute i).state.program = m.program := by
  cases i with
  | exit => exact absurd rfl h
  | invalid | noop | print | loadImm | move | jumpReg | storeMem | storeReg => rfl
  | arith op a b dest => exact m.compute_program _ _ _ _ _
  | equal a b dest => exact m.compute_program _ _ _ _ _
  | arithImm op a w dest => exact m.compute_program _ _ _ _ _
  | loadMem dest a => exact m.loadFrom_program dest a
  | loadReg dest a => exact m.loadFrom_program dest _
  | push source => exact m.pushWord_program _
  | pop dest => exact m.popTo_program dest
  | branch b target =>
    cases b with
    | always => rfl
    | onZero a => exact m.branchOn_program _ _ _ _
    | onNotZero a => exact m.branchOn_program _ _ _ _
    | on c a b => exact m.branchOn_program _ _ _ _

theorem fetch_eq_ok_iff {i : Instruction} :
    m.fetch = .ok i ↔ ∃ p, m.program = some p ∧ p.fetch? (m.reg .pc) = some i := by
  unfold fetch
  cases m.program with
  | none => simp
  | some p => cases hf : p.fetch? (m.reg .pc) <;> simp [hf]

theorem execute_exit (h : m.fetch = .ok .exit) :
    m.execute .exit = .ok () (m.setFinished true) := by
  obtain ⟨p, hp, -⟩ := fetch_eq_ok_iff.1 h
  simp [execute, hp]

theorem cycle_eq_ok {finished : Bool} (h : m.step.result = .ok finished) :
    ∃ i, m.fetch = .ok i ∧ m.step.state =
      (m.execute i).state.setReg .pc ((m.execute i).state.reg .pc + 1) := by
  obtain ⟨hc, -, hs, -⟩ := cycle_ok_of_step h
  rw [hs]
  unfold cycle at hc ⊢
  cases hf : m.fetch with
  | error e => simp [hf, Outcome.fail] at hc
  | ok i =>
    refine ⟨i, rfl, ?_⟩
    cases he : (m.execute i).result with
    | error e => simp [hf, Outcome.andThen, Outcome.after, he] at hc
    | ok u => simp [Outcome.andThen, Outcome.after, Outcome.ok, he]

theorem step_of_exit (h : m.fetch = .ok .exit) :
    m.step.result = .ok true ∧ m.step.state = (m.setFinished true).setReg .pc (m.reg .pc + 1) := by
  obtain ⟨p, hp, -⟩ := fetch_eq_ok_iff.1 h
  simp [step, cycle, h, execute_exit h, Outcome.andThen, Outcome.after, Outcome.ok, isFinished,
    setFinished, setReg, reg, hp]

/-- A step finishes an unfinished program exactly if it executes an exit. -/
theorem step_finishes_iff (h : m.isFinished = false) :
    m.step.result = .ok true ↔ m.fetch = .ok .exit := by
  refine ⟨fun finishes => ?_, fun exits => (step_of_exit exits).1⟩
  obtain ⟨i, hf, hs⟩ := cycle_eq_ok finishes
  by_cases hi : i = .exit
  · rw [hf, hi]
  · have same : m.step.state.program = m.program := by
      rw [hs]
      exact execute_program hi
    obtain ⟨-, finished, hc, -⟩ := cycle_ok_of_step finishes
    rw [← hc, isFinished, same] at finished
    simp [isFinished, finished] at h

theorem step_program (h : m.step.result = .ok false) : m.step.state.program = m.program := by
  obtain ⟨i, hf, hs⟩ := cycle_eq_ok h
  have hi : i ≠ .exit := by
    rintro rfl
    simp [(step_of_exit hf).1] at h
  rw [hs]
  exact execute_program hi

namespace Continues
variable {m' : Machine ω} {n : Nat}

theorem program (h : Continues n m m') : m'.program = m.program := by
  induction h with
  | start m => rfl
  | step unfinished _ ih => rw [ih, step_program unfinished]

/-- What is reached after fewer steps has another step to go, and it does not finish. -/
theorem unfinished_of_lt {k : Nat} {mid : Machine ω} (h : Continues n m m')
    (hk : Continues k m mid) (lt : k < n) : mid.step.result = .ok false := by
  induction h generalizing k with
  | start m => exact absurd lt (Nat.not_lt_zero k)
  | step unfinished _ ih =>
    cases hk with
    | start => exact unfinished
    | step _ rest => exact ih rest (Nat.lt_of_succ_lt_succ lt)

end Continues

theorem exists_index_of_fetch {p : Program} {i : Instruction} (hp : m.program = some p)
    (hf : m.fetch = .ok i) : ∃ k : Nat, (m.reg .pc).toInt = k ∧ p.get? k = some i := by
  obtain ⟨q, hq, hi⟩ := fetch_eq_ok_iff.1 hf
  obtain rfl : p = q := Option.some.inj (hp.symm.trans hq)
  unfold Program.fetch? at hi
  split at hi
  · simp at hi
  · exact ⟨(m.reg .pc).toInt.toNat, by omega, hi⟩

theorem succ_eq_ofNat {w : Word} {k : Nat} (h : w.toInt = k) : w + 1 = .ofNat (k + 1) := by
  have : w = .ofNat k := by rw [← Int32.ofInt_toInt w, h, Int32.ofInt_eq_ofNat]
  rw [this, Int32.ofNat_add]
  rfl

/-- A run starts at the first instruction, with an empty stack, whatever was left there, and is its
steps up to the one that fails or finishes. A run that finishes ends with an exit, the only one that
it executes, and its program counter is one past that. -/
theorem run_repeats_step (m : Machine ω) (p : Program) (loaded : m.program = some p) :
    Rewound m m.rewind ∧
    (∀ s, (∃ fuel, (m.run fuel).ending = .finished ∧ (m.run fuel).machine = s) ↔
      ∃ n before, Continues n m.rewind before ∧ before.step.result = .ok true ∧
        before.step.state = s) ∧
    (∀ e s, (∃ fuel, (m.run fuel).ending = .failed e ∧ (m.run fuel).machine = s) ↔
      ∃ n before, Continues n m.rewind before ∧ before.step.result = .error e ∧
        before.step.state = s) ∧
    ∀ fuel, (m.run fuel).ending = .finished →
      (m.run fuel).machine.isFinished = true ∧
      ∃ n before index, Continues n m.rewind before ∧ before.step.state = (m.run fuel).machine ∧
        before.fetch = .ok .exit ∧ (before.reg .pc).toInt = (index : Nat) ∧
        p.get? index = some .exit ∧ (m.run fuel).machine.reg .pc = .ofNat (index + 1) ∧
        (∀ k mid, k < n → Continues k m.rewind mid → mid.fetch ≠ .ok .exit) ∧
        (m.run fuel).events.toList = eventsOf n m.rewind ++ before.step.events ++
          [.terminated (n + 1) ((m.run fuel).machine.reg .pc)] := by
  have hrun (fuel : Nat) : m.run fuel = runFrom fuel 0 #[] m.rewind := by simp [run, loaded]
  simp only [hrun]
  refine ⟨m.rewound, fun s => ⟨?_, ?_⟩, fun e s => ⟨?_, ?_⟩, fun fuel h => ?_⟩
  · rintro ⟨fuel, h, rfl⟩
    obtain ⟨n, before, hn, hr, hm⟩ := runFrom_finished h
    exact ⟨n, before, hn, hr, by rw [hm]⟩
  · rintro ⟨n, before, hn, hr, rfl⟩
    exact ⟨n + 1, by rw [hn.runFrom, runFrom_of_finished hr], by
      rw [hn.runFrom, runFrom_of_finished hr]⟩
  · rintro ⟨fuel, h, rfl⟩
    obtain ⟨n, before, hn, hr, hm, -⟩ := runFrom_failed h
    exact ⟨n, before, hn, hr, hm.symm⟩
  · rintro ⟨n, before, hn, hr, rfl⟩
    exact ⟨n + 1, by rw [hn.runFrom, runFrom_of_error hr], by
      rw [hn.runFrom, runFrom_of_error hr]⟩
  · obtain ⟨n, before, hn, hr, hm⟩ := runFrom_finished h
    have unfinished : before.isFinished = false := hn.isFinished m.rewound.unfinished
    have exits : before.fetch = .ok .exit := (step_finishes_iff unfinished).1 hr
    have program : before.program = some { p with finished := false } := by
      rw [hn.program]
      rw [m.rewound.program, loaded]
      rfl
    obtain ⟨index, place, there⟩ := exists_index_of_fetch program exits
    have counter : before.step.state.reg .pc = .ofNat (index + 1) := by
      rw [(step_of_exit exits).2, ← succ_eq_ofNat place]
      rfl
    obtain ⟨-, finished, hs, -⟩ := cycle_ok_of_step hr
    rw [hm]
    refine ⟨by rwa [hs], n, before, index, hn, rfl, exits, place, there, counter,
      fun k mid lt hk exits' => ?_, by simp⟩
    have := hn.unfinished_of_lt hk lt
    simp [(step_of_exit exits').1] at this

/-- A loop that pushes twice, on a machine with a program counter, a stack pointer and a finished
flag left over. -/
theorem counted_loop_exits :
    let p : Program := ⟨#[.loadImm .v0 2, .push .v0, .arithImm .sub .v0 1 .v0,
      .branch (.onNotZero .v0) 1, .pop .v1, .exit], true⟩
    let m : Machine Unit := (((onBus (.ofSize 0 ()) 2).setReg .sp 9).setReg .pc 77).load p
    (m.run 9).ending = .finished ∧ (m.run 9).steps = 9 ∧ (m.run 9).machine.reg .pc = 6 ∧
      (m.run 9).machine.reg .v1 = 1 ∧ (m.run 9).machine.reg .sp = 1 ∧
      m.rewind.reg .pc = 0 ∧ m.rewind.reg .sp = 0 ∧ m.rewind.isFinished = false ∧
      ∃ n before, Continues n m.rewind before ∧ before.step.result = .ok true ∧
        before.step.state = (m.run 9).machine := by
  intro p m
  have ends : (m.run 9).ending = .finished := by decide
  obtain ⟨start, finishes, -⟩ := run_repeats_step m p rfl
  exact ⟨ends, by decide, by decide, by decide, by decide, start.counter, start.pointer,
    start.unfinished, (finishes _).1 ⟨9, ends, rfl⟩⟩

end RegisterMachine.Machine
