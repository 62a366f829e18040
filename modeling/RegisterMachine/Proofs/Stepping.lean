import RegisterMachine.Machine.Run
/-! Runs as repeated steps. -/
namespace RegisterMachine.Machine
variable {ω : Type}

/-- `Continues n m m'`: the first `n` steps from `m` succeed without finishing the program, and
lead to `m'`. -/
inductive Continues : Nat → Machine ω → Machine ω → Prop
  | start (m : Machine ω) : Continues 0 m m
  | step {n : Nat} {m m' : Machine ω} (unfinished : m.step.result = .ok false)
      (rest : Continues n m.step.state m') : Continues (n + 1) m m'

theorem step_of_cycle_error {m : Machine ω} {e : Fault} (h : m.cycle.result = .error e) :
    m.step.result = .error e ∧ m.step.state = m.cycle.state ∧ m.step.events = m.cycle.events := by
  simp [step, Outcome.andThen, h]

theorem step_of_cycle_ok {m : Machine ω} (h : m.cycle.result = .ok ()) :
    m.step.result = .ok m.cycle.state.isFinished ∧ m.step.state = m.cycle.state ∧
      m.step.events = m.cycle.events := by
  simp [step, Outcome.andThen, Outcome.after, Outcome.ok, h]

theorem cycle_error_of_step {m : Machine ω} {e : Fault} (h : m.step.result = .error e) :
    m.cycle.result = .error e := by
  cases hc : m.cycle.result with
  | error e' => simpa [(step_of_cycle_error hc).1] using h
  | ok u => simp [(step_of_cycle_ok hc).1] at h

theorem cycle_ok_of_step {m : Machine ω} {finished : Bool} (h : m.step.result = .ok finished) :
    m.cycle.result = .ok () ∧ m.cycle.state.isFinished = finished ∧
      m.step.state = m.cycle.state ∧ m.step.events = m.cycle.events := by
  cases hc : m.cycle.result with
  | error e => simp [(step_of_cycle_error hc).1] at h
  | ok u =>
    obtain ⟨hr, hs, hev⟩ := step_of_cycle_ok hc
    rw [hr, Except.ok.injEq] at h
    exact ⟨rfl, h, hs, hev⟩

theorem isFinished_of_step {m : Machine ω} (h : m.step.result = .ok false) :
    m.step.state.isFinished = false := by
  obtain ⟨-, hf, hs, -⟩ := cycle_ok_of_step h
  rw [hs]
  exact hf

theorem Continues.trans {n k : Nat} {m m' m'' : Machine ω} (h : Continues n m m')
    (h' : Continues k m' m'') : Continues (n + k) m m'' := by
  induction h with
  | start m => rwa [Nat.zero_add]
  | step unfinished _ ih =>
    rw [Nat.add_right_comm]
    exact .step unfinished (ih h')

theorem Continues.isFinished {n : Nat} {m m' : Machine ω} (h : Continues n m m')
    (hm : m.isFinished = false) : m'.isFinished = false := by
  induction h with
  | start m => exact hm
  | step unfinished _ ih => exact ih (isFinished_of_step unfinished)

/-- The second machine stands at the first instruction of its program, which is unfinished, and at
the bottom of its stack; else it is like the first one. -/
structure Rewound (m s : Machine ω) : Prop where
  counter : s.reg .pc = 0
  pointer : s.reg .sp = 0
  registers : ∀ r, r ≠ .pc → r ≠ .sp → s.reg r = m.reg r
  program : s.program = m.program.map fun p => { p with finished := false }
  unfinished : s.isFinished = false
  alu : s.alu = m.alu
  stack : s.stack = m.stack
  bus : s.bus = m.bus
  sink : s.hasSink = m.hasSink

theorem rewound (m : Machine ω) : Rewound m m.rewind where
  counter := rfl
  pointer := rfl
  registers r counter pointer :=
    (RegisterFile.get_set_of_ne _ 0 pointer).trans (RegisterFile.get_set_of_ne _ 0 counter)
  program := rfl
  unfinished := by cases h : m.program <;> simp [rewind, setReg, setFinished, isFinished, h]
  alu := rfl
  stack := rfl
  bus := rfl
  sink := rfl

def eventsOf : Nat → Machine ω → List Event
  | 0, _ => []
  | n + 1, m => m.step.events ++ eventsOf n m.step.state

theorem Continues.eventsOf_add {n : Nat} {m m' : Machine ω} (h : Continues n m m') (k : Nat) :
    eventsOf (n + k) m = eventsOf n m ++ eventsOf k m' := by
  induction h with
  | start m => simp [eventsOf]
  | step _ _ ih => rw [Nat.add_right_comm, eventsOf, ih, eventsOf, List.append_assoc]

theorem append_events (events : Array Event) (u v : List Event) :
    events ++ u ++ v = events ++ (u ++ v) := by
  apply Array.toList_inj.1
  simp

section RunFrom
variable {m m' : Machine ω} {fuel n : Nat}

theorem runFrom_of_error {e : Fault} (h : m.step.result = .error e) (steps : Nat)
    (events : Array Event) : runFrom (fuel + 1) steps events m =
      ⟨.failed e, m.step.state, steps, events ++ m.step.events⟩ := by
  have hc := cycle_error_of_step h
  obtain ⟨-, hs, hev⟩ := step_of_cycle_error hc
  simp only [runFrom, hc, hs, hev]

theorem runFrom_of_finished (h : m.step.result = .ok true) (steps : Nat) (events : Array Event) :
    runFrom (fuel + 1) steps events m = ⟨.finished, m.step.state, steps + 1,
      (events ++ m.step.events).push (.terminated (steps + 1) (m.step.state.reg .pc))⟩ := by
  obtain ⟨hc, hf, hs, hev⟩ := cycle_ok_of_step h
  simp only [runFrom, hc, hf, hs, hev, if_true]

theorem runFrom_of_unfinished (h : m.step.result = .ok false) (steps : Nat)
    (events : Array Event) : runFrom (fuel + 1) steps events m =
      runFrom fuel (steps + 1) (events ++ m.step.events) m.step.state := by
  obtain ⟨hc, hf, hs, hev⟩ := cycle_ok_of_step h
  simp only [runFrom, hc, hf, hs, hev, Bool.false_eq_true, if_false]

theorem Continues.runFrom (h : Continues n m m') (fuel steps : Nat) (events : Array Event) :
    runFrom (n + fuel) steps events m =
      Machine.runFrom fuel (steps + n) (events ++ eventsOf n m) m' := by
  induction h generalizing steps events with
  | start m => simp [eventsOf]
  | @step n m m' unfinished _ ih =>
    rw [Nat.add_right_comm, runFrom_of_unfinished unfinished, ih, Nat.add_assoc, Nat.add_comm 1 n,
      append_events, eventsOf]

/-- A run that ends has come to a step that fails or finishes the program. -/
theorem runFrom_ends {steps : Nat} {events : Array Event}
    (h : (runFrom fuel steps events m).ending ≠ .outOfCycles) :
    ∃ n k m', fuel = n + (k + 1) ∧ Continues n m m' ∧ m'.step.result ≠ .ok false := by
  induction fuel generalizing steps events m with
  | zero => exact absurd rfl h
  | succ fuel ih =>
    by_cases unfinished : m.step.result = .ok false
    · rw [runFrom_of_unfinished unfinished] at h
      obtain ⟨n, k, m', rfl, hn, hstop⟩ := ih h
      exact ⟨n + 1, k, m', by omega, .step unfinished hn, hstop⟩
    · exact ⟨0, fuel, m, (Nat.zero_add _).symm, .start m, unfinished⟩

/-- More cycles than a run needs make no difference. -/
theorem runFrom_add {steps : Nat} {events : Array Event}
    (h : (runFrom fuel steps events m).ending ≠ .outOfCycles) (more : Nat) :
    runFrom (fuel + more) steps events m = runFrom fuel steps events m := by
  obtain ⟨n, k, m', rfl, hn, stops⟩ := runFrom_ends h
  have spare : n + (k + 1) + more = n + (k + more + 1) := by omega
  rw [spare, hn.runFrom, hn.runFrom]
  cases hr : m'.step.result with
  | error e => rw [runFrom_of_error hr, runFrom_of_error hr]
  | ok finished =>
    obtain rfl : finished = true := by simpa [hr] using stops
    rw [runFrom_of_finished hr, runFrom_of_finished hr]

end RunFrom

theorem runFrom_failed {fuel steps : Nat} {events : Array Event} {m : Machine ω} {e : Fault}
    (h : (runFrom fuel steps events m).ending = .failed e) :
    ∃ n m', Continues n m m' ∧ m'.step.result = .error e ∧
      (runFrom fuel steps events m).machine = m'.step.state ∧
      (runFrom fuel steps events m).steps = steps + n := by
  have ends : (runFrom fuel steps events m).ending ≠ .outOfCycles := by simp [h]
  obtain ⟨n, k, m', rfl, hn, hstop⟩ := runFrom_ends ends
  rw [hn.runFrom] at h ⊢
  cases hr : m'.step.result with
  | error e' =>
    rw [runFrom_of_error hr] at h ⊢
    obtain rfl : e' = e := by simpa using h
    exact ⟨n, m', hn, hr, rfl, rfl⟩
  | ok finished =>
    obtain rfl : finished = true := by simpa [hr] using hstop
    simp [runFrom_of_finished hr] at h

theorem runFrom_finished {fuel steps : Nat} {events : Array Event} {m : Machine ω}
    (h : (runFrom fuel steps events m).ending = .finished) :
    ∃ n m', Continues n m m' ∧ m'.step.result = .ok true ∧
      runFrom fuel steps events m = ⟨.finished, m'.step.state, steps + n + 1,
        (events ++ (eventsOf n m ++ m'.step.events)).push
          (.terminated (steps + n + 1) (m'.step.state.reg .pc))⟩ := by
  have ends : (runFrom fuel steps events m).ending ≠ .outOfCycles := by simp [h]
  obtain ⟨n, k, m', rfl, hn, hstop⟩ := runFrom_ends ends
  rw [hn.runFrom] at h ⊢
  cases hr : m'.step.result with
  | error e' => simp [runFrom_of_error hr] at h
  | ok finished =>
    obtain rfl : finished = true := by simpa [hr] using hstop
    refine ⟨n, m', hn, hr, ?_⟩
    rw [runFrom_of_finished hr, append_events]

end RegisterMachine.Machine
