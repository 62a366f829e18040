import Mathlib.Data.List.Perm.Subperm
import RegisterMachine.Proofs.Control
/-! Programs without a way back. A step of one raises the program counter, unless that passes the
largest word and nothing is there to fetch. So a run comes to each instruction once at most, and it
ends. -/
namespace RegisterMachine

structure Program.ForwardOnly (p : Program) : Prop where
  branches : ∀ (k : Nat) (b : Branch) (target : Word),
    p.get? k = some (.branch b target) → (k : Int) < target.toInt
  jumps : ∀ (k : Nat) (r : Register), p.get? k ≠ some (.jumpReg r)
  results : ∀ (k : Nat) (i : Instruction), p.get? k = some i → i.dest? ≠ some .pc

namespace Machine
variable {ω : Type} {m : Machine ω} {p : Program} {fuel : Nat}

/-- The program counters at which at most so many cycles execute an instruction, in order. What
they execute last may fail. -/
def executed : Nat → Machine ω → List Word
  | 0, _ => []
  | fuel + 1, m =>
    match m.fetch, m.step.result with
    | .error _, _ => []
    | .ok _, .ok false => m.reg .pc :: executed fuel m.step.state
    | .ok _, _ => [m.reg .pc]

/-! ### What a run executes -/

theorem executed_of_unfinished (h : m.step.result = .ok false) (fuel : Nat) :
    executed (fuel + 1) m = m.reg .pc :: executed fuel m.step.state := by
  obtain ⟨i, fetched, -⟩ := cycle_eq_ok h
  simp only [executed, fetched, h]

theorem executed_of_finished (h : m.step.result = .ok true) (fuel : Nat) :
    executed (fuel + 1) m = [m.reg .pc] := by
  obtain ⟨i, fetched, -⟩ := cycle_eq_ok h
  simp only [executed, fetched, h]

theorem length_executed_of_error {e : Fault} (h : m.step.result = .error e) (fuel : Nat) :
    (executed (fuel + 1) m).length ≤ 1 := by
  simp only [executed, h]
  cases m.fetch <;> simp

theorem exists_fetch? {i : Instruction} (loaded : m.program = some p) (fetched : m.fetch = .ok i) :
    p.fetch? (m.reg .pc) = some i := by
  obtain ⟨q, hq, here⟩ := fetch_eq_ok_iff.1 fetched
  obtain rfl : p = q := Option.some.inj (loaded.symm.trans hq)
  exact here

theorem fetch?_of_mem_executed (loaded : m.program = some p) {w : Word}
    (h : w ∈ executed fuel m) : ∃ i, p.fetch? w = some i := by
  fun_induction executed fuel m with
  | case1 | case2 => exact absurd h List.not_mem_nil
  | case3 fuel m i unfinished fetched ih =>
    rcases List.mem_cons.1 h with rfl | later
    · exact ⟨i, exists_fetch? loaded fetched⟩
    · exact ih ((step_program unfinished).trans loaded) later
  | case4 fuel m i fetched stopped =>
    obtain rfl := List.mem_singleton.1 h
    exact ⟨i, exists_fetch? loaded fetched⟩

theorem runFrom_steps (fuel steps : Nat) (events : Array Event) (m : Machine ω) :
    (runFrom fuel steps events m).steps ≤ steps + (executed fuel m).length ∧
      steps + (executed fuel m).length ≤ (runFrom fuel steps events m).steps + 1 := by
  induction fuel generalizing steps events m with
  | zero => simp [runFrom, executed]
  | succ fuel ih =>
    cases hr : m.step.result with
    | error e =>
      have := length_executed_of_error hr fuel
      rw [runFrom_of_error hr]
      exact ⟨Nat.le_add_right _ _, Nat.add_le_add_left this _⟩
    | ok finished =>
      cases finished with
      | false =>
        have later := ih (steps + 1) (events ++ m.step.events) m.step.state
        rw [runFrom_of_unfinished hr, executed_of_unfinished hr, List.length_cons]
        omega
      | true =>
        rw [runFrom_of_finished hr, executed_of_finished hr]
        simp

theorem length_executed_of_outOfCycles {steps : Nat} {events : Array Event}
    (h : (runFrom fuel steps events m).ending = .outOfCycles) :
    (executed fuel m).length = fuel := by
  induction fuel generalizing steps events m with
  | zero => rfl
  | succ fuel ih =>
    cases hr : m.step.result with
    | error e => simp [runFrom_of_error hr] at h
    | ok finished =>
      cases finished with
      | false =>
        rw [runFrom_of_unfinished hr] at h
        rw [executed_of_unfinished hr, List.length_cons, ih h]
      | true => simp [runFrom_of_finished hr] at h

theorem executed_ends_with_exit {steps : Nat} {events : Array Event} (loaded : m.program = some p)
    (unfinished : m.isFinished = false) (h : (runFrom fuel steps events m).ending = .finished) :
    ∃ w, (executed fuel m).getLast? = some w ∧ p.fetch? w = some .exit := by
  induction fuel generalizing steps events m with
  | zero => simp [runFrom] at h
  | succ fuel ih =>
    cases hr : m.step.result with
    | error e => simp [runFrom_of_error hr] at h
    | ok finished =>
      cases finished with
      | false =>
        rw [runFrom_of_unfinished hr] at h
        obtain ⟨w, last, exit⟩ := ih ((step_program hr).trans loaded) (isFinished_of_step hr) h
        rw [executed_of_unfinished hr]
        exact ⟨w, by rw [List.getLast?_cons, last]; rfl, exit⟩
      | true =>
        rw [executed_of_finished hr]
        exact ⟨_, rfl, exists_fetch? loaded ((step_finishes_iff unfinished).1 hr)⟩

theorem executed_of_negative (h : (m.reg .pc).toInt < 0) (fuel : Nat) : executed fuel m = [] := by
  fun_cases executed fuel m with
  | case1 | case2 => rfl
  | case3 fuel m i unfinished fetched | case4 fuel m i fetched stopped =>
    obtain ⟨q, hq, -⟩ := fetch_eq_ok_iff.1 fetched
    obtain ⟨k, place, -⟩ := exists_index_of_fetch hq fetched
    omega

/-! ### Forward steps -/

theorem toInt_succ (w : Word) : (w + 1).toInt = w.toInt + 1 ∨ (w + 1).toInt < 0 := by
  have bound := w.toInt_lt
  have low := w.le_toInt
  rw [Int32.toInt_add, Int32.toInt_one, Int.bmod_def]
  omega

theorem pairwise_length_le {path : List Word} (size : Nat)
    (ascends : path.Pairwise fun v w => v.toInt < w.toInt)
    (inside : ∀ w ∈ path, 0 ≤ w.toInt ∧ w.toInt < size) : path.length ≤ size := by
  have distinct : (path.map fun w => w.toInt.toNat).Nodup := by
    refine List.pairwise_map.2 (ascends.imp_of_mem fun {v w} hv hw lt => ?_)
    have := inside v hv
    have := inside w hw
    omega
  have within : (path.map fun w => w.toInt.toNat) ⊆ List.range size := by
    intro k hk
    obtain ⟨w, hw, rfl⟩ := List.mem_map.1 hk
    have := inside w hw
    rw [List.mem_range]
    omega
  simpa using (List.Nodup.subperm distinct within).length_le

section Forward
variable (forward : p.ForwardOnly) (loaded : m.program = some p)
include forward loaded

/-- A step that does not end the run leads on, or to where there is nothing. -/
theorem step_leads_on (unfinished : m.step.result = .ok false) :
    (m.reg .pc).toInt < (m.step.state.reg .pc).toInt ∨ (m.step.state.reg .pc).toInt < 0 := by
  obtain ⟨i, fetched, -⟩ := cycle_eq_ok unfinished
  obtain ⟨-, moved⟩ := step_of_succeeded fetched unfinished
  obtain ⟨k, place, here⟩ := exists_index_of_fetch loaded fetched
  have counter : m.step.state.reg .pc = (m.execute i).state.reg .pc + 1 := by
    rw [moved, reg_setReg_self _ (by decide)]
  have next (stays : (m.execute i).state.reg .pc = m.reg .pc) :
      (m.reg .pc).toInt < (m.step.state.reg .pc).toInt ∨
        (m.step.state.reg .pc).toInt < 0 := by
    rw [counter, stays]
    exact (toInt_succ (m.reg .pc)).imp_left fun up => by omega
  by_cases branches : ∃ b target, i = .branch b target
  · obtain ⟨b, target, rfl⟩ := branches
    have taken := execute_branch_counter (m := m) b target
    split at taken
    · rw [counter, taken, Int32.sub_add_cancel, place]
      exact .inl (forward.branches k b target here)
    · exact next taken
  · have noJump (r : Register) (jumps : i = .jumpReg r) := forward.jumps k r (jumps ▸ here)
    have unwritten := counter_unwritten (fun b target eq => branches ⟨b, target, eq⟩) noJump
      (forward.results k i here)
    exact next (execute_reg unwritten)

theorem executed_ascends (fuel : Nat) :
    (executed fuel m).Pairwise (fun v w => v.toInt < w.toInt) ∧
      ∀ w ∈ executed fuel m, (m.reg .pc).toInt ≤ w.toInt := by
  fun_induction executed fuel m with
  | case1 | case2 => simp
  | case3 fuel m i unfinished fetched ih =>
    obtain ⟨ascends, above⟩ := ih ((step_program unfinished).trans loaded)
    have beyond : ∀ w ∈ executed fuel m.step.state, (m.reg .pc).toInt < w.toInt := by
      intro w hw
      rcases step_leads_on forward loaded unfinished with up | out
      · exact Int.lt_of_lt_of_le up (above w hw)
      · rw [executed_of_negative out] at hw
        exact absurd hw List.not_mem_nil
    refine ⟨List.pairwise_cons.2 ⟨beyond, ascends⟩, fun w hw => ?_⟩
    rcases List.mem_cons.1 hw with rfl | later
    · exact Int.le_refl _
    · exact Int.le_of_lt (beyond w later)
  | case4 => simp

end Forward

/-- A forward-only program stops, whatever the machine and its devices are like. The program
counters at which its run executes an instruction go up all the time, so that no instruction is
executed twice and no more than the program has. As many cycles and one more are enough for the run
to end, either well and with an exit executed last, or by a failure. -/
theorem forward_runs_stop (forward : p.ForwardOnly) (loaded : m.program = some p) (fuel : Nat) :
    let r := m.run fuel
    let path := executed fuel m.rewind
    (path.Pairwise fun v w => v.toInt < w.toInt) ∧ (∀ w ∈ path, ∃ i, p.fetch? w = some i) ∧
    path.length ≤ p.size ∧ r.steps ≤ path.length ∧ path.length ≤ r.steps + 1 ∧
    (r.ending = .finished → ∃ w, path.getLast? = some w ∧ p.fetch? w = some .exit) ∧
    (p.size < fuel → (r.ending = .finished ∨ ∃ e, r.ending = .failed e) ∧
      ∀ more, m.run (fuel + more) = r) := by
  intro r path
  -- the run resets the finished flag, which no fetch looks at
  let fresh : Program := { p with finished := false }
  have onward : fresh.ForwardOnly := ⟨forward.branches, forward.jumps, forward.results⟩
  have ready : m.rewind.program = some fresh := by
    rw [m.rewound.program, loaded]
    rfl
  have hrun (fuel : Nat) : m.run fuel = runFrom fuel 0 #[] m.rewind := by simp [run, loaded]
  have ascends : path.Pairwise fun v w => v.toInt < w.toInt :=
    (executed_ascends onward ready fuel).1
  have there (w : Word) (hw : w ∈ path) : ∃ i, p.fetch? w = some i :=
    fetch?_of_mem_executed ready hw
  have inside (w : Word) (hw : w ∈ path) : 0 ≤ w.toInt ∧ w.toInt < p.size := by
    obtain ⟨i, hi⟩ := there w hw
    have range := (p.fetch?_eq_none_iff w).not.1 (by simp [hi])
    omega
  have bound : path.length ≤ p.size := pairwise_length_le p.size ascends inside
  obtain ⟨few, many⟩ := runFrom_steps fuel 0 #[] m.rewind
  rw [← hrun, Nat.zero_add] at few many
  refine ⟨ascends, there, bound, few, many, fun finished => ?_, fun enough => ?_⟩
  · have ended : (runFrom fuel 0 #[] m.rewind).ending = .finished := by
      rw [← hrun]
      exact finished
    obtain ⟨w, last, exit⟩ := executed_ends_with_exit ready m.rewound.unfinished ended
    exact ⟨w, last, exit⟩
  · have ends : (runFrom fuel 0 #[] m.rewind).ending ≠ .outOfCycles := fun out => by
      have : path.length = fuel := length_executed_of_outOfCycles out
      omega
    refine ⟨?_, fun more => ?_⟩
    · rw [← hrun] at ends
      cases he : r.ending with
      | finished => exact .inl rfl
      | failed e => exact .inr ⟨e, rfl⟩
      | outOfCycles => exact absurd he ends
    · rw [hrun, runFrom_add ends, ← hrun]

theorem forward_runs_stop_past_end :
    let p := Program.ofArray #[.branch (.onZero .v0) 2, .exit, .branch .always 9]
    let m := ((onBus (Bus.ofSize 0 ()) 0).setReg .sp 7).load p
    executed 4 m.rewind = [0, 2] ∧ (m.run 4).steps = 2 ∧
      (m.run 4).ending = .failed (.programCounterOutOfRange 9 3) ∧
      ∀ more, m.run (4 + more) = m.run 4 := by
  intro p m
  have forward : p.ForwardOnly := by
    constructor
    · rintro (_ | _ | _ | k) b target here <;> cases here <;> decide
    · rintro (_ | _ | _ | k) r here <;> cases here
    · rintro (_ | _ | _ | k) i here <;> cases here <;> nofun
  obtain ⟨-, -, -, -, -, -, stops⟩ := forward_runs_stop (m := m) forward rfl 4
  exact ⟨by decide, by decide, by decide, (stops (by decide)).2⟩

end Machine

end RegisterMachine
