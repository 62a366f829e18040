import RegisterMachine.Proofs.Stepping
/-! Failures without effect: an instruction or a cycle that fails leaves the machine, its memory and
the outside world as they were, so that it can be tried again. -/
namespace RegisterMachine

namespace Outcome
variable {ε σ τ α β : Type}

/-- If the outcome is a failure, then nothing has happened: the state is still `s`, and there are no
events. -/
def CleanFrom (o : Outcome ε σ α) (s : σ) : Prop := ∀ e, o.result = .error e → o = .fail e s

theorem cleanFrom_ok (a : α) (s t : σ) (events : List Event) :
    (ok a t events : Outcome ε σ α).CleanFrom s := by
  intro e h
  simp [ok] at h

theorem cleanFrom_fail (e : ε) (s : σ) : (fail e s : Outcome ε σ α).CleanFrom s := by
  intro e' h
  obtain rfl : e = e' := by simpa [fail] using h
  rfl

theorem CleanFrom.andThen {o : Outcome ε σ α} {s : σ} (h : o.CleanFrom s)
    (next : α → σ → Outcome ε σ β) (hn : ∀ a t e, (next a t).result ≠ .error e) :
    (o.andThen next).CleanFrom s := by
  intro e he
  cases hr : o.result with
  | error e' =>
    rw [h e' hr, fail_andThen] at he ⊢
    obtain rfl : e' = e := by simpa [fail] using he
    rfl
  | ok a =>
    have : (next a o.state).result = .error e := by simpa [Outcome.andThen, after, hr] using he
    exact absurd this (hn a o.state e)

theorem CleanFrom.mapState {o : Outcome ε σ α} {s : σ} (h : o.CleanFrom s) (f : σ → τ) :
    (o.mapState f).CleanFrom (f s) := by
  intro e he
  have hr : o.result = .error e := by simpa [Outcome.mapState] using he
  rw [h e hr]
  rfl

end Outcome

namespace Bus
variable {ω α : Type}

theorem play_result (serve : Service ω) (script : Script ω (Window ω) α) (b : Bus ω) :
    ∃ a, (play serve script b).result = .ok a := by
  induction script generalizing b with
  | reply a => exact ⟨a, rfl⟩
  | tell event next ih => exact ih b
  | look next ih => exact ih b.world b
  | put world next ih => exact ih { b with world }
  | ask r next ih => exact ih (serve r b).result (serve r b).state

theorem readCell_cleanFrom (serve : Service ω) (a : Word) (b : Bus ω) :
    (readCell serve a b).CleanFrom b := by
  unfold readCell
  split
  · exact Outcome.cleanFrom_ok _ _ _ _
  · split
    · exact Outcome.cleanFrom_fail _ _
    · split
      · exact Outcome.cleanFrom_ok _ _ _ _
      · rename_i f _
        obtain ⟨w, hw⟩ := play_result serve (f a) b
        intro e he
        simp [Outcome.after, hw] at he

theorem writeCell_cleanFrom (serve : Service ω) (a value : Word) (b : Bus ω) :
    (writeCell serve a value b).CleanFrom b := by
  unfold writeCell
  split
  · exact Outcome.cleanFrom_ok _ _ _ _
  · split
    · exact Outcome.cleanFrom_fail _ _
    · split
      · exact Outcome.cleanFrom_ok _ _ _ _
      · rename_i f _
        obtain ⟨w, hw⟩ := play_result serve (f a value) b
        intro e he
        simp [Outcome.after, hw] at he

theorem holding_cleanFrom {access : Bus ω → Outcome Fault (Bus ω) α} {b : Bus ω}
    (h : (access { b with busy := true }).CleanFrom { b with busy := true }) :
    (holding access b).CleanFrom b := by
  obtain ⟨memory, world, busy⟩ := b
  cases busy with
  | true => exact Outcome.cleanFrom_fail _ _
  | false => exact h.mapState fun b => { b with busy := false }

theorem read_cleanFrom (a : Word) (b : Bus ω) : (Bus.read a b).CleanFrom b :=
  holding_cleanFrom (readCell_cleanFrom _ a _)

theorem write_cleanFrom (a value : Word) (b : Bus ω) : (Bus.write a value b).CleanFrom b :=
  holding_cleanFrom (writeCell_cleanFrom _ a value _)

end Bus

namespace Machine
variable {ω α : Type}

theorem viaBus_cleanFrom {access : Bus ω → Outcome Fault (Bus ω) α} {m : Machine ω}
    (h : (access m.bus).CleanFrom m.bus) : (m.viaBus access).CleanFrom m :=
  h.mapState fun bus => ({ m with bus } : Machine ω)

theorem loadFrom_cleanFrom (m : Machine ω) (dest : Register) (a : Word) :
    (m.loadFrom dest a).CleanFrom m :=
  (viaBus_cleanFrom (Bus.read_cleanFrom a m.bus)).andThen _ fun w t e => by simp [Outcome.ok]

theorem storeAt_cleanFrom (m : Machine ω) (a w : Word) : (m.storeAt a w).CleanFrom m :=
  viaBus_cleanFrom (Bus.write_cleanFrom a w m.bus)

theorem pushWord_cleanFrom (m : Machine ω) (w : Word) : (m.pushWord w).CleanFrom m := by
  unfold pushWord
  split
  · exact Outcome.cleanFrom_fail _ _
  · exact Outcome.cleanFrom_ok _ _ _ _

theorem popTo_cleanFrom (m : Machine ω) (dest : Register) : (m.popTo dest).CleanFrom m := by
  simp only [popTo]
  split
  · exact Outcome.cleanFrom_fail _ _
  · exact Outcome.cleanFrom_ok _ _ _ _

theorem compute_cleanFrom (m : Machine ω) (op : Opcode) (operation : Alu.Operation) (a b : Word)
    (dest : Register) : (m.compute op operation a b dest).CleanFrom m := by
  unfold compute
  split <;> exact Outcome.cleanFrom_ok _ _ _ _

theorem branchOn_cleanFrom (m : Machine ω) (c : Comparison) (a b target : Word) :
    (m.branchOn c a b target).CleanFrom m := by
  simp only [branchOn]
  split <;> exact Outcome.cleanFrom_ok _ _ _ _

theorem execute_cleanFrom (m : Machine ω) (i : Instruction) : (m.execute i).CleanFrom m := by
  cases i with
  | invalid => exact Outcome.cleanFrom_fail _ _
  | noop | print | loadImm | move | jumpReg => exact Outcome.cleanFrom_ok _ _ _ _
  | exit =>
    simp only [execute]
    split
    · exact Outcome.cleanFrom_ok _ _ _ _
    · exact Outcome.cleanFrom_fail _ _
  | arith op a b dest => exact m.compute_cleanFrom _ _ _ _ _
  | equal a b dest => exact m.compute_cleanFrom _ _ _ _ _
  | arithImm op a w dest => exact m.compute_cleanFrom _ _ _ _ _
  | loadMem dest a => exact m.loadFrom_cleanFrom dest a
  | loadReg dest a => exact m.loadFrom_cleanFrom dest _
  | storeMem source a => exact m.storeAt_cleanFrom a _
  | storeReg source a => exact m.storeAt_cleanFrom _ _
  | push source => exact m.pushWord_cleanFrom _
  | pop dest => exact m.popTo_cleanFrom dest
  | branch b target =>
    cases b with
    | always => exact Outcome.cleanFrom_ok _ _ _ _
    | onZero a => exact m.branchOn_cleanFrom _ _ _ _
    | onNotZero a => exact m.branchOn_cleanFrom _ _ _ _
    | on c a b => exact m.branchOn_cleanFrom _ _ _ _

/-- A cycle that fails has no effect either; it may report which instruction it fetched. -/
theorem cycle_failed {m : Machine ω} {e : Fault} (h : m.cycle.result = .error e) :
    m.cycle.state = m ∧ ∀ ev ∈ m.cycle.events, ∃ i, ev = .fetched (m.reg .pc) i := by
  unfold cycle at h ⊢
  cases hf : m.fetch with
  | error e' => simp [Outcome.fail]
  | ok i =>
    simp only [hf] at h ⊢
    have hclean := (m.execute_cleanFrom i).andThen
      (fun _ m' => .ok () (m'.setReg .pc (m'.reg .pc + 1))) (by simp [Outcome.ok])
    rw [hclean e (by simpa [Outcome.after] using h)]
    simp [Outcome.after, Outcome.fail]

theorem step_failed {m : Machine ω} {e : Fault} (h : m.step.result = .error e) :
    m.step.state = m ∧ ∀ ev ∈ m.step.events, ∃ i, ev = .fetched (m.reg .pc) i := by
  have hc := cycle_error_of_step h
  obtain ⟨-, hs, hev⟩ := step_of_cycle_error hc
  rw [hs, hev]
  exact cycle_failed hc

/-- An instruction or a step that fails leaves machine, memory, devices and outside world as they
were, calls no device and prints nothing; another attempt fails likewise. A run that fails stops
in front of the step that fails. -/
theorem failed_operation_has_no_effect (m : Machine ω) :
    (∀ i e, (m.execute i).result = .error e →
      (m.execute i).state = m ∧ (m.execute i).events = []) ∧
    (∀ e, m.step.result = .error e →
      m.step.state = m ∧ (∀ ev ∈ m.step.events, ∃ i, ev = .fetched (m.reg .pc) i) ∧
        m.step.state.step.result = .error e) ∧
    (∀ fuel e, m.program.isSome = true → (m.run fuel).ending = .failed e →
      ∃ before, Continues (m.run fuel).steps m.rewind before ∧ before.step.result = .error e ∧
        (m.run fuel).machine = before ∧ before.isFinished = false ∧
        (m.run fuel).machine.step.result = .error e) := by
  refine ⟨fun i e h => ?_, fun e h => ?_, fun fuel e hp h => ?_⟩
  · rw [m.execute_cleanFrom i e h]
    exact ⟨rfl, rfl⟩
  · obtain ⟨hs, hev⟩ := step_failed h
    exact ⟨hs, hev, by rw [hs, h]⟩
  · have hrun : m.run fuel = runFrom fuel 0 #[] m.rewind := by simp [run, hp]
    rw [hrun] at h ⊢
    obtain ⟨n, before, hn, he, hm, hk⟩ := runFrom_failed h
    rw [(step_failed he).1] at hm
    rw [Nat.zero_add] at hk
    refine ⟨before, by rwa [hk], he, hm, hn.isFinished m.rewound.unfinished, by rwa [hm]⟩

theorem full_stack_stops_run :
    let m : Machine Unit :=
      (onBus (.ofSize 0 ()) 0).load (.ofArray #[.loadImm .v0 7, .push .v0])
    (m.run 5).ending = .failed (.stackOverflow 0) ∧ (m.run 5).machine.reg .pc = 1 ∧
      (m.run 5).machine.step.result = .error (.stackOverflow 0) := by
  intro m
  have h : (m.run 5).ending = .failed (.stackOverflow 0) := by decide
  obtain ⟨_, _, _, _, _, again⟩ := (failed_operation_has_no_effect m).2.2 5 _ rfl h
  exact ⟨h, rfl, again⟩

end Machine

end RegisterMachine
