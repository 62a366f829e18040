import RegisterMachine.Proofs.Frame
import RegisterMachine.Proofs.StepFaults
/-! The call stack as a stack. Its slots know nothing of a top; but in a program that leaves the
stack pointer to pushes and pops, the slots below the pointer hold the words that were pushed and
not yet popped, and a pop gives the latest of them. -/
namespace RegisterMachine

namespace Stack

inductive Use where
  | push (w : Word)
  | pop
  deriving DecidableEq, Repr

/-- The words on the stack after further uses, the latest first. -/
def replay : List Word → List Use → List Word
  | s, [] => s
  | s, .push w :: rest => replay (w :: s) rest
  | s, .pop :: rest => replay s.tail rest

/-- Each push has its pop and each pop its push, with the same between them. -/
inductive Matched : List Use → Prop
  | nil : Matched []
  | enclose (w : Word) {u v : List Use} (inner : Matched u) (rest : Matched v) :
      Matched (.push w :: u ++ .pop :: v)

theorem replay_append (s : List Word) (u v : List Use) :
    replay s (u ++ v) = replay (replay s u) v := by
  induction u generalizing s with
  | nil => rfl
  | cons use rest ih => cases use <;> exact ih _

theorem Matched.append {u v : List Use} (hu : Matched u) (hv : Matched v) : Matched (u ++ v) := by
  induction hu with
  | nil => exact hv
  | enclose w inner _ _ ih => simpa using Matched.enclose w inner ih

theorem replay_matched {v : List Use} (h : Matched v) (s : List Word) : replay s v = s := by
  induction h generalizing s with
  | nil => rfl
  | enclose w _ _ inner rest =>
    rw [replay_append, replay, inner]
    exact rest s

theorem exists_push_of_replay (uses : List Use) {w : Word} {s : List Word}
    (h : replay [] uses = w :: s) :
    ∃ u v, uses = u ++ .push w :: v ∧ Matched v ∧ replay [] u = s := by
  induction hn : uses.length using Nat.strongRecOn generalizing uses w s with
  | ind n ih =>
    rcases List.eq_nil_or_concat uses with rfl | ⟨earlier, last, rfl⟩
    · simp [replay] at h
    rw [List.concat_eq_append] at h hn ⊢
    rw [List.length_append, List.length_singleton] at hn
    rw [replay_append] at h
    cases last with
    | push w' =>
      obtain ⟨rfl, rfl⟩ : w' = w ∧ replay [] earlier = s := by simpa [replay] using h
      exact ⟨earlier, [], rfl, .nil, rfl⟩
    | pop =>
      -- the pop takes the push on top away, and the wanted one is on top before that
      obtain ⟨top, below⟩ : ∃ top, replay [] earlier = top :: w :: s := by
        cases hs : replay [] earlier with
        | nil => simp [replay, hs] at h
        | cons top rest => exact ⟨top, by simpa [replay, hs] using h⟩
      obtain ⟨u, v, rfl, matched, hu⟩ := ih _ (by omega) earlier below rfl
      rw [List.length_append, List.length_cons] at hn
      obtain ⟨u', v', rfl, matched', hu'⟩ := ih _ (by omega) u hu rfl
      exact ⟨u', v' ++ (.push top :: v ++ [.pop]), by simp,
        matched'.append (.enclose top matched .nil), hu'⟩

/-- The word on top is that of the latest push without a pop of its own; what lay on the stack at
that push lies below it. -/
theorem replay_eq_cons_iff (uses : List Use) {w : Word} {s : List Word} :
    replay [] uses = w :: s ↔ ∃ u v, uses = u ++ .push w :: v ∧ Matched v ∧ replay [] u = s := by
  refine ⟨exists_push_of_replay uses, ?_⟩
  rintro ⟨u, v, rfl, matched, rfl⟩
  rw [replay_append, replay, replay_matched matched]

theorem read_of_lt {s : Stack} {w : Word} {k : Nat} (place : w.toInt = k)
    (h : k < s.slots.size) : s.read w = .ok s.slots[k] := by
  have hs : s.slot w = .ok ⟨k, h⟩ := (s.slot_eq_ok_iff w ⟨k, h⟩).2 place
  simp [read, hs, Except.map]

theorem write_of_lt {s : Stack} {w : Word} {k : Nat} (place : w.toInt = k)
    (h : k < s.slots.size) (value : Word) : s.write w value = .ok ⟨s.slots.set k value h⟩ := by
  have hs : s.slot w = .ok ⟨k, h⟩ := (s.slot_eq_ok_iff w ⟨k, h⟩).2 place
  simp [write, hs, Except.map]

end Stack

namespace Machine
open Stack (Use replay)
variable {ω : Type} {m : Machine ω} {s : List Word}

def stackUse? (m : Machine ω) : Option Use :=
  match m.fetch with
  | .ok (.push a) => some (.push (m.reg a))
  | .ok (.pop _) => some .pop
  | _ => none

def stackUses : Nat → Machine ω → List Use
  | 0, _ => []
  | n + 1, m => m.stackUse?.toList ++ stackUses n m.step.state

/-- The words below the stack pointer, from the bottom, are those of `s`, whose first is on top. -/
structure StackHolds (m : Machine ω) (s : List Word) : Prop where
  pointer : (m.reg .sp).toInt = s.length
  room : s.length ≤ m.stack.capacity
  slots : m.stack.slots.toList.take s.length = s.reverse

/-- The program leaves the stack pointer to pushes and pops, and a word can number every slot. -/
structure Disciplined (m : Machine ω) : Prop where
  leaves : ∀ p, m.program = some p → ∀ i ∈ p.instructions, i.dest? ≠ some .sp
  small : m.stack.capacity < 2147483648

theorem toInt_add_one {w : Word} {k : Nat} (h : w.toInt = k) (small : k + 1 < 2147483648) :
    (w + 1).toInt = (k + 1 : Nat) := by
  rw [succ_eq_ofNat h, Int32.toInt_ofNat_of_lt small]

theorem toInt_sub_one {w : Word} {k : Nat} (h : w.toInt = (k + 1 : Nat)) (small : k < 2147483648) :
    (w - 1).toInt = k := by
  have hw : w = .ofNat k + 1 := by
    rw [← Int32.ofInt_toInt w, h, Int32.ofInt_eq_ofNat, Int32.ofNat_add]
    rfl
  rw [hw, Int32.add_sub_cancel, Int32.toInt_ofNat_of_lt small]

theorem step_of_refused {i : Instruction} (hf : m.fetch = .ok i) (e : Fault) :
    m.step.result = .error e ↔ (m.execute i).result = .error e := by
  simp [step_error_iff, hf]

theorem Disciplined.dest_ne (hd : m.Disciplined) {i : Instruction} (hf : m.fetch = .ok i) :
    i.dest? ≠ some .sp := by
  obtain ⟨p, hp, -⟩ := fetch_eq_ok_iff.1 hf
  obtain ⟨k, -, there⟩ := exists_index_of_fetch hp hf
  exact hd.leaves p hp i (Array.mem_of_getElem? there)

namespace StackHolds

theorem push (h : m.StackHolds s) (small : m.stack.capacity < 2147483648)
    (room : s.length < m.stack.slots.size) (w : Word) :
    ∃ stack : Stack, stack.capacity = m.stack.capacity ∧
      m.pushWord w = .ok () ({ m with stack }.setReg .sp (m.reg .sp + 1)) ∧
      StackHolds ({ m with stack }.setReg .sp (m.reg .sp + 1)) (w :: s) := by
  have written := Stack.write_of_lt h.pointer room w
  have fits : s.length + 1 ≤ m.stack.capacity := room
  refine ⟨_, Stack.capacity_write written, by simp only [pushWord, written], ?_, ?_, ?_⟩
  · rw [reg_setReg_self _ (by decide)]
    exact toInt_add_one h.pointer (by omega)
  · rw [setReg_stack, Stack.capacity_write written]
    exact fits
  · have short : s.length < (m.stack.slots.toList.set s.length w).length := by simpa using room
    simp only [setReg_stack, List.length_cons, Array.toList_set]
    rw [List.take_succ_eq_append_getElem short, List.take_set_of_le (Nat.le_refl _), h.slots]
    simp

theorem pop {w : Word} (h : m.StackHolds (w :: s)) (small : m.stack.capacity < 2147483648)
    (dest : Register) :
    m.popTo dest = .ok () ((m.setReg .sp (m.reg .sp - 1)).setReg dest w) ∧
      StackHolds (m.setReg .sp (m.reg .sp - 1)) s := by
  have room : s.length < m.stack.slots.size := h.room
  have below := toInt_sub_one h.pointer (Nat.lt_trans room small)
  have slots := h.slots
  rw [List.length_cons, List.take_succ_eq_append_getElem room, List.reverse_cons] at slots
  obtain ⟨rest, top⟩ := List.append_inj' slots rfl
  have top : m.stack.slots[s.length] = w := by simpa using top
  refine ⟨?_, ?_, Nat.le_of_lt room, rest⟩
  · simp only [popTo, Stack.read_of_lt below room, top]
  · rw [reg_setReg_self _ (by decide), below]

theorem push_error_iff (h : m.StackHolds s) (small : m.stack.capacity < 2147483648)
    {source : Register} (hf : m.fetch = .ok (.push source)) (e : Fault) :
    m.step.result = .error e ↔
      s.length = m.stack.capacity ∧ e = .stackOverflow (.ofNat m.stack.capacity) := by
  have pointer := h.pointer
  have room := h.room
  rw [step_of_refused hf, execute, pushWord_error_iff, Stack.slot_eq_error_iff]
  constructor
  · rintro (⟨negative, -⟩ | ⟨past, rfl⟩)
    · omega
    · have full : s.length = m.stack.capacity := by omega
      rw [← Int32.ofInt_toInt (m.reg .sp), pointer, full, Int32.ofInt_eq_ofNat]
      exact ⟨rfl, rfl⟩
  · rintro ⟨full, rfl⟩
    rw [← Int32.ofInt_toInt (m.reg .sp), pointer, full, Int32.ofInt_eq_ofNat,
      Int32.toInt_ofNat_of_lt small]
    exact .inr ⟨Int.le_refl _, rfl⟩

theorem pop_error_iff (h : m.StackHolds s) (small : m.stack.capacity < 2147483648)
    {dest : Register} (hf : m.fetch = .ok (.pop dest)) (e : Fault) :
    m.step.result = .error e ↔ s = [] ∧ e = .stackUnderflow (-1) := by
  rw [step_of_refused hf, execute]
  cases s with
  | nil =>
    have zero : m.reg .sp = 0 := Int32.toInt_inj.1 h.pointer
    have below : (0 - 1 : Word) = -1 := rfl
    have negative : (-1 : Word).toInt = -1 := rfl
    rw [popTo_error_iff, Stack.slot_eq_error_iff, zero, below, negative]
    simp
    omega
  | cons w rest => simp [(h.pop small dest).1, Outcome.ok]

theorem other (h : m.StackHolds s) {i : Instruction} (hd : i.dest? ≠ some .sp)
    (notPush : ∀ a, i ≠ .push a) (notPop : ∀ a, i ≠ .pop a) :
    StackHolds (m.execute i).state s := by
  have unwritten : Register.sp ∉ i.written := by
    cases i <;> simp_all [Instruction.written, Instruction.dest?, eq_comm]
  refine ⟨?_, ?_, ?_⟩
  · rw [execute_reg unwritten]
    exact h.pointer
  · rw [execute_stack notPush]
    exact h.room
  · rw [execute_stack notPush]
    exact h.slots

end StackHolds

theorem step_of_succeeded {i : Instruction} {finished : Bool} (hf : m.fetch = .ok i)
    (succeeds : m.step.result = .ok finished) :
    (m.execute i).result = .ok () ∧
      m.step.state = (m.execute i).state.setReg .pc ((m.execute i).state.reg .pc + 1) := by
  obtain ⟨j, hj, hs⟩ := cycle_eq_ok succeeds
  obtain rfl : i = j := Except.ok.inj (hf.symm.trans hj)
  refine ⟨?_, hs⟩
  cases he : (m.execute i).result with
  | ok u => rfl
  | error e =>
    have := (step_of_refused hf e).2 he
    simp [this] at succeeds

theorem StackHolds.setReg (h : m.StackHolds s) {r : Register} (w : Word) (hr : .sp ≠ r) :
    StackHolds (m.setReg r w) s := by
  refine ⟨?_, h.room, h.slots⟩
  rw [reg_setReg_of_ne _ hr]
  exact h.pointer

theorem StackHolds.step (h : m.StackHolds s) (hd : m.Disciplined) {finished : Bool}
    (succeeds : m.step.result = .ok finished) :
    StackHolds m.step.state (replay s m.stackUse?.toList) ∧
      m.step.state.stack.capacity = m.stack.capacity := by
  obtain ⟨i, hf, -⟩ := cycle_eq_ok succeeds
  obtain ⟨he, hs⟩ := step_of_succeeded hf succeeds
  have spared := hd.dest_ne hf
  have capacity (notPush : ∀ a, i ≠ .push a) : (m.execute i).state.stack.capacity =
      m.stack.capacity := by rw [execute_stack notPush]
  rw [hs]
  cases i with
  | push source =>
    have room : s.length ≠ m.stack.capacity := fun full => by
      have := (h.push_error_iff hd.small hf _).2 ⟨full, rfl⟩
      simp [this] at succeeds
    obtain ⟨stack, same, pushed, holds⟩ :=
      h.push hd.small (Nat.lt_of_le_of_ne h.room room) (m.reg source)
    have use : m.stackUse? = some (.push (m.reg source)) := by simp [stackUse?, hf]
    rw [execute, pushed, use]
    exact ⟨holds.setReg _ (by decide), same⟩
  | pop dest =>
    refine ⟨?_, capacity (by simp)⟩
    have use : m.stackUse? = some .pop := by simp [stackUse?, hf]
    have other : Register.sp ≠ dest := fun same => spared (congrArg some same.symm)
    cases s with
    | nil =>
      have := (h.pop_error_iff hd.small hf _).2 ⟨rfl, rfl⟩
      simp [this] at succeeds
    | cons w rest =>
      obtain ⟨popped, holds⟩ := h.pop hd.small dest
      rw [execute, popped, use]
      exact (holds.setReg w other).setReg _ (by decide)
  | _ =>
    have use : m.stackUse? = none := by simp [stackUse?, hf]
    rw [use]
    exact ⟨(h.other spared (by simp) (by simp)).setReg _ (by decide), capacity (by simp)⟩

theorem Disciplined.step (hd : m.Disciplined) (h : m.StackHolds s)
    (unfinished : m.step.result = .ok false) : m.step.state.Disciplined := by
  refine ⟨?_, ?_⟩
  · rw [step_program unfinished]
    exact hd.leaves
  · rw [(h.step hd unfinished).2]
    exact hd.small

/-- The words below the pointer are what comes of the pushes and pops so far. -/
theorem Continues.stackHolds {n : Nat} {m' : Machine ω} (hn : Continues n m m')
    (hd : m.Disciplined) (h : m.StackHolds s) :
    m'.StackHolds (replay s (m.stackUses n)) ∧ m'.Disciplined ∧
      m'.stack.capacity = m.stack.capacity := by
  induction hn generalizing s with
  | start m => exact ⟨h, hd, rfl⟩
  | step unfinished _ ih =>
    obtain ⟨holds, same⟩ := h.step hd unfinished
    obtain ⟨holds', hd', same'⟩ := ih (hd.step h unfinished) holds
    rw [stackUses, Stack.replay_append]
    exact ⟨holds', hd', same'.trans same⟩

theorem StackHolds.runFrom (h : m.StackHolds s) (hd : m.Disciplined) (fuel steps : Nat)
    (events : Array Event) :
    let r := Machine.runFrom fuel steps events m
    ∃ n, r.steps = steps + n ∧ r.machine.StackHolds (replay s (m.stackUses n)) ∧
      r.machine.stack.capacity = m.stack.capacity := by
  induction fuel generalizing m s steps events with
  | zero => exact ⟨0, rfl, h, rfl⟩
  | succ fuel ih =>
    cases hr : m.step.result with
    | error e =>
      rw [runFrom_of_error hr, (step_failed hr).1]
      exact ⟨0, rfl, h, rfl⟩
    | ok finished =>
      obtain ⟨holds, same⟩ := h.step hd hr
      cases finished with
      | true =>
        rw [runFrom_of_finished hr]
        refine ⟨1, rfl, ?_, same⟩
        simpa [stackUses] using holds
      | false =>
        rw [runFrom_of_unfinished hr]
        obtain ⟨n, count, holds', same'⟩ := ih holds (hd.step h hr) (steps + 1) _
        refine ⟨n + 1, by rw [count]; omega, ?_, same'.trans same⟩
        rwa [stackUses, Stack.replay_append]

/-- In a program that leaves the stack pointer to pushes and pops, the call stack is a bounded
stack. At every point of a run the words below the pointer are those that were pushed and not yet
popped. A push fails exactly when they fill the stack, a pop exactly when there are none; a pop
gives the word of the latest push that has no pop of its own; and only a push writes a slot. -/
theorem call_stack_is_bounded_lifo {p : Program} (loaded : m.program = some p)
    (leaves : ∀ i ∈ p.instructions, i.dest? ≠ some .sp) (small : m.stack.capacity < 2147483648) :
    (∀ fuel, let r := m.run fuel
      r.machine.StackHolds (replay [] (m.rewind.stackUses r.steps)) ∧
        r.machine.stack.capacity = m.stack.capacity) ∧
    ∀ n before, Continues n m.rewind before →
      let s := replay [] (m.rewind.stackUses n)
      before.StackHolds s ∧ before.stack.capacity = m.stack.capacity ∧
      (∀ a, before.fetch = .ok (.push a) →
        ∀ e, before.step.result = .error e ↔
          s.length = m.stack.capacity ∧ e = .stackOverflow (.ofNat m.stack.capacity)) ∧
      (∀ dest, before.fetch = .ok (.pop dest) →
        (∀ e, before.step.result = .error e ↔ s = [] ∧ e = .stackUnderflow (-1)) ∧
        ∀ w rest, s = w :: rest →
          let popped := (before.setReg .sp (before.reg .sp - 1)).setReg dest w
          before.execute (.pop dest) = .ok () popped ∧
          before.step.state = popped.setReg .pc (popped.reg .pc + 1) ∧
          ∃ u v, m.rewind.stackUses n = u ++ .push w :: v ∧ Stack.Matched v ∧
            replay [] u = rest) ∧
      ∀ i, before.fetch = .ok i → (∀ a, i ≠ .push a) → before.step.state.stack = before.stack := by
  have program : m.rewind.program = some { p with finished := false } := by
    simp [rewind, setFinished, Machine.setReg, loaded]
  have hd : m.rewind.Disciplined := by
    refine ⟨fun q hq => ?_, small⟩
    rw [program, Option.some.injEq] at hq
    rw [← hq]
    exact leaves
  have empty : m.rewind.StackHolds [] := ⟨rfl, Nat.zero_le _, rfl⟩
  refine ⟨fun fuel => ?_, fun n before hn => ?_⟩
  · have hrun : m.run fuel = runFrom fuel 0 #[] m.rewind := by simp [run, loaded]
    rw [hrun]
    obtain ⟨n, count, holds, same⟩ := empty.runFrom hd fuel 0 #[]
    rw [Nat.zero_add] at count
    exact ⟨count ▸ holds, same⟩
  · obtain ⟨holds, hd', same⟩ := hn.stackHolds hd empty
    have same : before.stack.capacity = m.stack.capacity := same
    refine ⟨holds, same, fun a hf e => ?_, fun dest hf => ⟨holds.pop_error_iff hd'.small hf, ?_⟩,
      fun i hf notPush => ?_⟩
    · rw [holds.push_error_iff hd'.small hf, same]
    · intro w rest top
      have popped := ((top ▸ holds).pop hd'.small dest).1
      exact ⟨popped, (step_of_executed hf popped).2, (Stack.replay_eq_cons_iff _).1 top⟩
    · cases hr : before.step.result with
      | error e => rw [(step_failed hr).1]
      | ok finished => rw [(step_of_succeeded hf hr).2, setReg_stack, execute_stack notPush]

theorem call_stack_is_bounded_lifo_popping :
    let p := Program.ofArray #[.loadImm .v0 4, .push .v0, .push .sp, .pop .ze, .pop .pc, .pop .v1]
    let m : Machine Unit := ((onBus (.ofSize 0 ()) 2).setReg .sp 77).load p
    m.rewind.stackUses 5 = [.push 4, .push 1, .pop, .pop] ∧
      (m.run 3).machine.StackHolds [1, 4] ∧ (m.run 4).machine.StackHolds [4] ∧
      (m.run 9).ending = .failed (.stackUnderflow (-1)) ∧ (m.run 9).machine.StackHolds [] := by
  intro p m
  have held (fuel : Nat) :
      (m.run fuel).machine.StackHolds (replay [] (m.rewind.stackUses (m.run fuel).steps)) :=
    ((call_stack_is_bounded_lifo (m := m) (p := p) rfl (by decide) (by decide)).1 fuel).1
  have three : replay [] (m.rewind.stackUses (m.run 3).steps) = [1, 4] := by decide +kernel
  have four : replay [] (m.rewind.stackUses (m.run 4).steps) = [4] := by decide +kernel
  have nine : replay [] (m.rewind.stackUses (m.run 9).steps) = [] := by decide +kernel
  exact ⟨by decide +kernel, three ▸ held 3, four ▸ held 4, by decide +kernel, nine ▸ held 9⟩

end Machine

end RegisterMachine
