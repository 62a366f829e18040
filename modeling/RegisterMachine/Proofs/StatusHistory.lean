import RegisterMachine.Proofs.SignedComparison
/-! The status of the arithmetic unit as a record of its past. The flags tell the sign of the last
result; a division by zero shows until the next call that the unit accepts; a call that it refuses
might as well not have been made. -/
namespace RegisterMachine.Alu

structure Call where
  op : Opcode
  a : Word
  b : Word
  deriving DecidableEq, Repr

namespace Call

def carryOut (c : Call) (alu : Alu) : Outcome Fault Alu Output := alu.perform c.op c.a c.b

def DividesByZero (c : Call) : Prop := (c.op = .div ∨ c.op = .divI) ∧ c.b = 0

end Call

structure Entry where
  call : Call
  outcome : Outcome Fault Alu Output

namespace Entry

def Refused (x : Entry) : Prop := ∃ op, x.outcome.result = .error (.invalidOpcode op)

def Completed (x : Entry) : Prop :=
  (∃ out, x.outcome.result = .ok out) ∧ ¬x.call.DividesByZero

end Entry

def log : List Call → Alu → List Entry
  | [], _ => []
  | c :: rest, alu => ⟨c, c.carryOut alu⟩ :: log rest (c.carryOut alu).state

def afterCalls : List Call → Alu → Alu
  | [], alu => alu
  | c :: rest, alu => afterCalls rest (c.carryOut alu).state

def Latest (p : Entry → Prop) (past : List Entry) (x : Entry) : Prop :=
  ∃ before after, past = before ++ x :: after ∧ p x ∧ ∀ y ∈ after, ¬p y

/-- The second log is the first without some of the calls that were refused. -/
inductive Thins : List Entry → List Entry → Prop
  | nil : Thins [] []
  | keep {past kept : List Entry} (x : Entry) (rest : Thins past kept) :
      Thins (x :: past) (x :: kept)
  | drop {past kept : List Entry} {x : Entry} (refused : x.Refused) (rest : Thins past kept) :
      Thins (x :: past) kept

section
variable {p : Entry → Prop} {past : List Entry} {x y : Entry}

theorem not_latest_nil : ¬Latest p [] x := by
  intro latest
  obtain ⟨before, after, split, -⟩ := latest
  simp at split

/-- The latest entry is the new one if that has the property, and else the one that was latest. -/
theorem latest_concat : Latest p (past ++ [y]) x ↔ p y ∧ x = y ∨ ¬p y ∧ Latest p past x := by
  constructor
  · intro latest
    obtain ⟨before, after, split, has, others⟩ := latest
    rcases List.eq_nil_or_concat after with rfl | ⟨after, last, rfl⟩
    · obtain ⟨-, ⟨⟩⟩ := List.append_inj' split rfl
      exact .inl ⟨has, rfl⟩
    · have split : past ++ [y] = (before ++ x :: after) ++ [last] := by simpa using split
      obtain ⟨rfl, ⟨⟩⟩ := List.append_inj' split rfl
      simp only [List.concat_eq_append, List.forall_mem_append, List.forall_mem_singleton]
        at others
      exact .inr ⟨others.2, before, after, rfl, has, others.1⟩
  · intro latest
    cases latest with
    | inl new =>
      obtain ⟨has, rfl⟩ := new
      exact ⟨past, [], rfl, has, by simp⟩
    | inr old =>
      obtain ⟨lacks, before, after, rfl, has, others⟩ := old
      refine ⟨before, after ++ [y], by simp, has, ?_⟩
      simpa [or_imp, forall_and] using ⟨others, lacks⟩

end

/-! ### One call -/

theorem aluOperation?_eq_div_iff {op : Opcode} :
    op.aluOperation? = some (.arith .div) ↔ op = .div ∨ op = .divI := by
  cases op <;> decide

/-- What a call does to the status. -/
inductive Leaves (alu : Alu) (x : Entry) : Prop
  | refused (refused : x.Refused) (state : x.outcome.state = alu)
  | dividedByZero {out : Output} (zero : x.call.DividesByZero) (answer : x.outcome.result = .ok out)
      (state : x.outcome.state = { alu with dividedByZero := true })
  | completed {out : Output} (proper : ¬x.call.DividesByZero)
      (answer : x.outcome.result = .ok out) (state : x.outcome.state = ⟨false, .ofWord out.result⟩)

theorem leaves (c : Call) (alu : Alu) : Leaves alu ⟨c, c.carryOut alu⟩ := by
  obtain ⟨op, a, b⟩ := c
  cases known : op.aluOperation? with
  | none =>
    have performed : alu.perform op a b = .fail (.invalidOpcode op) alu := by
      simp only [perform, known]
    exact .refused ⟨op, congrArg Outcome.result performed⟩ (congrArg Outcome.state performed)
  | some o =>
    cases given : o.output? a b with
    | none =>
      obtain ⟨rfl, zero⟩ := (o.output?_eq_none_iff a b).1 given
      have performed : alu.perform op a b =
          .ok ⟨0, 0⟩ { alu with dividedByZero := true } [.dividedByZero a] := by
        simp only [perform, known, run, given]
      exact .dividedByZero ⟨aluOperation?_eq_div_iff.1 known, zero⟩
        (congrArg Outcome.result performed) (congrArg Outcome.state performed)
    | some out =>
      have performed : alu.perform op a b = .ok out ⟨false, .ofWord out.result⟩ := by
        simp only [perform, known, run, given]
      refine .completed (fun zero => ?_) (congrArg Outcome.result performed)
        (congrArg Outcome.state performed)
      rw [aluOperation?_eq_div_iff.2 zero.1, Option.some.injEq] at known
      rw [(o.output?_eq_none_iff a b).2 ⟨known.symm, zero.2⟩] at given
      cases given

theorem Entry.Refused.not_ok {x : Entry} (refused : x.Refused) (out : Output) :
    x.outcome.result ≠ .ok out := by
  intro answer
  obtain ⟨op, error⟩ := refused
  cases error.symm.trans answer

/-! ### All calls -/

structure Reflects (past : List Entry) (alu : Alu) : Prop where
  unset : alu.flags = .none ↔ ∀ x ∈ past, ¬x.Completed
  sign : alu.flags ≠ .none → ∃ x out, Latest Entry.Completed past x ∧
    x.outcome.result = .ok out ∧ alu.flags = .ofWord out.result
  error : alu.dividedByZero = true ↔
    ∃ x, Latest (fun x => ¬x.Refused) past x ∧ x.call.DividesByZero

namespace Reflects
variable {past : List Entry} {alu : Alu} {x : Entry}

theorem start : Reflects [] {} where
  unset := by simp
  sign set := absurd rfl set
  error := by simp [not_latest_nil]

theorem flags_of_uncompleted (h : Reflects past alu) (uncompleted : ¬x.Completed) :
    (alu.flags = .none ↔ ∀ y ∈ past ++ [x], ¬y.Completed) ∧
      (alu.flags ≠ .none → ∃ y out, Latest Entry.Completed (past ++ [x]) y ∧
        y.outcome.result = .ok out ∧ alu.flags = .ofWord out.result) := by
  constructor
  · rw [h.unset, List.forall_mem_append, List.forall_mem_singleton, and_iff_left uncompleted]
  · intro set
    obtain ⟨y, out, latest, answer, flags⟩ := h.sign set
    exact ⟨y, out, latest_concat.2 (.inr ⟨uncompleted, latest⟩), answer, flags⟩

theorem step (h : Reflects past alu) (made : Leaves alu x) :
    Reflects (past ++ [x]) x.outcome.state := by
  cases made with
  | refused refused state =>
    obtain ⟨unset, sign⟩ := h.flags_of_uncompleted (x := x) fun completed =>
      completed.1.elim refused.not_ok
    rw [state]
    refine ⟨unset, sign, ?_⟩
    -- the call before it that was not refused is the latest still
    simp only [latest_concat, refused, not_true_eq_false, false_and, false_or, not_false_eq_true,
      true_and]
    exact h.error
  | dividedByZero zero answer state =>
    obtain ⟨unset, sign⟩ := h.flags_of_uncompleted fun completed => completed.2 zero
    have accepted : ¬x.Refused := fun refused => refused.not_ok _ answer
    rw [state]
    exact ⟨unset, sign, iff_of_true rfl ⟨x, latest_concat.2 (.inl ⟨accepted, rfl⟩), zero⟩⟩
  | @completed out proper answer state =>
    have completed : x.Completed := ⟨⟨out, answer⟩, proper⟩
    have accepted : ¬x.Refused := fun refused => refused.not_ok _ answer
    have set : Flags.ofWord out.result ≠ .none := by
      rw [Flags.ofWord_eq]
      split
      · nofun
      · split <;> nofun
    rw [state]
    refine ⟨iff_of_false set fun none => none x (by simp) completed,
      fun _ => ⟨x, out, latest_concat.2 (.inl ⟨completed, rfl⟩), answer, rfl⟩,
      iff_of_false nofun ?_⟩
    intro divided
    obtain ⟨y, latest, zero⟩ := divided
    cases latest_concat.1 latest with
    | inl new => exact proper (new.2 ▸ zero)
    | inr old => exact old.1 accepted

theorem afterCalls (h : Reflects past alu) (calls : List Call) :
    Reflects (past ++ log calls alu) (Alu.afterCalls calls alu) := by
  induction calls generalizing past alu with
  | nil => simpa [log, Alu.afterCalls] using h
  | cons c rest ih =>
    rw [log, List.append_cons]
    exact ih (h.step (leaves c alu))

end Reflects

theorem Thins.replay {calls : List Call} {alu : Alu} {kept : List Entry}
    (thins : Thins (log calls alu) kept) :
    log (kept.map Entry.call) alu = kept ∧
      afterCalls (kept.map Entry.call) alu = afterCalls calls alu := by
  induction calls generalizing alu kept with
  | nil =>
    obtain ⟨⟩ := thins
    exact ⟨rfl, rfl⟩
  | cons c rest ih =>
    cases thins with
    | keep _ thins =>
      obtain ⟨same, last⟩ := ih thins
      exact ⟨congrArg (_ :: ·) same, last⟩
    | drop refused thins =>
      have state : (c.carryOut alu).state = alu := by
        cases leaves c alu with
        | refused _ state => exact state
        | dividedByZero _ answer | completed _ answer => exact absurd answer (refused.not_ok _)
      rw [state] at thins
      rw [afterCalls, state]
      exact ih thins

/-- The status tells the past of the unit, whatever the calls. The flags are unset until a call is
completed; from then on exactly one of them is set, by the sign of the latest result. A division by
zero shows just when it was the latest call that was not refused. Without some or all of the refused
calls, the others have the same outcomes and leave the same status. -/
theorem status_tells_the_past (calls : List Call) :
    let past := log calls {}
    let last := afterCalls calls {}
    (last.flags = .none ↔ ∀ x ∈ past, ¬x.Completed) ∧
    (last.flags ≠ .none → ∃ x out, Latest Entry.Completed past x ∧ x.outcome.result = .ok out ∧
      (last.flags = .zero ↔ out.result.toInt = 0) ∧
      (last.flags = .positive ↔ 0 < out.result.toInt) ∧
      (last.flags = .negative ↔ out.result.toInt < 0) ∧
      [Flags.zero, .positive, .negative].count last.flags = 1) ∧
    (last.dividedByZero = true ↔
      ∃ x, Latest (fun x => ¬x.Refused) past x ∧ x.call.DividesByZero) ∧
    ∀ kept, Thins past kept → log (kept.map Entry.call) {} = kept ∧
      afterCalls (kept.map Entry.call) {} = last := by
  intro past last
  have reflects : Reflects past last := Reflects.start.afterCalls calls
  refine ⟨reflects.unset, fun set => ?_, reflects.error, fun kept thins => thins.replay⟩
  obtain ⟨x, out, latest, answer, flags⟩ := reflects.sign set
  have one : [Flags.zero, .positive, .negative].count (.ofWord out.result) = 1 := by
    rw [Flags.ofWord_eq]
    split
    · rfl
    · split <;> rfl
  rw [flags]
  exact ⟨x, out, latest, answer, Flags.ofWord_eq_zero_iff _, Flags.ofWord_eq_positive_iff _,
    Flags.ofWord_eq_negative_iff _, one⟩

theorem status_tells_the_past_dividing :
    let calls : List Call := [⟨.sub, 1, 5⟩, ⟨.jump, 1, 2⟩, ⟨.divI, -5, 0⟩, ⟨.push, 0, 0⟩]
    let last := afterCalls calls {}
    last = ⟨true, .negative⟩ ∧
      (∃ x out, Latest Entry.Completed (log calls {}) x ∧ x.outcome.result = .ok out ∧
        out.result.toInt < 0) ∧
      (∃ x, Latest (fun x => ¬x.Refused) (log calls {}) x ∧ x.call.DividesByZero) ∧
      afterCalls [⟨.sub, 1, 5⟩, ⟨.divI, -5, 0⟩, ⟨.push, 0, 0⟩] {} = last := by
  intro calls last
  have status : last = ⟨true, .negative⟩ := by decide
  obtain ⟨-, sign, error, deletes⟩ := status_tells_the_past calls
  obtain ⟨x, out, latest, answer, -, -, negative, -⟩ := sign (by decide)
  have thins : Thins (log calls {}) [⟨_, Call.carryOut ⟨.sub, 1, 5⟩ {}⟩,
      ⟨_, Call.carryOut ⟨.divI, -5, 0⟩ ⟨false, .negative⟩⟩,
      ⟨_, Call.carryOut ⟨.push, 0, 0⟩ ⟨true, .negative⟩⟩] :=
    .keep _ (.drop ⟨.jump, rfl⟩ (.keep _ (.keep _ .nil)))
  exact ⟨status, ⟨x, out, latest, answer, negative.1 (by decide)⟩, error.1 (by decide),
    (deletes _ thins).2⟩

end RegisterMachine.Alu
