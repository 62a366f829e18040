import RegisterMachine.Assembly.Operand
import RegisterMachine.Proofs.Literals
/-! How operands are written. Reading them gives the same instruction whatever labels are bound; the
index of a label is put in at once or later. -/
namespace RegisterMachine

theorem bind_eq_ok_iff {ε α β : Type} {x : Except ε α} {f : α → Except ε β} {b : β} :
    x >>= f = .ok b ↔ ∃ a, x = .ok a ∧ f a = .ok b := by
  cases x <;> simp [bind, Except.bind]

theorem bind_eq_error_iff {ε α β : Type} {x : Except ε α} {f : α → Except ε β} {e : ε} :
    x >>= f = .error e ↔ x = .error e ∨ ∃ a, x = .ok a ∧ f a = .error e := by
  cases x <;> simp [bind, Except.bind]

inductive Argument where
  | register (r : Register)
  | word (w : Word)
  deriving DecidableEq, Repr

def Operands.arguments : Operands → List Argument
  | .none => []
  | .reg a => [.register a]
  | .imm w => [.word w]
  | .regImm a w => [.register a, .word w]
  | .regReg a b => [.register a, .register b]
  | .regRegReg a b c => [.register a, .register b, .register c]
  | .regImmReg a w b => [.register a, .word w, .register b]
  | .regRegImm a b w => [.register a, .register b, .word w]

def Instruction.arguments (i : Instruction) : List Argument := i.operands.arguments

/-- `Written index kinds tokens arguments`: the tokens write the arguments, each of its kind. A
label stands for the number that `index` gives it, every other target for itself. -/
inductive Written (index : Token → Option Nat) :
    List OperandKind → List Token → List Argument → Prop
  | nil : Written index [] [] []
  | register {t : Token} {r : Register} {kinds : List OperandKind} {ts : List Token}
      {args : List Argument} (name : Register.ofName? t = some r)
      (rest : Written index kinds ts args) :
      Written index (.register :: kinds) (t :: ts) (.register r :: args)
  | immediate {t : Token} {w : Word} {kinds : List OperandKind} {ts : List Token}
      {args : List Argument} (value : Numeral.Spells t w)
      (rest : Written index kinds ts args) :
      Written index (.immediate :: kinds) (t :: ts) (.word w :: args)
  | number {t : Token} {w : Word} {kinds : List OperandKind} {ts : List Token}
      {args : List Argument} (name : Register.ofName? t = none) (value : Numeral.Spells t w)
      (rest : Written index kinds ts args) :
      Written index (.target :: kinds) (t :: ts) (.word w :: args)
  | label {t : Token} {w : Word} {k : Nat} {kinds : List OperandKind} {ts : List Token}
      {args : List Argument} (name : Register.ofName? t = none) (word : Numeral.Wordy t)
      (bound : index t = some k) (same : w.toInt = k) (rest : Written index kinds ts args) :
      Written index (.target :: kinds) (t :: ts) (.word w :: args)

def labelsOf : List OperandKind → List Token → List Token
  | .target :: kinds, t :: ts =>
    if Numeral.Wordy t then t :: labelsOf kinds ts else labelsOf kinds ts
  | _ :: kinds, _ :: ts => labelsOf kinds ts
  | _, _ => []

namespace Draft

def label? : Draft → Option Token
  | .complete _ => none
  | .waiting _ l => some l

def settle (index : Token → Option Nat) : Draft → Draft
  | .complete i => .complete i
  | .waiting b l =>
    match index l with
    | some k => .complete (.branch b (.ofNat k))
    | none => .waiting b l

end Draft

namespace Target

def settle (index : Token → Option Nat) : Target → Target
  | .index w => .index w
  | .label l =>
    match index l with
    | some k => .index (.ofNat k)
    | none => .label l

theorem ofTarget_settle (index : Token → Option Nat) (b : Branch) (goal : Target) :
    Draft.ofTarget b (goal.settle index) = (Draft.ofTarget b goal).settle index := by
  cases goal with
  | index w => rfl
  | label l => cases h : index l <;> simp [settle, Draft.settle, Draft.ofTarget, h]

end Target

namespace Operand

theorem takeRegister_eq_ok_iff {tokens rest : List Token} {r : Register} :
    takeRegister tokens = .ok (r, rest) ↔
      ∃ t, tokens = t :: rest ∧ Register.ofName? t = some r := by
  cases tokens with
  | nil => simp [takeRegister]
  | cons t ts =>
    constructor
    · intro h
      cases hr : Register.ofName? t <;> simp_all [takeRegister]
    · intro h
      obtain ⟨_, ⟨⟩, h⟩ := h
      simp [takeRegister, h]

theorem takeImmediate_eq_ok_iff {tokens rest : List Token} {w : Word} :
    takeImmediate tokens = .ok (w, rest) ↔
      ∃ t, tokens = t :: rest ∧ Numeral.read t = .value w := by
  cases tokens with
  | nil => simp [takeImmediate]
  | cons t ts =>
    constructor
    · intro h
      cases hn : Numeral.read t <;> simp_all [takeImmediate]
    · intro h
      obtain ⟨_, ⟨⟩, h⟩ := h
      simp [takeImmediate, h]

theorem takeTarget_eq_ok_iff {tokens rest : List Token} {goal : Target} :
    takeTarget (fun _ => none) tokens = .ok (goal, rest) ↔
      ∃ t, tokens = t :: rest ∧ Register.ofName? t = none ∧
        ((∃ w, Numeral.read t = .value w ∧ goal = .index w) ∨
          Numeral.read t = .other ∧ goal = .label t) := by
  cases tokens with
  | nil => simp [takeTarget]
  | cons t ts =>
    constructor
    · intro h
      cases hr : Register.ofName? t <;> cases hn : Numeral.read t <;>
        simp_all [takeTarget, eq_comm]
    · intro h
      obtain ⟨_, ⟨⟩, hr, ⟨w, hn, rfl⟩ | ⟨hn, rfl⟩⟩ := h <;> simp [takeTarget, hr, hn]

theorem takeTarget_settle (index : Token → Option Nat) (tokens : List Token) :
    takeTarget index tokens =
      (fun p => (p.1.settle index, p.2)) <$> takeTarget (fun _ => none) tokens := by
  cases tokens with
  | nil => rfl
  | cons t ts =>
    cases hr : Register.ofName? t <;> cases hn : Numeral.read t <;> cases hi : index t <;>
      simp [takeTarget, hr, hn, hi, Target.settle, Functor.map, Except.map]

end Operand

namespace Form
open Operand

theorem take_settle (form : Form) (index : Token → Option Nat) (tokens : List Token) :
    form.take index tokens =
      (fun p => (p.1.settle index, p.2)) <$> form.take (fun _ => none) tokens := by
  cases form with
  | plain | reg | regImm | regReg | regRegReg | regImmReg =>
    simp only [take, map_bind, map_pure]
    rfl
  | target | regTarget | regRegTarget =>
    simp only [take, takeTarget_settle index, map_bind, bind_map_left, map_pure,
      Target.ofTarget_settle]

/-- Reading with labels bound is reading with none bound, and putting their indices in then. -/
theorem read_settle (form : Form) (index : Token → Option Nat) (tokens : List Token) :
    form.read index tokens = Draft.settle index <$> form.read (fun _ => none) tokens := by
  simp only [read, take_settle form index, bind_map_left, map_bind]
  congr 1
  funext ⟨draft, rest⟩
  cases rest <;> rfl

def Makes (op : Opcode) : Form → Prop
  | .plain i => i.opcode = op ∧ i.arguments = []
  | .reg make => ∀ a, (make a).opcode = op ∧ (make a).arguments = [.register a]
  | .regImm make => ∀ a w, (make a w).opcode = op ∧ (make a w).arguments = [.register a, .word w]
  | .regReg make =>
    ∀ a b, (make a b).opcode = op ∧ (make a b).arguments = [.register a, .register b]
  | .regRegReg make => ∀ a b c, (make a b c).opcode = op ∧
      (make a b c).arguments = [.register a, .register b, .register c]
  | .regImmReg make => ∀ a w b, (make a w b).opcode = op ∧
      (make a w b).arguments = [.register a, .word w, .register b]
  | .target b => ∀ w, (Instruction.branch b w).opcode = op ∧
      (Instruction.branch b w).arguments = [.word w]
  | .regTarget make => ∀ a w, (Instruction.branch (make a) w).opcode = op ∧
      (Instruction.branch (make a) w).arguments = [.register a, .word w]
  | .regRegTarget make => ∀ a b w, (Instruction.branch (make a b) w).opcode = op ∧
      (Instruction.branch (make a b) w).arguments = [.register a, .register b, .word w]

theorem makes_form (op : Opcode) : op.form.Makes op := by
  cases op <;> dsimp only [Opcode.form, Makes] <;> intros <;> exact ⟨rfl, rfl⟩

theorem ofTarget_written {t : Token} {goal : Target} (name : Register.ofName? t = none)
    (h : (∃ w, Numeral.read t = .value w ∧ goal = .index w) ∨
      Numeral.read t = .other ∧ goal = .label t) (b : Branch) :
    labelsOf [.target] [t] = (Draft.ofTarget b goal).label?.toList ∧
      ∀ index i, (Draft.ofTarget b goal).settle index = .complete i →
        ∃ w, i = .branch b w ∧ ((∀ l k, index l = some k → k < 2147483648) →
          Written index [.target] [t] [.word w]) := by
  obtain ⟨w, value, rfl⟩ | ⟨value, rfl⟩ := h
  · have number : ¬Numeral.Wordy t := by
      rw [← Numeral.read_eq_other_iff, value]
      nofun
    refine ⟨by simp [labelsOf, number, Draft.ofTarget, Draft.label?], fun index i hi => ?_⟩
    have hi : .branch b w = i := by simpa [Draft.ofTarget, Draft.settle] using hi
    exact ⟨w, hi.symm, fun _ => .number name (Numeral.read_eq_value_iff.1 value) .nil⟩
  · have word := Numeral.read_eq_other_iff.1 value
    refine ⟨by simp [labelsOf, word, Draft.ofTarget, Draft.label?], fun index i hi => ?_⟩
    cases bound : index t with
    | none => simp [Draft.ofTarget, Draft.settle, bound] at hi
    | some k =>
      have hi : .branch b (.ofNat k) = i := by simpa [Draft.ofTarget, Draft.settle, bound] using hi
      exact ⟨.ofNat k, hi.symm, fun fits =>
        .label name word bound (Int32.toInt_ofNat_of_lt (fits t k bound)) .nil⟩

/-- What is read is an instruction of the operation with the operands that are written, once the
label among them has its index. -/
theorem take_written {op : Opcode} {form : Form} (makes : form.Makes op) {tokens rest : List Token}
    {d : Draft} (h : form.take (fun _ => none) tokens = .ok (d, rest)) :
    ∃ used, tokens = used ++ rest ∧ labelsOf form.kinds used = d.label?.toList ∧
      ∀ index i, d.settle index = .complete i →
        i.opcode = op ∧ ((∀ l k, index l = some k → k < 2147483648) →
          Written index form.kinds used i.arguments) := by
  cases form with
  | plain i =>
    simp only [take, Except.ok.injEq, Prod.mk.injEq] at h
    obtain ⟨rfl, rfl⟩ := h
    refine ⟨[], rfl, rfl, fun index i' hi => ?_⟩
    cases hi
    rw [makes.2]
    exact ⟨makes.1, fun _ => .nil⟩
  | reg make =>
    simp only [take, bind_eq_ok_iff, Prod.exists, takeRegister_eq_ok_iff] at h
    obtain ⟨a, _, ⟨t, rfl, ha⟩, ⟨⟩⟩ := h
    refine ⟨[t], rfl, rfl, fun index i hi => ?_⟩
    cases hi
    rw [(makes a).2]
    exact ⟨(makes a).1, fun _ => .register ha .nil⟩
  | regImm make =>
    simp only [take, bind_eq_ok_iff, Prod.exists, takeRegister_eq_ok_iff,
      takeImmediate_eq_ok_iff] at h
    obtain ⟨a, _, ⟨t, rfl, ha⟩, w, _, ⟨u, rfl, hw⟩, ⟨⟩⟩ := h
    refine ⟨[t, u], rfl, rfl, fun index i hi => ?_⟩
    cases hi
    rw [(makes a w).2]
    have value := Numeral.read_eq_value_iff.1 hw
    exact ⟨(makes a w).1, fun _ => .register ha (.immediate value .nil)⟩
  | regReg make =>
    simp only [take, bind_eq_ok_iff, Prod.exists, takeRegister_eq_ok_iff] at h
    obtain ⟨a, _, ⟨t, rfl, ha⟩, b, _, ⟨u, rfl, hb⟩, ⟨⟩⟩ := h
    refine ⟨[t, u], rfl, rfl, fun index i hi => ?_⟩
    cases hi
    rw [(makes a b).2]
    exact ⟨(makes a b).1, fun _ => .register ha (.register hb .nil)⟩
  | regRegReg make =>
    simp only [take, bind_eq_ok_iff, Prod.exists, takeRegister_eq_ok_iff] at h
    obtain ⟨a, _, ⟨t, rfl, ha⟩, b, _, ⟨u, rfl, hb⟩, c, _, ⟨v, rfl, hc⟩, ⟨⟩⟩ := h
    refine ⟨[t, u, v], rfl, rfl, fun index i hi => ?_⟩
    cases hi
    rw [(makes a b c).2]
    exact ⟨(makes a b c).1, fun _ => .register ha (.register hb (.register hc .nil))⟩
  | regImmReg make =>
    simp only [take, bind_eq_ok_iff, Prod.exists, takeRegister_eq_ok_iff,
      takeImmediate_eq_ok_iff] at h
    obtain ⟨a, _, ⟨t, rfl, ha⟩, w, _, ⟨u, rfl, hw⟩, b, _, ⟨v, rfl, hb⟩, ⟨⟩⟩ := h
    refine ⟨[t, u, v], rfl, rfl, fun index i hi => ?_⟩
    cases hi
    rw [(makes a w b).2]
    have value := Numeral.read_eq_value_iff.1 hw
    exact ⟨(makes a w b).1, fun _ => .register ha (.immediate value (.register hb .nil))⟩
  | target b =>
    simp only [take, bind_eq_ok_iff, Prod.exists, takeTarget_eq_ok_iff] at h
    obtain ⟨goal, _, ⟨t, rfl, name, hgoal⟩, ⟨⟩⟩ := h
    obtain ⟨labels, written⟩ := ofTarget_written name hgoal b
    refine ⟨[t], rfl, labels, fun index i hi => ?_⟩
    obtain ⟨w, rfl, hw⟩ := written index i hi
    rw [(makes w).2]
    exact ⟨(makes w).1, hw⟩
  | regTarget make =>
    simp only [take, bind_eq_ok_iff, Prod.exists, takeRegister_eq_ok_iff,
      takeTarget_eq_ok_iff] at h
    obtain ⟨a, _, ⟨t, rfl, ha⟩, goal, _, ⟨u, rfl, name, hgoal⟩, ⟨⟩⟩ := h
    obtain ⟨labels, written⟩ := ofTarget_written name hgoal (make a)
    refine ⟨[t, u], rfl, labels, fun index i hi => ?_⟩
    obtain ⟨w, rfl, hw⟩ := written index i hi
    rw [(makes a w).2]
    exact ⟨(makes a w).1, fun fits => .register ha (hw fits)⟩
  | regRegTarget make =>
    simp only [take, bind_eq_ok_iff, Prod.exists, takeRegister_eq_ok_iff,
      takeTarget_eq_ok_iff] at h
    obtain ⟨a, _, ⟨t, rfl, ha⟩, b, _, ⟨u, rfl, hb⟩, goal, _, ⟨v, rfl, name, hgoal⟩, ⟨⟩⟩ := h
    obtain ⟨labels, written⟩ := ofTarget_written name hgoal (make a b)
    refine ⟨[t, u, v], rfl, labels, fun index i hi => ?_⟩
    obtain ⟨w, rfl, hw⟩ := written index i hi
    rw [(makes a b w).2]
    exact ⟨(makes a b w).1, fun fits => .register ha (.register hb (hw fits))⟩

theorem read_written {op : Opcode} {tokens : List Token} {d : Draft}
    (h : op.form.read (fun _ => none) tokens = .ok d) :
    labelsOf op.form.kinds tokens = d.label?.toList ∧
      ∀ index i, d.settle index = .complete i →
        i.opcode = op ∧ ((∀ l k, index l = some k → k < 2147483648) →
          Written index op.form.kinds tokens i.arguments) := by
  simp only [read, bind_eq_ok_iff, Prod.exists] at h
  obtain ⟨d', rest, ht, h⟩ := h
  cases rest with
  | cons t ts => simp at h
  | nil =>
    obtain rfl : d' = d := by simpa [pure, Except.pure] using h
    obtain ⟨used, rfl, written⟩ := take_written (makes_form op) ht
    simpa using written

end Form

end RegisterMachine
