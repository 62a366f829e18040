import RegisterMachine.Proofs.Assembly.ErrorLines
/-! What a label is. The token that a definition takes for a label a branch target takes for one
too, and the other way round if it has no colon. With a colon it is a label that no source
defines. -/
namespace RegisterMachine

def Target.toLabel (bound : Token → Option Nat) (t : Token) : Target :=
  match bound t with
  | some k => .index (.ofNat k)
  | none => .label t

namespace Label
open Operand

def Definable (t : Token) : Prop := read (t ++ [':']) = .ok t

instance (t : Token) : Decidable (Definable t) := inferInstanceAs (Decidable (_ = _))

/-- As a branch target the token is a reference to the label of its name, whether or not that has an
index yet. -/
def Refers (t : Token) : Prop :=
  ∀ bound rest, takeTarget bound (t :: rest) = .ok (.toLabel bound t, rest)

variable {t : Token}

theorem startsWithDigitOrSign_eq_false_iff :
    startsWithDigitOrSign t = false ↔ Numeral.read t = .other := by
  rw [Numeral.read_eq_other_iff, Numeral.Wordy]
  cases t with
  | nil => simp [startsWithDigitOrSign]
  | cons c rest =>
    simp only [startsWithDigitOrSign, Bool.or_eq_false_iff, beq_eq_false_iff_ne, List.head?_cons,
      Option.mem_some, forall_eq']
    constructor
    · intro h
      exact ⟨h.2, h.1.2, h.1.1⟩
    · intro h
      exact ⟨⟨h.2.2, h.2.1⟩, h.1⟩

theorem isValid_iff : isValid t = true ↔
    t ≠ [] ∧ ':' ∉ t ∧ Numeral.read t = .other ∧ Register.ofName? t = none := by
  simp [isValid, startsWithDigitOrSign_eq_false_iff, and_assoc]

theorem definable_iff : Definable t ↔ isValid t = true := by
  have marked : isMarked (t ++ [':']) = true := by simp [isMarked]
  simp [Definable, read, marked]

theorem refers_iff : Refers t ↔ Numeral.read t = .other ∧ Register.ofName? t = none := by
  constructor
  · intro refers
    obtain ⟨_, ⟨⟩, name, number | ⟨word, -⟩⟩ := takeTarget_eq_ok_iff.1 (refers (fun _ => none) [])
    · obtain ⟨w, -, index⟩ := number
      cases index
    · exact ⟨word, name⟩
  · intro h bound rest
    cases index : bound t <;> simp [takeTarget, Target.toLabel, h.1, h.2, index]

/-- What is read as a target is a number, or it is always read as a label. -/
theorem refers_or_number {bound : Token → Option Nat} {rest left : List Token} {goal : Target}
    (taken : takeTarget bound (t :: rest) = .ok (goal, left)) :
    Refers t ∨ ∃ w, Numeral.read t = .value w ∧ goal = .index w := by
  cases name : Register.ofName? t with
  | some r => simp [takeTarget, name] at taken
  | none =>
    cases number : Numeral.read t with
    | value w =>
      obtain ⟨rfl, -⟩ : .index w = goal ∧ rest = left := by
        simpa [takeTarget, name, number] using taken
      exact .inr ⟨w, rfl, rfl⟩
    | malformed radix => simp [takeTarget, name, number] at taken
    | other => exact .inl (refers_iff.2 ⟨number, name⟩)

theorem definable_iff_refers (nonempty : t ≠ []) : Definable t ↔ Refers t ∧ ':' ∉ t := by
  rw [definable_iff, isValid_iff, refers_iff]
  constructor
  · intro h
    exact ⟨h.2.2, h.2.1⟩
  · intro h
    exact ⟨nonempty, h.2, h.1⟩

end Label

theorem Assembler.Orderly.bound?_of_colon {asm : Assembler} (h : asm.Orderly) {t : Token}
    (colon : ':' ∈ t) : asm.bound? t = none := by
  rw [Option.eq_none_iff_forall_ne_some]
  intro k bound
  exact (Label.isValid_iff.1 (h.valid t k bound)).2.1 colon

namespace Session
open Unrolling (ofFragments)

/-- A session with a branch to a label that has no index at the end ends with an error: that of the
line that it has refused, else that of the definition that is open, else that of a missing label. -/
theorem finish_of_undefined (asm : Assembler) (fragments : List (List Line)) {t : Token}
    {st : Statement} (there : st ∈ statements (itemsOf fragments)) (uses : t ∈ st.labels)
    (undefined : ((start asm).takeFragments fragments).state.assembler.bound? t = none) :
    let o := (start asm).takeFragments fragments
    ∃ e, o.state.finish.result = .error e ∧
      (∀ refused, o.result = .error refused → e = refused) ∧
      (o.result = .ok () →
        (∀ h, o.state.assembler.macros.opened = some h → e = ⟨h.line, .unclosedMacro h.name⟩) ∧
        (o.state.assembler.macros.opened = none → e.problem.errorClass = .unresolvedLabel)) := by
  intro o
  cases result : o.result with
  | error e =>
    obtain ⟨taking, -, answer, state⟩ := Unrolling.exists_yields fragments asm.clear []
    have failed : o.state.failure = some e := by
      have answer : o.result = taking.result := answer
      have state : o.state = ofTaking taking := state
      simp [state, ofTaking, ← answer, result]
    exact ⟨e, finish_of_failure failed, fun _ same => Except.error.inj same, fun ok => by cases ok⟩
  | ok =>
    obtain ⟨asm', state, agrees⟩ := agrees_of_accepted result
    have state : o.state = ⟨asm', none⟩ := state
    have undefined : o.state.assembler.bound? t = none := undefined
    rw [state] at undefined ⊢
    have waits (is : List Instruction) : instructions asm'.slots.toList ≠ .ok is := by
      intro complete
      have defined := (exists_instructions_iff agrees.slots).1 ⟨is, complete⟩ st there t uses
      rw [← agrees.bound, undefined] at defined
      cases defined
    cases ended : (finish ⟨asm', none⟩).result with
    | ok p =>
      obtain ⟨-, is, complete, -⟩ := finish_eq_ok_iff.1 ended
      exact absurd complete (waits is)
    | error e =>
      refine ⟨e, rfl, fun _ refused => (by cases refused), fun _ => ?_⟩
      cases finish_error_cases ended with
      | inl unclosed =>
        obtain ⟨h, opened, rfl⟩ := unclosed
        simp [opened]
      | inr closed =>
        obtain ⟨noneOpen, waiting⟩ := closed
        obtain ⟨-, -, label, -, -, -, -, -, rfl⟩ := exists_waiting agrees.slots waiting
        simp [noneOpen, Problem.errorClass]

/-- Definitions and branches agree on what a label is. A token that is a definition with a colon
behind it is a reference as a target, and never a register or a number, be it defined yet or not.
What is once read as a target and not as a number is always read as a reference, and it can be
defined unless there is a colon in it. Then no line of any session defines it, and a session with a
branch to it, which takes all its lines and leaves no definition of a macro open, ends with a
missing label. -/
theorem definitions_and_references_agree {t : Token} (token : Text.IsToken t) :
    (Label.Definable t → Label.Refers t) ∧
    (Label.Refers t → (∀ r : Register, ¬r.NamedBy t) ∧ Numeral.read t = .other) ∧
    (∀ bound rest goal left, Operand.takeTarget bound (t :: rest) = .ok (goal, left) →
      Label.Refers t ∨ ∃ w, Numeral.read t = .value w ∧ goal = .index w) ∧
    (Label.Refers t → ':' ∉ t → Label.Definable t) ∧
    (':' ∈ t → ¬Label.Definable t ∧ ∀ asm fragments,
      let course := ofFragments asm fragments
      let o := (start asm).takeFragments fragments
      (∀ done u, course.Takes done u → u.assembler.bound? t = none) ∧
      o.state.assembler.bound? t = none ∧
      ∀ st ∈ statements (itemsOf fragments), t ∈ st.labels →
        ∃ e, o.state.finish.result = .error e ∧
          (∀ refused, o.result = .error refused → e = refused) ∧
          (o.result = .ok () →
            (∀ h, o.state.assembler.macros.opened = some h →
              e = ⟨h.line, .unclosedMacro h.name⟩) ∧
            (o.state.assembler.macros.opened = none →
              e.problem.errorClass = .unresolvedLabel))) := by
  have agree := Label.definable_iff_refers token.1
  refine ⟨fun definable => (agree.1 definable).1, fun refers => ?_,
    fun _ _ _ _ taken => Label.refers_or_number taken,
    fun refers colonless => agree.2 ⟨refers, colonless⟩,
    fun colon => ⟨fun definable => (agree.1 definable).2 colon, fun asm fragments => ?_⟩⟩
  · obtain ⟨word, nameless⟩ := Label.refers_iff.1 refers
    exact ⟨Register.ofName?_eq_none_iff.1 nameless, word⟩
  · have atTheEnd := (takeFragments_orderly asm fragments).bound?_of_colon colon
    exact ⟨fun done u taken => (taken.orderly (.clear asm)).1.bound?_of_colon colon, atTheEnd,
      fun st there uses => finish_of_undefined asm fragments there uses atTheEnd⟩

theorem definitions_and_references_agree_colon :
    let fragments := [["top: jump top".toList, "jump a:b".toList]]
    let o := (start {}).takeFragments fragments
    Label.Refers "top".toList ∧ Label.Refers "a:b".toList ∧ ¬Label.Definable "a:b".toList ∧
      o.result = .ok () ∧
      ∃ e, o.state.finish.result = .error e ∧ e.problem.errorClass = .unresolvedLabel := by
  intro fragments o
  have accepted : o.result = .ok () := by decide +kernel
  have scanned : itemsOf fragments = [.label "top".toList,
      .statement ⟨1, .jump, ["top".toList]⟩, .statement ⟨2, .jump, ["a:b".toList]⟩] := by
    decide +kernel
  obtain ⟨defined, -⟩ := definitions_and_references_agree (t := "top".toList) (by decide)
  obtain ⟨-, -, classified, -, colon⟩ :=
    definitions_and_references_agree (t := "a:b".toList) (by decide)
  have refers : Label.Refers "a:b".toList := by
    cases classified (fun _ => none) [] (.label "a:b".toList) [] (by decide +kernel) with
    | inl refers => exact refers
    | inr number =>
      obtain ⟨w, -, index⟩ := number
      cases index
  obtain ⟨undefinable, sessions⟩ := colon (by decide)
  obtain ⟨-, -, ends⟩ := sessions {} fragments
  rw [scanned] at ends
  obtain ⟨e, error, -, missing⟩ :=
    ends ⟨2, .jump, ["a:b".toList]⟩ (by decide +kernel) (by decide +kernel)
  exact ⟨defined (by decide +kernel), refers, undefinable, accepted, e, error,
    (missing accepted).2 (by decide +kernel)⟩

end Session

end RegisterMachine
