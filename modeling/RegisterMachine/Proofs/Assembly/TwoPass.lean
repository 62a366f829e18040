import RegisterMachine.Assembly.Session
import RegisterMachine.Proofs.Assembly.Agreement
/-! A whole session: the program that it ends with is what a second pass over the statements would
give, with the labels of all fragments at hand. -/
namespace RegisterMachine

namespace Session

def takeFragments : List (List Line) → Session → Outcome ParseError Session Unit
  | [], s => .ok () s
  | lines :: rest, s => (s.takeLines lines).andThen fun _ s => takeFragments rest s

theorem takeFrom_agrees (lines : List Line) {nr : Nat} {s : Scan} {asm : Assembler}
    (h : Agrees s asm) {failure : Option ParseError}
    (ok : (takeFrom nr lines ⟨asm, failure⟩).result = .ok ()) :
    ∃ asm', (takeFrom nr lines ⟨asm, failure⟩).state = ⟨asm', failure⟩ ∧
      Agrees (s.fragment nr lines) asm' := by
  induction lines generalizing nr s asm with
  | nil => exact ⟨asm, rfl, h⟩
  | cons line rest ih =>
    unfold takeFrom at ok ⊢
    cases hline : (asm.takeLine maxMacroDepth line nr).result with
    | error e => simp [hline, Outcome.fail] at ok
    | ok u =>
      simp only [hline, Outcome.after] at ok ⊢
      exact ih (h.takeLine maxMacroDepth line hline) ok

theorem takeFragments_agrees (fragments : List (List Line)) {s : Scan} {asm : Assembler}
    (h : Agrees s asm) (ok : (takeFragments fragments ⟨asm, none⟩).result = .ok ()) :
    ∃ asm', (takeFragments fragments ⟨asm, none⟩).state = ⟨asm', none⟩ ∧
      Agrees (fragments.foldl (fun s lines => s.fragment 1 lines) s) asm' := by
  induction fragments generalizing s asm with
  | nil => exact ⟨asm, rfl, h⟩
  | cons lines rest ih =>
    unfold takeFragments at ok ⊢
    obtain ⟨⟨⟩, hlines⟩ := Outcome.ok_of_andThen ok
    obtain ⟨hresult, hstate⟩ := Outcome.andThen_of_ok hlines fun _ s => takeFragments rest s
    obtain ⟨asm', htaken, hagrees⟩ := takeFrom_agrees lines h hlines
    have htaken : ((⟨asm, none⟩ : Session).takeLines lines).state = ⟨asm', none⟩ := htaken
    rw [hresult, htaken] at ok
    rw [hstate, htaken]
    exact ih hagrees ok

theorem agrees_of_accepted {asm : Assembler} {fragments : List (List Line)}
    (accepted : ((start asm).takeFragments fragments).result = .ok ()) :
    ∃ asm', ((start asm).takeFragments fragments).state = ⟨asm', none⟩ ∧
      Agrees (fragments.foldl (fun s lines => s.fragment 1 lines) {}) asm' := by
  have begun : Agrees {} asm.clear := ⟨rfl, fun _ => rfl, rfl, .nil⟩
  exact takeFragments_agrees fragments begun accepted

theorem instructions_cons_eq_ok_iff {slot : Slot} {rest : List Slot} {is : List Instruction} :
    instructions (slot :: rest) = .ok is ↔
      ∃ i js, slot.draft = .complete i ∧ instructions rest = .ok js ∧ is = i :: js := by
  obtain ⟨line, draft⟩ := slot
  cases draft with
  | waiting b l => simp [instructions]
  | complete i =>
    cases h : instructions rest with
    | error e => simp [instructions, h, Except.map]
    | ok js => simp [instructions, h, Except.map, eq_comm]

theorem instructions_eq_ok_iff {slots : List Slot} {is : List Instruction} :
    instructions slots = .ok is ↔ slots.map Slot.draft = is.map .complete := by
  induction slots generalizing is with
  | nil => cases is <;> simp [instructions]
  | cons slot rest ih =>
    rw [instructions_cons_eq_ok_iff]
    cases is with
    | nil => simp
    | cons i js => simp [ih]

end Session

theorem Holds.exists_complete_iff {index : Token → Option Nat} {st : Statement} {slot : Slot}
    (h : Holds index st slot) :
    (∃ i, slot.draft = .complete i) ↔ ∀ l ∈ st.labels, (index l).isSome = true := by
  obtain ⟨-, -, d, hd, hs⟩ := h
  have hlabels : st.labels = d.label?.toList := (Form.read_written hd).1
  rw [hs, hlabels]
  cases d with
  | complete i => simp [Draft.settle, Draft.label?]
  | waiting b l => cases hl : index l <;> simp [Draft.settle, Draft.label?, hl]

theorem Holds.encodes {index : Token → Option Nat} {st : Statement} {slot : Slot}
    (h : Holds index st slot) (fits : ∀ l k, index l = some k → k < 2147483648) {i : Instruction}
    (hi : slot.draft = .complete i) : st.Encodes index i := by
  obtain ⟨-, -, d, hd, hs⟩ := h
  have written := (Form.read_written hd).2 index i (hs ▸ hi)
  exact ⟨written.1, written.2 fits⟩

namespace Session
variable {index : Token → Option Nat} {sts : List Statement} {slots : List Slot}

theorem exists_instructions_iff (h : List.Forall₂ (Holds index) sts slots) :
    (∃ is, instructions slots = .ok is) ↔
      ∀ st ∈ sts, ∀ l ∈ st.labels, (index l).isSome = true := by
  induction h with
  | nil => simp [instructions]
  | @cons st slot sts slots hst hrest ih =>
    rw [List.forall_mem_cons, ← ih, ← hst.exists_complete_iff]
    constructor
    · intro h
      obtain ⟨is, his⟩ := h
      obtain ⟨i, js, hi, hjs, -⟩ := instructions_cons_eq_ok_iff.1 his
      exact ⟨⟨i, hi⟩, js, hjs⟩
    · intro h
      obtain ⟨⟨i, hi⟩, js, hjs⟩ := h
      exact ⟨i :: js, instructions_cons_eq_ok_iff.2 ⟨i, js, hi, hjs, rfl⟩⟩

theorem instructions_encode (h : List.Forall₂ (Holds index) sts slots)
    (fits : ∀ l k, index l = some k → k < 2147483648) {is : List Instruction}
    (his : instructions slots = .ok is) : List.Forall₂ (Statement.Encodes index) sts is := by
  induction h generalizing is with
  | nil =>
    obtain rfl : [] = is := by simpa [instructions] using his
    exact .nil
  | cons hst hrest ih =>
    obtain ⟨i, js, hi, hjs, rfl⟩ := instructions_cons_eq_ok_iff.1 his
    exact .cons (hst.encodes fits hi) (ih hjs)

theorem finish_state (s : Session) : s.finish.state = s.assembler := by
  unfold finish
  repeat' split
  all_goals rfl

theorem finish_eq_ok_iff {asm : Assembler} {p : Program} :
    (finish ⟨asm, none⟩).result = .ok p ↔ asm.macros.opened = none ∧
      ∃ is, instructions asm.slots.toList = .ok is ∧ p = .ofArray is.toArray := by
  unfold finish
  cases asm.macros.opened with
  | some header => simp [Outcome.fail]
  | none =>
    cases instructions asm.slots.toList with
    | error e => simp [Outcome.fail]
    | ok is => simp [Outcome.ok, eq_comm]

/-- One pass over the fragments is as good as two: the session ends with a program exactly if every
label that a statement branches to is defined somewhere, and the program then is the statements in
order, with the first definition of each label. -/
theorem finish_two_pass (asm : Assembler) (fragments : List (List Line))
    (accepted : ((start asm).takeFragments fragments).result = .ok ())
    (closed : ((start asm).takeFragments fragments).state.assembler.macros.opened = none)
    (small : (statements (itemsOf fragments)).length < 2147483648) :
    let o := ((start asm).takeFragments fragments).state.finish
    let items := itemsOf fragments
    ((∃ p, o.result = .ok p) ↔
      ∀ st ∈ statements items, ∀ l ∈ st.labels, Item.label l ∈ items) ∧
    (∀ p, o.result = .ok p → p.finished = false ∧
      List.Forall₂ (Statement.Encodes fun l => definition? l items) (statements items)
        p.instructions.toList) ∧
    ∀ name, o.state.label? name = definition? (Text.lower name.toList) items := by
  intro o items
  have begun : Agrees {} asm.clear := ⟨rfl, fun _ => rfl, rfl, .nil⟩
  obtain ⟨asm', taken, agrees⟩ := takeFragments_agrees fragments begun accepted
  have taken : ((start asm).takeFragments fragments).state = ⟨asm', none⟩ := taken
  have hclosed : asm'.macros.opened = none := by simpa [taken] using closed
  have ho (p : Program) : o.result = .ok p ↔
      ∃ is, instructions asm'.slots.toList = .ok is ∧ p = .ofArray is.toArray := by
    rw [show o = finish ⟨asm', none⟩ by rw [← taken], finish_eq_ok_iff]
    exact and_iff_right hclosed
  have fits (l : Token) (k : Nat) (h : definition? l items = some k) : k < 2147483648 :=
    Nat.lt_of_le_of_lt (definition?_le h) small
  refine ⟨?_, ?_, ?_⟩
  · have complete : (∃ is, instructions asm'.slots.toList = .ok is) ↔
        ∀ st ∈ statements items, ∀ l ∈ st.labels, (definition? l items).isSome = true :=
      exists_instructions_iff agrees.slots
    simp only [definition?_isSome_iff] at complete
    rw [← complete]
    constructor
    · intro h
      obtain ⟨p, hp⟩ := h
      obtain ⟨is, his, -⟩ := (ho p).1 hp
      exact ⟨is, his⟩
    · intro h
      obtain ⟨is, his⟩ := h
      exact ⟨.ofArray is.toArray, (ho _).2 ⟨is, his, rfl⟩⟩
  · intro p hp
    obtain ⟨is, his, rfl⟩ := (ho p).1 hp
    exact ⟨rfl, instructions_encode agrees.slots fits his⟩
  · intro name
    have hstate : o.state = asm' := by rw [finish_state, taken]
    rw [hstate]
    exact agrees.bound (Text.lower name.toList)

theorem finish_two_pass_looped :
    let fragments := [["jump End".toList, "#begin loop $1".toList, "$1: bonz v0 $1".toList,
      "#END".toList], ["loop Top".toList, "end:".toList, "top: jump 7".toList]]
    let items := [.statement ⟨1, .jump, ["end".toList]⟩, .label "top".toList,
      .statement ⟨1, .branchOnNotZero, ["v0".toList, "top".toList]⟩, .label "end".toList,
      .statement ⟨2, .noop, []⟩, .label "top".toList, .statement ⟨3, .jump, ["7".toList]⟩]
    let o := ((start {}).takeFragments fragments).state.finish
    let p := Program.ofArray
      #[.branch .always 2, .branch (.onNotZero .v0) 1, .noop, .branch .always 7]
    itemsOf fragments = items ∧ o.result = .ok p ∧
      List.Forall₂ (Statement.Encodes fun l => definition? l items) (statements items)
        p.instructions.toList ∧
      ∀ name, o.state.label? name = definition? (Text.lower name.toList) items := by
  intro fragments items o p
  have accepted : ((start {}).takeFragments fragments).result = .ok () := by decide +kernel
  have closed : ((start {}).takeFragments fragments).state.assembler.macros.opened = none := by
    decide +kernel
  have scanned : itemsOf fragments = items := by decide +kernel
  have small : (statements (itemsOf fragments)).length < 2147483648 := by
    rw [scanned]
    decide
  obtain ⟨-, encoded, labels⟩ := finish_two_pass {} fragments accepted closed small
  rw [scanned] at encoded labels
  have assembled : o.result = .ok p := by decide +kernel
  exact ⟨scanned, assembled, (encoded p assembled).2, labels⟩

end Session

end RegisterMachine
