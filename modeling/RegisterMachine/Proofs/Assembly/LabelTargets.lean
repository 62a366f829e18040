import RegisterMachine.Proofs.Assembly.Fragments
import RegisterMachine.Proofs.Assembly.TwoPass
/-! What labels name. A label gets the index of the instruction that comes next, on its own line or
later. If the rest of its line invokes a macro that comes to nothing, and nothing follows in the
source, there is none; the label then has an index outside of the program. -/
namespace RegisterMachine

/-- No statement follows the first definition of a label. -/
def Dangles (l : Token) (items : List Item) : Prop :=
  ∃ before after, items = before ++ .label l :: after ∧ .label l ∉ before ∧ statements after = []

theorem definition?_eq_some_iff {l : Token} {items : List Item} {k : Nat} :
    definition? l items = some k ↔ ∃ before after, items = before ++ .label l :: after ∧
      .label l ∉ before ∧ k = (statements before).length := by
  constructor
  · intro h
    induction items generalizing k with
    | nil => simp [definition?] at h
    | cons item rest ih =>
      cases item with
      | label name =>
        by_cases first : name = l
        · obtain rfl : 0 = k := by simpa [definition?, first] using h
          exact ⟨[], rest, by rw [first]; rfl, by simp, rfl⟩
        · obtain ⟨before, after, rfl, fresh, rfl⟩ := ih (by simpa [definition?, first] using h)
          exact ⟨.label name :: before, after, rfl, by simp [fresh, Ne.symm first], rfl⟩
      | statement st =>
        obtain ⟨j, hj, rfl⟩ : ∃ j, definition? l rest = some j ∧ j + 1 = k := by
          simpa [definition?] using h
        obtain ⟨before, after, rfl, fresh, rfl⟩ := ih hj
        exact ⟨.statement st :: before, after, rfl, by simp [fresh], rfl⟩
  · rintro ⟨before, after, rfl, fresh, rfl⟩
    induction before with
    | nil => simp [definition?, statements]
    | cons item rest ih =>
      simp only [List.mem_cons, not_or] at fresh
      cases item with
      | label name =>
        have other : name ≠ l := fun same => fresh.1 (by rw [same])
        simpa [definition?, other, statements] using ih fresh.2
      | statement st => simp [definition?, statements, ih fresh.2]

theorem dangles_iff {l : Token} {items : List Item} :
    Dangles l items ↔ definition? l items = some (statements items).length := by
  rw [definition?_eq_some_iff]
  constructor
  · rintro ⟨before, after, rfl, fresh, none⟩
    exact ⟨before, after, rfl, fresh, by simp [statements_append, statements, none]⟩
  · rintro ⟨before, after, rfl, fresh, all⟩
    refine ⟨before, after, rfl, fresh, List.eq_nil_of_length_eq_zero ?_⟩
    simp only [statements_append, statements, List.length_append] at all
    omega

/-- A word that numbers a place of a program, or the place after its last, leads there, unless the
program is too large for words. -/
theorem Program.isSome_fetch?_ofNat_iff {p : Program} (small : p.size ≤ 2147483648) {k : Nat}
    (le : k ≤ p.size) : (p.fetch? (.ofNat k)).isSome = true ↔ k < p.size := by
  rw [Option.isSome_iff_ne_none, Ne, fetch?_eq_none_iff]
  rcases Nat.lt_or_ge k 2147483648 with fits | last
  · have value : (Int32.ofNat k).toInt = k := Int32.toInt_ofNat_of_lt fits
    omega
  · -- the word after the largest is negative
    obtain rfl : k = 2147483648 := by omega
    have value : (Int32.ofNat 2147483648).toInt = -2147483648 := by decide
    omega

theorem Holds.branch {index : Token → Option Nat} {st : Statement} {slot : Slot}
    (h : Holds index st slot) {l : Token} (hl : l ∈ st.labels) {i : Instruction}
    (hi : slot.draft = .complete i) : ∃ b k, index l = some k ∧ i = .branch b (.ofNat k) := by
  obtain ⟨-, -, d, read, settled⟩ := h
  have labels : st.labels = d.label?.toList := (Form.read_written read).1
  rw [settled] at hi
  cases d with
  | complete i' => simp [labels, Draft.label?] at hl
  | waiting b l' =>
    obtain rfl : l = l' := by simpa [labels, Draft.label?] using hl
    cases bound : index l with
    | none => simp [Draft.settle, bound] at hi
    | some k => exact ⟨b, k, rfl, by simpa [Draft.settle, bound, eq_comm] using hi⟩

namespace Assembler
variable {asm : Assembler}

def Settled (asm : Assembler) : Prop := ∀ l k, asm.bound? l = some k → k < asm.slots.size

/-- If there are no macros afterwards, then there were none, and labels are settled if they were. -/
def Settles (asm asm' : Assembler) : Prop :=
  asm'.macros.defined = [] → asm.macros.defined = [] ∧ (asm.Settled → asm'.Settled)

theorem Settles.refl (asm : Assembler) : asm.Settles asm := fun none => ⟨none, id⟩

theorem Settles.trans {asm asm' asm'' : Assembler} (h : asm.Settles asm')
    (h' : asm'.Settles asm'') : asm.Settles asm'' := by
  intro none
  obtain ⟨none', later⟩ := h' none
  obtain ⟨before, sooner⟩ := h none'
  exact ⟨before, later ∘ sooner⟩

theorem Settles.of_macros {macros : MacroTable}
    (kept : macros.defined = [] → asm.macros.defined = []) : asm.Settles { asm with macros } :=
  fun none => ⟨kept none, id⟩

theorem bind_frame (asm : Assembler) (label : Token) (nr : Nat) :
    let asm' := (asm.bind label nr).state
    asm'.macros = asm.macros ∧ asm'.slots.size = asm.slots.size ∧ ∀ l k,
      asm'.bound? l = some k → asm.bound? l = some k ∨ l = label ∧ k = asm.slots.size := by
  cases h : asm.bound? label with
  | some index => simp +contextual [bind_bound h]
  | none =>
    simp only [bind, h, Outcome.ok]
    refine ⟨trivial, size_foldl_modify _ _ _, fun l k hk => ?_⟩
    simp only [bound?, List.lookup_cons] at hk ⊢
    split at hk
    · rename_i same
      exact .inr ⟨beq_iff_eq.1 same, (Option.some.inj hk).symm⟩
    · exact .inl hk

theorem takeInstruction_adds {op : Token} {operands : List Token} {nr : Nat}
    (ok : (asm.takeInstruction op operands nr).result = .ok ()) :
    let asm' := (asm.takeInstruction op operands nr).state
    asm'.macros = asm.macros ∧ asm'.labels = asm.labels ∧ asm'.slots.size = asm.slots.size + 1 := by
  unfold takeInstruction at ok ⊢
  cases hop : Opcode.ofMnemonic? op with
  | none => simp [hop, Outcome.fail] at ok
  | some opcode =>
    cases hr : opcode.form.read asm.bound? operands with
    | error p => simp [hop, hr, Outcome.fail, Outcome.after] at ok
    | ok draft => simp [hr, Outcome.after, emit_state]

def Expansion.Keeps (expand : Expansion) : Prop :=
  ∀ m body nr asm, (expand m body nr asm).result = .ok () →
    (expand m body nr asm).state.macros.defined = [] → asm.macros.defined = []

variable {expand : Expansion}

theorem takeOperation_adds (he : expand.Keeps) {tokens : List Token} {nr : Nat}
    (ok : (asm.takeOperation expand tokens nr).result = .ok ())
    (none : (asm.takeOperation expand tokens nr).state.macros.defined = []) :
    asm.macros.defined = [] ∧
      (asm.takeOperation expand tokens nr).state.labels = asm.labels ∧
      (asm.takeOperation expand tokens nr).state.slots.size = asm.slots.size + 1 := by
  cases tokens with
  | nil =>
    simp only [takeOperation, emit_state] at none ⊢
    exact ⟨none, by simp⟩
  | cons op args =>
    unfold takeOperation at ok none ⊢
    cases hm : asm.macros.find? op with
    | none =>
      simp only [hm] at ok none ⊢
      obtain ⟨macros, labels, size⟩ := takeInstruction_adds ok
      exact ⟨macros ▸ none, labels, size⟩
    | some m =>
      -- a macro that is there stays
      cases hb : m.substitute args with
      | error p => simp [hm, hb, Outcome.fail] at ok
      | ok body =>
        simp only [hm, hb] at ok none ⊢
        simp [MacroTable.find?, he m body nr asm ok none] at hm

theorem takeOperation_settles (he : expand.Keeps) {tokens : List Token} {nr : Nat}
    (ok : (asm.takeOperation expand tokens nr).result = .ok ()) :
    asm.Settles (asm.takeOperation expand tokens nr).state := by
  intro none
  obtain ⟨before, labels, size⟩ := takeOperation_adds he ok none
  refine ⟨before, fun settled l k hk => ?_⟩
  have := settled l k (by simpa [bound?, labels] using hk)
  omega

theorem takeWords_settles (he : expand.Keeps) {tokens : List Token} {nr : Nat}
    (ok : (asm.takeWords expand tokens nr).result = .ok ()) :
    asm.Settles (asm.takeWords expand tokens nr).state := by
  cases tokens with
  | nil => exact takeOperation_settles he ok
  | cons first rest =>
    unfold takeWords at ok ⊢
    cases hm : Label.isMarked first with
    | false =>
      simp only [hm, Bool.false_eq_true, if_false] at ok ⊢
      exact takeOperation_settles he ok
    | true =>
      cases hl : Label.read first with
      | error p => simp [hm, hl, Outcome.fail] at ok
      | ok label =>
        simp only [hm, hl, if_true] at ok ⊢
        obtain ⟨hresult, hstate⟩ := Outcome.andThen_of_ok (asm.bind_result label nr)
          fun _ asm => asm.takeOperation expand rest nr
        rw [hresult] at ok
        rw [hstate]
        intro none
        obtain ⟨before, labels, size⟩ := takeOperation_adds he ok none
        obtain ⟨macros, size', bound⟩ := asm.bind_frame label nr
        refine ⟨macros ▸ before, fun settled l k hk => ?_⟩
        rcases bound l k (by simpa [bound?, labels] using hk) with old | ⟨-, new⟩
        · have := settled l k old
          omega
        · omega

theorem takeLineWith_settles (he : expand.Keeps) {line : Line} {nr : Nat}
    (ok : (asm.takeLineWith expand line nr).result = .ok ()) :
    asm.Settles (asm.takeLineWith expand line nr).state := by
  unfold takeLineWith takeTrimmed at ok ⊢
  -- the lines that are not taken for words leave labels and slots as they are
  split
  · exact .refl asm
  · rename_i hskip
    rw [if_neg hskip] at ok
    split
    · apply Settles.of_macros
      unfold MacroTable.begin
      split <;> exact id
    · rename_i hopen
      rw [if_neg hopen] at ok
      split
      · apply Settles.of_macros
        unfold MacroTable.finish
        split
        · exact id
        · simp [Outcome.ok]
      · rename_i hclose
        rw [if_neg hclose] at ok
        split
        · exact Settles.of_macros id
        · rename_i hbody
          rw [if_neg hbody] at ok
          exact takeWords_settles he ok

theorem takeAll_settles {take : Line → Assembler → Taking}
    (step : ∀ line asm, (take line asm).result = .ok () → asm.Settles (take line asm).state)
    (lines : List Line) (ok : (takeAll take lines asm).result = .ok ()) :
    asm.Settles (takeAll take lines asm).state := by
  induction lines generalizing asm with
  | nil => exact .refl asm
  | cons line rest ih =>
    unfold takeAll at ok ⊢
    obtain ⟨⟨⟩, hline⟩ := Outcome.ok_of_andThen ok
    obtain ⟨hresult, hstate⟩ := Outcome.andThen_of_ok hline fun _ asm => takeAll take rest asm
    rw [hresult] at ok
    rw [hstate]
    exact (step line asm hline).trans (ih ok)

theorem takeLine_settles (depth : Nat) {line : Line} {nr : Nat}
    (ok : (asm.takeLine depth line nr).result = .ok ()) :
    asm.Settles (asm.takeLine depth line nr).state := by
  induction depth generalizing line nr asm with
  | zero => exact takeLineWith_settles (fun m body nr asm ok => by simp [Outcome.fail] at ok) ok
  | succ depth ih =>
    refine takeLineWith_settles (fun m body nr asm ok none => ?_) ok
    exact (takeAll_settles (fun line asm ok => ih ok) body ok none).1

theorem takeNumbered_settles {lines : List Line} {nr : Nat}
    (ok : (asm.takeNumbered nr lines).result = .ok ()) :
    asm.Settles (asm.takeNumbered nr lines).state := by
  induction lines generalizing nr asm with
  | nil => exact .refl asm
  | cons line rest ih =>
    unfold takeNumbered at ok ⊢
    obtain ⟨⟨⟩, hline⟩ := Outcome.ok_of_andThen ok
    obtain ⟨hresult, hstate⟩ := Outcome.andThen_of_ok hline fun _ asm =>
      asm.takeNumbered (nr + 1) rest
    rw [hresult] at ok
    rw [hstate]
    exact (takeLine_settles maxMacroDepth hline).trans (ih ok)

end Assembler

namespace Session

theorem accepted_of_unfailed (fragments : List (List Line)) (asm : Assembler)
    (h : (takeFragments fragments ⟨asm, none⟩).state.failure = none) :
    (takeFragments fragments ⟨asm, none⟩).result = .ok () := by
  induction fragments generalizing asm with
  | nil => rfl
  | cons lines rest ih =>
    have result := takeLines_result lines asm
    have state := takeLines_state lines asm
    unfold takeFragments at h ⊢
    cases taken : (asm.takeNumbered 1 lines).result with
    | error e =>
      rw [taken] at result
      simp [Outcome.andThen, result, state, ofTaking, taken] at h
    | ok u =>
      rw [taken] at result
      rw [(Outcome.andThen_of_ok result _).2, state] at h
      rw [(Outcome.andThen_of_ok result _).1, state]
      simp only [ofTaking, taken] at h ⊢
      exact ih _ h

theorem settled_of_accepted {fragments : List (List Line)} {asm asm' : Assembler}
    (taken : (takeFragments fragments ⟨asm.clear, none⟩).state = ⟨asm', none⟩)
    (none : asm'.macros.defined = []) : asm'.Settled := by
  have reaches := takeFragments_reaches fragments (.refl asm.clear) 1
  rw [taken] at reaches
  cases result : (asm.clear.takeNumbered 1 fragments.flatten).result with
  | error e =>
    obtain ⟨e', failed, -⟩ := reaches.failed result
    cases failed
  | ok u =>
    obtain ⟨_, ⟨⟩, alike⟩ := reaches.taken result
    have settles := Assembler.takeNumbered_settles result (alike.macros.defined ▸ none)
    have settled := settles.2 fun l k hk => by simp [Assembler.bound?, Assembler.clear] at hk
    intro l k hk
    rw [alike.size]
    exact settled l k (by simpa [Assembler.bound?, alike.labels] using hk)

/-- A session that ends with a program is where two passes over its fragments would be, and all its
slots are complete. -/
theorem agrees_of_finish {asm : Assembler} {fragments : List (List Line)} {p : Program}
    (ended : ((start asm).takeFragments fragments).state.finish.result = .ok p) :
    ∃ asm', ((start asm).takeFragments fragments).state = ⟨asm', none⟩ ∧
      Agrees (fragments.foldl (fun s lines => s.fragment 1 lines) {}) asm' ∧
      instructions asm'.slots.toList = .ok p.instructions.toList := by
  have unfailed : ((start asm).takeFragments fragments).state.failure = none := by
    cases h : ((start asm).takeFragments fragments).state.failure with
    | none => rfl
    | some e => simp [finish_of_failure h] at ended
  obtain ⟨asm', taken, agrees⟩ :=
    agrees_of_accepted (accepted_of_unfailed fragments asm.clear unfailed)
  rw [taken, finish_eq_ok_iff] at ended
  obtain ⟨-, is, complete, rfl⟩ := ended
  exact ⟨asm', taken, agrees, complete⟩

theorem instructions_branch {index : Token → Option Nat} {sts : List Statement} {slots : List Slot}
    (h : List.Forall₂ (Holds index) sts slots) {is : List Instruction}
    (his : instructions slots = .ok is) :
    List.Forall₂ (fun st i => ∀ l ∈ st.labels, ∃ b k, index l = some k ∧ i = .branch b (.ofNat k))
      sts is := by
  induction h generalizing is with
  | nil =>
    obtain rfl : [] = is := by simpa [instructions] using his
    exact .nil
  | cons hst hrest ih =>
    obtain ⟨i, js, hi, hjs, rfl⟩ := instructions_cons_eq_ok_iff.1 his
    exact .cons (fun l hl => hst.branch hl hi) (ih hjs)

/-- A session that ends with a program binds no label beyond its end, and to its end just those
labels that no statement follows. A branch to such a label leaves the program; every other branch to
a label stays in it. Without macros, no label is without an instruction. -/
theorem label_names_instruction_iff (asm : Assembler) {fragments : List (List Line)} {p : Program}
    (ended : ((start asm).takeFragments fragments).state.finish.result = .ok p) :
    let final := ((start asm).takeFragments fragments).state.finish.state
    let items := itemsOf fragments
    (∀ l k, final.bound? l = some k → k ≤ p.size ∧ (k < p.size ↔ ¬Dangles l items)) ∧
    (∀ j st l, (statements items)[j]? = some st → l ∈ st.labels →
      ∃ b k, final.bound? l = some k ∧ p.get? j = some (.branch b (.ofNat k)) ∧
        (p.size ≤ 2147483648 → ((p.fetch? (.ofNat k)).isSome ↔ ¬Dangles l items))) ∧
    (final.macros.defined = [] → ∀ l, ¬Dangles l items) := by
  intro final items
  obtain ⟨asm', taken, agrees, complete⟩ := agrees_of_finish ended
  have hfinal : final = asm' := by simp only [final, finish_state, taken]
  have branches := instructions_branch agrees.slots complete
  have size : (statements items).length = p.size := branches.length_eq
  have bound (l : Token) (k : Nat) (hk : definition? l items = some k) :
      k ≤ p.size ∧ (k < p.size ↔ ¬Dangles l items) := by
    have le := definition?_le hk
    rw [dangles_iff, hk, Option.some.injEq]
    omega
  rw [hfinal]
  refine ⟨fun l k hk => bound l k (by rwa [agrees.bound] at hk), fun j st l hst hl => ?_,
    fun none l dangles => ?_⟩
  · obtain ⟨hj, rfl⟩ := List.getElem?_eq_some_iff.1 hst
    have place : j < p.instructions.size := Nat.lt_of_lt_of_eq hj size
    obtain ⟨b, k, hk, branch⟩ := branches.get hj place l hl
    have target := bound l k hk
    refine ⟨b, k, by rw [agrees.bound]; exact hk, ?_, fun small => ?_⟩
    · rw [Program.get?, Array.getElem?_eq_getElem place, ← branch]
      rfl
    · rw [Program.isSome_fetch?_ofNat_iff small target.1]
      exact target.2
  · have hk : definition? l items = some asm'.slots.size := by
      rw [agrees.size]
      exact dangles_iff.1 dangles
    have settled := settled_of_accepted taken none l asm'.slots.size
    exact Nat.lt_irrefl _ (settled (by rw [agrees.bound]; exact hk))

theorem label_names_instruction_iff_dangling :
    let fragments := [["#begin nothing".toList, "#end".toList, "top: jump End".toList],
      ["jump top".toList, "end: nothing".toList]]
    let p := Program.ofArray #[.branch .always 2, .branch .always 0]
    let s := ((start {}).takeFragments fragments).state
    s.finish.result = .ok p ∧ Dangles "end".toList (itemsOf fragments) ∧
      ¬Dangles "top".toList (itemsOf fragments) ∧ p.fetch? 2 = none ∧
      (p.fetch? 0).isSome = true := by
  intro fragments p s
  have ended : s.finish.result = .ok p := by decide +kernel
  have last : s.finish.state.bound? "end".toList = some 2 := by decide +kernel
  have first : s.finish.state.bound? "top".toList = some 0 := by decide +kernel
  obtain ⟨labels, -, -⟩ := label_names_instruction_iff {} ended
  have dangles : Dangles "end".toList (itemsOf fragments) :=
    Classical.not_not.1 fun h => absurd ((labels _ _ last).2.2 h) (by decide)
  exact ⟨ended, dangles, (labels _ _ first).2.1 (by decide), by decide, by decide⟩

/-- A label may have an index outside of the program. -/
theorem label_without_instruction :
    ¬∀ (asm : Assembler) (fragments : List (List Line)) (p : Program),
      ((start asm).takeFragments fragments).state.finish.result = .ok p →
        ∀ name k, ((start asm).takeFragments fragments).state.finish.state.label? name = some k →
          k < p.size := by
  intro named
  let source := ["#begin nothing".toList, "#end".toList, "jump end".toList, "end: nothing".toList]
  have ended : ((start {}).takeFragments [source]).state.finish.result =
      .ok (Program.ofArray #[.branch .always 1]) := by decide +kernel
  have outside : ((start {}).takeFragments [source]).state.finish.state.label? "end" = some 1 := by
    decide +kernel
  exact absurd (named {} [source] _ ended _ _ outside) (by decide)

end Session

end RegisterMachine
