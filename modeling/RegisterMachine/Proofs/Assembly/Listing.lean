import RegisterMachine.Proofs.Assembly.TwoPass
import RegisterMachine.Proofs.Numerals
/-! Listings are source text: each instruction is read back from its line, and a whole program from
the lines of its instructions. -/
namespace RegisterMachine
open Text (Plain joined)

def lowered (t : Token) : Token := t.map Char.toLower

theorem Register.name_plain (r : Register) : Plain r.name.toList := by
  have all : r.name.toList.all Text.isPlain = true := by
    cases r <;> decide
  exact ⟨by cases r <;> decide, List.all_eq_true.1 all⟩

theorem Register.ofName?_name (r : Register) : ofName? (lowered r.name.toList) = some r := by
  cases r <;> decide

theorem Opcode.mnemonic_plain (op : Opcode) : Plain op.mnemonic.toList := by
  have all : op.mnemonic.toList.all Text.isPlain = true := by
    cases op <;> decide
  exact ⟨by cases op <;> decide, List.all_eq_true.1 all⟩

theorem Opcode.ofMnemonic?_mnemonic {op : Opcode} (h : op ≠ .invalid) :
    ofMnemonic? (lowered op.mnemonic.toList) = some op := by
  cases op with
  | invalid => exact absurd rfl h
  | _ => decide

/-- Register names start with letters, which come after the digits. -/
theorem Register.ofName?_write (w : Word) : ofName? (Numeral.write w) = none := by
  obtain ⟨c, rest, hw⟩ := List.exists_cons_of_ne_nil (Numeral.write_plain w).1
  have hc : c ∈ Numeral.write w := by simp [hw]
  have low : c.toNat ≤ 57 := by
    cases Numeral.mem_write hc with
    | inl h => simp [h]
    | inr h => exact (Numeral.isDigit_bounds h).2
  apply List.find?_eq_none.2
  intro r _ same
  have same : r.name.toList.map Char.toLower = c :: rest.map Char.toLower := by
    simpa [Text.sameName, hw, Numeral.toLower_of_mem_write hc] using same
  have high : 57 < ((r.name.toList.map Char.toLower).headD 'a').toNat := by
    cases r <;> decide
  rw [same, List.headD_cons] at high
  omega

namespace Operand

theorem takeRegister_name (r : Register) (rest : List Token) :
    takeRegister (lowered r.name.toList :: rest) = .ok (r, rest) :=
  takeRegister_eq_ok_iff.2 ⟨_, rfl, r.ofName?_name⟩

theorem takeImmediate_write (w : Word) (rest : List Token) :
    takeImmediate (lowered (Numeral.write w) :: rest) = .ok (w, rest) := by
  rw [lowered, Numeral.map_toLower_write]
  exact takeImmediate_eq_ok_iff.2 ⟨_, rfl, Numeral.read_write w⟩

theorem takeTarget_write (bound : Token → Option Nat) (w : Word) (rest : List Token) :
    takeTarget bound (lowered (Numeral.write w) :: rest) = .ok (.index w, rest) := by
  rw [lowered, Numeral.map_toLower_write]
  simp [takeTarget, Register.ofName?_write, Numeral.read_write]

end Operand

namespace Instruction

theorem tokens_plain (i : Instruction) : ∀ t ∈ i.tokens, Plain t := by
  rw [tokens, List.forall_mem_cons]
  refine ⟨i.opcode.mnemonic_plain, ?_⟩
  cases i.operands <;> simp [Operands.tokens, Register.name_plain, Numeral.write_plain]

theorem read_operands (i : Instruction) (bound : Token → Option Nat) :
    i.opcode.form.read bound (i.operands.tokens.map lowered) = .ok (.complete i) := by
  cases i with
  | arith op | arithImm op =>
    cases op <;> simp [opcode, Arith.opcode, Arith.immediateOpcode, Opcode.form, operands,
      Operands.tokens, Form.read, Form.take, Operand.takeRegister_name,
      Operand.takeImmediate_write, bind, Except.bind, pure, Except.pure]
  | branch b =>
    cases b with
    | on c =>
      cases c <;> simp [opcode, Branch.opcode, Comparison.opcode, Opcode.form, operands,
        Branch.operands, Operands.tokens, Form.read, Form.take, Operand.takeRegister_name,
        Operand.takeTarget_write, Draft.ofTarget, bind, Except.bind, pure, Except.pure]
    | _ =>
      simp [opcode, Branch.opcode, Opcode.form, operands, Branch.operands, Operands.tokens,
        Form.read, Form.take, Operand.takeRegister_name, Operand.takeTarget_write,
        Draft.ofTarget, bind, Except.bind, pure, Except.pure]
  | _ =>
    simp [opcode, Opcode.form, operands, Operands.tokens, Form.read, Form.take,
      Operand.takeRegister_name, Operand.takeImmediate_write, bind, Except.bind, pure, Except.pure]

theorem opcode_ne_invalid {i : Instruction} (h : i ≠ .invalid) : i.opcode ≠ .invalid := by
  cases i with
  | invalid => exact absurd rfl h
  | arith op | arithImm op => cases op <;> simp [opcode, Arith.opcode, Arith.immediateOpcode]
  | branch b =>
    cases b with
    | on c => cases c <;> simp [opcode, Branch.opcode, Comparison.opcode]
    | _ => simp [opcode, Branch.opcode]
  | _ => simp [opcode]

theorem text_toList (i : Instruction) : i.text.toList = joined i.tokens := String.toList_ofList

theorem trimmed_text (i : Instruction) :
    Text.lower (Text.trim i.text.toList) = joined (i.tokens.map lowered) := by
  rw [text_toList, Text.trim_joined i.tokens_plain, Text.lower_joined i.tokens_plain]
  rfl

theorem lowered_plain (i : Instruction) : ∀ t ∈ i.tokens.map lowered, Plain t := by
  intro t ht
  obtain ⟨u, hu, rfl⟩ := List.mem_map.1 ht
  exact (i.tokens_plain u hu).map_toLower

end Instruction

namespace Assembler

/-- A line of plain tokens holds neither a comment nor a part of a macro definition. -/
theorem takeTrimmed_joined (expand : Expansion) {t : Token} {ts : List Token}
    (h : ∀ u ∈ t :: ts, Plain u) (nr : Nat) {asm : Assembler} (closed : asm.macros.opened = none) :
    asm.takeTrimmed expand (joined (t :: ts)) nr = asm.takeWords expand (t :: ts) nr := by
  have words : Text.words (joined (t :: ts)) = t :: ts := Text.words_joined h
  have trimmed : Text.trim (joined (t :: ts)) = joined (t :: ts) := Text.trim_joined h
  have ht : Plain t := h t List.mem_cons_self
  obtain ⟨c, cs, rfl⟩ := List.exists_cons_of_ne_nil ht.1
  have plain : Text.isPlain c = true := ht.2 c List.mem_cons_self
  have slash : c ≠ '/' := by
    intro same
    subst same
    exact absurd plain (by decide)
  have hash : c ≠ '#' := by
    intro same
    subst same
    exact absurd plain (by decide)
  have start : joined ((c :: cs) :: ts) = c :: joined (cs :: ts) := List.intercalate_cons_cons_left
  have notSkipped : isSkipped (joined ((c :: cs) :: ts)) = false := by
    simp [isSkipped, start, List.isPrefixOf, Ne.symm slash]
  have notOpener : Macro.isOpener (joined ((c :: cs) :: ts)) = false := by
    simp [Macro.isOpener, words, Macro.opener, hash]
  have notCloser : Macro.isCloser (joined ((c :: cs) :: ts)) = false := by
    rw [Macro.isCloser, trimmed, start]
    simp [Macro.closer, hash]
  simp [takeTrimmed, notSkipped, notOpener, notCloser, closed, words]

theorem takeLineWith_text (expand : Expansion) {i : Instruction} (hi : i ≠ .invalid) (nr : Nat)
    {asm : Assembler} (fresh : asm.macros = {}) :
    asm.takeLineWith expand i.text.toList nr =
      (asm.emit (.complete i) nr).after [.instructionFound nr i.opcode] := by
  have plain : Plain (lowered i.opcode.mnemonic.toList) := i.opcode.mnemonic_plain.map_toLower
  have unmarked : Label.isMarked (lowered i.opcode.mnemonic.toList) = false := by
    cases hm : Label.isMarked (lowered i.opcode.mnemonic.toList) with
    | false => rfl
    | true =>
      have colon : ':' ∈ lowered i.opcode.mnemonic.toList :=
        List.mem_of_getLast? (by simpa [Label.isMarked] using hm)
      exact absurd (plain.2 ':' colon) (by decide)
  have op : i.opcode ≠ .invalid := Instruction.opcode_ne_invalid hi
  have closed : asm.macros.opened = none := by rw [fresh]
  rw [takeLineWith, i.trimmed_text, Instruction.tokens, List.map_cons,
    takeTrimmed_joined expand i.lowered_plain nr closed]
  simp [takeWords, unmarked, takeOperation, fresh, MacroTable.find?, takeInstruction,
    Opcode.ofMnemonic?_mnemonic op, i.read_operands]

theorem takeLine_text (depth : Nat) {i : Instruction} (hi : i ≠ .invalid) (nr : Nat)
    {asm : Assembler} (fresh : asm.macros = {}) :
    asm.takeLine depth i.text.toList nr =
      (asm.emit (.complete i) nr).after [.instructionFound nr i.opcode] := by
  cases depth <;> exact takeLineWith_text _ hi nr fresh

end Assembler

namespace Session

theorem takeFrom_listing {is : List Instruction} (h : ∀ i ∈ is, i ≠ .invalid) (nr : Nat)
    {asm : Assembler} (fresh : asm.macros = {}) (failure : Option ParseError) :
    ∃ slots, slots.toList.map Slot.draft = asm.slots.toList.map Slot.draft ++ is.map .complete ∧
      (takeFrom nr (is.map fun i => i.text.toList) ⟨asm, failure⟩).result = .ok () ∧
      (takeFrom nr (is.map fun i => i.text.toList) ⟨asm, failure⟩).state =
        ⟨{ asm with slots }, failure⟩ := by
  induction is generalizing nr asm with
  | nil => exact ⟨asm.slots, by simp, rfl, rfl⟩
  | cons i rest ih =>
    obtain ⟨hi, hrest⟩ := List.forall_mem_cons.1 h
    have still : { asm with slots := asm.slots.push ⟨nr, .complete i⟩ }.macros = {} := fresh
    obtain ⟨slots, hslots, hresult, hstate⟩ := ih hrest (nr + 1) still
    refine ⟨slots, ?_, ?_, ?_⟩
    · rw [hslots]
      simp
    · simpa [takeFrom, Assembler.takeLine_text maxMacroDepth hi nr fresh, Assembler.emit,
        Outcome.ok, Outcome.after] using hresult
    · simpa [takeFrom, Assembler.takeLine_text maxMacroDepth hi nr fresh, Assembler.emit,
        Outcome.ok, Outcome.after] using hstate

theorem instructions_ne_invalid {index : Token → Option Nat} {sts : List Statement}
    {slots : List Slot} (h : List.Forall₂ (Holds index) sts slots) {is : List Instruction}
    (his : instructions slots = .ok is) : ∀ i ∈ is, i ≠ .invalid := by
  induction h generalizing is with
  | nil =>
    obtain rfl : [] = is := by simpa [instructions] using his
    simp
  | cons hst hrest ih =>
    obtain ⟨i, js, hi, hjs, rfl⟩ := instructions_cons_eq_ok_iff.1 his
    obtain ⟨-, hop, d, hd, hs⟩ := hst
    refine List.forall_mem_cons.2 ⟨?_, ih hjs⟩
    intro same
    subst same
    exact hop ((Form.read_written hd).2 index .invalid (hs ▸ hi)).1.symm

end Session

namespace Assembler
open Session

theorem lines_listing {is : List Instruction} (hne : is ≠ []) :
    Text.lines ("\n".intercalate (is.map Instruction.text)).toList =
      is.map fun i => i.text.toList := by
  have clean : ∀ l ∈ is.map fun i => i.text.toList, '\n' ∉ l := by
    intro l hl
    obtain ⟨i, -, rfl⟩ := List.mem_map.1 hl
    rw [i.text_toList]
    exact Text.newline_not_mem_joined i.tokens_plain
  have lines := Text.lines_intercalate (by simpa using hne) clean
  rw [String.toList_intercalate, List.map_map]
  exact lines

theorem assemble_text {is : List Instruction} (h : ∀ i ∈ is, i ≠ .invalid) (asm : Assembler) :
    (asm.assemble ("\n".intercalate (is.map Instruction.text))).result =
      .ok (.ofArray is.toArray) := by
  cases is with
  | nil => rfl
  | cons i rest =>
    have fresh : asm.clear.macros = {} := rfl
    obtain ⟨slots, hslots, hresult, hstate⟩ := takeFrom_listing h 1 fresh none
    have lines := lines_listing (List.cons_ne_nil i rest)
    have complete : instructions slots.toList = .ok (i :: rest) :=
      instructions_eq_ok_iff.2 (by simpa [clear] using hslots)
    have finished : (finish ⟨{ asm.clear with slots }, none⟩).result =
        .ok (.ofArray (i :: rest).toArray) := finish_eq_ok_iff.2 ⟨rfl, i :: rest, complete, rfl⟩
    simp only [assemble, takeText, takeLines, start, lines, hresult, hstate, Outcome.after]
    exact finished

theorem exists_of_assemble {asm : Assembler} {source : String} {p : Program}
    (h : (asm.assemble source).result = .ok p) :
    ∃ is : List Instruction, p = .ofArray is.toArray ∧ ∀ i ∈ is, i ≠ .invalid := by
  unfold assemble takeText takeLines start at h
  cases taken : (takeFrom 1 (Text.lines source.toList) ⟨asm.clear, none⟩).result with
  | error e => simp [taken, Outcome.fail] at h
  | ok u =>
    simp only [taken, Outcome.after] at h
    have begun : Agrees {} asm.clear := ⟨rfl, fun _ => rfl, rfl, .nil⟩
    obtain ⟨asm', hstate, agrees⟩ := takeFrom_agrees (Text.lines source.toList) begun taken
    rw [hstate] at h
    obtain ⟨-, is, his, rfl⟩ := finish_eq_ok_iff.1 h
    exact ⟨is, rfl, instructions_ne_invalid agrees.slots his⟩

/-- The listing of any instructions that can be written assembles to these instructions; so the
listing of a program that was assembled gives the program again. -/
theorem assemble_listing :
    (∀ (is : List Instruction), (∀ i ∈ is, i ≠ .invalid) → ∀ asm : Assembler,
      (asm.assemble ("\n".intercalate (is.map Instruction.text))).result =
        .ok (.ofArray is.toArray)) ∧
    ∀ (asm asm' : Assembler) (source : String) (p : Program),
      (asm.assemble source).result = .ok p →
        (asm'.assemble ("\n".intercalate p.listing)).result = .ok p := by
  refine ⟨fun is h asm => assemble_text h asm, ?_⟩
  intro asm asm' source p assembled
  obtain ⟨is, rfl, written⟩ := exists_of_assemble assembled
  exact assemble_text written asm'

/-- Immediate values and targets at the ends of the range, and a source with a label and a literal
that the listing spells otherwise. -/
theorem assemble_listing_extremes :
    let is := [.branch .always (-2147483648), .loadImm .pc 2147483647,
      .arithImm .leftShift .sp (-1) .ze]
    let p := Program.ofArray #[.loadImm .v0 16, .branch (.on .less .v0 .ze) 0]
    ("\n".intercalate (is.map Instruction.text) =
        "jump -2147483648\nloadi PC 2147483647\nlsi SP -1 ZE" ∧
      (({} : Assembler).assemble "jump -2147483648\nloadi PC 2147483647\nlsi SP -1 ZE").result =
        .ok (.ofArray is.toArray)) ∧
    p.listing = ["loadi V0 16", "bolt V0 ZE 0"] ∧
      (({} : Assembler).assemble "Top: LOAD v0 0x10\nbolt v0 ze TOP").result = .ok p ∧
      (({} : Assembler).assemble ("\n".intercalate p.listing)).result = .ok p := by
  intro is p
  have written : ∀ i ∈ is, i ≠ .invalid := by decide
  have text : "\n".intercalate (is.map Instruction.text) =
      "jump -2147483648\nloadi PC 2147483647\nlsi SP -1 ZE" := by decide +kernel
  have assembled : (({} : Assembler).assemble "Top: LOAD v0 0x10\nbolt v0 ze TOP").result =
      .ok p := by decide +kernel
  refine ⟨⟨text, ?_⟩, by decide +kernel, assembled, assemble_listing.2 {} {} _ p assembled⟩
  rw [← text]
  exact assemble_listing.1 is written {}

end Assembler

end RegisterMachine
