import RegisterMachine.Proofs.Assembly.MacroCalls
import RegisterMachine.Proofs.Assembly.Grammar
import RegisterMachine.Proofs.Footprint
import RegisterMachine.Proofs.RejectedSources
/-! A countdown, from its source text to the sum that it leaves in memory. -/
namespace RegisterMachine

namespace Machine
variable {ω : Type} {m m' m'' : Machine ω} {n k : Nat}

/-- The first `n` steps from `m` lead to `m'`, and none of them comes to the bus. -/
structure Passes (n : Nat) (m m' : Machine ω) : Prop where
  continues : Continues n m m'
  bus : m'.bus = m.bus
  quiet : (eventsOf n m).filterMap Event.deviceCall? = []

theorem Passes.trans (h : Passes n m m') (h' : Passes k m' m'') : Passes (n + k) m m'' := by
  refine ⟨h.continues.trans h'.continues, h'.bus.trans h.bus, ?_⟩
  rw [h.continues.eventsOf_add, List.filterMap_append, h.quiet, h'.quiet, List.append_nil]

theorem passes_one {i : Instruction} {events : List Event} (fetched : m.fetch = .ok i)
    (executed : m.execute i = .ok () m' events) (inner : m.access? i = none)
    (unfinished : m'.isFinished = false) : Passes 1 m (m'.setReg .pc (m'.reg .pc + 1)) := by
  obtain ⟨result, state⟩ := step_of_executed fetched executed
  have succeeds : (m.execute i).result = .ok () := by rw [executed]; rfl
  have reach := (execute_reach succeeds).bus_of_inner inner
  rw [executed] at reach
  refine ⟨.step (result.trans (by rw [unfinished])) (state ▸ .start _), reach.1, ?_⟩
  rw [eventsOf, eventsOf, step_events fetched succeeds, executed, List.append_nil,
    List.filterMap_cons_none rfl]
  exact reach.2

theorem fetch_of_place {p : Program} {w : Word} {i : Instruction} (loaded : m.program = some p)
    (place : m.reg .pc = w) (here : p.fetch? w = some i) : m.fetch = .ok i :=
  fetch_eq_ok_iff.2 ⟨p, loaded, place ▸ here⟩

end Machine

namespace Session

/-- Reading lines of plain code outside of macro definitions: a line is blank, or it is taken by
its words, and none is refused. -/
inductive Reads : Nat → List Line → Assembler → Assembler → Prop
  | nil {nr : Nat} {asm : Assembler} : Reads nr [] asm asm
  | blank {nr : Nat} {line : Line} {rest : List Line} {asm asm' : Assembler}
      (cut : Text.tokens line = []) (later : Reads (nr + 1) rest asm asm') :
      Reads nr (line :: rest) asm asm'
  | code {nr : Nat} {line : Line} {rest : List Line} {asm asm' : Assembler} {word : Token}
      {args : List Token} (mid : Assembler) (cut : Text.tokens line = word :: args)
      (plain : ¬"//".toList <+: word) (unmarked : word.head? ≠ some '#')
      (closed : asm.macros.opened = none)
      (taken : ∀ expand, ∃ events, asm.takeWords expand (word :: args) nr = .ok () mid events)
      (later : Reads (nr + 1) rest mid asm') : Reads nr (line :: rest) asm asm'

theorem takeFrom_of_ok {asm mid : Assembler} {line : Line} {nr : Nat} {events : List Event}
    (taken : asm.takeLine maxMacroDepth line nr = .ok () mid events) (rest : List Line)
    (failure : Option ParseError) : takeFrom nr (line :: rest) ⟨asm, failure⟩ =
      (takeFrom (nr + 1) rest ⟨mid, failure⟩).after events := by
  simp [takeFrom, taken, Outcome.ok]

theorem Reads.takeFrom {nr : Nat} {lines : List Line} {asm asm' : Assembler}
    (h : Reads nr lines asm asm') : ∃ events,
      Session.takeFrom nr lines ⟨asm, none⟩ = .ok () ⟨asm', none⟩ events := by
  induction h with
  | nil => exact ⟨[], rfl⟩
  | @blank nr line rest asm asm' cut later ih =>
    obtain ⟨events, taken⟩ := ih
    refine ⟨events, ?_⟩
    have words := (Text.words_taken line).trans cut
    have empty : Assembler.isSkipped (Text.lower (Text.trim line)) = true := by
      rw [Assembler.isSkipped_eq (Text.head_lower (Text.head_trim line)), words]
      rfl
    have skipped : asm.takeLine maxMacroDepth line nr = .ok () asm := if_pos empty
    rw [takeFrom_of_ok skipped, taken]
    rfl
  | @code nr line rest asm asm' word args mid cut plain unmarked closed words later ih =>
    obtain ⟨events, taken⟩ := ih
    obtain ⟨own, words⟩ := words _
    have whole : asm.takeLine maxMacroDepth line nr = .ok () mid own :=
      (Assembler.takeLineWith_of_code cut plain unmarked closed _ nr).trans words
    refine ⟨own ++ events, ?_⟩
    rw [takeFrom_of_ok whole, taken]
    rfl

end Session

namespace Countdown

/-- The lines of a text that adds up the numbers from `n` down to one and stores the sum. -/
def lines (n : Nat) : List String :=
  ["",
   s!"                    loadi v0 {n}",
   "                    loadi v1 0",
   "            loop:   add v1 v0 v1",
   "                    subi v0 1 v0",
   "                    bogt v0 ze loop",
   "                    storem v1 100",
   "                    exit",
   "            "]

def source (n : Nat) : String := "\n".intercalate (lines n)

def program (n : Nat) : Program := .ofArray
  #[.loadImm .v0 (.ofNat n), .loadImm .v1 0, .arith .add .v1 .v0 .v1, .arithImm .sub .v0 1 .v0,
    .branch (.on .greater .v0 .ze) 2, .storeMem .v1 100, .exit]

structure At {ω : Type} (n : Nat) (pc v0 v1 : Word) (m : Machine ω) : Prop where
  program : m.program = some (program n)
  pc : m.reg .pc = pc
  v0 : m.reg .v0 = v0
  v1 : m.reg .v1 = v1

section Run
variable {ω : Type} {m : Machine ω} {n k : Nat} {a s : Word}

theorem At.isFinished {pc : Word} (h : At n pc a s m) : m.isFinished = false := by
  rw [Machine.isFinished, h.program]
  rfl

theorem At.step {pc : Word} {i : Instruction} {m₁ : Machine ω} {events : List Event}
    (h : At n pc a s m) (pc' a' s' : Word) (here : (Countdown.program n).fetch? pc = some i)
    (executed : m.execute i = .ok () m₁ events) (inner : m.access? i = none)
    (program : m₁.program = m.program) (counter : m₁.reg .pc + 1 = pc') (left : m₁.reg .v0 = a')
    (sum : m₁.reg .v1 = s') : ∃ m', m.Passes 1 m' ∧ At n pc' a' s' m' := by
  have fetched : m.fetch = .ok i := Machine.fetch_of_place h.program h.pc here
  have unfinished : m₁.isFinished = false := by
    rw [Machine.isFinished, program]
    exact h.isFinished
  exact ⟨_, Machine.passes_one fetched executed inner unfinished, program.trans h.program, counter,
    left, sum⟩

theorem At.starts (h : At n 0 a s m) : ∃ m', m.Passes 2 m' ∧ At n 2 (.ofNat n) 0 m' := by
  obtain ⟨m₁, one, h₁⟩ := h.step 1 (.ofNat n) s rfl rfl rfl rfl (congrArg (· + 1) h.pc) rfl h.v1
  obtain ⟨m₂, two, h₂⟩ := h₁.step 2 (.ofNat n) 0 rfl rfl rfl rfl (congrArg (· + 1) h₁.pc) h₁.v0 rfl
  exact ⟨m₂, one.trans two, h₂⟩

theorem At.compares {pc : Word} (h : At n pc (.ofNat k) s m) (small : k < 2147483648) :
    ∃ alu, m.execute (.branch (.on .greater .v0 .ze) 2) =
      if 0 < k then .ok () ({ m with alu }.jump 2) [.branchTaken 2] else .ok () { m with alu } := by
  have more : Comparison.greater.holds (.ofWord (m.reg .v0 - m.reg .ze)) = true ↔ 0 < k := by
    rw [h.v0, m.reg_ze, Int32.sub_zero, Comparison.holds_ofWord_iff,
      Int32.toInt_ofNat_of_lt small]
    exact Int.natCast_pos
  exact ⟨⟨false, .ofWord (m.reg .v0 - m.reg .ze)⟩,
    (m.branchOn_eq _ _ _ _).trans (if_congr more rfl rfl)⟩

theorem sub_one (k : Nat) : Int32.ofNat (k + 1) - 1 = .ofNat k := by
  have up : Int32.ofNat (k + 1) = .ofNat k + 1 := by
    rw [Int32.ofNat_add]
    rfl
  rw [up, Int32.add_sub_cancel]

/-- A round adds what is left to the sum and takes one off it. -/
theorem At.round (h : At n 2 (.ofNat (k + 1)) s m) (small : k < 2147483648) :
    ∃ m', m.Passes 3 m' ∧ At n (if 0 < k then 2 else 5) (.ofNat k) (s + .ofNat (k + 1)) m' := by
  obtain ⟨m₁, one, h₁⟩ := h.step 3 (.ofNat (k + 1)) (s + .ofNat (k + 1)) rfl rfl rfl rfl
    (congrArg (· + 1) h.pc) h.v0 (congrArg₂ (· + ·) h.v1 h.v0)
  obtain ⟨m₂, two, h₂⟩ := h₁.step 4 (.ofNat k) (s + .ofNat (k + 1)) rfl rfl rfl rfl
    (congrArg (· + 1) h₁.pc) ((congrArg (· - 1) h₁.v0).trans (sub_one k)) h₁.v1
  obtain ⟨alu, executed⟩ := h₂.compares small
  by_cases more : 0 < k
  · rw [if_pos more] at executed ⊢
    have kept (r : Register) (hr : r ≠ .pc) : ({ m₂ with alu }.jump 2).reg r = m₂.reg r :=
      Machine.reg_setReg_of_ne _ hr
    obtain ⟨m₃, three, h₃⟩ := h₂.step 2 _ _ rfl executed rfl (Machine.setReg_program _ _)
      (Int32.sub_add_cancel 2 1) ((kept .v0 nofun).trans h₂.v0) ((kept .v1 nofun).trans h₂.v1)
    exact ⟨m₃, (one.trans two).trans three, h₃⟩
  · rw [if_neg more] at executed ⊢
    obtain ⟨m₃, three, h₃⟩ := h₂.step 5 _ _ rfl executed rfl rfl (congrArg (· + 1) h₂.pc)
      h₂.v0 h₂.v1
    exact ⟨m₃, (one.trans two).trans three, h₃⟩

def triangle (n : Nat) : Nat := n * (n + 1) / 2

theorem triangle_succ (k : Nat) : triangle (k + 1) = k + 1 + triangle k := by
  have step : (k + 1) * (k + 1 + 1) = k * (k + 1) + 2 * (k + 1) := by
    rw [Nat.mul_comm, ← Nat.add_mul]
  rw [triangle, step, triangle]
  omega

theorem At.rounds (h : At n 2 (.ofNat (k + 1)) s m) (small : k < 2147483648) :
    ∃ m', m.Passes (3 * (k + 1)) m' ∧ At n 5 0 (s + .ofNat (triangle (k + 1))) m' := by
  induction k generalizing m s with
  | zero => exact h.round small
  | succ k ih =>
    obtain ⟨m₁, first, h₁⟩ := h.round small
    obtain ⟨m₂, others, h₂⟩ := ih h₁ (Nat.lt_of_succ_lt small)
    have total : s + .ofNat (k + 1 + 1) + .ofNat (triangle (k + 1)) =
        s + Int32.ofNat (triangle (k + 1 + 1)) := by
      rw [triangle_succ (k + 1), Int32.ofNat_add (k + 1 + 1), Int32.add_assoc]
    rw [total] at h₂
    refine ⟨m₂, ?_, h₂⟩
    rw [Nat.mul_succ, Nat.add_comm]
    exact first.trans others

theorem read_stored {b : Bus ω} (idle : b.busy = false) (room : 100 < b.memory.cells.size)
    (w : Word) : (Bus.read 100 { b with memory :=
      { b.memory with cells := b.memory.cells.setIfInBounds 100 w } }).result = .ok w := by
  have inside : 100 < (b.memory.cells.setIfInBounds 100 w).size := by
    rwa [Array.size_setIfInBounds]
  let stored : Bus ω :=
    { b with memory := { b.memory with cells := b.memory.cells.setIfInBounds 100 w } }
  have cell : stored.memory.cell? 100 = some ⟨100, inside⟩ := Memory.cell?_eq_some_iff.2 rfl
  have read := Bus.read_cell (b := stored) idle cell
  rw [read]
  exact congrArg Except.ok (Array.getElem_setIfInBounds_self inside)

theorem At.stores (h : At n 5 0 s m) (idle : m.bus.busy = false)
    (room : 100 < m.bus.memory.cells.size) : ∃ m', m.Continues 1 m' ∧ At n 6 0 s m' ∧
      (Machine.eventsOf 1 m).filterMap Event.deviceCall? = [] ∧
      m'.bus = { m.bus with memory :=
        { m.bus.memory with cells := m.bus.memory.cells.setIfInBounds 100 s } } := by
  have fetched : m.fetch = .ok (.storeMem .v1 100) := Machine.fetch_of_place h.program h.pc rfl
  have cell : m.bus.memory.cell? 100 = some ⟨100, room⟩ := Memory.cell?_eq_some_iff.2 rfl
  have executed : m.execute (.storeMem .v1 100) = .ok () { m with bus := { m.bus with memory :=
      { m.bus.memory with cells := m.bus.memory.cells.set 100 (m.reg .v1) room } } } := by
    rw [Machine.execute, Machine.storeAt, Machine.viaBus, Bus.write_cell idle cell]
    rfl
  have succeeds : (m.execute (.storeMem .v1 100)).result = .ok () := by rw [executed]; rfl
  obtain ⟨result, state⟩ := Machine.step_of_executed fetched executed
  refine ⟨m.step.state, .step (result.trans (congrArg _ h.isFinished)) (.start _), ?_, ?_, ?_⟩
  · rw [state]
    exact ⟨h.program, congrArg (· + 1) h.pc, h.v0, h.v1⟩
  · rw [Machine.eventsOf, Machine.eventsOf, Machine.step_events fetched succeeds, executed]
    rfl
  · rw [state, ← h.v1, Array.setIfInBounds, dif_pos room]
    rfl

theorem At.exits (h : At n 6 a s m) : m.step.result = .ok true ∧
    m.step.state = (m.setFinished true).setReg .pc 7 ∧
    m.step.events.filterMap Event.deviceCall? = [] := by
  have fetched : m.fetch = .ok .exit := Machine.fetch_of_place h.program h.pc rfl
  obtain ⟨result, state⟩ := Machine.step_of_exit fetched
  have succeeds : (m.execute .exit).result = .ok () := by
    rw [Machine.execute_exit fetched]
    rfl
  refine ⟨result, ?_, ?_⟩
  · rw [state, h.pc]
    rfl
  · rw [Machine.step_events fetched succeeds, Machine.execute_exit fetched]
    rfl

theorem rewind_at (m : Machine ω) (n : Nat) : ∃ a s, At n 0 a s (m.load (program n)).rewind :=
  ⟨_, _, rfl, rfl, rfl, rfl⟩

theorem run_program (m : Machine ω) (idle : m.bus.busy = false)
    (room : 100 < m.bus.memory.cells.size) (positive : 0 < n) (small : n ≤ 2147483647)
    {fuel : Nat} (enough : 3 * n + 4 ≤ fuel) :
    let r := (m.load (program n)).run fuel
    r.ending = .finished ∧ r.steps = 3 * n + 4 ∧ r.machine.reg .v0 = 0 ∧
      r.machine.reg .v1 = .ofNat (triangle n) ∧
      r.machine.bus = { m.bus with memory := { m.bus.memory with
        cells := m.bus.memory.cells.setIfInBounds 100 (.ofNat (triangle n)) } } ∧
      r.events.toList.filterMap Event.deviceCall? = [] := by
  obtain ⟨k, rfl⟩ : ∃ k, n = k + 1 := Nat.exists_eq_succ_of_ne_zero positive.ne'
  obtain ⟨spare, rfl⟩ := Nat.exists_eq_add_of_le enough
  obtain ⟨a, s, h₀⟩ := rewind_at m (k + 1)
  obtain ⟨m₁, first, h₁⟩ := h₀.starts
  obtain ⟨m₂, rounds, h₂⟩ := h₁.rounds (by omega)
  rw [Int32.zero_add] at h₂
  have passes := first.trans rounds
  have same : m₂.bus = m.bus := passes.bus
  obtain ⟨m₃, stores, h₃, silent, bus⟩ := h₂.stores (same ▸ idle) (same ▸ room)
  obtain ⟨finishes, last, quiet⟩ := h₃.exits
  have all := passes.continues.trans stores
  have cycles : 3 * (k + 1) + 4 + spare = 2 + 3 * (k + 1) + 1 + (spare + 1) := by omega
  have ran : (m.load (program (k + 1))).run (3 * (k + 1) + 4 + spare) = _ :=
    (congrArg (Machine.runFrom · 0 #[] _) cycles).trans
      ((all.runFrom (spare + 1) 0 #[]).trans (Machine.runFrom_of_finished finishes _ _))
  intro r
  rw [show r = _ from ran, last]
  have steps : 0 + (2 + 3 * (k + 1) + 1) + 1 = 3 * (k + 1) + 4 := by omega
  refine ⟨rfl, steps, h₃.v0, h₃.v1, ?_, ?_⟩
  · rw [← same]
    exact bus
  · rw [passes.continues.eventsOf_add]
    simp [passes.quiet, silent, quiet, Event.deviceCall?]

end Run

/-! ### The text -/

section Source
variable {n : Nat} (small : n ≤ 2147483647)

def slots (n : Nat) : List Slot :=
  ((program n).instructions.toList.zipIdx 2).map fun x => ⟨x.2, .complete x.1⟩

def taken (n k : Nat) : Assembler :=
  { labels := if k ≤ 2 then [] else [("loop".toList, 2)], slots := ((slots n).take k).toArray }

theorem takes_number (n : Nat) (expand : Assembler.Expansion) : ∃ events,
    (taken n 0).takeWords expand ["loadi".toList, "v0".toList, Numeral.write (.ofNat n)] 2 =
      .ok () (taken n 1) events := by
  have register (rest : List Token) :
      Operand.takeRegister ("v0".toList :: rest) = .ok (.v0, rest) := rfl
  have number (w : Word) : Operand.takeImmediate [Numeral.write w] = .ok (w, []) :=
    Operand.takeImmediate_eq_ok_iff.2 ⟨_, rfl, Numeral.read_write w⟩
  have reads (bound : Token → Option Nat) (w : Word) :
      Opcode.loadI.form.read bound ["v0".toList, Numeral.write w] =
        .ok (.complete (.loadImm .v0 w)) := by
    simp only [Form.read, Opcode.form, Form.take, register, number, bind, Except.bind, pure,
      Except.pure]
  have operation : Opcode.ofMnemonic? "loadi".toList = some .loadI := by decide
  refine ⟨[.instructionFound 2 .loadI], ?_⟩
  show (taken n 0).takeInstruction "loadi".toList ["v0".toList, Numeral.write (.ofNat n)] 2 = _
  simp only [Assembler.takeInstruction, operation, reads]
  rfl

include small

theorem toString_eq_write : (toString n).toList = Numeral.write (.ofNat n) := by
  have value : (Int32.ofNat n).toInt = n := Int32.toInt_ofNat_of_lt (by omega)
  rw [Numeral.write, if_neg (by omega), value]
  exact String.toList_ofList

theorem toList_number_line : (s!"                    loadi v0 {n}").toList =
    "                    loadi v0".toList ++ ' ' :: Numeral.write (.ofNat n) := by
  have cut : (toString "                    loadi v0 ").toList =
      "                    loadi v0".toList ++ [' '] := by decide +kernel
  rw [String.toList_append, toString_eq_write small, cut, List.append_assoc]
  rfl

theorem tokens_number_line : Text.tokens (s!"                    loadi v0 {n}").toList =
    ["loadi".toList, "v0".toList, Numeral.write (.ofNat n)] := by
  have plain : Text.Plain (Numeral.write (.ofNat n)) := Numeral.write_plain _
  have ascii (c : Char) (hc : c ∈ Numeral.write (.ofNat n)) : c.toNat < 128 :=
    Text.plain_toNat_lt (plain.2 c hc)
  have number : Text.words (Numeral.write (.ofNat n)) = [Numeral.write (.ofNat n)] :=
    Text.words_of_isToken ⟨plain.1, fun c hc => Text.not_isBlank_of_isPlain (plain.2 c hc)⟩
  have front : Text.words (Text.lower "                    loadi v0".toList) =
      ["loadi".toList, "v0".toList] := by decide +kernel
  rw [toList_number_line small, Text.tokens, Text.lower_append_cons (by decide),
    Text.words_append_cons (by decide), Text.lower_of_ascii ascii, Numeral.map_toLower_write, front,
    number]
  rfl

theorem reads_source : Session.Reads 1 ((lines n).map String.toList) {} (taken n 7) := by
  refine .blank rfl (.code (taken n 1) (tokens_number_line small) (by decide) (by decide) rfl
    (takes_number n) ?_)
  refine .code (taken n 2) (show _ = ["loadi", "v1", "0"].map String.toList by decide +kernel)
    (by decide) (by decide) rfl (fun _ => ⟨_, rfl⟩) ?_
  refine .code (taken n 3)
    (show _ = ["loop:", "add", "v1", "v0", "v1"].map String.toList by decide +kernel)
    (by decide) (by decide) rfl (fun _ => ⟨_, rfl⟩) ?_
  refine .code (taken n 4) (show _ = ["subi", "v0", "1", "v0"].map String.toList by decide +kernel)
    (by decide) (by decide) rfl (fun _ => ⟨_, rfl⟩) ?_
  refine .code (taken n 5)
    (show _ = ["bogt", "v0", "ze", "loop"].map String.toList by decide +kernel)
    (by decide) (by decide) rfl (fun _ => ⟨_, rfl⟩) ?_
  refine .code (taken n 6) (show _ = ["storem", "v1", "100"].map String.toList by decide +kernel)
    (by decide) (by decide) rfl (fun _ => ⟨_, rfl⟩) ?_
  refine .code (taken n 7) (show _ = ["exit"].map String.toList by decide +kernel)
    (by decide) (by decide) rfl (fun _ => ⟨_, rfl⟩) ?_
  exact .blank (by decide +kernel) .nil

theorem assemble_source :
    (({} : Assembler).assemble (source n)).result = .ok (program n) := by
  have digits : '\n' ∉ Numeral.write (.ofNat n) := fun hc =>
    absurd ((Numeral.write_plain _).2 _ hc) (by decide)
  have number : '\n' ∉ (s!"                    loadi v0 {n}").toList := by
    rw [toList_number_line small, List.mem_append, List.mem_cons]
    exact not_or.2 ⟨by decide +kernel, not_or.2 ⟨by decide, digits⟩⟩
  have others : ∀ l ∈ ((lines 0).drop 2).map String.toList, '\n' ∉ l := by decide +kernel
  have clean : ∀ l ∈ (lines n).map String.toList, '\n' ∉ l :=
    List.forall_mem_cons.2 ⟨List.not_mem_nil, List.forall_mem_cons.2 ⟨number, others⟩⟩
  have cut : Text.lines (source n).toList = (lines n).map String.toList := by
    rw [source, String.toList_intercalate]
    exact Text.lines_intercalate (by simp [lines]) clean
  obtain ⟨events, read⟩ := (reads_source small).takeFrom
  have opened : (Session.start {}).takeText (source n) = .ok () ⟨taken n 7, none⟩ events := by
    rw [Session.takeText, cut]
    exact read
  rw [Assembler.assemble, opened]
  rfl

end Source

/-- Running the text is, whatever state the machine is in, a run of `3 * n + 4` instructions to the
exit. It leaves the sum of the numbers up to `n`, wrapped around, in a register and a cell of
memory, changes nothing else of the bus and comes to no device. -/
theorem source_leaves_sum {ω : Type} (c : Computer ω) (idle : c.machine.bus.busy = false)
    (room : 101 ≤ c.machine.bus.memory.size) {n : Nat} (positive : 1 ≤ n) (small : n ≤ 2147483647)
    {fuel : Nat} (enough : 3 * n + 4 ≤ fuel) :
    let r := (c.runSource fuel (source n)).1
    let after := (c.runSource fuel (source n)).2
    let memory := c.machine.bus.memory
    let sum : Word := .ofNat (n * (n + 1) / 2)
    r.ending = .finished ∧ r.steps = 3 * n + 4 ∧ after.machine = r.machine ∧
      r.machine.reg .v0 = 0 ∧ r.machine.reg .v1 = sum ∧ (r.machine.bus.read 100).result = .ok sum ∧
      r.machine.bus = { c.machine.bus with
        memory := { memory with cells := memory.cells.setIfInBounds 100 sum } } ∧
      r.events.toList.filterMap Event.deviceCall? = [] := by
  obtain ⟨ending, steps, v0, v1, bus, quiet⟩ :=
    run_program c.machine idle room positive small enough
  have silent : (({} : Assembler).assemble (source n)).events.filterMap Event.deviceCall? = [] := by
    refine List.filterMap_eq_nil_iff.2 fun ev hev => ?_
    have own := Assembler.assemble_onlyAssembles {} (source n) ev hev
    cases ev <;> first | rfl | cases own
  have ran := c.runSource_of_ok fuel (assemble_source small)
  intro r after memory sum
  rw [show r = _ from congrArg Prod.fst ran, show after = _ from congrArg Prod.snd ran]
  refine ⟨ending, steps, rfl, v0, v1, ?_, bus, ?_⟩
  · rw [bus]
    exact read_stored idle room _
  · simp [silent, quiet]

theorem source_leaves_sum_wrapped :
    let bus : Bus Unit := { memory := ⟨Array.replicate 101 7, [], 0⟩, world := () }
    let m : Machine Unit :=
      { stack := .ofCapacity 1, registers := { v1 := 9, sp := 4 }, alu := ⟨true, .negative⟩, bus }
    let c : Computer Unit := { config := {}, machine := m, terminal := ⟨0⟩ }
    let r := (c.runSource 196612 (source 65536)).1
    r.ending = .finished ∧ r.steps = 196612 ∧ r.machine.reg .v1 = -2147450880 := by
  intro bus m c
  have wrapped : Int32.ofNat (65536 * (65536 + 1) / 2) = -2147450880 := by decide
  obtain ⟨ending, steps, -, -, sum, -⟩ := source_leaves_sum c rfl (by decide) (n := 65536)
    (by decide) (by decide) (show 3 * 65536 + 4 ≤ 196612 by decide)
  exact ⟨ending, steps, sum.trans wrapped⟩

end Countdown

end RegisterMachine
