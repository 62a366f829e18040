import Mathlib.Data.List.Forall2
import RegisterMachine.Computer
/-! Computers that run source texts one after the other. A text that is rejected leaves no trace on
the machine: what the assembler has made of it is forgotten before the next text, and all that it
reports is for the log of the assembler. -/
namespace RegisterMachine

def Event.isAssembly : Event → Bool
  | .instructionFound _ _ | .labelAwaited _ _ | .labelBound _ _ _ | .labelRebound _ _ _
  | .macroOpened _ _ _ | .macroExpanded _ _ | .rejected _ | .assembled _ => true
  | .dividedByZero _ | .fetched _ _ | .computed _ _ _ _ | .notComputed _ _ _ | .branchTaken _
  | .printed _ _ _ | .terminated _ _ | .windowAttached _ _ | .deviceRead _ _
  | .deviceWritten _ _ _ | .characterDropped _ | .terminalAttached _ _
  | .computerReady _ _ _ => false

def Outcome.OnlyAssembles {ε σ α : Type} (o : Outcome ε σ α) : Prop :=
  ∀ ev ∈ o.events, ev.isAssembly = true

namespace Outcome.OnlyAssembles
variable {ε σ τ α β : Type}

theorem ok (a : α) (s : σ) : (Outcome.ok a s : Outcome ε σ α).OnlyAssembles := by
  simp [OnlyAssembles, Outcome.ok]

theorem fail (e : ε) (s : σ) : (Outcome.fail e s : Outcome ε σ α).OnlyAssembles := by
  simp [OnlyAssembles, Outcome.fail]

theorem after {o : Outcome ε σ α} {earlier : List Event} (h : o.OnlyAssembles)
    (he : ∀ ev ∈ earlier, ev.isAssembly = true) : (o.after earlier).OnlyAssembles := by
  intro ev hev
  rcases List.mem_append.1 hev with hev | hev
  · exact he ev hev
  · exact h ev hev

theorem andThen {o : Outcome ε σ α} (h : o.OnlyAssembles) {next : α → σ → Outcome ε σ β}
    (hn : ∀ a s, (next a s).OnlyAssembles) : (o.andThen next).OnlyAssembles := by
  unfold Outcome.andThen
  split
  · exact (hn _ _).after h
  · exact h

end Outcome.OnlyAssembles

namespace Assembler
open Outcome (OnlyAssembles)
variable (asm : Assembler) (nr : Nat)

theorem bind_onlyAssembles (label : Token) : (asm.bind label nr).OnlyAssembles := by
  unfold bind
  split <;> simp [OnlyAssembles, Outcome.ok, Event.isAssembly]

theorem emit_onlyAssembles (draft : Draft) : (asm.emit draft nr).OnlyAssembles := by
  unfold emit
  split <;> simp [OnlyAssembles, Outcome.ok, Event.isAssembly]

theorem takeInstruction_onlyAssembles (op : Token) (operands : List Token) :
    (asm.takeInstruction op operands nr).OnlyAssembles := by
  unfold takeInstruction
  split
  · exact .fail _ _
  · refine OnlyAssembles.after ?_ (by simp [Event.isAssembly])
    split
    · exact .fail _ _
    · exact asm.emit_onlyAssembles nr _

theorem begin_onlyAssembles (line : Line) :
    (asm.viaMacros (MacroTable.begin line nr)).OnlyAssembles := by
  unfold viaMacros MacroTable.begin
  split <;> simp [OnlyAssembles, Outcome.mapState, Outcome.ok, Outcome.fail, Event.isAssembly]

theorem finish_onlyAssembles : (asm.viaMacros (MacroTable.finish nr)).OnlyAssembles := by
  unfold viaMacros MacroTable.finish
  split <;> simp [OnlyAssembles, Outcome.mapState, Outcome.ok, Outcome.fail]

variable {expand : Expansion}
  (he : ∀ m body nr (asm : Assembler), (expand m body nr asm).OnlyAssembles)
include he

theorem takeOperation_onlyAssembles (tokens : List Token) :
    (asm.takeOperation expand tokens nr).OnlyAssembles := by
  unfold takeOperation
  split
  · exact asm.emit_onlyAssembles nr _
  · split
    · exact asm.takeInstruction_onlyAssembles nr _ _
    · split
      · exact .fail _ _
      · exact he _ _ _ _

theorem takeWords_onlyAssembles (tokens : List Token) :
    (asm.takeWords expand tokens nr).OnlyAssembles := by
  unfold takeWords
  split
  · exact asm.takeOperation_onlyAssembles nr he _
  · split
    · split
      · exact .fail _ _
      · exact (asm.bind_onlyAssembles nr _).andThen fun _ asm =>
          asm.takeOperation_onlyAssembles nr he _
    · exact asm.takeOperation_onlyAssembles nr he _

theorem takeLineWith_onlyAssembles (line : Line) :
    (asm.takeLineWith expand line nr).OnlyAssembles := by
  unfold takeLineWith takeTrimmed
  split
  · exact .ok _ _
  split
  · exact asm.begin_onlyAssembles nr _
  split
  · exact asm.finish_onlyAssembles nr
  split
  · exact .ok _ _
  · exact asm.takeWords_onlyAssembles nr he _

omit he

theorem takeAll_onlyAssembles {take : Line → Assembler → Taking}
    (step : ∀ line asm, (take line asm).OnlyAssembles) (lines : List Line) :
    (takeAll take lines asm).OnlyAssembles := by
  induction lines generalizing asm with
  | nil => exact .ok _ _
  | cons line rest ih => exact (step line asm).andThen fun _ asm => ih asm

theorem takeLine_onlyAssembles (depth : Nat) (line : Line) :
    (asm.takeLine depth line nr).OnlyAssembles := by
  induction depth generalizing asm nr line with
  | zero => exact asm.takeLineWith_onlyAssembles nr (fun _ _ _ _ => .fail _ _) line
  | succ depth ih =>
    refine asm.takeLineWith_onlyAssembles nr (fun m body nr asm => ?_) line
    exact (asm.takeAll_onlyAssembles (fun line asm => ih asm nr line) body).after
      (by simp [Event.isAssembly])

end Assembler

namespace Session
open Outcome (OnlyAssembles)

theorem takeFrom_onlyAssembles (lines : List Line) (nr : Nat) (s : Session) :
    (takeFrom nr lines s).OnlyAssembles := by
  induction lines generalizing nr s with
  | nil => exact .ok _ _
  | cons line rest ih =>
    have taken := s.assembler.takeLine_onlyAssembles nr maxMacroDepth line
    unfold takeFrom
    dsimp only
    split
    · exact (ih _ _).after taken
    · intro ev hev
      rcases List.mem_append.1 hev with hev | hev
      · exact taken ev hev
      · rw [List.mem_singleton.1 hev]
        rfl

theorem finish_onlyAssembles (s : Session) : s.finish.OnlyAssembles := by
  unfold finish
  split
  · exact .fail _ _
  · exact .fail _ _
  · split <;> simp [OnlyAssembles, Outcome.ok, Outcome.fail, Event.isAssembly]

end Session

theorem Assembler.assemble_onlyAssembles (asm : Assembler) (source : String) :
    (asm.assemble source).OnlyAssembles := by
  have taken : ((Session.start asm).takeText source).OnlyAssembles :=
    Session.takeFrom_onlyAssembles _ 1 _
  unfold assemble
  dsimp only
  split
  · exact taken
  · exact (Session.finish_onlyAssembles _).after taken

/-- What the assembler has done before has no part in what it makes of a text. -/
theorem Assembler.assemble_eq (asm : Assembler) (source : String) :
    asm.assemble source = ({} : Assembler).assemble source := by
  have fresh : Session.start asm = Session.start {} := rfl
  unfold assemble
  rw [fresh]

namespace Computer
variable {ω : Type}

def runAll : List (Nat × String) → Computer ω → List (Machine.Run ω) × Computer ω
  | [], c => ([], c)
  | (fuel, source) :: rest, c =>
    let first := c.runSource fuel source
    let others := runAll rest first.2
    (first.1 :: others.1, others.2)

def accepts (source : String) : Bool := (({} : Assembler).assemble source).result.isOk

structure Alike (c d : Computer ω) : Prop where
  config : c.config = d.config
  machine : c.machine = d.machine
  terminal : c.terminal = d.terminal

theorem runSource_of_error (c : Computer ω) (fuel : Nat) {source : String} {e : ParseError}
    (rejected : (({} : Assembler).assemble source).result = .error e) :
    c.runSource fuel source =
      let o := ({} : Assembler).assemble source
      (⟨.failed (.assembly e), c.machine, 0, o.events.toArray⟩,
        { c with assembler := o.state }) := by
  simp only [runSource, c.assembler.assemble_eq source, rejected]

theorem runSource_of_ok (c : Computer ω) (fuel : Nat) {source : String} {p : Program}
    (taken : (({} : Assembler).assemble source).result = .ok p) :
    c.runSource fuel source =
      let o := ({} : Assembler).assemble source
      let direct := (c.machine.load p).run fuel
      ({ direct with events := o.events.toArray ++ direct.events },
        { c with machine := direct.machine, assembler := o.state }) := by
  simp only [runSource, c.assembler.assemble_eq source, taken]

theorem Alike.runSource {c d : Computer ω} (h : Alike c d) (fuel : Nat) (source : String) :
    (c.runSource fuel source).1 = (d.runSource fuel source).1 ∧
      Alike (c.runSource fuel source).2 (d.runSource fuel source).2 := by
  cases ho : (({} : Assembler).assemble source).result with
  | error e =>
    rw [c.runSource_of_error fuel ho, d.runSource_of_error fuel ho, ← h.machine]
    exact ⟨rfl, h.config, rfl, h.terminal⟩
  | ok p =>
    rw [c.runSource_of_ok fuel ho, d.runSource_of_ok fuel ho, ← h.machine]
    exact ⟨rfl, h.config, rfl, h.terminal⟩

theorem alike_of_rejected (c : Computer ω) (fuel : Nat) {source : String}
    (rejected : accepts source = false) : Alike c (c.runSource fuel source).2 ∧
      (c.runSource fuel source).1.events.toList.filter (!·.isAssembly) = [] := by
  unfold accepts at rejected
  cases ho : (({} : Assembler).assemble source).result with
  | ok p => simp [ho, Except.isOk, Except.toBool] at rejected
  | error e =>
    rw [c.runSource_of_error fuel ho]
    refine ⟨⟨rfl, rfl, rfl⟩, List.filter_eq_nil_iff.2 fun ev hev => ?_⟩
    have : ev.isAssembly = true :=
      ({} : Assembler).assemble_onlyAssembles source ev (by simpa using hev)
    simp [this]

/-- Texts that are rejected can be left out. -/
theorem Alike.runAll_filter {c d : Computer ω} (h : Alike c d) (calls : List (Nat × String)) :
    let all := runAll calls c
    let kept := runAll (calls.filter fun call => accepts call.2) d
    kept.1 = ((calls.zip all.1).filter fun x => accepts x.1.2).map (·.2) ∧ Alike all.2 kept.2 ∧
      (kept.1.flatMap fun r => r.events.toList.filter (!·.isAssembly)) =
        all.1.flatMap fun r => r.events.toList.filter (!·.isAssembly) := by
  induction calls generalizing c d with
  | nil => exact ⟨rfl, h, rfl⟩
  | cons call rest ih =>
    obtain ⟨fuel, source⟩ := call
    cases ha : accepts source with
    | true =>
      obtain ⟨same, h'⟩ := h.runSource fuel source
      obtain ⟨results, alike, events⟩ := ih h'
      simp only [List.filter_cons, ha, if_true, runAll, List.zip_cons_cons, List.map_cons,
        List.flatMap_cons, same]
      exact ⟨by rw [results], alike, by rw [events]⟩
    | false =>
      obtain ⟨same, silent⟩ := c.alike_of_rejected fuel ha
      have h' : Alike (c.runSource fuel source).2 d :=
        ⟨same.config.symm.trans h.config, same.machine.symm.trans h.machine,
          same.terminal.symm.trans h.terminal⟩
      obtain ⟨results, alike, events⟩ := ih h'
      simp only [List.filter_cons, ha, Bool.false_eq_true, if_false, runAll, List.zip_cons_cons,
        List.flatMap_cons, silent, List.nil_append]
      exact ⟨results, alike, events⟩

/-- Leaving out the texts that are rejected changes nothing of what comes of the others, nor the
machine with its memory, its devices and the outside world, nor what machine and devices report.
Whether a text is rejected does not depend on earlier texts. A text that is rejected is answered by
its error and leaves the machine with the program that it has; a text that is taken is run as the
program that a new assembler makes of it. -/
theorem rejected_sources_leave_no_trace (c : Computer ω) :
    (∀ calls : List (Nat × String),
      let all := c.runAll calls
      let kept := c.runAll (calls.filter fun call => accepts call.2)
      kept.1 = ((calls.zip all.1).filter fun x => accepts x.1.2).map (·.2) ∧
      kept.2.machine = all.2.machine ∧ kept.2.config = all.2.config ∧
      kept.2.terminal = all.2.terminal ∧
      (kept.1.flatMap fun r => r.events.toList.filter (!·.isAssembly)) =
        all.1.flatMap fun r => r.events.toList.filter (!·.isAssembly)) ∧
    ∀ fuel source,
      let o := ({} : Assembler).assemble source
      let r := (c.runSource fuel source).1
      let after := (c.runSource fuel source).2
      c.assembler.assemble source = o ∧
      (∀ e, o.result = .error e →
        r.ending = .failed (.assembly e) ∧ r.machine = c.machine ∧ after.machine = c.machine) ∧
      ∀ p, o.result = .ok p →
        let direct := (c.machine.load p).run fuel
        r.ending = direct.ending ∧ r.steps = direct.steps ∧ r.machine = direct.machine ∧
          after.machine = direct.machine ∧ r.events.toList = o.events ++ direct.events.toList := by
  refine ⟨fun calls => ?_, fun fuel source =>
    ⟨c.assembler.assemble_eq source, fun e rejected => ?_, fun p taken => ?_⟩⟩
  · obtain ⟨results, alike, events⟩ := (Alike.mk rfl rfl rfl : Alike c c).runAll_filter calls
    exact ⟨results, alike.machine.symm, alike.config.symm, alike.terminal.symm, events⟩
  · rw [c.runSource_of_error fuel rejected]
    exact ⟨rfl, rfl, rfl⟩
  · rw [c.runSource_of_ok fuel taken]
    exact ⟨rfl, rfl, rfl, rfl, by simp⟩

theorem rejected_sources_leave_no_trace_between :
    let c : Computer Unit :=
      { config := {}, machine := .onBus (.ofSize 4 ()) 2, terminal := ⟨0⟩,
        assembler := (({} : Assembler).assemble "top:\n#begin half\nexit").state }
    let unclosed := "loadi v0 7\n#begin twice"
    let kept := [(9, "loadi v0 20\npush v0\nexit"), (9, "addi v0 1 v0\nexit")]
    (c.runAll [(9, "loadi v0 20\npush v0\nexit"), (9, unclosed), (9, "jump top"),
        (9, "addi v0 1 v0\nexit")]).2.machine = (c.runAll kept).2.machine ∧
      (c.runAll kept).2.machine.registers.get .v0 = 21 ∧
      (c.runSource 9 unclosed).1.ending = .failed (.assembly ⟨2, .unclosedMacro "twice".toList⟩) ∧
      (c.runSource 9 "exit").1.ending = .finished := by
  intro c unclosed kept
  have holds := c.rejected_sources_leave_no_trace
  have left : ([(9, "loadi v0 20\npush v0\nexit"), (9, unclosed), (9, "jump top"),
      (9, "addi v0 1 v0\nexit")] : List (Nat × String)).filter (fun call => accepts call.2) =
        kept := by
    decide +kernel
  refine ⟨?_, by decide +kernel, ?_, ?_⟩
  · rw [← left]
    exact (holds.1 _).2.1.symm
  · exact ((holds.2 9 unclosed).2.1 _ (by decide +kernel)).1
  · have taken : (({} : Assembler).assemble "exit").result = .ok (.ofArray #[.exit]) := by
      decide +kernel
    rw [((holds.2 9 "exit").2.2 _ taken).1]
    rfl

end Computer

end RegisterMachine
