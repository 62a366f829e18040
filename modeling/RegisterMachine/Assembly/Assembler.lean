import RegisterMachine.Assembly.Label
import RegisterMachine.Assembly.Macro
import RegisterMachine.Assembly.Operand
/-! The assembler: it takes source lines one by one. A branch may name a label that no line has
defined yet; it waits until one does, and its target is filled in then. -/
namespace RegisterMachine

structure Slot where
  line : Nat
  draft : Draft
  deriving DecidableEq, Repr

structure Assembler where
  /-- The labels with the index of the instruction that each names, the latest first. -/
  labels : List (Token × Nat) := []
  macros : MacroTable := {}
  /-- The labels that are waited for, each with the index of a slot that waits, by index. -/
  pending : Array (Token × Nat) := #[]
  slots : Array Slot := #[]
  deriving DecidableEq, Repr

namespace Assembler

abbrev Taking := Outcome ParseError Assembler Unit

def clear (asm : Assembler) : Assembler :=
  { asm with labels := [], macros := asm.macros.clear, pending := #[], slots := #[] }

def bound? (asm : Assembler) (label : Token) : Option Nat := asm.labels.lookup label

def label? (asm : Assembler) (name : String) : Option Nat := asm.bound? (Text.lower name.toList)

def waitingFor (asm : Assembler) (label : Token) : List Nat :=
  (asm.pending.toList.filter fun w => w.1 == label).map (·.2)

/-- Gives a label the index of the next instruction and completes what waits for it. A label that
is bound already keeps its index. -/
def bind (label : Token) (nr : Nat) (asm : Assembler) : Taking :=
  match asm.bound? label with
  | some index => .ok () asm [.labelRebound nr label index]
  | none =>
    let index := asm.slots.size
    let fill (slots : Array Slot) (k : Nat) : Array Slot :=
      slots.modify k fun s => { s with draft := s.draft.resolve index }
    .ok ()
      { asm with
        labels := (label, index) :: asm.labels
        pending := asm.pending.filter fun w => w.1 != label
        slots := (asm.waitingFor label).foldl fill asm.slots }
      [.labelBound nr label index]

def emit (draft : Draft) (nr : Nat) (asm : Assembler) : Taking :=
  match draft with
  | .complete _ => .ok () { asm with slots := asm.slots.push ⟨nr, draft⟩ }
  | .waiting _ label =>
    let index := asm.slots.size
    .ok ()
      { asm with
        pending := asm.pending.push (label, index)
        slots := asm.slots.push ⟨nr, draft⟩ }
      [.labelAwaited nr label]

def takeInstruction (op : Token) (operands : List Token) (nr : Nat) (asm : Assembler) : Taking :=
  match Opcode.ofMnemonic? op with
  | none => .fail ⟨nr, .unknownOperation op⟩ asm
  | some opcode =>
    Outcome.after [.instructionFound nr opcode] <|
      match opcode.form.read asm.bound? operands with
      | .error p => .fail ⟨nr, p⟩ asm
      | .ok draft => asm.emit draft nr

/-- What happens at a macro invocation, given the macro and its body with the arguments put in. -/
abbrev Expansion := Macro → List Line → Nat → Assembler → Taking

/-- Takes an operation with its operands: a macro invocation or an instruction. A label without an
operation marks an idle instruction. -/
def takeOperation (expand : Expansion) (tokens : List Token) (nr : Nat) (asm : Assembler) :
    Taking :=
  match tokens with
  | [] => asm.emit (.complete .noop) nr
  | op :: args =>
    match asm.macros.find? op with
    | none => asm.takeInstruction op args nr
    | some m =>
      match m.substitute args with
      | .error p => .fail ⟨nr, p⟩ asm
      | .ok body => expand m body nr asm

def takeWords (expand : Expansion) (tokens : List Token) (nr : Nat) (asm : Assembler) : Taking :=
  match tokens with
  | [] => asm.takeOperation expand [] nr
  | first :: rest =>
    if Label.isMarked first then
      match Label.read first with
      | .error p => .fail ⟨nr, p⟩ asm
      | .ok label => (asm.bind label nr).andThen fun _ asm => asm.takeOperation expand rest nr
    else asm.takeOperation expand (first :: rest) nr

def isSkipped (line : Line) : Bool := line.isEmpty || "//".toList.isPrefixOf line

def viaMacros (step : MacroTable → Outcome ParseError MacroTable Unit) (asm : Assembler) :
    Taking :=
  (step asm.macros).mapState fun macros => { asm with macros }

def takeTrimmed (expand : Expansion) (line : Line) (nr : Nat) (asm : Assembler) : Taking :=
  if isSkipped line then .ok () asm
  else if Macro.isOpener line then asm.viaMacros (MacroTable.begin line nr)
  else if Macro.isCloser line then asm.viaMacros (MacroTable.finish nr)
  else if asm.macros.opened.isSome then .ok () { asm with macros := asm.macros.add line }
  else asm.takeWords expand (Text.words line) nr

def takeLineWith (expand : Expansion) (line : Line) (nr : Nat) (asm : Assembler) : Taking :=
  asm.takeTrimmed expand (Text.lower (Text.trim line)) nr

def takeAll (take : Line → Assembler → Taking) : List Line → Assembler → Taking
  | [], asm => .ok () asm
  | line :: rest, asm => (take line asm).andThen fun _ asm => takeAll take rest asm

/-- Takes a line in which macro invocations may nest to a given depth. The lines of an expansion
bear the number of the invocation. -/
def takeLine : Nat → Line → Nat → Assembler → Taking
  | 0 => takeLineWith fun m _ nr asm => .fail ⟨nr, .tooDeep m.name⟩ asm
  | depth + 1 => takeLineWith fun m body nr asm =>
    (takeAll (fun line asm => takeLine depth line nr asm) body asm).after
      [.macroExpanded nr m.name]

end Assembler

end RegisterMachine
