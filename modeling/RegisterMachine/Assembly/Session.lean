import RegisterMachine.Assembly.Assembler
import RegisterMachine.Program
/-! Sessions: one program from any number of source fragments. A session that has failed takes
nothing more and repeats its error. -/
namespace RegisterMachine

structure Session where
  assembler : Assembler
  failure : Option ParseError := none
  deriving DecidableEq, Repr

namespace Session

def start (asm : Assembler) : Session := { assembler := asm.clear }

def takeFrom : Nat → List Line → Session → Outcome ParseError Session Unit
  | _, [], s => .ok () s
  | nr, line :: rest, ⟨asm, failure⟩ =>
    let o := asm.takeLine maxMacroDepth line nr
    match o.result with
    | .ok () => (takeFrom (nr + 1) rest ⟨o.state, failure⟩).after o.events
    | .error e => .fail e ⟨o.state, some e⟩ (o.events ++ [.rejected e])

def takeLines (lines : List Line) (s : Session) : Outcome ParseError Session Unit :=
  match s.failure with
  | some e => .fail e s
  | none => takeFrom 1 lines s

def takeText (source : String) (s : Session) : Outcome ParseError Session Unit :=
  s.takeLines (Text.lines source.toList)

def instructions : List Slot → Except ParseError (List Instruction)
  | [] => .ok []
  | ⟨_, .complete i⟩ :: rest => (instructions rest).map (i :: ·)
  | ⟨line, .waiting _ label⟩ :: _ => .error ⟨line, .undefinedLabel label⟩

/-- Ends the session and gives its program. The labels can still be looked up afterwards. -/
def finish (s : Session) : Outcome ParseError Assembler Program :=
  match s.failure, s.assembler.macros.opened with
  | some e, _ => .fail e s.assembler
  | none, some h => .fail ⟨h.line, .unclosedMacro h.name⟩ s.assembler
  | none, none =>
    match instructions s.assembler.slots.toList with
    | .error e => .fail e s.assembler [.rejected e]
    | .ok is => .ok (.ofArray is.toArray) s.assembler [.assembled is.length]

end Session

namespace Assembler

def assemble (source : String) (asm : Assembler) : Outcome ParseError Assembler Program :=
  let o := (Session.start asm).takeText source
  match o.result with
  | .error e => .fail e o.state.assembler o.events
  | .ok () => o.state.finish.after o.events

end Assembler

end RegisterMachine
