import RegisterMachine.Assembly.Problem
import RegisterMachine.Opcode
import RegisterMachine.Outcome
import RegisterMachine.Register
import RegisterMachine.Text.Replace
/-! Macros: named templates of source lines, and the table of those that a text defines. -/
namespace RegisterMachine

structure Macro where
  name : Token
  params : List Token
  body : List Line
  deriving DecidableEq, Repr

namespace Macro

/-- Puts arguments in place of placeholders in a line, the last parameter first, so that a short
placeholder does not take a part of a longer one. -/
def fill (bindings : List (Token × Token)) (line : Line) : Line :=
  bindings.foldr (fun b line => Text.replace b.1 b.2 line) line

def substitute (m : Macro) (args : List Token) : Except Problem (List Line) :=
  if args.length = m.params.length then .ok (m.body.map (fill (m.params.zip args)))
  else .error (.wrongArity m.name m.params.length args.length)

def opener : Token := "#begin".toList

def closer : Line := "#end".toList

def isOpener (line : Line) : Bool := (Text.words line).head? == some opener

def isCloser (line : Line) : Bool := Text.trim line == closer

def placeholderNumber? : Token → Option Nat
  | '$' :: '+' :: digits => Numeral.magnitude? 10 digits
  | '$' :: digits => Numeral.magnitude? 10 digits
  | _ => none

def checkParams (name : Token) : Nat → List Token → Except Problem Unit
  | _, [] => .ok ()
  | k, p :: rest =>
    if placeholderNumber? p = some k then checkParams name (k + 1) rest
    else .error (.badParameter k name p)

def checkName (name : Token) : Except Problem Unit :=
  if name.head? = some '$' ∨ name.getLast? = some ':' ∨ name.head? = some '#' then
    .error (.badMacroName name)
  else if (Opcode.ofMnemonic? name).isSome then .error (.macroNamedAsInstruction name)
  else if (Register.ofName? name).isSome then .error (.macroNamedAsRegister name)
  else .ok ()

end Macro

structure MacroHeader where
  name : Token
  params : List Token
  line : Nat
  deriving DecidableEq, Repr

structure MacroTable where
  buffer : Array Line := #[]
  /-- The macros to use, the latest first. -/
  defined : List Macro := []
  opened : Option MacroHeader := none
  deriving DecidableEq, Repr

namespace MacroTable

def find? (t : MacroTable) (name : Token) : Option Macro := t.defined.find? fun m => m.name == name

def readHeader (t : MacroTable) (line : Line) : Except Problem (Token × List Token) := do
  if let some h := t.opened then throw (.nestedDefinition h.name)
  match (Text.words line).drop 1 with
  | [] => throw .namelessMacro
  | name :: params =>
    Macro.checkName name
    if (t.find? name).isSome then throw (.macroRedefined name)
    Macro.checkParams name 1 params
    return (name, params)

def begin (line : Line) (nr : Nat) (t : MacroTable) : Outcome ParseError MacroTable Unit :=
  match t.readHeader line with
  | .error p => .fail ⟨nr, p⟩ t
  | .ok (name, params) =>
    .ok () { t with opened := some ⟨name, params, nr⟩ } [.macroOpened nr name params.length]

def add (line : Line) (t : MacroTable) : MacroTable := { t with buffer := t.buffer.push line }

def finish (nr : Nat) (t : MacroTable) : Outcome ParseError MacroTable Unit :=
  match t.opened with
  | none => .fail ⟨nr, .strayMacroEnd⟩ t
  | some h =>
    .ok ()
      { buffer := #[], defined := ⟨h.name, h.params, t.buffer.toList⟩ :: t.defined, opened := none }

def clear (t : MacroTable) : MacroTable := { t with buffer := #[], defined := [], opened := none }

end MacroTable

end RegisterMachine
