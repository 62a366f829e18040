import RegisterMachine.Memory.Bus
/-! The terminal: a device that shows the characters written to the first address of its window. -/
namespace RegisterMachine.Terminal
variable {ω : Type}

def span : Word := 16

def character? (w : Word) : Option Char :=
  if 0 ≤ w.toInt ∧ w.toInt.toNat.isValidChar then some (Char.ofNat w.toInt.toNat) else none

def emit (sink : Char → ω → ω) (w : Word) : Script ω (Window ω) Unit :=
  match character? w with
  | some c => .change (sink c)
  | none => .tell (.characterDropped w) (.reply ())

/-- The window of a terminal at an address. Writes past the first address have no effect, and every
read gives zero. -/
def window (base : Word) (sink : Char → ω → ω) : Except Fault (Window ω) :=
  (Extent.make base span).map fun e =>
    { extent := e
      onRead := some fun _ => .reply 0
      onWrite := some fun a w => if a = base then emit sink w else .reply () }

def attach (base : Word) (sink : Char → ω → ω) (b : Bus ω) : Outcome Fault (Bus ω) Handle :=
  match window base sink with
  | .error e => .fail e b
  | .ok w => (b.attach w).reporting (.terminalAttached base w.extent.stop)

end RegisterMachine.Terminal
