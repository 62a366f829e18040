import RegisterMachine.Memory.Basic
import RegisterMachine.Outcome
/-! The bus: a memory together with the outside world of its devices. One access is under way at a
time, and what asks for the memory meanwhile, a device or the holder of the bus, is refused. -/
namespace RegisterMachine

structure Bus (ω : Type) where
  memory : Memory ω
  world : ω
  busy : Bool := false

abbrev Service (ω : Type) := Request (Window ω) → Bus ω → Outcome Fault (Bus ω) Answer

namespace Bus
variable {ω α : Type}

def ofSize (n : Nat) (world : ω) : Bus ω := { memory := .ofSize n, world }

def play (serve : Service ω) : Script ω (Window ω) α → Bus ω → Outcome Fault (Bus ω) α
  | .reply a, b => .ok a b
  | .tell event next, b => (play serve next b).after [event]
  | .look next, b => play serve (next b.world) b
  | .put world next, b => play serve next { b with world }
  | .ask r next, b =>
    let o := serve r b
    (play serve (next o.result) o.state).after o.events

/-- Keeps the bus busy for the length of an access, and refuses it on a busy bus. -/
def holding (access : Bus ω → Outcome Fault (Bus ω) α) (b : Bus ω) : Outcome Fault (Bus ω) α :=
  if b.busy then .fail .reentrantAccess b
  else (access { b with busy := true }).mapState fun b => { b with busy := false }

def readCell (serve : Service ω) (a : Word) (b : Bus ω) : Outcome Fault (Bus ω) Word :=
  match b.memory.cell? a with
  | some i => .ok b.memory.cells[i] b
  | none =>
    match b.memory.windowAt? a with
    | none => .fail (.memoryOutOfBounds a) b
    | some (h, w) =>
      match w.onRead with
      | none => .ok 0 b
      | some f => (play serve (f a) b).after [.deviceRead h a]

def writeCell (serve : Service ω) (a value : Word) (b : Bus ω) : Outcome Fault (Bus ω) Unit :=
  match b.memory.cell? a with
  | some i =>
    .ok () { b with memory := { b.memory with cells := b.memory.cells.set i value i.isLt } }
  | none =>
    match b.memory.windowAt? a with
    | none => .fail (.memoryOutOfBounds a) b
    | some (h, w) =>
      match w.onWrite with
      | none => .ok () b
      | some f => (play serve (f a value) b).after [.deviceWritten h a value]

def attachWindow (w : Window ω) (b : Bus ω) : Outcome Fault (Bus ω) Handle :=
  match b.memory.attach w with
  | .error e => .fail e b
  | .ok (h, memory) =>
    .ok h { b with memory } [.windowAttached w.extent.base w.extent.stop]

def detachWindow (h : Handle) (b : Bus ω) : Outcome Fault (Bus ω) (Option (Window ω)) :=
  let (w, memory) := b.memory.detach h
  .ok w { b with memory }

def perform (serve : Service ω) : Service ω
  | .read a, b => (readCell serve a b).map .word
  | .write a value, b => (writeCell serve a value b).map fun _ => .done
  | .attach w, b => (attachWindow w b).map .attached
  | .detach h, b => (detachWindow h b).map fun w => .detached (w.map Window.extent)
  | .hold, b => .ok .done b

/-- Answers requests that come from devices, down to a depth of requests within requests. A request
that comes while the bus is busy is refused whatever the depth. -/
def serve : Nat → Service ω
  | 0, _, b => .fail .reentrantAccess b
  | depth + 1, r, b => holding (perform (serve depth) r) b

def run (script : Script ω (Window ω) α) (b : Bus ω) : Outcome Fault (Bus ω) α :=
  play (serve 1) script b

def read (a : Word) (b : Bus ω) : Outcome Fault (Bus ω) Word := holding (readCell (serve 1) a) b

def write (a value : Word) (b : Bus ω) : Outcome Fault (Bus ω) Unit :=
  holding (writeCell (serve 1) a value) b

def attach (w : Window ω) (b : Bus ω) : Outcome Fault (Bus ω) Handle :=
  holding (attachWindow w) b

def detach (h : Handle) (b : Bus ω) : Outcome Fault (Bus ω) (Option (Window ω)) :=
  holding (detachWindow h) b

end Bus

end RegisterMachine
