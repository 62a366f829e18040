import RegisterMachine.Memory.Window
/-! Word memory: primary storage from address zero on, and device windows above it. -/
namespace RegisterMachine

structure Memory (ω : Type) where
  cells : Array Word
  windows : List (Handle × Window ω)
  nextHandle : Nat

namespace Memory
variable {ω : Type}

def ofSize (n : Nat) : Memory ω := ⟨Array.replicate n 0, [], 0⟩

def size (m : Memory ω) : Nat := m.cells.size

def cell? (m : Memory ω) (a : Word) : Option (Fin m.cells.size) := Word.index? a m.cells.size

def windowAt? (m : Memory ω) (a : Word) : Option (Handle × Window ω) :=
  m.windows.find? fun p => p.2.extent.contains a

/-- Adds a window under a new handle. It must start past the primary storage and overlap no window
that is there. -/
def attach (w : Window ω) (m : Memory ω) : Except Fault (Handle × Memory ω) :=
  if w.extent.base.toInt < m.cells.size then
    .error (.badWindow (.insideMemory w.extent.base m.cells.size))
  else if m.windows.any fun p => p.2.extent.overlaps w.extent then
    .error (.windowOverlap w.extent.base w.extent.stop)
  else
    let h : Handle := ⟨m.nextHandle⟩
    .ok (h, { m with windows := m.windows ++ [(h, w)], nextHandle := m.nextHandle + 1 })

/-- Takes away the window of a handle. An unknown handle changes nothing. -/
def detach (h : Handle) (m : Memory ω) : Option (Window ω) × Memory ω :=
  ((m.windows.find? fun p => p.1 == h).map (·.2),
    { m with windows := m.windows.eraseP fun p => p.1 == h })

end Memory

end RegisterMachine
