import RegisterMachine.Fault
/-! The call stack: slots that the stack pointer names. It does not know where its top is. -/
namespace RegisterMachine

structure Stack where
  slots : Array Word
  deriving DecidableEq, Repr

namespace Stack

def ofCapacity (n : Nat) : Stack := ⟨Array.replicate n 0⟩

def capacity (s : Stack) : Nat := s.slots.size

def slot (s : Stack) (w : Word) : Except Fault (Fin s.slots.size) :=
  match Word.index? w s.slots.size with
  | some i => .ok i
  | none => .error (if w.toInt < 0 then .stackUnderflow w else .stackOverflow w)

/-- The word in a slot: what was written there last, be it above the stack pointer. -/
def read (s : Stack) (w : Word) : Except Fault Word := (s.slot w).map fun i => s.slots[i]

def write (s : Stack) (w value : Word) : Except Fault Stack :=
  (s.slot w).map fun (i : Fin s.slots.size) => ⟨s.slots.set i value i.isLt⟩

theorem slot_eq_ok_iff (s : Stack) (w : Word) (i : Fin s.slots.size) :
    s.slot w = .ok i ↔ w.toInt = i.val := by
  rw [← Word.index?_eq_some_iff, slot]
  cases Word.index? w s.slots.size <;> simp

theorem capacity_write {s t : Stack} {w value : Word} (h : s.write w value = .ok t) :
    t.capacity = s.capacity := by
  unfold write at h
  cases hs : s.slot w with
  | error e => simp [hs, Except.map] at h
  | ok i =>
    simp only [hs, Except.map, Except.ok.injEq] at h
    simp [← h, capacity]

end Stack

end RegisterMachine
