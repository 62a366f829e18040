import RegisterMachine.Fault
/-! Intervals of addresses. -/
namespace RegisterMachine

/-- The addresses from `base` on, `length` of them. Some may lie beyond the largest word. -/
structure Extent where
  base : Word
  length : Word
  base_nonneg : 0 ≤ base.toInt
  length_nonneg : 0 ≤ length.toInt
  deriving DecidableEq

namespace Extent

def make (base length : Word) : Except Fault Extent :=
  if hb : 0 ≤ base.toInt then
    if hl : 0 ≤ length.toInt then .ok ⟨base, length, hb, hl⟩
    else .error (.badWindow (.negativeLength length))
  else .error (.badWindow (.negativeBase base))

def stop (e : Extent) : Int := e.base.toInt + e.length.toInt

def contains (e : Extent) (a : Word) : Bool := e.base.toInt ≤ a.toInt && a.toInt < e.stop

def overlaps (e f : Extent) : Bool := e.base.toInt < f.stop && f.base.toInt < e.stop

theorem contains_iff (e : Extent) (a : Word) :
    e.contains a = true ↔ e.base.toInt ≤ a.toInt ∧ a.toInt < e.stop := by
  simp [contains]

theorem overlaps_iff (e f : Extent) :
    e.overlaps f = true ↔ e.base.toInt < f.stop ∧ f.base.toInt < e.stop := by
  simp [overlaps]

theorem overlaps_of_contains {e f : Extent} {a : Word} (he : e.contains a = true)
    (hf : f.contains a = true) : e.overlaps f = true := by
  rw [contains_iff] at he hf
  exact (overlaps_iff e f).2 ⟨by omega, by omega⟩

theorem overlaps_comm (e f : Extent) : e.overlaps f = f.overlaps e := by
  simp [overlaps, Bool.and_comm]

end Extent

end RegisterMachine
