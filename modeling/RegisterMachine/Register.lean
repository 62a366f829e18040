import RegisterMachine.Word
import RegisterMachine.Text.Lower
/-! Registers, and the file that holds their values. The zero register reads as zero and takes no
value. -/
namespace RegisterMachine

inductive Register where
  | pc
  | v0 | v1 | v2 | v3
  | ra
  | sp
  /-- Remainder of a division; zero after another operation. -/
  | ex
  | ze
  deriving DecidableEq, Repr

namespace Register

def all : List Register := [.pc, .v0, .v1, .v2, .v3, .ra, .sp, .ex, .ze]

def name : Register → String
  | .pc => "PC"
  | .v0 => "V0"
  | .v1 => "V1"
  | .v2 => "V2"
  | .v3 => "V3"
  | .ra => "RA"
  | .sp => "SP"
  | .ex => "EX"
  | .ze => "ZE"

def number (r : Register) : Nat := all.idxOf r

def ofName? (t : Token) : Option Register :=
  all.find? fun r => Text.sameName r.name.toList t

theorem mem_all (r : Register) : r ∈ all := by cases r <;> decide

end Register

/-- The zero register has a cell like the others, which holds zero at all times. -/
structure RegisterFile where
  pc : Word := 0
  v0 : Word := 0
  v1 : Word := 0
  v2 : Word := 0
  v3 : Word := 0
  ra : Word := 0
  sp : Word := 0
  ex : Word := 0
  ze : Word := 0
  ze_eq : ze = 0 := by rfl
  deriving DecidableEq, Repr

namespace RegisterFile

def get (f : RegisterFile) : Register → Word
  | .pc => f.pc
  | .v0 => f.v0
  | .v1 => f.v1
  | .v2 => f.v2
  | .v3 => f.v3
  | .ra => f.ra
  | .sp => f.sp
  | .ex => f.ex
  | .ze => f.ze

/-- Writes a register; what is written to the zero register is dropped. -/
def set (f : RegisterFile) (r : Register) (w : Word) : RegisterFile :=
  match r with
  | .pc => { f with pc := w }
  | .v0 => { f with v0 := w }
  | .v1 => { f with v1 := w }
  | .v2 => { f with v2 := w }
  | .v3 => { f with v3 := w }
  | .ra => { f with ra := w }
  | .sp => { f with sp := w }
  | .ex => { f with ex := w }
  | .ze => f

def values (f : RegisterFile) : List Word := Register.all.map f.get

def line (r : Register) (w : Word) : String := s!"{r.name}: {w}"

theorem ext_get {f g : RegisterFile} (same : ∀ r, f.get r = g.get r) : f = g := by
  cases f
  cases g
  simp only [RegisterFile.mk.injEq]
  exact ⟨same .pc, same .v0, same .v1, same .v2, same .v3, same .ra, same .sp, same .ex, same .ze⟩

theorem get_set_self (f : RegisterFile) (r : Register) (w : Word) (h : r ≠ .ze) :
    (f.set r w).get r = w := by
  cases r <;> first | rfl | exact absurd rfl h

theorem get_set_of_ne (f : RegisterFile) {r s : Register} (w : Word) (h : s ≠ r) :
    (f.set r w).get s = f.get s := by
  cases r <;> cases s <;> first | rfl | exact absurd rfl h

@[simp] theorem get_ze (f : RegisterFile) : f.get .ze = 0 := f.ze_eq

end RegisterFile

end RegisterMachine
