import RegisterMachine.Memory.Bus
/-! Devices while an access is under way. The bus refuses whatever they ask for, so that they work
on the outside world alone; an access then comes to a storage cell, one device call or a fault. -/
namespace RegisterMachine

/-- Carries out a script on the outside world alone: every request in it is refused. -/
def Script.alone {ω W α : Type} : Script ω W α → ω → Outcome Fault ω α
  | .reply a, world => .ok a world
  | .tell event next, world => (next.alone world).after [event]
  | .look next, world => (next world).alone world
  | .put world next, _ => next.alone world
  | .ask _ next, world => (next (.error .reentrantAccess)).alone world

theorem Script.alone_result {ω W α : Type} (script : Script ω W α) (world : ω) :
    ∃ a, (script.alone world).result = .ok a := by
  induction script generalizing world with
  | reply a => exact ⟨a, rfl⟩
  | tell event next ih => exact ih world
  | look next ih => exact ih world world
  | put world' next ih => exact ih world'
  | ask r next ih => exact ih (.error .reentrantAccess) world

namespace Window
variable {ω : Type}

def callRead (h : Handle) (w : Window ω) (a : Word) (world : ω) : Outcome Fault ω Word :=
  match w.onRead with
  | none => .ok 0 world
  | some f => ((f a).alone world).after [.deviceRead h a]

def callWrite (h : Handle) (w : Window ω) (a value : Word) (world : ω) : Outcome Fault ω Unit :=
  match w.onWrite with
  | none => .ok () world
  | some f => ((f a value).alone world).after [.deviceWritten h a value]

end Window

namespace Bus
variable {ω α : Type} {b : Bus ω} {a value : Word}

theorem serve_busy (depth : Nat) (r : Request (Window ω)) (busy : b.busy = true) :
    serve depth r b = .fail .reentrantAccess b := by
  cases depth with
  | zero => rfl
  | succ depth => simp [serve, holding, busy]

theorem play_busy (depth : Nat) (script : Script ω (Window ω) α) (busy : b.busy = true) :
    play (serve depth) script b =
      (script.alone b.world).mapState fun world => { b with world } := by
  induction script generalizing b with
  | reply a => rfl
  | tell event next ih =>
    simp only [play, Script.alone, ih busy]
    rfl
  | look next ih => exact ih b.world busy
  | put world next ih => exact ih (b := { b with world }) busy
  | ask r next ih =>
    simp only [play, Script.alone, serve_busy depth r busy]
    exact ih (.error .reentrantAccess) busy

variable (idle : b.busy = false)
include idle

theorem read_cell {i : Fin b.memory.cells.size} (h : b.memory.cell? a = some i) :
    b.read a = .ok (getElem b.memory.cells i.val i.isLt) b := by
  obtain ⟨memory, world, busy⟩ := b
  subst idle
  simp only [read, holding, readCell, h]
  rfl

theorem write_cell {i : Fin b.memory.cells.size} (h : b.memory.cell? a = some i) :
    b.write a value =
      .ok () { b with memory := { b.memory with cells := b.memory.cells.set i value i.isLt } } := by
  obtain ⟨memory, world, busy⟩ := b
  subst idle
  simp only [write, holding, writeCell, h]
  rfl

theorem read_window (hc : b.memory.cell? a = none) {h : Handle} {w : Window ω}
    (hw : b.memory.windowAt? a = some (h, w)) :
    b.read a = (w.callRead h a b.world).mapState fun world => { b with world } := by
  obtain ⟨memory, world, busy⟩ := b
  subst idle
  simp only [read, holding, readCell, hc, hw, Window.callRead]
  cases w.onRead with
  | none => rfl
  | some f =>
    simp only [play_busy 1 (f a) (b := ⟨memory, world, true⟩) rfl]
    rfl

theorem write_window (hc : b.memory.cell? a = none) {h : Handle} {w : Window ω}
    (hw : b.memory.windowAt? a = some (h, w)) :
    b.write a value = (w.callWrite h a value b.world).mapState fun world => { b with world } := by
  obtain ⟨memory, world, busy⟩ := b
  subst idle
  simp only [write, holding, writeCell, hc, hw, Window.callWrite]
  cases w.onWrite with
  | none => rfl
  | some f =>
    simp only [play_busy 1 (f a value) (b := ⟨memory, world, true⟩) rfl]
    rfl

theorem read_unowned (hc : b.memory.cell? a = none) (hw : b.memory.windowAt? a = none) :
    b.read a = .fail (.memoryOutOfBounds a) b := by
  obtain ⟨memory, world, busy⟩ := b
  subst idle
  simp only [read, holding, readCell, hc, hw]
  rfl

theorem write_unowned (hc : b.memory.cell? a = none) (hw : b.memory.windowAt? a = none) :
    b.write a value = .fail (.memoryOutOfBounds a) b := by
  obtain ⟨memory, world, busy⟩ := b
  subst idle
  simp only [write, holding, writeCell, hc, hw]
  rfl

theorem attach_ok {w : Window ω} {h : Handle} {memory : Memory ω}
    (ok : b.memory.attach w = .ok (h, memory)) :
    b.attach w = .ok h { b with memory } [.windowAttached w.extent.base w.extent.stop] := by
  obtain ⟨old, world, busy⟩ := b
  subst idle
  simp only [attach, holding, attachWindow, ok]
  rfl

theorem attach_refused {w : Window ω} {e : Fault} (refused : b.memory.attach w = .error e) :
    b.attach w = .fail e b := by
  obtain ⟨memory, world, busy⟩ := b
  subst idle
  simp only [attach, holding, attachWindow, refused]
  rfl

theorem detach_eq (h : Handle) :
    b.detach h = .ok (b.memory.detach h).1 { b with memory := (b.memory.detach h).2 } := by
  obtain ⟨memory, world, busy⟩ := b
  subst idle
  rfl

end Bus

end RegisterMachine
