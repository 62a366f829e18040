import RegisterMachine.Event
import RegisterMachine.Memory.Extent
/-! Device windows. What a device does when it is accessed is a script: it works on the outside
world, reports events, and may itself ask for the memory. -/
namespace RegisterMachine

inductive Request (W : Type) where
  | read (a : Word)
  | write (a value : Word)
  | attach (w : W)
  | detach (h : Handle)
  /-- The memory for oneself, for a moment. -/
  | hold

inductive Answer where
  | word (w : Word)
  | done
  | attached (h : Handle)
  | detached (e : Option Extent)

/-- A course of action on a world of type `ω` that ends with a value. -/
inductive Script (ω W α : Type) where
  | reply (a : α)
  | tell (event : Event) (next : Script ω W α)
  | look (next : ω → Script ω W α)
  | put (world : ω) (next : Script ω W α)
  | ask (r : Request W) (next : Except Fault Answer → Script ω W α)

namespace Script
variable {ω W α β : Type}

def bind : Script ω W α → (α → Script ω W β) → Script ω W β
  | .reply a, f => f a
  | .tell event next, f => .tell event (next.bind f)
  | .look next, f => .look fun world => (next world).bind f
  | .put world next, f => .put world (next.bind f)
  | .ask r next, f => .ask r fun answer => (next answer).bind f

instance : Monad (Script ω W) where
  pure := .reply
  bind := bind

def change (f : ω → ω) : Script ω W Unit := .look fun world => .put (f world) (.reply ())

end Script

/-- A range of addresses that a device serves. The window stores nothing itself. -/
structure Window (ω : Type) where
  extent : Extent
  /-- What a read of an address does; without it a read gives zero. -/
  onRead : Option (Word → Script ω (Window ω) Word)
  /-- What a write of a value to an address does; without it a write has no effect. -/
  onWrite : Option (Word → Word → Script ω (Window ω) Unit)

namespace Window
variable {ω : Type}

def bare (e : Extent) : Window ω := ⟨e, none, none⟩

def read (w : Window ω) (a : Word) : Script ω (Window ω) Word :=
  match w.onRead with
  | some f => f a
  | none => .reply 0

def write (w : Window ω) (a value : Word) : Script ω (Window ω) Unit :=
  match w.onWrite with
  | some f => f a value
  | none => .reply ()

end Window

end RegisterMachine
