import RegisterMachine.Memory.Bus
/-! Visits: what the holder of a memory does with it while everybody else is refused. -/
namespace RegisterMachine

/-- A course of action with a memory in hand. Like a device, the visitor may also ask for the memory
by a handle. -/
inductive Visit (ω α : Type) where
  | reply (a : α)
  | tell (event : Event) (next : Visit ω α)
  | look (next : ω → Visit ω α)
  | put (world : ω) (next : Visit ω α)
  | inspect (next : Memory ω → Visit ω α)
  | replace (memory : Memory ω) (next : Visit ω α)
  | direct (r : Request (Window ω)) (next : Except Fault Answer → Visit ω α)
  | ask (r : Request (Window ω)) (next : Except Fault Answer → Visit ω α)

namespace Bus
variable {ω α : Type}

def carryOut (serve : Service ω) : Visit ω α → Bus ω → Outcome Fault (Bus ω) α
  | .reply a, b => .ok a b
  | .tell event next, b => (carryOut serve next b).after [event]
  | .look next, b => carryOut serve (next b.world) b
  | .put world next, b => carryOut serve next { b with world }
  | .inspect next, b => carryOut serve (next b.memory) b
  | .replace memory next, b => carryOut serve next { b with memory }
  | .direct r next, b =>
    let o := perform serve r b
    (carryOut serve (next o.result) o.state).after o.events
  | .ask r next, b =>
    let o := serve r b
    (carryOut serve (next o.result) o.state).after o.events

def visit (v : Visit ω α) (b : Bus ω) : Outcome Fault (Bus ω) α := holding (carryOut (serve 1) v) b

end Bus

end RegisterMachine
