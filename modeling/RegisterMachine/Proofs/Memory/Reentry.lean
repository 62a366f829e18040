import RegisterMachine.Memory.Visit
import RegisterMachine.Proofs.Memory.Routing
/-! Requests to a memory that come while it is being worked on, from a device or from the holder.
They are refused and change nothing, the work goes on as if they had been left out, and they do not
keep the memory from later requests. -/
namespace RegisterMachine

/-- The same course of action without the requests: what follows a request follows as after a
refusal. -/
def Script.quiet {ω W α : Type} : Script ω W α → Script ω W α
  | .reply a => .reply a
  | .tell event next => .tell event next.quiet
  | .look next => .look fun world => (next world).quiet
  | .put world next => .put world next.quiet
  | .ask _ next => (next (.error .reentrantAccess)).quiet

section
variable {ω : Type}

def Window.quiet (w : Window ω) : Window ω where
  extent := w.extent
  onRead := w.onRead.map fun f a => (f a).quiet
  onWrite := w.onWrite.map fun f a value => (f a value).quiet

def Memory.quiet (m : Memory ω) : Memory ω :=
  { m with windows := m.windows.map fun p => (p.1, p.2.quiet) }

def Bus.quiet (b : Bus ω) : Bus ω := { b with memory := b.memory.quiet }

def Request.quiet : Request (Window ω) → Request (Window ω)
  | .attach w => .attach w.quiet
  | r => r

/-- `Quiets v v'`: with a memory whose devices make no requests, `v'` does what `v` does, but leaves
out the requests that `v` makes by a handle. -/
inductive Visit.Quiets {α : Type} : Visit ω α → Visit ω α → Prop
  | reply (a : α) : Quiets (.reply a) (.reply a)
  | tell (event : Event) {v v' : Visit ω α} (rest : Quiets v v') :
      Quiets (.tell event v) (.tell event v')
  | look {next next' : ω → Visit ω α} (rest : ∀ world, Quiets (next world) (next' world)) :
      Quiets (.look next) (.look next')
  | put (world : ω) {v v' : Visit ω α} (rest : Quiets v v') : Quiets (.put world v) (.put world v')
  | inspect {next next' : Memory ω → Visit ω α} (rest : ∀ m, Quiets (next m) (next' m.quiet)) :
      Quiets (.inspect next) (.inspect next')
  | replace (m : Memory ω) {v v' : Visit ω α} (rest : Quiets v v') :
      Quiets (.replace m v) (.replace m.quiet v')
  | direct (r : Request (Window ω)) {next next' : Except Fault Answer → Visit ω α}
      (rest : ∀ answer, Quiets (next answer) (next' answer)) :
      Quiets (.direct r next) (.direct r.quiet next')
  | ask (r : Request (Window ω)) {next : Except Fault Answer → Visit ω α} {v' : Visit ω α}
      (rest : Quiets (next (.error .reentrantAccess)) v') : Quiets (.ask r next) v'

end

/-- The window that an access comes to, unless it stays in the storage. -/
def Memory.reached? {ω : Type} (m : Memory ω) (a : Word) : Option (Window ω) :=
  match m.cell? a with
  | some _ => none
  | none => (m.windowAt? a).map (·.2)

namespace Bus
variable {ω α : Type}

/-- Requests by a handle, each with the bus as it is when the request comes. -/
abbrev Asked (ω : Type) := List (Request (Window ω) × Bus ω)

def askedBy (serve : Service ω) : Script ω (Window ω) α → Bus ω → Asked ω
  | .reply _, _ => []
  | .tell _ next, b => askedBy serve next b
  | .look next, b => askedBy serve (next b.world) b
  | .put world next, b => askedBy serve next { b with world }
  | .ask r next, b => (r, b) :: askedBy serve (next (serve r b).result) (serve r b).state

def askedDuring (serve : Service ω) : Request (Window ω) → Bus ω → Asked ω
  | .read a, b => (b.memory.reached? a).elim [] fun w => askedBy serve (w.read a) b
  | .write a value, b => (b.memory.reached? a).elim [] fun w => askedBy serve (w.write a value) b
  | .attach _, _ | .detach _, _ | .hold, _ => []

def askedIn (serve : Service ω) : Visit ω α → Bus ω → Asked ω
  | .reply _, _ => []
  | .tell _ next, b => askedIn serve next b
  | .look next, b => askedIn serve (next b.world) b
  | .put world next, b => askedIn serve next { b with world }
  | .inspect next, b => askedIn serve (next b.memory) b
  | .replace memory next, b => askedIn serve next { b with memory }
  | .direct r next, b =>
    let o := perform serve r b
    askedDuring serve r b ++ askedIn serve (next o.result) o.state
  | .ask r next, b => (r, b) :: askedIn serve (next (serve r b).result) (serve r b).state

/-- Work on a memory, piece by piece, leads from the one bus to the other. -/
inductive LeadsTo (b : Bus ω) : Bus ω → Prop
  | start : LeadsTo b b
  | submit {c : Bus ω} (earlier : LeadsTo b c) (r : Request (Window ω)) :
      LeadsTo b (c.submit r).state
  | visit {c : Bus ω} (earlier : LeadsTo b c) {α : Type} (v : Visit ω α) :
      LeadsTo b (c.visit v).state

end Bus

namespace Bus
variable {ω α : Type} {b : Bus ω} {serve serve' : Service ω}

/-! Nothing is missing from the requests that are listed: what a service answers to others has no
part in the outcome. -/

theorem play_congr (script : Script ω (Window ω) α)
    (same : ∀ p ∈ askedBy serve script b, serve' p.1 p.2 = serve p.1 p.2) :
    play serve' script b = play serve script b := by
  induction script generalizing b with
  | reply a => rfl
  | tell event next ih => exact congrArg (Outcome.after [event]) (ih same)
  | look next ih => exact ih b.world same
  | put world next ih => exact ih same
  | ask r next ih =>
    obtain ⟨first, others⟩ := List.forall_mem_cons.1 same
    simp only [play, first, ih _ others]

theorem perform_congr (r : Request (Window ω))
    (same : ∀ p ∈ askedDuring serve r b, serve' p.1 p.2 = serve p.1 p.2) :
    perform serve' r b = perform serve r b := by
  cases r with
  | read a =>
    refine congrArg (Outcome.map Answer.word) ?_
    unfold readCell
    cases hc : b.memory.cell? a with
    | some i => rfl
    | none =>
      cases hw : b.memory.windowAt? a with
      | none => rfl
      | some p =>
        obtain ⟨h, e, onRead, onWrite⟩ := p
        simp only [askedDuring, Memory.reached?, hc, hw, Option.map_some, Option.elim_some,
          Window.read] at same
        cases onRead with
        | none => rfl
        | some f => exact congrArg (Outcome.after _) (play_congr (f a) same)
  | write a value =>
    refine congrArg (Outcome.map fun _ => Answer.done) ?_
    unfold writeCell
    cases hc : b.memory.cell? a with
    | some i => rfl
    | none =>
      cases hw : b.memory.windowAt? a with
      | none => rfl
      | some p =>
        obtain ⟨h, e, onRead, onWrite⟩ := p
        simp only [askedDuring, Memory.reached?, hc, hw, Option.map_some, Option.elim_some,
          Window.write] at same
        cases onWrite with
        | none => rfl
        | some f => exact congrArg (Outcome.after _) (play_congr (f a value) same)
  | attach | detach | hold => rfl

theorem carryOut_congr (v : Visit ω α)
    (same : ∀ p ∈ askedIn serve v b, serve' p.1 p.2 = serve p.1 p.2) :
    carryOut serve' v b = carryOut serve v b := by
  induction v generalizing b with
  | reply a => rfl
  | tell event next ih => exact congrArg (Outcome.after [event]) (ih same)
  | look next ih => exact ih b.world same
  | put world next ih => exact ih same
  | inspect next ih => exact ih b.memory same
  | replace memory next ih => exact ih same
  | direct r next ih =>
    obtain ⟨first, others⟩ := List.forall_mem_append.1 same
    simp only [carryOut, perform_congr r first, ih _ others]
  | ask r next ih =>
    obtain ⟨first, others⟩ := List.forall_mem_cons.1 same
    simp only [carryOut, first, ih _ others]

end Bus

theorem Script.alone_quiet {ω W α : Type} (script : Script ω W α) (world : ω) :
    script.quiet.alone world = script.alone world := by
  induction script generalizing world with
  | reply a => rfl
  | tell event next ih => exact congrArg (Outcome.after [event]) (ih world)
  | look next ih => exact ih world world
  | put world' next ih => exact ih world'
  | ask r next ih => exact ih (.error .reentrantAccess) world

theorem Memory.windowAt?_quiet {ω : Type} (m : Memory ω) (a : Word) :
    m.quiet.windowAt? a = (m.windowAt? a).map fun p => (p.1, p.2.quiet) := by
  simp only [windowAt?, quiet, List.find?_map]
  rfl

theorem Memory.reached?_quiet {ω : Type} (m : Memory ω) (a : Word) :
    m.quiet.reached? a = (m.reached? a).map Window.quiet := by
  unfold reached?
  rw [show m.quiet.cell? a = m.cell? a from rfl, windowAt?_quiet]
  cases m.cell? a with
  | some i => rfl
  | none => cases m.windowAt? a <;> rfl

theorem Window.read_quiet {ω : Type} (w : Window ω) (a : Word) :
    w.quiet.read a = (w.read a).quiet := by
  obtain ⟨e, _ | f, onWrite⟩ := w <;> rfl

theorem Window.write_quiet {ω : Type} (w : Window ω) (a value : Word) :
    w.quiet.write a value = (w.write a value).quiet := by
  obtain ⟨e, onRead, _ | f⟩ := w <;> rfl

theorem Memory.attach_quiet {ω : Type} (m : Memory ω) (w : Window ω) :
    m.quiet.attach w.quiet = (m.attach w).map fun p => (p.1, p.2.quiet) := by
  have overlaps : (m.quiet.windows.any fun p => p.2.extent.overlaps w.quiet.extent) =
      m.windows.any fun p => p.2.extent.overlaps w.extent := by
    simp only [quiet, List.any_map]
    rfl
  unfold attach
  rw [overlaps]
  by_cases low : w.extent.base.toInt < m.cells.size
  · rw [if_pos (show w.quiet.extent.base.toInt < m.quiet.cells.size from low), if_pos low]
    rfl
  · rw [if_neg (show ¬w.quiet.extent.base.toInt < m.quiet.cells.size from low), if_neg low]
    split
    · rfl
    · simp [Except.map, quiet]

theorem Memory.attach_answered {ω : Type} (m : Memory ω) (w : Window ω) :
    m.attach w ≠ .error .reentrantAccess := by
  unfold attach
  split
  · nofun
  · split <;> nofun

theorem Memory.detach_quiet {ω : Type} (m : Memory ω) (h : Handle) :
    m.quiet.detach h = ((m.detach h).1.map Window.quiet, (m.detach h).2.quiet) := by
  simp only [detach, quiet, List.find?_map, List.eraseP_map, Option.map_map]
  rfl

namespace Bus
variable {ω α β : Type} {b : Bus ω}

/-- The bus is still busy, and the answer is not that it is. -/
structure Held (o : Outcome Fault (Bus ω) α) : Prop where
  busy : o.state.busy = true
  answered : o.result ≠ .error .reentrantAccess

theorem Held.map {o : Outcome Fault (Bus ω) α} (h : Held o) (f : α → β) : Held (o.map f) := by
  refine ⟨h.busy, fun refused => h.answered ?_⟩
  obtain ⟨_ | _, _, _⟩ := o <;> simp_all [Outcome.map, Except.map]

theorem Held.after {o : Outcome Fault (Bus ω) α} (h : Held o) (events : List Event) :
    Held (o.after events) :=
  ⟨h.busy, h.answered⟩

section
variable (busy : b.busy = true)
include busy

theorem play_held (depth : Nat) (script : Script ω (Window ω) α) :
    Held (play (serve depth) script b) := by
  obtain ⟨a, answer⟩ := script.alone_result b.world
  rw [play_busy depth script busy]
  exact ⟨busy, by simp [Outcome.mapState, answer]⟩

theorem perform_held (depth : Nat) (r : Request (Window ω)) :
    Held (perform (serve depth) r b) := by
  cases r with
  | read a =>
    refine Held.map ?_ _
    unfold readCell
    split
    · exact ⟨busy, nofun⟩
    split
    · exact ⟨busy, nofun⟩
    split
    · exact ⟨busy, nofun⟩
    · exact (play_held busy depth _).after _
  | write a value =>
    refine Held.map ?_ _
    unfold writeCell
    split
    · exact ⟨busy, nofun⟩
    split
    · exact ⟨busy, nofun⟩
    split
    · exact ⟨busy, nofun⟩
    · exact (play_held busy depth _).after _
  | attach w =>
    refine Held.map ?_ _
    unfold attachWindow
    split
    · rename_i e refused
      refine ⟨busy, fun same => b.memory.attach_answered w ?_⟩
      cases same
      exact refused
    · exact ⟨busy, nofun⟩
  | detach h => exact ⟨busy, nofun⟩
  | hold => exact ⟨busy, nofun⟩

theorem play_quiet (depth : Nat) (script : Script ω (Window ω) α) :
    play (serve depth) script.quiet b.quiet = (play (serve depth) script b).mapState quiet := by
  rw [play_busy depth script.quiet (b := b.quiet) busy, play_busy depth script busy,
    script.alone_quiet]
  rfl

theorem readCell_quiet (depth : Nat) (a : Word) :
    readCell (serve depth) a b.quiet = (readCell (serve depth) a b).mapState quiet := by
  unfold readCell
  rw [show b.quiet.memory.cell? a = b.memory.cell? a from rfl,
    show b.quiet.memory.windowAt? a = _ from b.memory.windowAt?_quiet a]
  cases hc : b.memory.cell? a with
  | some i => rfl
  | none =>
    cases hw : b.memory.windowAt? a with
    | none => rfl
    | some p =>
      obtain ⟨h, e, onRead, onWrite⟩ := p
      cases onRead with
      | none => rfl
      | some f => exact congrArg (Outcome.after [.deviceRead h a]) (play_quiet busy depth (f a))

theorem writeCell_quiet (depth : Nat) (a value : Word) :
    writeCell (serve depth) a value b.quiet =
      (writeCell (serve depth) a value b).mapState quiet := by
  unfold writeCell
  rw [show b.quiet.memory.cell? a = b.memory.cell? a from rfl,
    show b.quiet.memory.windowAt? a = _ from b.memory.windowAt?_quiet a]
  cases hc : b.memory.cell? a with
  | some i => rfl
  | none =>
    cases hw : b.memory.windowAt? a with
    | none => rfl
    | some p =>
      obtain ⟨h, e, onRead, onWrite⟩ := p
      cases onWrite with
      | none => rfl
      | some f =>
        exact congrArg (Outcome.after [.deviceWritten h a value])
          (play_quiet busy depth (f a value))

theorem perform_quiet (depth : Nat) (r : Request (Window ω)) :
    perform (serve depth) r.quiet b.quiet = (perform (serve depth) r b).mapState quiet := by
  cases r with
  | read a => exact congrArg (Outcome.map Answer.word) (readCell_quiet busy depth a)
  | write a value =>
    exact congrArg (Outcome.map fun _ => Answer.done) (writeCell_quiet busy depth a value)
  | attach w =>
    have attached : attachWindow w.quiet b.quiet = (attachWindow w b).mapState quiet := by
      unfold attachWindow
      rw [show b.quiet.memory.attach w.quiet = _ from b.memory.attach_quiet w]
      cases b.memory.attach w <;> rfl
    exact congrArg (Outcome.map Answer.attached) attached
  | detach h =>
    simp only [Request.quiet, perform, detachWindow]
    rw [show b.quiet.memory.detach h = _ from b.memory.detach_quiet h]
    cases (b.memory.detach h).1 <;> rfl
  | hold => rfl

theorem carryOut_quiet (depth : Nat) {v v' : Visit ω α} (quiets : v.Quiets v') :
    carryOut (serve depth) v' b.quiet = (carryOut (serve depth) v b).mapState quiet := by
  induction quiets generalizing b with
  | reply a => rfl
  | tell event rest ih => exact congrArg (Outcome.after [event]) (ih busy)
  | look rest ih => exact ih b.world busy
  | put world rest ih => exact ih (b := { b with world }) busy
  | inspect rest ih => exact ih b.memory busy
  | replace m rest ih => exact ih (b := { b with memory := m }) busy
  | direct r rest ih =>
    have next := ih (perform (serve depth) r b).result (perform_held busy depth r).busy
    simp only [carryOut, perform_quiet busy]
    exact congrArg (Outcome.after _) next
  | ask r rest ih =>
    rw [ih busy]
    simp only [carryOut, serve_busy depth r busy]
    rfl

theorem carryOut_ok (depth : Nat) (v : Visit ω α) :
    (carryOut (serve depth) v b).state.busy = true ∧
      ∃ a, (carryOut (serve depth) v b).result = .ok a := by
  induction v generalizing b with
  | reply a => exact ⟨busy, a, rfl⟩
  | tell event next ih => exact ih busy
  | look next ih => exact ih b.world busy
  | put world next ih => exact ih (b := { b with world }) busy
  | inspect next ih => exact ih b.memory busy
  | replace memory next ih => exact ih (b := { b with memory }) busy
  | direct r next ih => exact ih _ (perform_held busy depth r).busy
  | ask r next ih =>
    simp only [carryOut, serve_busy depth r busy]
    exact ih _ busy

theorem askedBy_held (depth : Nat) (script : Script ω (Window ω) α) :
    ∀ p ∈ askedBy (serve depth) script b, p.2.busy = true ∧ p.2.memory = b.memory := by
  induction script generalizing b with
  | reply a => simp [askedBy]
  | tell event next ih => exact ih busy
  | look next ih => exact ih b.world busy
  | put world next ih => exact ih (b := { b with world }) busy
  | ask r next ih =>
    simp only [askedBy, serve_busy depth r busy, List.forall_mem_cons]
    exact ⟨⟨busy, trivial⟩, ih _ busy⟩

theorem askedDuring_held (depth : Nat) (r : Request (Window ω)) :
    ∀ p ∈ askedDuring (serve depth) r b, p.2.busy = true ∧ p.2.memory = b.memory := by
  cases r with
  | read a | write a =>
    simp only [askedDuring]
    cases b.memory.reached? a with
    | none => simp
    | some w => exact askedBy_held busy depth _
  | attach | detach | hold => simp [askedDuring]

theorem askedIn_busy (depth : Nat) (v : Visit ω α) :
    ∀ p ∈ askedIn (serve depth) v b, p.2.busy = true := by
  induction v generalizing b with
  | reply a => simp [askedIn]
  | tell event next ih => exact ih busy
  | look next ih => exact ih b.world busy
  | put world next ih => exact ih (b := { b with world }) busy
  | inspect next ih => exact ih b.memory busy
  | replace memory next ih => exact ih (b := { b with memory }) busy
  | direct r next ih =>
    simp only [askedIn, List.forall_mem_append]
    exact ⟨fun p hp => (askedDuring_held busy depth r p hp).1,
      ih _ (perform_held busy depth r).busy⟩
  | ask r next ih =>
    simp only [askedIn, serve_busy depth r busy, List.forall_mem_cons]
    exact ⟨busy, ih _ busy⟩

end

theorem askedBy_quiet (serve : Service ω) (script : Script ω (Window ω) α) :
    askedBy serve script.quiet b = [] := by
  induction script generalizing b with
  | reply a => rfl
  | tell event next ih => exact ih
  | look next ih => exact ih b.world
  | put world next ih => exact ih
  | ask r next ih => exact ih (.error .reentrantAccess)

theorem askedDuring_quiet (serve : Service ω) (r : Request (Window ω)) :
    askedDuring serve r.quiet b.quiet = [] := by
  cases r with
  | read a | write a =>
    simp only [Request.quiet, askedDuring, quiet, Memory.reached?_quiet]
    cases b.memory.reached? a with
    | none => rfl
    | some w =>
      simp only [Option.map_some, Option.elim_some, Window.read_quiet, Window.write_quiet,
        askedBy_quiet]
  | attach | detach | hold => rfl

theorem askedIn_quiet (busy : b.busy = true) (depth : Nat) {v v' : Visit ω α}
    (quiets : v.Quiets v') : askedIn (serve depth) v' b.quiet = [] := by
  induction quiets generalizing b with
  | reply a => rfl
  | tell event rest ih => exact ih busy
  | look rest ih => exact ih b.world busy
  | put world rest ih => exact ih (b := { b with world }) busy
  | inspect rest ih => exact ih b.memory busy
  | replace m rest ih => exact ih (b := { b with memory := m }) busy
  | direct r rest ih =>
    simp only [askedIn, askedDuring_quiet, perform_quiet busy, List.nil_append]
    exact ih _ (perform_held busy depth r).busy
  | ask r rest ih => exact ih busy

theorem holding_busy (busy : b.busy = true) (access : Bus ω → Outcome Fault (Bus ω) α) :
    holding access b = .fail .reentrantAccess b := by
  simp [holding, busy]

theorem holding_idle (idle : b.busy = false) (access : Bus ω → Outcome Fault (Bus ω) α) :
    holding access b =
      (access { b with busy := true }).mapState fun b => { b with busy := false } := by
  simp [holding, idle]

theorem submit_eq (r : Request (Window ω)) : b.submit r = holding (perform (serve 1) r) b := by
  have hmap {β γ : Type} (access : Bus ω → Outcome Fault (Bus ω) β) (f : β → γ) :
      (holding access b).map f = holding (fun b => (access b).map f) b := by
    unfold holding
    split <;> rfl
  cases r with
  | read a => exact hmap _ _
  | write a value => exact hmap _ _
  | attach w => exact hmap _ _
  | detach h => exact hmap _ _
  | hold => rfl

theorem perform_depth (busy : b.busy = true) (depth depth' : Nat) (r : Request (Window ω)) :
    perform (serve depth) r b = perform (serve depth') r b := by
  refine perform_congr r fun p hp => ?_
  have asked := (askedDuring_held busy depth' r p hp).1
  rw [serve_busy depth p.1 asked, serve_busy depth' p.1 asked]

/-- How deep requests may nest is of no account. -/
theorem serve_eq_submit (depth : Nat) (r : Request (Window ω)) :
    serve (depth + 1) r b = b.submit r := by
  rw [submit_eq]
  simp only [serve, holding, perform_depth (b := { b with busy := true }) rfl depth 1 r]

theorem visit_depth (depth : Nat) (v : Visit ω α) :
    holding (carryOut (serve depth) v) b = b.visit v := by
  have same : carryOut (serve depth) v { b with busy := true } =
      carryOut (serve 1) v { b with busy := true } := by
    refine carryOut_congr v fun p hp => ?_
    have asked := askedIn_busy rfl 1 v p hp
    rw [serve_busy depth p.1 asked, serve_busy 1 p.1 asked]
  simp only [visit, holding, same]

theorem submit_idle (idle : b.busy = false) (r : Request (Window ω)) :
    (b.submit r).state.busy = false ∧ (b.submit r).result ≠ .error .reentrantAccess := by
  rw [submit_eq, holding_idle idle]
  exact ⟨rfl, (perform_held (b := { b with busy := true }) rfl 1 r).answered⟩

theorem visit_idle (idle : b.busy = false) (v : Visit ω α) :
    (b.visit v).state.busy = false ∧ ∃ a, (b.visit v).result = .ok a := by
  unfold visit
  rw [holding_idle idle]
  exact ⟨rfl, (carryOut_ok (b := { b with busy := true }) rfl 1 v).2⟩

theorem LeadsTo.idle {c : Bus ω} (work : LeadsTo b c) (idle : b.busy = false) :
    c.busy = false := by
  induction work with
  | start => exact idle
  | submit earlier r ih => exact (submit_idle ih r).1
  | visit earlier v ih => exact (visit_idle ih v).1

theorem submit_quiet (idle : b.busy = false) (r : Request (Window ω)) :
    b.quiet.submit r.quiet = (b.submit r).mapState quiet := by
  rw [submit_eq, submit_eq, holding_idle idle, holding_idle (b := b.quiet) idle]
  exact congrArg (Outcome.mapState fun b => { b with busy := false })
    (perform_quiet (b := { b with busy := true }) rfl 1 r)

theorem visit_quiet (idle : b.busy = false) {v v' : Visit ω α} (quiets : v.Quiets v') :
    b.quiet.visit v' = (b.visit v).mapState quiet := by
  unfold visit
  rw [holding_idle idle, holding_idle (b := b.quiet) idle]
  exact congrArg (Outcome.mapState fun b => { b with busy := false })
    (carryOut_quiet (b := { b with busy := true }) rfl 1 quiets)

/-- A memory that is being worked on refuses whatever is asked of it by a handle, and stays as it
is. It is being worked on whenever a device or a visitor asks: during a request or a visit from
outside, and then only. These come out as they do with devices and visitors that ask for nothing,
and whatever became of them, the next one is not refused. -/
theorem reentrant_requests_are_harmless (b : Bus ω) :
    (b.busy = true →
      (∀ r, b.submit r = .fail .reentrantAccess b ∧
        ∀ depth, serve depth r b = .fail .reentrantAccess b) ∧
      ∀ {α : Type} (v : Visit ω α), b.visit v = .fail .reentrantAccess b) ∧
    (b.busy = false →
      let held := { b with busy := true }
      (∀ r,
        (∀ p ∈ askedDuring (serve 1) r held, p.2.busy = true ∧ p.2.memory = b.memory) ∧
        askedDuring (serve 1) r.quiet held.quiet = [] ∧
        b.quiet.submit r.quiet = (b.submit r).mapState quiet ∧
        ∀ depth, serve (depth + 1) r b = b.submit r) ∧
      (∀ {α : Type} (v : Visit ω α),
        (∀ p ∈ askedIn (serve 1) v held, p.2.busy = true) ∧
        (∀ v', v.Quiets v' →
          askedIn (serve 1) v' held.quiet = [] ∧
          b.quiet.visit v' = (b.visit v).mapState quiet) ∧
        ∀ depth, holding (carryOut (serve depth) v) b = b.visit v) ∧
      ∀ c, LeadsTo b c → c.busy = false ∧
        (∀ r, (c.submit r).result ≠ .error .reentrantAccess) ∧
        ∀ {α : Type} (v : Visit ω α), ∃ a, (c.visit v).result = .ok a) := by
  refine ⟨fun busy => ⟨fun r => ⟨?_, fun depth => serve_busy depth r busy⟩, fun v => ?_⟩,
    fun idle => ⟨fun r => ⟨?_, ?_, submit_quiet idle r, fun depth => serve_eq_submit depth r⟩,
      fun v => ⟨?_, fun v' quiets => ⟨?_, visit_quiet idle quiets⟩,
        fun depth => visit_depth depth v⟩,
      fun c work => ?_⟩⟩
  · rw [submit_eq, holding_busy busy]
  · exact holding_busy busy _
  · exact askedDuring_held rfl 1 r
  · exact askedDuring_quiet _ r
  · exact askedIn_busy rfl 1 v
  · exact askedIn_quiet rfl 1 quiets
  · have rest := work.idle idle
    exact ⟨rest, fun r => (submit_idle rest r).2, fun v => (visit_idle rest v).2⟩

theorem reentrant_requests_are_harmless_meddling :
    let b : Bus (List (Word × Word)) := ((ofSize 8 []).attach meddler).state
    let held := { b with busy := true }
    let v : Visit (List (Word × Word)) Nat :=
      .direct (.read 32) fun _ => .ask (.write 3 9) fun _ => .reply 5
    held.submit (.write 3 0) = .fail .reentrantAccess held ∧
      (∃ p ∈ askedDuring (serve 1) (.read 32) held, p.2.busy = true ∧ p.2.memory = b.memory) ∧
      b.quiet.visit (.direct (.read 32) fun _ => .reply 5) = (b.visit v).mapState quiet ∧
      (b.visit v).result = .ok 5 ∧
      ((b.visit v).state.submit (.read 32)).result ≠ .error .reentrantAccess := by
  intro b held v
  obtain ⟨working, -⟩ := reentrant_requests_are_harmless held
  obtain ⟨-, resting⟩ := reentrant_requests_are_harmless b
  obtain ⟨requests, visits, later⟩ := resting rfl
  have quiets : v.Quiets (.direct (.read 32) fun _ => .reply 5) :=
    .direct (.read 32) fun _ => .ask (.write 3 9) (.reply 5)
  exact ⟨((working rfl).1 (.write 3 0)).1, ⟨_, .head _, (requests (.read 32)).1 _ (.head _)⟩,
    ((visits v).2.1 _ quiets).2, rfl, (later _ (.visit .start v)).2.1 (.read 32)⟩

end Bus

end RegisterMachine
