import RegisterMachine.Proofs.Memory.Ownership
/-! Where accesses go. A memory is its history: a storage address holds what was written to it last,
and the devices get the accesses that fell into their windows while these were attached. -/
namespace RegisterMachine

def Request.access? {W : Type} : Request W → Option (Word × Option Word)
  | .read a => some (a, none)
  | .write a value => some (a, some value)
  | .attach _ | .detach _ | .hold => none

structure Call (ω : Type) where
  device : Handle
  window : Window ω
  address : Word
  written : Option Word

def Call.effect {ω : Type} (c : Call ω) (world : ω) : ω :=
  match c.written with
  | none => (c.window.callRead c.device c.address world).state
  | some value => (c.window.callWrite c.device c.address value world).state

namespace History
variable {ω : Type}

/-- The word that was written to an address last; zero before the first write. -/
def latest (a : Word) : History ω → Word
  | [] => 0
  | (.write b value, _) :: past => if b = a then value else latest a past
  | _ :: past => latest a past

/-- The windows that were attached and not taken away since, under the handles that were given out
for them. -/
def attached : History ω → List (Handle × Window ω)
  | [] => []
  | (.attach w, .ok (.attached h)) :: past => attached past ++ [(h, w)]
  | (.detach h, .ok _) :: past => (attached past).filter fun p => p.1 != h
  | _ :: past => attached past

/-- The calls of all devices, in order: an access calls each device in whose window it falls. -/
def calls : History ω → List (Call ω)
  | [] => []
  | (r, _) :: past =>
    calls past ++ match r.access? with
      | none => []
      | some (a, written) =>
        ((attached past).filter fun p => p.2.extent.contains a).map fun p =>
          ⟨p.1, p.2, a, written⟩

def seenBy (h : Handle) : History ω → List (Word × Option Word)
  | [] => []
  | (r, _) :: past =>
    seenBy h past ++ (r.access?.filter fun x =>
      (attached past).any fun p => p.1 == h && p.2.extent.contains x.1).toList

end History

section AtMostOne
variable {α : Type} {p : α → Bool} {l : List α}

theorem filter_eq_toList_find? (h : l.Pairwise fun x y => ¬(p x = true ∧ p y = true)) :
    l.filter p = (l.find? p).toList := by
  induction l with
  | nil => rfl
  | cons x rest ih =>
    obtain ⟨alone, h⟩ := List.pairwise_cons.1 h
    cases hx : p x with
    | false => simpa [hx] using ih h
    | true =>
      have none : rest.filter p = [] :=
        List.filter_eq_nil_iff.2 fun y hy both => alone y hy ⟨hx, both⟩
      simp [hx, none]

theorem eraseP_eq_filter (h : l.Pairwise fun x y => ¬(p x = true ∧ p y = true)) :
    l.eraseP p = l.filter fun x => !p x := by
  induction l with
  | nil => rfl
  | cons x rest ih =>
    obtain ⟨alone, h⟩ := List.pairwise_cons.1 h
    cases hx : p x with
    | false => simpa [hx] using ih h
    | true =>
      have all : rest.filter (fun x => !p x) = rest :=
        List.filter_eq_self.2 fun y hy => by
          simpa using fun both => alone y hy ⟨hx, both⟩
      simp [hx, all]

end AtMostOne

namespace Memory
variable {ω : Type} {m : Memory ω} {a : Word}

theorem cell?_eq_some_iff {i : Fin m.cells.size} : m.cell? a = some i ↔ a.toInt = i.val :=
  Word.index?_eq_some_iff a m.cells.size i

theorem exists_cell (low : 0 ≤ a.toInt) (high : a.toInt < m.size) :
    ∃ i, m.cell? a = some i := by
  have bound : a.toInt.toNat < m.cells.size := by
    simp only [size] at high
    omega
  exact ⟨⟨a.toInt.toNat, bound⟩, cell?_eq_some_iff.2 (Int.toNat_of_nonneg low).symm⟩

theorem cell?_eq_none (h : ¬(0 ≤ a.toInt ∧ a.toInt < m.size)) : m.cell? a = none := by
  apply (Word.index?_eq_none_iff a m.cells.size).2
  simp only [size] at h
  omega

namespace Exclusive

theorem windowAt?_of_cell (hm : m.Exclusive) {i : Fin m.cells.size} (h : m.cell? a = some i) :
    m.windowAt? a = none := by
  apply List.find?_eq_none.2
  intro p hp inside
  have past := hm.size_le hp inside
  have place := cell?_eq_some_iff.1 h
  have := i.isLt
  simp only [size] at past
  omega

theorem cell?_of_window (hm : m.Exclusive) {p : Handle × Window ω} (hp : p ∈ m.windows)
    (inside : p.2.extent.contains a = true) : m.cell? a = none := by
  apply cell?_eq_none
  have := hm.size_le hp inside
  omega

theorem windowAt?_eq (hm : m.Exclusive) {p : Handle × Window ω} (hp : p ∈ m.windows)
    (inside : p.2.extent.contains a = true) : m.windowAt? a = some p := by
  cases hw : m.windowAt? a with
  | none => exact absurd inside (List.find?_eq_none.1 hw p hp)
  | some q =>
    have inq : q.2.extent.contains a = true :=
      List.find?_some (p := fun p : Handle × Window ω => p.2.extent.contains a) hw
    rw [hm.window_unique (List.mem_of_find?_eq_some hw) hp inq inside]

theorem filter_contains (hm : m.Exclusive) (a : Word) :
    (m.windows.filter fun p => p.2.extent.contains a) = (m.windowAt? a).toList :=
  filter_eq_toList_find? (hm.disjoint.imp fun apart => apart a)

theorem detach_windows (hm : m.Exclusive) (h : Handle) :
    (m.detach h).2.windows = m.windows.filter fun p => p.1 != h := by
  refine eraseP_eq_filter ((List.pairwise_map.1 hm.distinct).imp fun different both => ?_)
  exact different ((beq_iff_eq.1 both.1).trans (beq_iff_eq.1 both.2).symm)

end Exclusive

end Memory

namespace Bus
variable {ω : Type} {b : Bus ω} {size : Nat} {world : ω} {past : History ω}

/-- An access leaves the windows as they are, and the outside world as the device at its address
leaves it. -/
theorem submit_access (ho : Orderly size b) {r : Request (Window ω)} {a : Word}
    {written : Option Word} (hr : r.access? = some (a, written)) :
    (b.submit r).state.memory.windows = b.memory.windows ∧
      (b.submit r).state.world =
        (((b.memory.windowAt? a).toList.map fun p => (⟨p.1, p.2, a, written⟩ : Call ω)).foldl
          (fun world c => c.effect world) b.world) := by
  cases r with
  | attach | detach | hold => simp [Request.access?] at hr
  | read a' =>
    obtain ⟨rfl, rfl⟩ : a' = a ∧ none = written := by simpa [Request.access?] using hr
    cases hc : b.memory.cell? a' with
    | some i =>
      simp [submit, read_cell ho.idle hc, ho.exclusive.windowAt?_of_cell hc, Outcome.map,
        Outcome.ok]
    | none =>
      cases hw : b.memory.windowAt? a' with
      | none => simp [submit, read_unowned ho.idle hc hw, Outcome.map, Outcome.fail]
      | some p =>
        simp [submit, read_window ho.idle hc hw, Outcome.map, Outcome.mapState, Call.effect]
  | write a' value =>
    obtain ⟨rfl, rfl⟩ : a' = a ∧ some value = written := by simpa [Request.access?] using hr
    cases hc : b.memory.cell? a' with
    | some i =>
      simp [submit, write_cell ho.idle hc, ho.exclusive.windowAt?_of_cell hc, Outcome.map,
        Outcome.ok]
    | none =>
      cases hw : b.memory.windowAt? a' with
      | none => simp [submit, write_unowned ho.idle hc hw, Outcome.map, Outcome.fail]
      | some p =>
        simp [submit, write_window ho.idle hc hw, Outcome.map, Outcome.mapState, Call.effect]

structure Routed (size : Nat) (world : ω) (b : Bus ω) (past : History ω) : Prop where
  orderly : Orderly size b
  words : ∀ a, 0 ≤ a.toInt → a.toInt < (size : Int) →
    b.memory.cells[a.toInt.toNat]? = some (past.latest a)
  windows : b.memory.windows = past.attached
  world : b.world = past.calls.foldl (fun world c => c.effect world) world
  seen : ∀ h, ((past.calls.filter fun c => c.device == h).map fun c => (c.address, c.written)) =
    past.seenBy h

theorem routed_ofSize (size : Nat) (world : ω) : Routed size world (ofSize size world) [] := by
  refine ⟨orderly_ofSize size world, fun a low high => ?_, rfl, rfl, fun _ => rfl⟩
  have bound : a.toInt.toNat < size := by omega
  simp only [ofSize, Memory.ofSize, History.latest, Array.getElem?_replicate, if_pos bound]

namespace Routed

theorem access (hr : Routed size world b past) {r : Request (Window ω)} {a : Word}
    {written : Option Word} (ha : r.access? = some (a, written))
    (words : ∀ a, 0 ≤ a.toInt → a.toInt < (size : Int) →
      (b.submit r).state.memory.cells[a.toInt.toNat]? =
        some (History.latest a ((r, (b.submit r).result) :: past))) :
    Routed size world (b.submit r).state ((r, (b.submit r).result) :: past) := by
  obtain ⟨hwindows, hworld⟩ := submit_access hr.orderly ha
  have same : History.attached ((r, (b.submit r).result) :: past) = past.attached := by
    cases r with
    | read | write => rfl
    | attach | detach | hold => simp [Request.access?] at ha
  have here : (past.attached.filter fun p => p.2.extent.contains a) =
      (b.memory.windowAt? a).toList := by
    rw [← hr.windows]
    exact hr.orderly.exclusive.filter_contains a
  refine ⟨hr.orderly.submit r, words, ?_, ?_, fun h => ?_⟩
  · rw [hwindows, same, hr.windows]
  · simp only [hworld, hr.world, History.calls, ha, here, List.foldl_append]
  · have at_most : (past.attached.any fun p => p.1 == h && p.2.extent.contains a) =
        (b.memory.windowAt? a).toList.any fun p => p.1 == h := by
      rw [← here, List.any_filter]
      simp only [Bool.and_comm]
    simp only [History.calls, History.seenBy, ha, here, List.filter_append, List.map_append,
      hr.seen h, Option.filter, at_most]
    cases b.memory.windowAt? a with
    | none => simp
    | some p => by_cases hp : p.1 = h <;> simp [hp]

theorem registration (hr : Routed size world b past) {r : Request (Window ω)}
    (ha : r.access? = none) (hcells : (b.submit r).state.memory.cells = b.memory.cells)
    (hwindows : (b.submit r).state.memory.windows =
      History.attached ((r, (b.submit r).result) :: past))
    (hworld : (b.submit r).state.world = b.world) :
    Routed size world (b.submit r).state ((r, (b.submit r).result) :: past) := by
  have latest (a : Word) : History.latest a ((r, (b.submit r).result) :: past) =
      past.latest a := by
    cases r with
    | read | write => simp [Request.access?] at ha
    | attach | detach | hold => rfl
  refine ⟨hr.orderly.submit r, fun a low high => ?_, hwindows, ?_, fun h => ?_⟩
  · rw [latest, hcells]
    exact hr.words a low high
  · simp only [hworld, hr.world, History.calls, ha, List.append_nil]
  · simp only [History.calls, History.seenBy, ha, Option.filter, Option.toList, List.append_nil,
      hr.seen h]

theorem read (hr : Routed size world b past) (a : Word) :
    Routed size world (b.submit (.read a)).state
      ((.read a, (b.submit (.read a)).result) :: past) := by
  refine hr.access rfl fun a' low high => ?_
  obtain ⟨world', hs⟩ := read_state hr.orderly.idle a
  have hs : (b.submit (.read a)).state = { b with world := world' } := hs
  rw [hs]
  exact hr.words a' low high

theorem write (hr : Routed size world b past) (a value : Word) :
    Routed size world (b.submit (.write a value)).state
      ((.write a value, (b.submit (.write a value)).result) :: past) := by
  refine hr.access rfl fun a' low high => ?_
  have kept := hr.words a' low high
  cases hc : b.memory.cell? a with
  | some i =>
    have hs : (b.submit (.write a value)).state.memory.cells =
        b.memory.cells.set i value i.isLt := by
      simp [submit, write_cell hr.orderly.idle hc, Outcome.map, Outcome.ok]
    have place : a.toInt = i.val := Memory.cell?_eq_some_iff.1 hc
    rw [hs, Array.getElem?_set, History.latest]
    by_cases same : a = a'
    · subst same
      have here : i.val = a.toInt.toNat := by omega
      simp [here]
    · have elsewhere : i.val ≠ a'.toInt.toNat := fun h =>
        same (Int32.toInt_inj.1 (by omega))
      rw [if_neg elsewhere, if_neg same]
      exact kept
  | none =>
    -- the write goes to a device or nowhere, and the address is no storage address
    have hs : (b.submit (.write a value)).state.memory.cells = b.memory.cells := by
      cases hw : b.memory.windowAt? a with
      | none => simp [submit, write_unowned hr.orderly.idle hc hw, Outcome.map, Outcome.fail]
      | some p =>
        simp [submit, write_window hr.orderly.idle hc hw, Outcome.map, Outcome.mapState]
    have elsewhere : a ≠ a' := by
      rintro rfl
      obtain ⟨i, hi⟩ := Memory.exists_cell low (hr.orderly.size ▸ high)
      simp [hi] at hc
    simpa [hs, History.latest, elsewhere] using kept

theorem attach (hr : Routed size world b past) (w : Window ω) :
    Routed size world (b.submit (.attach w)).state
      ((.attach w, (b.submit (.attach w)).result) :: past) := by
  cases ha : b.memory.attach w with
  | error e =>
    have hs : b.submit (.attach w) = .fail e b := by
      simp [submit, attach_refused hr.orderly.idle ha, Outcome.map, Outcome.fail, Except.map]
    refine hr.registration rfl ?_ ?_ ?_ <;> simp [hs, Outcome.fail, History.attached, hr.windows]
  | ok p =>
    obtain ⟨h, memory⟩ := p
    obtain ⟨-, -, -, rfl⟩ := Memory.attach_eq_ok_iff.1 ha
    have hs := congrArg (Outcome.map Answer.attached) (attach_ok hr.orderly.idle ha)
    have hs : b.submit (.attach w) = _ := hs
    refine hr.registration rfl ?_ ?_ ?_ <;>
      simp [hs, Outcome.map, Outcome.ok, Except.map, History.attached, hr.windows]

theorem detach (hr : Routed size world b past) (h : Handle) :
    Routed size world (b.submit (.detach h)).state
      ((.detach h, (b.submit (.detach h)).result) :: past) := by
  have windows := hr.orderly.exclusive.detach_windows h
  rw [hr.windows] at windows
  refine hr.registration rfl ?_ ?_ ?_ <;>
    simp [submit, detach_eq hr.orderly.idle h, Outcome.map, Outcome.ok, Except.map,
      History.attached, windows]
  rfl

theorem hold (hr : Routed size world b past) :
    Routed size world (b.submit .hold).state ((.hold, (b.submit .hold).result) :: past) := by
  have idle := hr.orderly.idle
  refine hr.registration rfl ?_ ?_ ?_ <;>
    simp [submit, holding, idle, Outcome.ok, Outcome.mapState, History.attached, hr.windows]

theorem submit (hr : Routed size world b past) (r : Request (Window ω)) :
    Routed size world (b.submit r).state ((r, (b.submit r).result) :: past) := by
  cases r with
  | read a => exact hr.read a
  | write a value => exact hr.write a value
  | attach w => exact hr.attach w
  | detach h => exact hr.detach h
  | hold => exact hr.hold

end Routed

theorem converse_routed (size : Nat) (world : ω) (rs : List (Request (Window ω))) :
    Routed size world ((ofSize size world).converse rs).1 ((ofSize size world).converse rs).2 :=
  converse_induction (P := fun b past => Routed size world b past) (routed_ofSize size world)
    (fun _ _ r h => h.submit r) rs

/-- After any requests, a storage address holds what was written to it last, whatever the devices
did; an access in an attached window is one call of its device and leaves the memory as it is; any
other access is out of bounds and has no effect. The devices got the accesses in their windows, in
order, and nothing else has changed the outside world. -/
theorem accesses_follow_history (size : Nat) (world : ω) (rs : List (Request (Window ω))) :
    let b := ((ofSize size world).converse rs).1
    let past := ((ofSize size world).converse rs).2
    (∀ a : Word, 0 ≤ a.toInt → a.toInt < (size : Int) → b.read a = .ok (past.latest a) b ∧
      ∀ value, ∃ cells, b.write a value = .ok () { b with memory := { b.memory with cells } }) ∧
    (∀ h w a, (h, w) ∈ past.attached → w.extent.contains a = true →
      b.read a = (w.callRead h a b.world).mapState (fun world => { b with world }) ∧
      ∀ value, b.write a value =
        (w.callWrite h a value b.world).mapState fun world => { b with world }) ∧
    (∀ a : Word, ¬(0 ≤ a.toInt ∧ a.toInt < (size : Int)) →
      (∀ p ∈ past.attached, p.2.extent.contains a = false) →
      b.read a = .fail (.memoryOutOfBounds a) b ∧
      ∀ value, b.write a value = .fail (.memoryOutOfBounds a) b) ∧
    b.world = past.calls.foldl (fun world c => c.effect world) world ∧
    ∀ h, ((past.calls.filter fun c => c.device == h).map fun c => (c.address, c.written)) =
      past.seenBy h := by
  intro b past
  have hr : Routed size world b past := converse_routed size world rs
  have idle : b.busy = false := hr.orderly.idle
  have exclusive : b.memory.Exclusive := hr.orderly.exclusive
  have hsize : b.memory.size = size := hr.orderly.size
  refine ⟨fun a low high => ?_, fun h w a attached inside => ?_, fun a outside free => ?_,
    hr.world, hr.seen⟩
  · obtain ⟨i, hi⟩ := Memory.exists_cell low (hsize ▸ high)
    have place : a.toInt.toNat = i.val := by
      have := Memory.cell?_eq_some_iff.1 hi
      omega
    have word : b.memory.cells[i.val] = past.latest a := by
      have := hr.words a low high
      rw [place, Array.getElem?_eq_getElem i.isLt] at this
      exact Option.some.inj this
    exact ⟨by rw [read_cell idle hi, word], fun value => ⟨_, write_cell idle hi⟩⟩
  · have attached : (h, w) ∈ b.memory.windows := hr.windows ▸ attached
    have hc : b.memory.cell? a = none := exclusive.cell?_of_window attached inside
    have hw : b.memory.windowAt? a = some (h, w) := exclusive.windowAt?_eq attached inside
    exact ⟨read_window idle hc hw, fun value => write_window idle hc hw⟩
  · have hc : b.memory.cell? a = none := Memory.cell?_eq_none (hsize ▸ outside)
    have hw : b.memory.windowAt? a = none := by
      apply List.find?_eq_none.2
      intro p hp
      simp [free p (hr.windows ▸ hp)]
    exact ⟨read_unowned idle hc hw, fun value => write_unowned idle hc hw⟩

def recorder : Window (List (Word × Word)) :=
  { extent := ⟨16, 4, by decide, by decide⟩
    onRead := none
    onWrite := some fun a value => .change (· ++ [(a, value)]) }

/-- A device that reads as the number of recorded writes, and tries to clear a storage cell. -/
def meddler : Window (List (Word × Word)) :=
  { extent := ⟨32, 1, by decide, by decide⟩
    onRead := some fun _ => .ask (.write 3 0) fun _ => .look fun log => .reply (.ofNat log.length)
    onWrite := none }

theorem reattached_recorder_is_routed :
    let s := (ofSize 8 []).converse
      [.write 3 7, .attach recorder, .write 17 5, .detach ⟨0⟩, .write 17 6, .attach recorder,
       .attach meddler, .write 18 8, .read 32, .write 3 9, .read (-1)]
    s.1.world = [(17, 5), (18, 8)] ∧ s.1.read 3 = .ok 9 s.1 ∧
      s.1.read 32 = .ok 2 s.1 [.deviceRead ⟨2⟩ 32] ∧ s.1.read 17 = .ok 0 s.1 ∧
      s.1.read 20 = .fail (.memoryOutOfBounds 20) s.1 ∧
      s.2.seenBy ⟨0⟩ = [(17, some 5)] ∧ s.2.seenBy ⟨1⟩ = [(18, some 8)] := by
  intro s
  obtain ⟨stored, called, unowned, world, -⟩ := accesses_follow_history 8 []
    [.write 3 7, .attach recorder, .write 17 5, .detach ⟨0⟩, .write 17 6, .attach recorder,
     .attach meddler, .write 18 8, .read 32, .write 3 9, .read (-1)]
  have recording : (⟨1⟩, recorder) ∈ s.2.attached := .head _
  have meddling : (⟨2⟩, meddler) ∈ s.2.attached := .tail _ (.head _)
  have world : s.1.world = [(17, 5), (18, 8)] := world.trans (by decide)
  have latest : s.2.latest 3 = 9 := by decide
  have counted : meddler.callRead ⟨2⟩ 32 s.1.world = .ok 2 s.1.world [.deviceRead ⟨2⟩ 32] := by
    rw [world]
    rfl
  have free : ∀ p ∈ s.2.attached, p.2.extent.contains 20 = false := by
    intro p hp
    rcases hp with _ | ⟨_, _ | ⟨_, hp⟩⟩
    · decide
    · decide
    · cases hp
  refine ⟨world, ?_, ?_, (called _ _ 17 recording (by decide)).1,
    (unowned 20 (by decide) free).1, by decide, by decide⟩
  · rw [← latest]
    exact (stored 3 (by decide) (by decide)).1
  · rw [(called _ _ 32 meddling (by decide)).1, counted]
    rfl

end Bus

end RegisterMachine
