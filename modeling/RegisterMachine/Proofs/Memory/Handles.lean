import Mathlib.Data.List.Nodup
import RegisterMachine.Proofs.Memory.Routing
/-! Handles. They are numbered in the order in which they are given out, so that none is given out
twice: a handle stands for its window until that is taken away, and for nothing afterwards. -/
namespace RegisterMachine

namespace History
variable {ω : Type}

def issued : History ω → List (Handle × Window ω)
  | [] => []
  | (.attach w, .ok (.attached h)) :: past => issued past ++ [(h, w)]
  | _ :: past => issued past

def removed : History ω → List Handle
  | [] => []
  | (.detach h, .ok (.detached (some _))) :: past => h :: removed past
  | _ :: past => removed past

end History

namespace Memory
variable {ω : Type} {m : Memory ω} {h : Handle} {w : Window ω}

theorem detach_of_absent (absent : ∀ p ∈ m.windows, p.1 ≠ h) : m.detach h = (none, m) := by
  have none : m.windows.find? (fun p => p.1 == h) = none :=
    List.find?_eq_none.2 fun p hp => by simpa using absent p hp
  have same : m.windows.eraseP (fun p => p.1 == h) = m.windows :=
    List.eraseP_of_forall_not fun p hp => by simpa using absent p hp
  simp only [detach, none, same, Option.map_none]

theorem detach_of_split {u v : List (Handle × Window ω)} (split : m.windows = u ++ (h, w) :: v)
    (first : ∀ p ∈ u, p.1 ≠ h) : m.detach h = (some w, { m with windows := u ++ v }) := by
  have passes : ∀ p ∈ u, ¬(p.1 == h) = true := fun p hp => by simpa using first p hp
  have found : (u ++ (h, w) :: v).find? (fun p => p.1 == h) = some (h, w) := by
    rw [List.find?_append, List.find?_eq_none.2 passes]
    simp
  have rest : (u ++ (h, w) :: v).eraseP (fun p => p.1 == h) = u ++ v := by
    rw [List.eraseP_append_right _ passes]
    simp
  simp only [detach, split, found, rest, Option.map_some]

theorem Exclusive.others_ne (hm : m.Exclusive) {u v : List (Handle × Window ω)}
    (split : m.windows = u ++ (h, w) :: v) : ∀ p ∈ u ++ v, p.1 ≠ h := by
  have distinct := hm.distinct
  rw [split, List.map_append, List.map_cons, List.nodup_middle, ← List.map_append] at distinct
  have apart : h ∉ (u ++ v).map (·.1) := (List.nodup_cons.1 distinct).1
  rintro p hp rfl
  exact apart (List.mem_map_of_mem hp)

theorem Exclusive.detach_split (hm : m.Exclusive) {u v : List (Handle × Window ω)}
    (split : m.windows = u ++ (h, w) :: v) :
    m.detach h = (some w, { m with windows := u ++ v }) :=
  detach_of_split split fun p hp => hm.others_ne split p (List.mem_append_left v hp)

theorem Exclusive.detach_attach (hm : m.Exclusive) {m' : Memory ω} (ok : m.attach w = .ok (h, m')) :
    m'.detach h = (some w, { m with nextHandle := m.nextHandle + 1 }) := by
  obtain ⟨-, -, rfl, rfl⟩ := attach_eq_ok_iff.1 ok
  have last := detach_of_split (m := { m with
    windows := m.windows ++ [(⟨m.nextHandle⟩, w)], nextHandle := m.nextHandle + 1 }) rfl
  rw [List.append_nil] at last
  refine last fun p hp same => ?_
  have := hm.given p hp
  simp [same] at this

/-- Without a window, its addresses have no owner, and all others have the one that they had. -/
theorem Exclusive.owns_without (hm : m.Exclusive) {u v : List (Handle × Window ω)}
    (split : m.windows = u ++ (h, w) :: v) (a : Word) (o : Owner) :
    Owns { m with windows := u ++ v } a o ↔ m.Owns a o ∧ o ≠ .window h := by
  have listed (p : Handle × Window ω) : p ∈ m.windows ↔ p = (h, w) ∨ p ∈ u ++ v := by
    simp only [split, List.mem_append, List.mem_cons]
    exact or_left_comm
  constructor
  · intro owns
    cases owns with
    | storage low high => exact ⟨.storage low high, by simp⟩
    | window attached inside =>
      refine ⟨.window ((listed _).2 (.inr attached)) inside, ?_⟩
      rintro ⟨⟩
      exact hm.others_ne split _ attached rfl
  · rintro ⟨owns, other⟩
    cases owns with
    | storage low high => exact .storage low high
    | window attached inside =>
      rcases (listed _).1 attached with same | kept
      · cases same
        exact absurd rfl other
      · exact .window kept inside

theorem Exclusive.window_of_handle (hm : m.Exclusive) {w' : Window ω} (hw : (h, w) ∈ m.windows)
    (hw' : (h, w') ∈ m.windows) : w = w' := by
  have same := List.inj_on_of_nodup_map hm.distinct hw hw' rfl
  exact (Prod.mk.inj same).2

theorem Exclusive.unowned_without (hm : m.Exclusive) {u v : List (Handle × Window ω)}
    (split : m.windows = u ++ (h, w) :: v) (a : Word) :
    (∀ o, ¬Owns { m with windows := u ++ v } a o) ↔
      w.extent.contains a = true ∨ ∀ o, ¬m.Owns a o := by
  have attached : (h, w) ∈ m.windows := by simp [split]
  simp only [hm.owns_without split]
  constructor
  · intro nobody
    by_cases owned : m.Owns a (.window h)
    · cases owned with
      | window attached' inside =>
        cases hm.window_of_handle attached attached'
        exact .inl inside
    · exact .inr fun o owns => nobody o ⟨owns, fun same => owned (same ▸ owns)⟩
  · rintro (inside | nobody) o ⟨owns, other⟩
    · exact other (hm.owner_unique owns (.window attached inside))
    · exact nobody o owns

end Memory

namespace Bus
variable {ω : Type} {b : Bus ω} {size : Nat} {past : History ω}

/-- The handles that were given out are those of the numbers below the next one, in order, and the
windows that were not taken away by theirs are attached, in the same order. -/
structure Numbered (b : Bus ω) (past : History ω) : Prop where
  numbers : past.issued.map (·.1.number) = List.range b.memory.nextHandle
  windows : b.memory.windows = past.issued.filter fun p => p.1 ∉ past.removed
  removed : ∀ h ∈ past.removed, h.number < b.memory.nextHandle

namespace Numbered

theorem lt_next (hn : b.Numbered past) {h : Handle} (given : h ∈ past.issued.map (·.1)) :
    h.number < b.memory.nextHandle := by
  obtain ⟨p, hp, rfl⟩ := List.mem_map.1 given
  have listed : p.1.number ∈ past.issued.map (·.1.number) := List.mem_map_of_mem hp
  rw [hn.numbers] at listed
  exact List.mem_range.1 listed

theorem nodup (hn : b.Numbered past) : (past.issued.map (·.1)).Nodup := by
  have numbers : ((past.issued.map (·.1)).map Handle.number).Nodup := by
    have same : (past.issued.map (·.1)).map Handle.number = past.issued.map (·.1.number) := by simp
    rw [same, hn.numbers]
    exact List.nodup_range
  exact List.Nodup.of_map Handle.number numbers

theorem keep (hn : b.Numbered past) {b' : Bus ω} {past' : History ω}
    (windows : b'.memory.windows = b.memory.windows)
    (next : b'.memory.nextHandle = b.memory.nextHandle) (issued : past'.issued = past.issued)
    (removed : past'.removed = past.removed) : b'.Numbered past' := by
  refine ⟨?_, ?_, ?_⟩
  · rw [issued, next]
    exact hn.numbers
  · rw [windows, issued, removed]
    exact hn.windows
  · rw [removed, next]
    exact hn.removed

theorem attach (hn : b.Numbered past) (ho : Orderly size b) (w : Window ω) :
    (b.submit (.attach w)).state.Numbered ((.attach w, (b.submit (.attach w)).result) :: past) := by
  cases ha : b.memory.attach w with
  | error e =>
    have hs : b.submit (.attach w) = .fail e b := by
      simp [submit, attach_refused ho.idle ha, Outcome.map, Outcome.fail, Except.map]
    rw [hs]
    exact hn.keep rfl rfl rfl rfl
  | ok p =>
    obtain ⟨h, memory⟩ := p
    obtain ⟨-, -, rfl, rfl⟩ := Memory.attach_eq_ok_iff.1 ha
    have hs := congrArg (Outcome.map Answer.attached) (attach_ok ho.idle ha)
    have hs : b.submit (.attach w) = _ := hs
    rw [hs]
    have fresh : (⟨b.memory.nextHandle⟩ : Handle) ∉ past.removed := fun used =>
      Nat.lt_irrefl _ (hn.removed _ used)
    refine ⟨?_, ?_, fun h hh => Nat.lt_succ_of_lt (hn.removed h hh)⟩
    · simp only [Outcome.map, Outcome.ok, Except.map, History.issued, List.map_append, hn.numbers,
        List.map_cons, List.map_nil, List.range_succ]
    · have kept : b.memory.windows ++ [(Handle.mk b.memory.nextHandle, w)] =
          (past.issued ++ [(Handle.mk b.memory.nextHandle, w)]).filter
            fun p => p.1 ∉ past.removed := by
        rw [List.filter_append, ← hn.windows]
        simp [fresh]
      exact kept

theorem detach (hn : b.Numbered past) (ho : Orderly size b) (h : Handle) :
    (b.submit (.detach h)).state.Numbered ((.detach h, (b.submit (.detach h)).result) :: past) := by
  have hs := congrArg (Outcome.map fun w => Answer.detached (w.map Window.extent))
    (detach_eq ho.idle h)
  have hs : b.submit (.detach h) = _ := hs
  by_cases attached : ∃ w, (h, w) ∈ b.memory.windows
  · obtain ⟨w, attached⟩ := attached
    obtain ⟨u, v, split⟩ := List.append_of_mem attached
    rw [hs, ho.exclusive.detach_split split]
    refine ⟨hn.numbers, ?_, ?_⟩
    · have others : u ++ v = b.memory.windows.filter fun p => p.1 ≠ h := by
        have kept := List.filter_eq_self.2 fun p hp =>
          decide_eq_true (ho.exclusive.others_ne split p hp)
        rw [split, List.filter_append, List.filter_cons_of_neg (by simp), ← List.filter_append,
          kept]
      have both : (u ++ v) = past.issued.filter fun p => p.1 ∉ h :: past.removed := by
        rw [others, hn.windows, List.filter_filter]
        simp
      exact both
    · exact List.forall_mem_cons.2 ⟨ho.exclusive.given _ attached, hn.removed⟩
  · have absent : ∀ p ∈ b.memory.windows, p.1 ≠ h := by
      rintro ⟨h', w⟩ hp rfl
      exact attached ⟨w, hp⟩
    rw [hs, Memory.detach_of_absent absent]
    exact hn.keep rfl rfl rfl rfl

theorem submit (hn : b.Numbered past) (ho : Orderly size b) (r : Request (Window ω)) :
    (b.submit r).state.Numbered ((r, (b.submit r).result) :: past) := by
  cases r with
  | attach w => exact hn.attach ho w
  | detach h => exact hn.detach ho h
  | read a =>
    obtain ⟨world, hs⟩ := read_state ho.idle a
    have hs : (b.submit (.read a)).state = { b with world } := hs
    rw [hs]
    exact hn.keep rfl rfl rfl rfl
  | write a value =>
    obtain ⟨cells, world, -, hs⟩ := write_state ho.idle a value
    have hs : (b.submit (.write a value)).state =
        { b with memory := { b.memory with cells }, world } := hs
    rw [hs]
    exact hn.keep rfl rfl rfl rfl
  | hold =>
    have hs : (b.submit .hold).state = b := by
      obtain ⟨memory, world, busy⟩ := b
      obtain rfl : busy = false := ho.idle
      rfl
    rw [hs]
    exact hn.keep rfl rfl rfl rfl

end Numbered

theorem converse_numbered (size : Nat) (world : ω) (rs : List (Request (Window ω))) :
    Numbered ((ofSize size world).converse rs).1 ((ofSize size world).converse rs).2 := by
  have both := converse_induction (P := fun b past => Orderly size b ∧ b.Numbered past)
    (b := ofSize size world) ⟨orderly_ofSize size world, rfl, rfl, by simp [History.removed]⟩
    (fun _ _ r h => ⟨h.1.submit r, h.2.submit h.1 r⟩) rs
  exact both.2

/-- Whatever is asked of a memory, each window gets a handle that was not given out before, and the
windows whose handles have not taken them away are attached, in the order of their handles. Such a
handle takes away the very window that it was given out for: the others stay, in order, and the
addresses in the window are the only ones that lose their owner. Any other handle has no effect. To
attach a window and take it away at once leaves the windows as they were. -/
theorem handles_are_never_confused (size : Nat) (world : ω) (rs : List (Request (Window ω))) :
    let b := ((ofSize size world).converse rs).1
    let past := ((ofSize size world).converse rs).2
    (past.issued.map (·.1)).Nodup ∧
    b.memory.windows = (past.issued.filter fun p => p.1 ∉ past.removed) ∧
    (∀ w h, (b.attach w).result = .ok h → h ∉ past.issued.map (·.1) ∧
      (b.attach w).state.detach h =
        .ok (some w) { b with memory := { b.memory with nextHandle := b.memory.nextHandle + 1 } }) ∧
    (∀ h w, (h, w) ∈ past.issued → h ∉ past.removed →
      ∃ u v, b.memory.windows = u ++ (h, w) :: v ∧
        let left : Memory ω := { b.memory with windows := u ++ v }
        b.detach h = .ok (some w) { b with memory := left } ∧
        (∀ a o, left.Owns a o ↔ b.memory.Owns a o ∧ o ≠ .window h) ∧
        ∀ a, (∀ o, ¬left.Owns a o) ↔ w.extent.contains a = true ∨ ∀ o, ¬b.memory.Owns a o) ∧
    ∀ h, h ∈ past.removed ∨ h ∉ past.issued.map (·.1) → b.detach h = .ok none b := by
  intro b past
  have ho : Orderly size b := converse_orderly size world rs
  have hn : b.Numbered past := converse_numbered size world rs
  have exclusive : b.memory.Exclusive := ho.exclusive
  have attached (p : Handle × Window ω) :
      p ∈ b.memory.windows ↔ p ∈ past.issued ∧ p.1 ∉ past.removed := by
    simp [hn.windows]
  refine ⟨hn.nodup, hn.windows, fun w h ok => ?_, fun h w given kept => ?_, fun h stale => ?_⟩
  · cases ha : b.memory.attach w with
    | error e => simp [attach_refused ho.idle ha, Outcome.fail] at ok
    | ok p =>
      obtain ⟨h', memory⟩ := p
      have same := attach_ok ho.idle ha
      obtain rfl : h' = h := by simpa [same, Outcome.ok] using ok
      have state : (b.attach w).state = { b with memory } := congrArg Outcome.state same
      refine ⟨fun given => ?_, ?_⟩
      · have below := hn.lt_next given
        obtain ⟨-, -, rfl, -⟩ := Memory.attach_eq_ok_iff.1 ha
        exact Nat.lt_irrefl _ below
      · rw [state, detach_eq (b := { b with memory }) ho.idle, exclusive.detach_attach ha]
  · obtain ⟨u, v, split⟩ := List.append_of_mem ((attached (h, w)).2 ⟨given, kept⟩)
    refine ⟨u, v, split, ?_, exclusive.owns_without split, exclusive.unowned_without split⟩
    rw [detach_eq ho.idle, exclusive.detach_split split]
  · have absent : ∀ p ∈ b.memory.windows, p.1 ≠ h := by
      rintro p hp rfl
      obtain ⟨given, kept⟩ := (attached p).1 hp
      exact stale.elim kept fun unknown => unknown (List.mem_map_of_mem given)
    rw [detach_eq ho.idle, Memory.detach_of_absent absent]

/-- The recorder comes back under a handle of its own; the handle that it had before, and one that
was never given out, have no effect on it. -/
theorem handles_are_never_confused_stale :
    let s := (ofSize 8 []).converse
      [.attach recorder, .detach ⟨0⟩, .attach recorder, .attach meddler, .detach ⟨0⟩,
       .attach (.bare ⟨17, 1, by decide, by decide⟩), .write 17 5]
    let next := Window.bare ⟨20, 4, by decide, by decide⟩
    s.2.issued.map (·.1.number) = [0, 1, 2] ∧ s.2.removed = [⟨0⟩] ∧
      s.1.detach ⟨0⟩ = .ok none s.1 ∧ s.1.detach ⟨7⟩ = .ok none s.1 ∧
      (s.1.detach ⟨1⟩).result = .ok (some recorder) ∧
      ((s.1.detach ⟨1⟩).state.memory.windows.map (·.1.number)) = [2] ∧
      ((s.1.attach next).state.detach ⟨3⟩).result = .ok (some next) := by
  intro s next
  obtain ⟨-, -, fresh, gone, stale⟩ := handles_are_never_confused 8 []
    [.attach recorder, .detach ⟨0⟩, .attach recorder, .attach meddler, .detach ⟨0⟩,
     .attach (.bare ⟨17, 1, by decide, by decide⟩), .write 17 5]
  have removed : s.2.removed = [⟨0⟩] := rfl
  have given : (⟨1⟩, recorder) ∈ s.2.issued := .tail _ (.head _)
  obtain ⟨u, v, split, taken, -⟩ := gone ⟨1⟩ recorder given (by decide)
  have rest : (s.1.detach ⟨1⟩).state.memory.windows.map (·.1.number) = [2] := rfl
  have result : (s.1.detach ⟨1⟩).result = .ok (some recorder) := congrArg Outcome.result taken
  have unknown : (⟨7⟩ : Handle) ∉ s.2.issued.map (·.1) := by decide
  exact ⟨rfl, removed, stale _ (.inl (by decide)), stale _ (.inr unknown), result, rest,
    congrArg Outcome.result (fresh next ⟨3⟩ rfl).2⟩

end Bus

end RegisterMachine
