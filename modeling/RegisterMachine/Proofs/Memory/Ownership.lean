import Mathlib.Data.List.Pairwise
import Mathlib.Logic.ExistsUnique
import RegisterMachine.Proofs.Memory.Seclusion
/-! Owners of addresses. Whatever is asked of a memory, an address belongs to the storage, to one
attached window, or to nobody. -/
namespace RegisterMachine

inductive Owner where
  | storage
  | window (h : Handle)
  deriving DecidableEq, Repr

namespace Memory
variable {ω : Type} {m : Memory ω} {a : Word}

inductive Owns (m : Memory ω) (a : Word) : Owner → Prop
  | storage (low : 0 ≤ a.toInt) (high : a.toInt < m.size) : Owns m a .storage
  | window {h : Handle} {w : Window ω} (attached : (h, w) ∈ m.windows)
      (inside : w.extent.contains a = true) : Owns m a (.window h)

/-- The windows lie past the storage and apart from each other. Each has a handle of its own, which
will not be given out again. -/
structure Exclusive (m : Memory ω) : Prop where
  past : ∀ p ∈ m.windows, (m.size : Int) ≤ p.2.extent.base.toInt
  apart : m.windows.Pairwise fun p q => p.2.extent.overlaps q.2.extent = false
  distinct : (m.windows.map (·.1)).Nodup
  given : ∀ p ∈ m.windows, p.1.number < m.nextHandle

theorem exclusive_ofSize (size : Nat) : (ofSize size : Memory ω).Exclusive :=
  ⟨by simp [ofSize], by simp [ofSize], by simp [ofSize], by simp [ofSize]⟩

theorem attach_eq_ok_iff {w : Window ω} {h : Handle} {m' : Memory ω} :
    m.attach w = .ok (h, m') ↔
      (m.size : Int) ≤ w.extent.base.toInt ∧
      (∀ p ∈ m.windows, p.2.extent.overlaps w.extent = false) ∧ h = ⟨m.nextHandle⟩ ∧
      m' = { m with windows := m.windows ++ [(h, w)], nextHandle := m.nextHandle + 1 } := by
  unfold attach
  split
  · rename_i low
    simp only [reduceCtorEq, false_iff]
    intro h
    have := h.1
    simp only [size] at this
    omega
  · rename_i low
    split
    · rename_i overlap
      obtain ⟨p, hp, ho⟩ := List.any_eq_true.1 overlap
      simp only [reduceCtorEq, false_iff]
      intro h
      simp [h.2.1 p hp] at ho
    · rename_i overlap
      have past : (m.size : Int) ≤ w.extent.base.toInt := by
        simp only [size]
        omega
      have apart : ∀ p ∈ m.windows, p.2.extent.overlaps w.extent = false := by
        simpa using overlap
      simp only [Except.ok.injEq, Prod.mk.injEq]
      constructor
      · rintro ⟨rfl, rfl⟩
        exact ⟨past, apart, rfl, rfl⟩
      · rintro ⟨-, -, rfl, rfl⟩
        exact ⟨rfl, rfl⟩

namespace Exclusive

theorem attach (hm : m.Exclusive) {w : Window ω} {h : Handle} {m' : Memory ω}
    (ok : m.attach w = .ok (h, m')) : m'.Exclusive := by
  obtain ⟨past, apart, rfl, rfl⟩ := attach_eq_ok_iff.1 ok
  have fresh : ∀ p ∈ m.windows, p.1 ≠ ⟨m.nextHandle⟩ := by
    intro p hp same
    have := hm.given p hp
    simp [same] at this
  refine ⟨?_, ?_, ?_, ?_⟩
  · intro p hp
    rcases List.mem_append.1 hp with hp | hp
    · exact hm.past p hp
    · obtain rfl := List.mem_singleton.1 hp
      exact past
  · rw [List.pairwise_append]
    exact ⟨hm.apart, List.pairwise_singleton _ _, by simpa using fun h w hp => apart (h, w) hp⟩
  · rw [List.map_append, List.nodup_append]
    refine ⟨hm.distinct, by simp, ?_⟩
    simpa using fun h w hp => fresh (h, w) hp
  · intro p hp
    rcases List.mem_append.1 hp with hp | hp
    · exact Nat.lt_succ_of_lt (hm.given p hp)
    · obtain rfl := List.mem_singleton.1 hp
      exact Nat.lt_succ_self _

theorem detach (hm : m.Exclusive) (h : Handle) : (m.detach h).2.Exclusive := by
  have sub : (m.detach h).2.windows.Sublist m.windows := List.eraseP_sublist
  exact ⟨fun p hp => hm.past p (sub.subset hp), hm.apart.sublist sub,
    hm.distinct.sublist (sub.map _), fun p hp => hm.given p (sub.subset hp)⟩

theorem store (hm : m.Exclusive) {cells : Array Word} (same : cells.size = m.size) :
    ({ m with cells } : Memory ω).Exclusive :=
  ⟨fun p hp => by simpa [size, same] using hm.past p hp, hm.apart, hm.distinct, hm.given⟩

theorem size_le (hm : m.Exclusive) {p : Handle × Window ω} (hp : p ∈ m.windows)
    (inside : p.2.extent.contains a = true) : (m.size : Int) ≤ a.toInt :=
  Int.le_trans (hm.past p hp) ((Extent.contains_iff _ _).1 inside).1

theorem disjoint (hm : m.Exclusive) :
    m.windows.Pairwise fun p q =>
      ∀ a, ¬(p.2.extent.contains a = true ∧ q.2.extent.contains a = true) := by
  refine hm.apart.imp fun {p q} apart a both => ?_
  rw [Extent.overlaps_of_contains both.1 both.2] at apart
  exact absurd apart (by decide)

theorem window_unique (hm : m.Exclusive) {p q : Handle × Window ω} (hp : p ∈ m.windows)
    (hq : q ∈ m.windows) (inp : p.2.extent.contains a = true)
    (inq : q.2.extent.contains a = true) : p = q := by
  by_contra different
  have sym : Std.Symm fun p q : Handle × Window ω =>
      ∀ a, ¬(p.2.extent.contains a = true ∧ q.2.extent.contains a = true) :=
    ⟨fun p q h a both => h a both.symm⟩
  exact hm.disjoint.forall hp hq different a ⟨inp, inq⟩

theorem owner_unique (hm : m.Exclusive) {o o' : Owner} (h : m.Owns a o) (h' : m.Owns a o') :
    o = o' := by
  cases h with
  | storage low high =>
    cases h' with
    | storage => rfl
    | window attached inside =>
      have := hm.size_le attached inside
      omega
  | window attached inside =>
    cases h' with
    | storage low high =>
      have := hm.size_le attached inside
      omega
    | window attached' inside' =>
      cases hm.window_unique attached attached' inside inside'
      rfl

end Exclusive

end Memory

namespace Bus
variable {ω : Type} {b : Bus ω}

/-- Answers a request that comes from outside. -/
def submit : Request (Window ω) → Bus ω → Outcome Fault (Bus ω) Answer
  | .read a, b => (b.read a).map .word
  | .write a value, b => (b.write a value).map fun _ => .done
  | .attach w, b => (b.attach w).map .attached
  | .detach h, b => (b.detach h).map fun w => .detached (w.map Window.extent)
  | .hold, b => b.holding (.ok .done)

end Bus

/-- Requests with the answers that they got, the latest first. -/
abbrev History (ω : Type) := List (Request (Window ω) × Except Fault Answer)

namespace Bus
variable {ω : Type} {b : Bus ω}

def converse (rs : List (Request (Window ω))) (b : Bus ω) : Bus ω × History ω :=
  rs.foldl (fun s r => ((s.1.submit r).state, (r, (s.1.submit r).result) :: s.2)) (b, [])

/-- What holds at first and is kept by each request holds after all of them. -/
theorem converse_induction {P : Bus ω → History ω → Prop} (start : P b [])
    (step : ∀ b past r, P b past → P (b.submit r).state ((r, (b.submit r).result) :: past))
    (rs : List (Request (Window ω))) : P (b.converse rs).1 (b.converse rs).2 := by
  suffices ∀ s : Bus ω × History ω, P s.1 s.2 →
      P (rs.foldl (fun s r => ((s.1.submit r).state, (r, (s.1.submit r).result) :: s.2)) s).1
        (rs.foldl (fun s r => ((s.1.submit r).state, (r, (s.1.submit r).result) :: s.2)) s).2 from
    this (b, []) start
  induction rs with
  | nil => exact fun s h => h
  | cons r rest ih => exact fun s h => ih _ (step s.1 s.2 r h)

theorem converse_fold (rs : List (Request (Window ω))) (past : History ω) :
    rs.foldl (fun s r => ((s.1.submit r).state, (r, (s.1.submit r).result) :: s.2)) (b, past) =
      ((b.converse rs).1, (b.converse rs).2 ++ past) := by
  induction rs generalizing b past with
  | nil => rfl
  | cons r rest ih =>
    have first : b.converse (r :: rest) = rest.foldl
        (fun s r => ((s.1.submit r).state, (r, (s.1.submit r).result) :: s.2))
        ((b.submit r).state, [(r, (b.submit r).result)]) := rfl
    rw [List.foldl_cons, first, ih, ih, List.append_assoc, List.singleton_append]

theorem converse_cons (r : Request (Window ω)) (rs : List (Request (Window ω))) :
    b.converse (r :: rs) = (((b.submit r).state.converse rs).1,
      ((b.submit r).state.converse rs).2 ++ [(r, (b.submit r).result)]) :=
  converse_fold rs _

theorem converse_append (rs rs' : List (Request (Window ω))) :
    (b.converse (rs ++ rs')).1 = ((b.converse rs).1.converse rs').1 := by
  induction rs generalizing b with
  | nil => rfl
  | cons r rest ih => simp only [List.cons_append, converse_cons, ih]

structure Orderly (size : Nat) (b : Bus ω) : Prop where
  exclusive : b.memory.Exclusive
  size : b.memory.size = size
  idle : b.busy = false

theorem read_state (idle : b.busy = false) (a : Word) :
    ∃ world, (b.read a).state = { b with world } := by
  cases hc : b.memory.cell? a with
  | some i => exact ⟨b.world, by rw [read_cell idle hc]; rfl⟩
  | none =>
    cases hw : b.memory.windowAt? a with
    | none => exact ⟨b.world, by rw [read_unowned idle hc hw]; rfl⟩
    | some p => exact ⟨_, by rw [read_window idle hc hw]; rfl⟩

theorem write_state (idle : b.busy = false) (a value : Word) :
    ∃ cells world, cells.size = b.memory.size ∧
      (b.write a value).state = { b with memory := { b.memory with cells }, world } := by
  cases hc : b.memory.cell? a with
  | some i =>
    exact ⟨_, b.world, Array.size_set i.isLt, by rw [write_cell idle hc]; rfl⟩
  | none =>
    cases hw : b.memory.windowAt? a with
    | none => exact ⟨_, b.world, rfl, by rw [write_unowned idle hc hw]; rfl⟩
    | some p => exact ⟨_, _, rfl, by rw [write_window idle hc hw]; rfl⟩

theorem attach_state (idle : b.busy = false) (w : Window ω) :
    (b.attach w).state = b ∨ ∃ h memory, b.memory.attach w = .ok (h, memory) ∧
      (b.attach w).state = { b with memory } := by
  cases ha : b.memory.attach w with
  | error e => exact .inl (by rw [attach_refused idle ha]; rfl)
  | ok p => exact .inr ⟨p.1, p.2, rfl, by rw [attach_ok idle ha]; rfl⟩

theorem orderly_ofSize (size : Nat) (world : ω) : Orderly size (ofSize size world) :=
  ⟨Memory.exclusive_ofSize size, Array.size_replicate, rfl⟩

theorem Orderly.submit {size : Nat} (ho : Orderly size b) (r : Request (Window ω)) :
    Orderly size (b.submit r).state := by
  cases r with
  | read a =>
    obtain ⟨world, hs⟩ := read_state ho.idle a
    have hs : (b.submit (.read a)).state = { b with world } := hs
    rw [hs]
    exact ⟨ho.exclusive, ho.size, ho.idle⟩
  | write a value =>
    obtain ⟨cells, world, same, hs⟩ := write_state ho.idle a value
    have hs : (b.submit (.write a value)).state =
        { b with memory := { b.memory with cells }, world } := hs
    rw [hs]
    exact ⟨ho.exclusive.store same, same.trans ho.size, ho.idle⟩
  | attach w =>
    rcases attach_state ho.idle w with hs | ⟨h, memory, ha, hs⟩
    · have hs : (b.submit (.attach w)).state = b := hs
      rwa [hs]
    · have hs : (b.submit (.attach w)).state = { b with memory } := hs
      obtain ⟨-, -, -, same⟩ := Memory.attach_eq_ok_iff.1 ha
      have size : memory.size = b.memory.size := by
        rw [same]
        rfl
      rw [hs]
      exact ⟨ho.exclusive.attach ha, size.trans ho.size, ho.idle⟩
  | detach h =>
    have hs : (b.submit (.detach h)).state = { b with memory := (b.memory.detach h).2 } :=
      congrArg Outcome.state (detach_eq ho.idle h)
    rw [hs]
    exact ⟨ho.exclusive.detach h, ho.size, ho.idle⟩
  | hold =>
    have hs : (b.submit .hold).state = b := by
      obtain ⟨memory, world, busy⟩ := b
      obtain rfl : busy = false := ho.idle
      rfl
    rwa [hs]

theorem converse_orderly (size : Nat) (world : ω) (rs : List (Request (Window ω))) :
    Orderly size ((ofSize size world).converse rs).1 :=
  converse_induction (P := fun b _ => Orderly size b) (orderly_ofSize size world)
    (fun _ _ r h => h.submit r) rs

/-- Whatever is asked of a memory and however it is answered, no address is in two windows or both
in a window and in the storage, handles are not given out twice, and the storage keeps its size: an
address has one owner, or none. -/
theorem addresses_have_one_owner (size : Nat) (world : ω) (rs : List (Request (Window ω))) :
    let m := ((ofSize size world).converse rs).1.memory
    (m.windows.Pairwise fun p q =>
      ∀ a, ¬(p.2.extent.contains a = true ∧ q.2.extent.contains a = true)) ∧
    (∀ p ∈ m.windows, ∀ a, p.2.extent.contains a = true → (size : Int) ≤ a.toInt) ∧
    (m.windows.map (·.1)).Nodup ∧ (∀ p ∈ m.windows, p.1.number < m.nextHandle) ∧
    m.size = size ∧ ∀ a, (∃! o, m.Owns a o) ∨ ∀ o, ¬m.Owns a o := by
  intro m
  have ho : Orderly size ((ofSize size world).converse rs).1 := converse_orderly size world rs
  have hm : m.Exclusive := ho.exclusive
  have hsize : m.size = size := ho.size
  refine ⟨hm.disjoint, fun p hp a inside => ?_, hm.distinct, hm.given, hsize, fun a => ?_⟩
  · rw [← hsize]
    exact hm.size_le hp inside
  · by_cases owned : ∃ o, m.Owns a o
    · obtain ⟨o, h⟩ := owned
      exact .inl ⟨o, h, fun o' h' => hm.owner_unique h' h⟩
    · exact .inr fun o h => owned ⟨o, h⟩

/-- Windows of length zero and past the largest word, refusals and a detachment: the largest word
has the one owner that was given its address. -/
theorem largest_address_has_one_owner :
    let rs : List (Request (Window Unit)) :=
      [.attach (.bare ⟨16, 8, by decide, by decide⟩), .attach (.bare ⟨20, 0, by decide, by decide⟩),
       .attach (.bare ⟨24, 0, by decide, by decide⟩),
       .attach (.bare ⟨2147483647, 2147483647, by decide, by decide⟩), .detach ⟨0⟩, .write 16 1,
       .attach (.bare ⟨7, 4, by decide, by decide⟩), .attach (.bare ⟨8, 8, by decide, by decide⟩)]
    let m := ((ofSize 8 ()).converse rs).1.memory
    m.windows.map (·.1.number) = [1, 2, 3] ∧ ∃! o, m.Owns 2147483647 o := by
  intro rs m
  have held : m.Owns 2147483647 (.window ⟨2⟩) :=
    .window (w := .bare ⟨2147483647, 2147483647, by decide, by decide⟩)
      (.tail _ (.head _)) (by decide)
  refine ⟨rfl, ?_⟩
  rcases (addresses_have_one_owner 8 () rs).2.2.2.2.2 2147483647 with one | none
  · exact one
  · exact absurd held (none _)

end Bus

end RegisterMachine
