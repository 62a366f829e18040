import RegisterMachine.Proofs.Memory.Ownership
/-! Which windows are attached. The test on the ends of intervals is right about windows that hold
an address; it also refuses an empty window that lies within another, although they share none. -/
namespace RegisterMachine

namespace Extent

def Meets (e f : Extent) : Prop := ∃ a, e.contains a = true ∧ f.contains a = true

/-- The interval is empty, and lies strictly between the ends of the other. -/
structure HiddenIn (e f : Extent) : Prop where
  empty : e.length = 0
  start : f.base.toInt < e.base.toInt
  stop : e.base.toInt < f.stop

variable {e f : Extent}

theorem Meets.symm (h : e.Meets f) : f.Meets e := by
  obtain ⟨a, he, hf⟩ := h
  exact ⟨a, hf, he⟩

theorem stop_of_empty (h : e.length = 0) : e.stop = e.base.toInt := by
  simp [stop, h]

/-- Of two intervals that overlap, the one that starts last shares its first address with the other,
unless it is empty. -/
theorem meets_of_overlaps (overlap : e.overlaps f = true) (last : f.base.toInt ≤ e.base.toInt) :
    e.Meets f ∨ e.HiddenIn f := by
  obtain ⟨before, after⟩ := (overlaps_iff e f).1 overlap
  by_cases empty : e.length = 0
  · rw [stop_of_empty empty] at after
    exact .inr ⟨empty, after, before⟩
  · have positive : e.length.toInt ≠ 0 := fun zero => empty (Int32.toInt_inj.1 zero)
    have nonneg := e.length_nonneg
    have inside : e.base.toInt < e.stop := by
      simp only [stop]
      omega
    exact .inl ⟨e.base, (contains_iff e _).2 ⟨Int.le_refl _, inside⟩,
      (contains_iff f _).2 ⟨last, before⟩⟩

theorem overlaps_iff_meets :
    e.overlaps f = true ↔ e.Meets f ∨ e.HiddenIn f ∨ f.HiddenIn e := by
  constructor
  · intro overlap
    rcases Int.le_total f.base.toInt e.base.toInt with last | last
    · exact (meets_of_overlaps overlap last).imp_right .inl
    · exact (meets_of_overlaps (overlaps_comm e f ▸ overlap) last).imp Meets.symm .inr
  · rintro (⟨a, he, hf⟩ | hidden | hidden)
    · exact overlaps_of_contains he hf
    · have stop := stop_of_empty hidden.empty
      exact (overlaps_iff e f).2 ⟨hidden.stop, stop ▸ hidden.start⟩
    · have stop := stop_of_empty hidden.empty
      exact (overlaps_iff e f).2 ⟨stop ▸ hidden.start, hidden.stop⟩

end Extent

namespace Memory
variable {ω : Type} {m : Memory ω} {w : Window ω}

structure Fits (m : Memory ω) (w : Window ω) : Prop where
  past : (m.size : Int) ≤ w.extent.base.toInt
  apart : ∀ p ∈ m.windows, ¬p.2.extent.Meets w.extent

def Hides (m : Memory ω) (w : Window ω) : Prop :=
  ∃ p ∈ m.windows, p.2.extent.HiddenIn w.extent ∨ w.extent.HiddenIn p.2.extent

theorem fits_and_not_hides_iff : m.Fits w ∧ ¬m.Hides w ↔
    (m.size : Int) ≤ w.extent.base.toInt ∧
      ∀ p ∈ m.windows, p.2.extent.overlaps w.extent = false := by
  constructor
  · rintro ⟨⟨past, apart⟩, hides⟩
    refine ⟨past, fun p hp => ?_⟩
    rw [Bool.eq_false_iff]
    intro overlap
    rcases Extent.overlaps_iff_meets.1 overlap with meets | hidden
    · exact apart p hp meets
    · exact hides ⟨p, hp, hidden⟩
  · rintro ⟨past, free⟩
    have none : ∀ p ∈ m.windows, p.2.extent.overlaps w.extent ≠ true := fun p hp overlap => by
      simp [free p hp] at overlap
    refine ⟨⟨past, fun p hp meets => ?_⟩, ?_⟩
    · exact none p hp (Extent.overlaps_iff_meets.2 (.inl meets))
    · rintro ⟨p, hp, hidden⟩
      exact none p hp (Extent.overlaps_iff_meets.2 (.inr hidden))

theorem attach_of_low (low : w.extent.base.toInt < m.size) :
    m.attach w = .error (.badWindow (.insideMemory w.extent.base m.size)) :=
  if_pos low

theorem attach_of_overlap (past : (m.size : Int) ≤ w.extent.base.toInt)
    (taken : (∃ p ∈ m.windows, p.2.extent.Meets w.extent) ∨ m.Hides w) :
    m.attach w = .error (.windowOverlap w.extent.base w.extent.stop) := by
  have overlap : m.windows.any (fun p => p.2.extent.overlaps w.extent) = true := by
    rw [List.any_eq_true]
    rcases taken with ⟨p, hp, meets⟩ | ⟨p, hp, hidden⟩
    · exact ⟨p, hp, Extent.overlaps_iff_meets.2 (.inl meets)⟩
    · exact ⟨p, hp, Extent.overlaps_iff_meets.2 (.inr hidden)⟩
  have past : ¬w.extent.base.toInt < (m.cells.size : Int) := Int.not_lt.2 past
  unfold attach
  rw [if_neg past, if_pos overlap]

end Memory

namespace Bus
variable {ω : Type} {b : Bus ω}

theorem attach_result (idle : b.busy = false) (w : Window ω) :
    (b.attach w).result = (b.memory.attach w).map (·.1) := by
  cases ha : b.memory.attach w with
  | error e => rw [attach_refused idle ha]; rfl
  | ok p => rw [attach_ok idle ha]; rfl

/-- A window is attached when it starts past the storage and shares no address with one that is
attached, except that of two windows none may be empty and lie within the other. Another window is
refused, and then nothing has changed. -/
theorem windows_are_admitted_iff (size : Nat) (world : ω) (rs : List (Request (Window ω)))
    (w : Window ω) :
    let b := ((ofSize size world).converse rs).1
    let o := b.attach w
    ((∃ h, o.result = .ok h) ↔ b.memory.Fits w ∧ ¬b.memory.Hides w) ∧
    (w.extent.base.toInt < size →
      o.result = .error (.badWindow (.insideMemory w.extent.base size))) ∧
    ((size : Int) ≤ w.extent.base.toInt →
      (∃ p ∈ b.memory.windows, p.2.extent.Meets w.extent) ∨ b.memory.Hides w →
      o.result = .error (.windowOverlap w.extent.base w.extent.stop)) ∧
    (∀ h, o.result = .ok h → h = ⟨b.memory.nextHandle⟩ ∧
      o.state = { b with memory := { b.memory with
        windows := b.memory.windows ++ [(h, w)], nextHandle := b.memory.nextHandle + 1 } }) ∧
    ∀ e, o.result = .error e → o.state = b ∧
      ∀ later, o.state.converse later = b.converse later := by
  intro b o
  have ho : Orderly size b := converse_orderly size world rs
  have hsize : b.memory.size = size := ho.size
  have result : o.result = (b.memory.attach w).map (·.1) := attach_result ho.idle w
  refine ⟨?_, fun low => ?_, fun past taken => ?_, fun h ok => ?_, fun e error => ?_⟩
  · rw [Memory.fits_and_not_hides_iff, result]
    constructor
    · rintro ⟨h, ok⟩
      cases ha : b.memory.attach w with
      | error e => simp [ha, Except.map] at ok
      | ok p =>
        obtain ⟨past, free, -, -⟩ := Memory.attach_eq_ok_iff.1 ha
        exact ⟨past, free⟩
    · rintro ⟨past, free⟩
      have ha := Memory.attach_eq_ok_iff.2 ⟨past, free, rfl, rfl⟩
      exact ⟨_, by rw [ha]; rfl⟩
  · rw [result, Memory.attach_of_low (hsize ▸ low), hsize]
    rfl
  · rw [result, Memory.attach_of_overlap (hsize ▸ past) taken]
    rfl
  · cases ha : b.memory.attach w with
    | error e => simp [result, ha, Except.map] at ok
    | ok p =>
      obtain ⟨h', memory⟩ := p
      obtain rfl : h' = h := by simpa [result, ha, Except.map] using ok
      obtain ⟨-, -, rfl, rfl⟩ := Memory.attach_eq_ok_iff.1 ha
      exact ⟨rfl, congrArg Outcome.state (attach_ok ho.idle ha)⟩
  · have kept : o.state = b := by
      cases ha : b.memory.attach w with
      | error e => exact congrArg Outcome.state (attach_refused ho.idle ha)
      | ok p => simp [result, ha, Except.map] at error
    exact ⟨kept, fun later => by rw [kept]⟩

theorem windows_are_admitted_iff_touching :
    let b := ((ofSize 8 ()).converse
      [.attach (.bare ⟨16, 8, by decide, by decide⟩),
       .attach (.bare ⟨30, 0, by decide, by decide⟩)]).1
    let next : Window Unit := .bare ⟨24, 6, by decide, by decide⟩
    b.memory.Fits next ∧ ¬b.memory.Hides next ∧
      (b.attach next).state.memory.windows.map (·.1.number) = [0, 1, 2] ∧
      (b.attach (.bare ⟨7, 1, by decide, by decide⟩)).result =
        .error (.badWindow (.insideMemory 7 8)) ∧
      (b.attach (.bare ⟨23, 1, by decide, by decide⟩)).result = .error (.windowOverlap 23 24) ∧
      (b.attach (.bare ⟨28, 4, by decide, by decide⟩)).state.converse [.attach next] =
        b.converse [.attach next] := by
  intro b next
  have admitted := windows_are_admitted_iff 8 ()
    [.attach (.bare ⟨16, 8, by decide, by decide⟩), .attach (.bare ⟨30, 0, by decide, by decide⟩)]
  obtain ⟨accepts, -, -, attached, -⟩ := admitted next
  obtain ⟨fits, free⟩ := accepts.1 ⟨⟨2⟩, rfl⟩
  obtain ⟨-, state⟩ := attached ⟨2⟩ rfl
  obtain ⟨-, low, -⟩ := admitted (.bare ⟨7, 1, by decide, by decide⟩)
  obtain ⟨-, -, overlap, -⟩ := admitted (.bare ⟨23, 1, by decide, by decide⟩)
  obtain ⟨-, -, -, -, refused⟩ := admitted (.bare ⟨28, 4, by decide, by decide⟩)
  have shared : (Extent.mk 16 8 (by decide) (by decide)).Meets ⟨23, 1, by decide, by decide⟩ :=
    ⟨23, by decide, by decide⟩
  refine ⟨fits, free, by rw [state]; rfl, low (by decide), ?_, ?_⟩
  · exact overlap (by decide) (.inl ⟨_, .head _, shared⟩)
  · exact (refused (.windowOverlap 28 32) rfl).2 _

/-- A window may be refused although it shares no address with another: it is empty. -/
theorem hidden_window_is_refused :
    ¬∀ (size : Nat) (rs : List (Request (Window Unit))) (w : Window Unit),
      (∃ h, (((ofSize size ()).converse rs).1.attach w).result = .ok h) ↔
        ((ofSize size ()).converse rs).1.memory.Fits w := by
  intro accepts
  let w : Window Unit := .bare ⟨20, 0, by decide, by decide⟩
  have empty : ∀ a, w.extent.contains a = false := by
    intro a
    rw [Bool.eq_false_iff]
    intro inside
    have := (Extent.contains_iff w.extent a).1 inside
    have stop : w.extent.stop = 20 := by decide
    have base : w.extent.base.toInt = 20 := by decide
    omega
  have fits : ((ofSize 8 ()).converse
      [.attach (.bare ⟨16, 8, by decide, by decide⟩)]).1.memory.Fits w := by
    refine ⟨by decide, fun p hp meets => ?_⟩
    obtain ⟨a, -, inside⟩ := meets
    simp [empty a] at inside
  obtain ⟨h, ok⟩ := (accepts 8 _ w).2 fits
  cases ok

end Bus

end RegisterMachine
