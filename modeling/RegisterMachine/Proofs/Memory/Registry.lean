import RegisterMachine.Proofs.Memory.Handles
/-! What a request does to the windows and to the outside world, and which windows are attached in
the course of requests. -/
namespace RegisterMachine.Bus
variable {ω : Type} {b : Bus ω} {size : Nat}

theorem submit_world (ho : Orderly size b) (r : Request (Window ω)) :
    (b.submit r).state.world = b.world ∧
        (∀ a written, r.access? = some (a, written) → b.memory.windowAt? a = none) ∨
      ∃ a written p, r.access? = some (a, written) ∧ b.memory.windowAt? a = some p ∧
        (b.submit r).state.world = Call.effect ⟨p.1, p.2, a, written⟩ b.world := by
  cases ha : r.access? with
  | some access =>
    obtain ⟨a, written⟩ := access
    have after := (submit_access ho ha).2
    cases there : b.memory.windowAt? a with
    | none =>
      rw [there] at after
      refine .inl ⟨after, ?_⟩
      rintro a' written' ⟨⟩
      exact there
    | some p =>
      rw [there] at after
      exact .inr ⟨a, written, p, rfl, there, after⟩
  | none =>
    refine .inl ⟨?_, by simp⟩
    cases r with
    | read | write => simp [Request.access?] at ha
    | attach w =>
      have same : (b.submit (.attach w)).state = (b.attach w).state := rfl
      rcases attach_state ho.idle w with kept | ⟨h, memory, -, added⟩
      · rw [same, kept]
      · rw [same, added]
    | detach h => exact congrArg (·.state.world) (detach_eq ho.idle h)
    | hold => simp [submit, holding, ho.idle, Outcome.mapState, Outcome.ok]

theorem submit_windows (ho : Orderly size b) (r : Request (Window ω)) :
    let b' := (b.submit r).state
    (b'.memory.windows = b.memory.windows ∧ b'.memory.nextHandle = b.memory.nextHandle) ∨
      (∃ w, r = .attach w ∧ (b.submit r).result = .ok (.attached ⟨b.memory.nextHandle⟩) ∧
        b'.memory.windows = b.memory.windows ++ [(⟨b.memory.nextHandle⟩, w)] ∧
        b'.memory.nextHandle = b.memory.nextHandle + 1) ∨
      ∃ h, r = .detach h ∧ b'.memory.windows = (b.memory.windows.filter fun p => p.1 != h) ∧
        b'.memory.nextHandle = b.memory.nextHandle := by
  intro b'
  cases r with
  | read a =>
    obtain ⟨world, same⟩ := read_state ho.idle a
    have same : b' = { b with world } := same
    exact .inl ⟨by rw [same], by rw [same]⟩
  | write a value =>
    obtain ⟨cells, world, -, same⟩ := write_state ho.idle a value
    have same : b' = { b with memory := { b.memory with cells }, world } := same
    exact .inl ⟨by rw [same], by rw [same]⟩
  | attach w =>
    cases ha : b.memory.attach w with
    | error e =>
      have same : b' = b := congrArg Outcome.state (attach_refused ho.idle ha)
      exact .inl ⟨by rw [same], by rw [same]⟩
    | ok p =>
      obtain ⟨h, memory⟩ := p
      obtain ⟨-, -, rfl, rfl⟩ := Memory.attach_eq_ok_iff.1 ha
      have same : b.submit (.attach w) = _ :=
        congrArg (Outcome.map Answer.attached) (attach_ok ho.idle ha)
      refine .inr (.inl ⟨w, rfl, ?_, ?_, ?_⟩) <;> simp only [b', same] <;> rfl
  | detach h =>
    have same : b' = { b with memory := (b.memory.detach h).2 } :=
      congrArg Outcome.state (detach_eq ho.idle h)
    refine .inr (.inr ⟨h, rfl, ?_, ?_⟩)
    · rw [same]
      exact ho.exclusive.detach_windows h
    · rw [same]
      rfl
  | hold =>
    have same : b' = b := by
      obtain ⟨memory, world, busy⟩ := b
      obtain rfl : busy = false := ho.idle
      rfl
    exact .inl ⟨by rw [same], by rw [same]⟩

def Involves (b : Bus ω) (rs : List (Request (Window ω))) (p : Handle × Window ω) : Prop :=
  p ∈ b.memory.windows ∨ (.attach p.2, .ok (.attached p.1)) ∈ (b.converse rs).2

theorem involves_of_submit (ho : Orderly size b) {r : Request (Window ω)}
    {rs : List (Request (Window ω))} {p : Handle × Window ω}
    (h : (b.submit r).state.Involves rs p) : b.Involves (r :: rs) p := by
  rcases h with there | admitted
  · rcases submit_windows ho r with ⟨same, -⟩ | ⟨w, rfl, answer, same, -⟩ | ⟨h, rfl, same, -⟩
    · exact .inl (same ▸ there)
    · rw [same] at there
      rcases List.mem_append.1 there with there | new
      · exact .inl there
      · obtain rfl := List.mem_singleton.1 new
        refine .inr ?_
        rw [converse_cons, answer]
        exact List.mem_append_right _ (List.mem_singleton_self _)
    · rw [same] at there
      exact .inl (List.mem_of_mem_filter there)
  · refine .inr ?_
    rw [converse_cons]
    exact List.mem_append_left _ admitted

theorem mem_windows_submit (ho : Orderly size b) {p : Handle × Window ω}
    (there : p ∈ b.memory.windows) {r : Request (Window ω)} (kept : r ≠ .detach p.1) :
    p ∈ (b.submit r).state.memory.windows := by
  rcases submit_windows ho r with ⟨same, -⟩ | ⟨w, rfl, answer, same, -⟩ | ⟨h, rfl, same, -⟩
  · exact same ▸ there
  · exact same ▸ List.mem_append_left _ there
  · have other : p.1 ≠ h := fun same => kept (same ▸ rfl)
    rw [same]
    exact List.mem_filter.2 ⟨there, by simpa using other⟩

/-- A handle that was given out and has no window. -/
structure Gone (h : Handle) (b : Bus ω) : Prop where
  absent : ∀ p ∈ b.memory.windows, p.1 ≠ h
  given : h.number < b.memory.nextHandle

theorem Gone.submit {h : Handle} (hg : Gone h b) (ho : Orderly size b) (r : Request (Window ω)) :
    Gone h (b.submit r).state := by
  rcases submit_windows ho r with ⟨same, next⟩ | ⟨w, rfl, -, same, next⟩ | ⟨h', rfl, same, next⟩
  · exact ⟨same ▸ hg.absent, next ▸ hg.given⟩
  · refine ⟨fun p hp => ?_, next ▸ Nat.lt_succ_of_lt hg.given⟩
    rw [same] at hp
    rcases List.mem_append.1 hp with hp | hp
    · exact hg.absent p hp
    · obtain rfl := List.mem_singleton.1 hp
      rintro rfl
      exact Nat.lt_irrefl _ hg.given
  · refine ⟨fun p hp => ?_, next ▸ hg.given⟩
    rw [same] at hp
    exact hg.absent p (List.mem_of_mem_filter hp)

theorem gone_of_detach (ho : Orderly size b) {h : Handle} {w : Window ω}
    (there : (h, w) ∈ b.memory.windows) : (b.detach h).result = .ok (some w) ∧
      (b.detach h).state.world = b.world ∧ Gone h (b.detach h).state := by
  obtain ⟨u, v, split⟩ := List.append_of_mem there
  rw [detach_eq ho.idle, ho.exclusive.detach_split split]
  exact ⟨rfl, rfl, ho.exclusive.others_ne split, ho.exclusive.given _ there⟩

end RegisterMachine.Bus
