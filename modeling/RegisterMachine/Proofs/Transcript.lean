import RegisterMachine.Proofs.Actions
import RegisterMachine.Proofs.Memory.Registry
/-! What a terminal shows: the characters that are written to its first address while it is
attached, in order, whoever writes them, and nothing else. -/
namespace RegisterMachine

def Request.wordFor? {W : Type} (a : Word) : Request W → Option Word
  | .write a' value => if a' = a then some value else none
  | .read _ | .attach _ | .detach _ | .hold => none

theorem Request.wordFor?_of_ne {W : Type} {a : Word} {r : Request W}
    (other : ∀ value, r ≠ .write a value) : r.wordFor? a = none := by
  cases r with
  | write a' value =>
    refine if_neg ?_
    rintro rfl
    exact other value rfl
  | read | attach | detach | hold => rfl

def Request.handle? {W : Type} : Request W → Option Handle
  | .detach h => some h
  | .read _ | .write _ _ | .attach _ | .hold => none

namespace Terminal
variable {ω : Type} {base value : Word} {sink : Char → ω → ω} {w : Window ω}

theorem character?_eq_none_iff : character? value = none ↔
    ¬(0 ≤ value.toInt ∧ value.toInt ≤ 0xD7FF ∨ 0xE000 ≤ value.toInt ∧ value.toInt ≤ 0x10FFFF) := by
  simp only [character?, Nat.isValidChar, ite_eq_right_iff, reduceCtorEq, imp_false]
  omega

theorem character?_eq_some_iff {c : Char} : character? value = some c ↔ value.toInt = c.toNat := by
  unfold character?
  split
  · rename_i valid
    have code : (Char.ofNat value.toInt.toNat).toNat = value.toInt.toNat := by
      rw [Char.ofNat, dif_pos valid.2]
      rfl
    constructor
    · rintro ⟨⟩
      omega
    · intro same
      rw [same, Int.toNat_natCast, Char.ofNat_toNat]
  · rename_i invalid
    simp only [reduceCtorEq, false_iff]
    intro same
    exact invalid ⟨by omega, by rw [same, Int.toNat_natCast]; exact c.valid⟩

/-- The characters that requests have a terminal at an address show, in order. -/
def text {W : Type} (base : Word) (rs : List (Request W)) : List Char :=
  (rs.filterMap (Request.wordFor? base)).filterMap character?

theorem text_append {W : Type} (base : Word) (rs rs' : List (Request W)) :
    text base (rs ++ rs') = text base rs ++ text base rs' := by
  simp [text]

theorem text_of_ne {W : Type} {r : Request W} (other : ∀ value, r ≠ .write base value) :
    text base [r] = [] := by
  simp [text, Request.wordFor?_of_ne other]

theorem text_of_access {W : Type} {r : Request W} {a : Word} {written : Option Word}
    (ha : r.access? = some (a, written)) :
    text base [r] = if a = base then (written.bind character?).toList else [] := by
  cases r with
  | attach | detach | hold => simp [Request.access?] at ha
  | read a' =>
    obtain ⟨rfl, rfl⟩ : a' = a ∧ none = written := by simpa [Request.access?] using ha
    simp [text, Request.wordFor?]
  | write a' value =>
    obtain ⟨rfl, rfl⟩ : a' = a ∧ some value = written := by simpa [Request.access?] using ha
    by_cases first : a' = base
    · simp only [text, Request.wordFor?, first, if_true, List.filterMap_cons, Option.bind_some]
      cases character? value <;> rfl
    · simp [text, Request.wordFor?, first]

variable (hw : window base sink = .ok w)
include hw

theorem eq_of_window : ∃ e : Extent, e.base = base ∧ e.stop = base.toInt + 16 ∧ w =
    { extent := e
      onRead := some fun _ => .reply 0
      onWrite := some fun a value => if a = base then emit sink value else .reply () } := by
  unfold window Extent.make at hw
  split at hw
  · exact ⟨_, rfl, rfl, (Except.ok.inj hw).symm⟩
  · cases hw

theorem contains_iff_of_window {a : Word} :
    w.extent.contains a = true ↔ base.toInt ≤ a.toInt ∧ a.toInt < base.toInt + 16 := by
  obtain ⟨e, start, stop, rfl⟩ := eq_of_window hw
  rw [Extent.contains_iff, start, stop]

theorem callRead_of_window (h : Handle) (a : Word) (world : ω) :
    w.callRead h a world = .ok 0 world [.deviceRead h a] := by
  obtain ⟨e, -, -, rfl⟩ := eq_of_window hw
  rfl

theorem callWrite_of_window (h : Handle) (a value : Word) (world : ω) :
    (w.callWrite h a value world).result = .ok () ∧ (w.callWrite h a value world).state =
      if a = base then (character? value).elim world (sink · world) else world := by
  obtain ⟨e, -, -, rfl⟩ := eq_of_window hw
  simp only [Window.callWrite, emit]
  split
  · cases character? value <;> exact ⟨rfl, rfl⟩
  · exact ⟨rfl, rfl⟩

theorem effect_of_window (h : Handle) (a : Word) (written : Option Word) (world : ω) :
    Call.effect ⟨h, w, a, written⟩ world =
      if a = base then (written.bind character?).elim world (sink · world) else world := by
  cases written with
  | none =>
    simp only [Call.effect, callRead_of_window hw, Outcome.ok, Option.bind_none, Option.elim_none,
      ite_self]
  | some value => exact (callWrite_of_window hw h a value world).2

end Terminal

/-- `Shown sink others world text world'`: the characters of a text are sent to the sink, in order.
Nothing else happens to the world than calls of the other devices. -/
inductive Shown {ω : Type} (sink : Char → ω → ω) (others : Handle × Window ω → Prop) :
    ω → List Char → ω → Prop
  | done (world : ω) : Shown sink others world [] world
  | sent {c : Char} {text : List Char} {world world' : ω}
      (rest : Shown sink others (sink c world) text world') :
      Shown sink others world (c :: text) world'
  | called {c : Call ω} {text : List Char} {world world' : ω} (other : others (c.device, c.window))
      (rest : Shown sink others (c.effect world) text world') : Shown sink others world text world'

def Window.Spares {ω : Type} (shown : ω → List Char) (w : Window ω) : Prop :=
  ∀ h a written world, shown (Call.effect ⟨h, w, a, written⟩ world) = shown world

namespace Shown
variable {ω : Type} {sink : Char → ω → ω} {others others' : Handle × Window ω → Prop}
  {text text' : List Char} {world world' world'' : ω}

theorem trans (first : Shown sink others world text world')
    (second : Shown sink others world' text' world'') :
    Shown sink others world (text ++ text') world'' := by
  induction first with
  | done world => exact second
  | sent _ ih => exact .sent (ih second)
  | called other _ ih => exact .called other (ih second)

theorem mono (h : Shown sink others world text world') (more : ∀ p, others p → others' p) :
    Shown sink others' world text world' := by
  induction h with
  | done world => exact .done world
  | sent _ ih => exact .sent ih
  | called other _ ih => exact .called (more _ other) ih

theorem shown_eq {shown : ω → List Char} (h : Shown sink others world text world')
    (adds : ∀ c world, shown (sink c world) = shown world ++ [c])
    (spared : ∀ p, others p → p.2.Spares shown) : shown world' = shown world ++ text := by
  induction h with
  | done world => simp
  | sent _ ih => rw [ih, adds, List.append_assoc, List.singleton_append]
  | called other _ ih => rw [ih, spared _ other]

end Shown

namespace Bus
variable {ω : Type} {b : Bus ω} {size : Nat}

section Attached
variable {base : Word} {sink : Char → ω → ω} {h : Handle} {w : Window ω}
  (hw : Terminal.window base sink = .ok w) (there : (h, w) ∈ b.memory.windows)
include hw there

theorem reaches_terminal (ho : Orderly size b) {a : Word} (low : base.toInt ≤ a.toInt)
    (high : a.toInt < base.toInt + 16) :
    b.memory.cell? a = none ∧ b.memory.windowAt? a = some (h, w) := by
  have inside := (Terminal.contains_iff_of_window hw).2 ⟨low, high⟩
  exact ⟨ho.exclusive.cell?_of_window there inside, ho.exclusive.windowAt?_eq there inside⟩

/-- One request has the terminal show at most a character, and calls one device at most. -/
theorem submit_shown (ho : Orderly size b) (r : Request (Window ω)) :
    Shown sink (fun p => p.1 ≠ h ∧ p ∈ b.memory.windows) b.world (Terminal.text base [r])
      (b.submit r).state.world := by
  have owner := (reaches_terminal hw there ho (Int.le_refl _) (by omega)).2
  rcases submit_world ho r with ⟨same, nobody⟩ | ⟨a, written, p, ha, found, after⟩
  · have other : ∀ value, r ≠ .write base value := by
      rintro value rfl
      simp [nobody base _ rfl] at owner
    rw [same, Terminal.text_of_ne other]
    exact .done _
  · have attached : p ∈ b.memory.windows := List.mem_of_find?_eq_some found
    rw [after, Terminal.text_of_access ha]
    by_cases own : p.1 = h
    · obtain ⟨h', w'⟩ := p
      obtain rfl : h' = h := own
      obtain rfl := ho.exclusive.window_of_handle there attached
      rw [Terminal.effect_of_window hw]
      split
      · cases written.bind Terminal.character? with
        | none => exact .done _
        | some c => exact .sent (.done _)
      · exact .done _
    · have elsewhere : a ≠ base := by
        rintro rfl
        obtain rfl : (h, w) = p := Option.some.inj (owner.symm.trans found)
        exact own rfl
      rw [if_neg elsewhere]
      exact .called ⟨own, attached⟩ (.done _)

theorem converse_shown (ho : Orderly size b) {rs : List (Request (Window ω))}
    (kept : .detach h ∉ rs) :
    Shown sink (fun p => p.1 ≠ h ∧ b.Involves rs p) b.world (Terminal.text base rs)
        (b.converse rs).1.world ∧
      Orderly size (b.converse rs).1 ∧ (h, w) ∈ (b.converse rs).1.memory.windows := by
  induction rs generalizing b with
  | nil => exact ⟨.done _, ho, there⟩
  | cons r rest ih =>
    obtain ⟨first, kept⟩ := not_or.1 (mt List.mem_cons.2 kept)
    have still := mem_windows_submit ho there (Ne.symm first)
    obtain ⟨shown, orderly, stays⟩ := ih still (ho.submit r) kept
    rw [converse_cons, ← List.singleton_append, Terminal.text_append]
    refine ⟨?_, orderly, stays⟩
    exact ((submit_shown hw there ho r).mono fun p hp => ⟨hp.1, .inl hp.2⟩).trans
      (shown.mono fun p hp => ⟨hp.1, involves_of_submit ho hp.2⟩)

end Attached

/-- Without its window a terminal shows nothing, whatever is asked. -/
theorem Gone.converse_shown {h : Handle} (hg : Gone h b) (ho : Orderly size b)
    (sink : Char → ω → ω) (rs : List (Request (Window ω))) :
    Shown sink (fun p => p.1 ≠ h ∧ b.Involves rs p) b.world [] (b.converse rs).1.world := by
  induction rs generalizing b with
  | nil => exact .done _
  | cons r rest ih =>
    have first : Shown sink (fun p => p.1 ≠ h ∧ b.Involves (r :: rest) p) b.world []
        (b.submit r).state.world := by
      rcases submit_world ho r with ⟨same, -⟩ | ⟨a, written, p, -, found, after⟩
      · exact same ▸ .done _
      · have attached : p ∈ b.memory.windows := List.mem_of_find?_eq_some found
        rw [after]
        exact .called ⟨hg.absent p attached, .inl attached⟩ (.done _)
    rw [converse_cons]
    exact first.trans ((ih (hg.submit ho r) (ho.submit r)).mono fun p hp =>
      ⟨hp.1, involves_of_submit ho hp.2⟩)

theorem attach_terminal (ho : Orderly size b) (base : Word) (sink : Char → ω → ω) :
    (∃ e, Terminal.attach base sink b = .fail e b) ∨
      ∃ w h, Terminal.window base sink = .ok w ∧ (Terminal.attach base sink b).result = .ok h ∧
        (Terminal.attach base sink b).state.world = b.world ∧
        Orderly size (Terminal.attach base sink b).state ∧
        (h, w) ∈ (Terminal.attach base sink b).state.memory.windows := by
  unfold Terminal.attach
  cases hw : Terminal.window base sink with
  | error e => exact .inl ⟨e, rfl⟩
  | ok w =>
    cases ha : b.memory.attach w with
    | error e =>
      simp only [attach_refused ho.idle ha]
      exact .inl ⟨e, rfl⟩
    | ok p =>
      obtain ⟨h, memory⟩ := p
      have orderly : Orderly size (b.attach w).state := ho.submit (.attach w)
      obtain ⟨-, -, rfl, rfl⟩ := Memory.attach_eq_ok_iff.1 ha
      rw [attach_ok ho.idle ha] at orderly
      simp only [attach_ok ho.idle ha]
      exact .inr ⟨w, _, rfl, rfl, rfl, orderly, List.mem_append_right _ (List.mem_singleton_self _)⟩

end Bus

namespace Terminal

/-- A terminal answers the accesses in its window, and lets all other requests be. -/
structure Serves {ω : Type} (base : Word) (sink : Char → ω → ω) (h : Handle) (b : Bus ω) :
    Prop where
  reads : ∀ a : Word, base.toInt ≤ a.toInt → a.toInt < base.toInt + 16 →
    b.read a = .ok 0 b [.deviceRead h a]
  shows : ∀ value, (b.write base value).result = .ok () ∧ (b.write base value).state =
    { b with world := (character? value).elim b.world (sink · b.world) }
  ignores : ∀ a value : Word, base.toInt ≤ a.toInt → a.toInt < base.toInt + 16 → a ≠ base →
    (b.write a value).result = .ok () ∧ (b.write a value).state = b
  others : ∀ r, (∀ value, r ≠ .write base value) →
    Shown sink (fun p => p.1 ≠ h ∧ p ∈ b.memory.windows) b.world [] (b.submit r).state.world
  registrations : ∀ r : Request (Window ω), r.access? = none →
    (b.submit r).state.world = b.world

theorem serves {ω : Type} {b : Bus ω} {size : Nat} (ho : b.Orderly size) {base : Word}
    {sink : Char → ω → ω} {h : Handle} {w : Window ω} (hw : window base sink = .ok w)
    (there : (h, w) ∈ b.memory.windows) : Serves base sink h b := by
  refine ⟨fun a low high => ?_, fun value => ?_, fun a value low high other => ?_,
    fun r other => ?_, fun r none => ?_⟩
  · obtain ⟨outside, found⟩ := Bus.reaches_terminal hw there ho low high
    rw [Bus.read_window ho.idle outside found, callRead_of_window hw]
    rfl
  · obtain ⟨outside, found⟩ :=
      Bus.reaches_terminal hw there ho (Int.le_refl base.toInt) (by omega)
    obtain ⟨answer, world⟩ := callWrite_of_window hw h base value b.world
    rw [Bus.write_window ho.idle outside found]
    exact ⟨answer, by simp only [Outcome.mapState, world, if_true]⟩
  · obtain ⟨outside, found⟩ := Bus.reaches_terminal hw there ho low high
    obtain ⟨answer, world⟩ := callWrite_of_window hw h a value b.world
    rw [Bus.write_window ho.idle outside found]
    exact ⟨answer, by simp only [Outcome.mapState, world, if_neg other]⟩
  · exact text_of_ne other ▸ Bus.submit_shown hw there ho r
  · rcases Bus.submit_world ho r with ⟨same, -⟩ | ⟨a, written, p, access, -, -⟩
    · exact same
    · simp [none] at access

end Terminal

namespace Machine
variable {ω : Type}

theorem actAll_orderly (size : Nat) (world : ω) (stackSize : Nat) (actions : List (Action ω)) :
    Bus.Orderly size (actAll actions (onBus (.ofSize size world) stackSize)).bus := by
  rw [actAll_asks actions rfl]
  exact Bus.converse_orderly size world _

/-- Whatever has been done to a memory before a terminal is attached to it, and whatever is done to
it until that is taken away, by requests or by programs: the terminal shows the characters that are
written to its first address, in order, and nothing else; other devices may be called in between.
The words that encode no character, and those for the other addresses of its window, are taken and
not shown, and reads give zero. No other request, no instruction that does not store and no terminal
that is refused has it show anything. When it is taken away, what it has shown stays, and nothing is
added to it. -/
theorem terminal_shows_what_is_written (size : Nat) (world : ω) (stackSize : Nat)
    (before after later : List (Action ω)) (base : Word) (sink : Char → ω → ω) (h : Handle) :
    let m₀ := actAll before (onBus (.ofSize size world) stackSize)
    let m₁ := (Action.terminal base sink).act m₀
    let m₂ := actAll after m₁
    let m₃ := (Action.request (.detach h)).act m₂
    let rs := asked after m₁
    (Terminal.attach base sink m₀.bus).result = .ok h → .detach h ∉ rs →
    m₁.bus.world = m₀.bus.world ∧
    m₂.bus = (m₁.bus.converse rs).1 ∧
    Shown sink (fun p => p.1 ≠ h ∧ m₁.bus.Involves rs p) m₁.bus.world (Terminal.text base rs)
      m₂.bus.world ∧
    (∀ shown : ω → List Char, (∀ c world, shown (sink c world) = shown world ++ [c]) →
      (∀ p, p.1 ≠ h → m₁.bus.Involves rs p → p.2.Spares shown) →
      shown m₂.bus.world = shown m₁.bus.world ++ Terminal.text base rs) ∧
    (∀ value, (∀ c, Terminal.character? value = some c ↔ value.toInt = c.toNat) ∧
      (Terminal.character? value = none ↔ ¬(0 ≤ value.toInt ∧ value.toInt ≤ 0xD7FF ∨
        0xE000 ≤ value.toInt ∧ value.toInt ≤ 0x10FFFF))) ∧
    Terminal.Serves base sink h m₂.bus ∧
    (∀ i : Instruction, i.opcode ≠ .storeMem → i.opcode ≠ .storeReg →
      Shown sink (fun p => p.1 ≠ h ∧ p ∈ m₂.bus.memory.windows) m₂.bus.world []
        (m₂.execute i).state.bus.world) ∧
    (∀ base' sink' e, (Terminal.attach base' sink' m₂.bus).result = .error e →
      (Terminal.attach base' sink' m₂.bus).state = m₂.bus) ∧
    (∃ w, Terminal.window base sink = .ok w ∧ (m₂.bus.detach h).result = .ok (some w)) ∧
    m₃.bus.world = m₂.bus.world ∧
    Shown sink (fun p => p.1 ≠ h ∧ m₃.bus.Involves (asked later m₃) p) m₃.bus.world []
      (actAll later m₃).bus.world := by
  intro m₀ m₁ m₂ m₃ rs attached kept
  have orderly₀ : Bus.Orderly size m₀.bus := actAll_orderly size world stackSize before
  rcases Bus.attach_terminal orderly₀ base sink with ⟨e, refused⟩ | ⟨w, h', hw, answer, same, rest⟩
  · simp [refused, Outcome.fail] at attached
  obtain rfl : h = h' := Except.ok.inj (attached.symm.trans answer)
  have orderly₁ : Bus.Orderly size m₁.bus := rest.1
  have bus₂ : m₂.bus = (m₁.bus.converse rs).1 := actAll_asks after orderly₁.idle
  have there₁ : (h, w) ∈ m₁.bus.memory.windows := rest.2
  obtain ⟨shown, orderly₂, there⟩ := Bus.converse_shown hw there₁ orderly₁ kept
  rw [← bus₂] at shown orderly₂ there
  obtain ⟨taken, stays, gone⟩ := Bus.gone_of_detach orderly₂ there
  refine ⟨same, bus₂, shown, fun read adds spared => ?_, fun value => ?_,
    Terminal.serves orderly₂ hw there, fun i mem reg => ?_, fun base' sink' e failed => ?_,
    ⟨w, hw, taken⟩, stays, ?_⟩
  · exact shown.shown_eq adds fun p hp => spared p hp.1 hp.2
  · exact ⟨fun c => Terminal.character?_eq_some_iff, Terminal.character?_eq_none_iff⟩
  · rw [execute_asks]
    rcases asks_of_no_store (m := m₂) mem reg with none | ⟨a, read⟩
    · rw [none]
      exact .done _
    · rw [read]
      exact Terminal.text_of_ne (r := .read a) (by simp) ▸
        Bus.submit_shown hw there orderly₂ (.read a)
  · rcases Bus.attach_terminal orderly₂ base' sink' with ⟨e', refused⟩ | ⟨w', h', -, ok, -⟩
    · rw [refused]
      rfl
    · cases failed.symm.trans ok
  · have orderly₃ : Bus.Orderly size m₃.bus := orderly₂.submit (.detach h)
    rw [actAll_asks later orderly₃.idle]
    exact Bus.Gone.converse_shown (b := m₃.bus) gone orderly₃ sink _

def counter : Window (List Char × Nat) :=
  { extent := ⟨40, 2, by decide, by decide⟩
    onRead := none
    onWrite := some fun _ _ => .change fun world => (world.1, world.2 + 1) }

/-- The host and a program write to one terminal, words among them that are no characters. A second
terminal is refused meanwhile, and a counter is called. -/
theorem terminal_shows_what_is_written_by_turns :
    let page (c : Char) (world : List Char × Nat) := (world.1 ++ [c], world.2)
    let guest := (onBus (.ofSize 0 ([], 0)) 4).load (.ofArray #[.loadImm .v0 105, .loadImm .v1 16,
      .storeReg .v0 .v1, .storeMem .v0 17, .storeMem .v0 40, .loadMem .v2 16, .exit])
    let after : List (Action (List Char × Nat)) :=
      [.request (.write 16 104), .terminal 20 page, .request (.attach counter), .machine guest,
       .run 9, .visit [.write 16 (-1), .write 16 0xD800, .write 31 120], .request (.write 16 33)]
    let m₀ := actAll [.request (.write 3 7)] (onBus (.ofSize 16 ([], 0)) 4)
    let m₁ := (Action.terminal 16 page).act m₀
    let m₂ := actAll after m₁
    let m₃ := (Action.request (.detach ⟨0⟩)).act m₂
    m₂.bus.world = (['h', 'i', '!'], 1) ∧
      Shown page (fun p => p.1 ≠ ⟨0⟩) m₁.bus.world ['h', 'i', '!'] m₂.bus.world ∧
      m₂.bus.read 31 = .ok 0 m₂.bus [.deviceRead ⟨0⟩ 31] ∧
      Shown page (fun p => p.1 ≠ ⟨0⟩) m₂.bus.world [] (actAll [.run 9] m₃).bus.world := by
  intro page guest after m₀ m₁ m₂ m₃
  have kept : .detach ⟨0⟩ ∉ asked after m₁ := by
    have none : (asked after m₁).filterMap Request.handle? = [] := by decide
    intro there
    have used : ⟨0⟩ ∈ (asked after m₁).filterMap Request.handle? :=
      List.mem_filterMap.2 ⟨_, there, rfl⟩
    rw [none] at used
    cases used
  have text : Terminal.text 16 (asked after m₁) = ['h', 'i', '!'] := by decide
  obtain ⟨-, -, shown, -, -, serves, -, -, -, stays, ended⟩ := terminal_shows_what_is_written 16
    ([], 0) 4 [.request (.write 3 7)] after [.run 9] 16 page ⟨0⟩ (by decide) kept
  have first : (Action.terminal 16 page).act (actAll [.request (.write 3 7)] _) = m₁ := rfl
  have last : (Action.request (.detach ⟨0⟩)).act (actAll after m₁) = m₃ := rfl
  refine ⟨by decide, ?_, serves.reads 31 (by decide) (by decide), ?_⟩
  · have told := shown.mono fun p hp => hp.1
    rw [first, text] at told
    exact told
  · have told := ended.mono fun p hp => hp.1
    rw [stays, first, last] at told
    exact told

end Machine

end RegisterMachine
