import RegisterMachine.Proofs.Assembly.Course
/-! The books that the assembler keeps: which label has which index, and which slots wait for which
label. They are in order before and after each line of a session, and after a line that is refused;
so a label that gets its index completes just the slots that wait for it. -/
namespace RegisterMachine

theorem Draft.index_of_label?_settle {index : Token → Option Nat} {d : Draft} {l : Token}
    (waits : (d.settle index).label? = some l) : index l = none := by
  cases d with
  | complete i => cases waits
  | waiting b l' =>
    unfold Draft.settle at waits
    cases defined : index l' with
    | some k => simp [defined, label?] at waits
    | none =>
      obtain rfl : l' = l := by simpa [defined, label?] using waits
      exact defined

theorem Form.index_of_waiting {form : Form} {index : Token → Option Nat} {tokens : List Token}
    {d : Draft} (read : form.read index tokens = .ok d) {l : Token} (waits : d.label? = some l) :
    index l = none := by
  rw [form.read_settle] at read
  cases blank : form.read (fun _ => none) tokens with
  | error p => simp [blank, Functor.map, Except.map] at read
  | ok d' =>
    obtain rfl : d'.settle index = d := by simpa [blank, Functor.map, Except.map] using read
    exact Draft.index_of_label?_settle waits

theorem Slot.label?_fill {s : Slot} {label l : Token} {k : Nat} :
    (s.fill label k).draft.label? = some l ↔ s.draft.label? = some l ∧ l ≠ label := by
  obtain ⟨line, draft⟩ := s
  cases draft with
  | complete i => simp [fill, Draft.label?]
  | waiting b l' =>
    by_cases same : l' = label
    · simp [fill, Draft.label?, Draft.resolve, same, eq_comm]
    · have other : l' = l → l ≠ label := fun h => h ▸ same
      simpa [fill, Draft.label?, same] using other

theorem Slot.fill_complete {s : Slot} {i : Instruction} (complete : s.draft = .complete i)
    (label : Token) (k : Nat) : s.fill label k = s := by
  simp [fill, complete, Draft.label?]

theorem pairwise_waiting (slots : List Slot) : (waiting slots).Pairwise fun p q => p.2 < q.2 := by
  have indices : slots.zipIdx.Pairwise fun p q => p.2 < q.2 := by
    rw [← List.pairwise_map (f := Prod.snd) (R := (· < ·)), List.zipIdx_map_snd]
    exact List.pairwise_lt_range'
  refine indices.filterMap _ fun p q ascends p' there q' there' => ?_
  obtain ⟨l, -, rfl⟩ := Option.map_eq_some_iff.1 there
  obtain ⟨l', -, rfl⟩ := Option.map_eq_some_iff.1 there'
  exact ascends

theorem Label.isValid_of_read {t label : Token} (read : Label.read t = .ok label) :
    Label.isValid label = true := by
  unfold Label.read at read
  generalize (if Label.isMarked t then t.dropLast else t) = name at read
  by_cases valid : Label.isValid name = true
  · obtain rfl : name = label := by simpa [valid] using read
    exact valid
  · simp [valid] at read

namespace Assembler

/-! ### What a line does -/

/-- A label with a valid name may be bound, and after that an instruction added. A label that this
waits for has no index. -/
def Writes (nr : Nat) (asm asm' : Assembler) : Prop :=
  ∃ bound : Assembler,
    (bound = asm ∨ ∃ label, Label.isValid label = true ∧ bound = (asm.bind label nr).state) ∧
    (asm' = bound ∨ ∃ draft : Draft,
      (∀ l, draft.label? = some l → bound.bound? l = none) ∧ asm' = (bound.emit draft nr).state)

theorem takeInstruction_writes (asm : Assembler) (op : Token) (operands : List Token) (nr : Nat) :
    let asm' := (asm.takeInstruction op operands nr).state
    asm' = asm ∨ ∃ draft : Draft,
      (∀ l, draft.label? = some l → asm.bound? l = none) ∧ asm' = (asm.emit draft nr).state := by
  unfold takeInstruction
  split
  · exact .inl rfl
  rename_i opcode _
  cases read : opcode.form.read asm.bound? operands with
  | error p => exact .inl rfl
  | ok draft => exact .inr ⟨draft, fun l waits => Form.index_of_waiting read waits, rfl⟩

theorem takeOperation_writes (asm : Assembler) (tokens : List Token) (nr : Nat) :
    let asm' := (asm.takeOperation postpone tokens nr).state
    asm' = asm ∨ ∃ draft : Draft,
      (∀ l, draft.label? = some l → asm.bound? l = none) ∧ asm' = (asm.emit draft nr).state := by
  unfold takeOperation
  split
  · exact .inr ⟨.complete .noop, by simp [Draft.label?], rfl⟩
  split
  · exact asm.takeInstruction_writes _ _ nr
  · split <;> exact .inl rfl

theorem takeWords_writes (asm : Assembler) (tokens : List Token) (nr : Nat) :
    asm.Writes nr (asm.takeWords postpone tokens nr).state := by
  cases tokens with
  | nil => exact ⟨asm, .inl rfl, asm.takeOperation_writes [] nr⟩
  | cons first rest =>
    unfold takeWords
    dsimp only
    split
    · split
      · exact ⟨asm, .inl rfl, .inl rfl⟩
      · rename_i label read
        have state := (Outcome.andThen_of_ok (asm.bind_result label nr) fun _ asm =>
          asm.takeOperation postpone rest nr).2
        rw [state]
        exact ⟨_, .inr ⟨label, Label.isValid_of_read read, rfl⟩, takeOperation_writes _ rest nr⟩
    · exact ⟨asm, .inl rfl, asm.takeOperation_writes _ nr⟩

/-- Before its call a line, refused or not, does something to the macros only, or it writes. -/
theorem takeLineWith_writes (asm : Assembler) (line : Line) (nr : Nat) :
    let asm' := (asm.takeLineWith postpone line nr).state
    asm' = { asm with macros := asm'.macros } ∨ asm.Writes nr asm' := by
  unfold takeLineWith takeTrimmed
  split
  · exact .inl rfl
  split
  · exact .inl rfl
  split
  · exact .inl rfl
  split
  · exact .inl rfl
  · exact .inr (asm.takeWords_writes _ nr)

/-! ### The books -/

structure Orderly (asm : Assembler) : Prop where
  bookkept : asm.Bookkept
  /-- No slot waits for a label that has an index. -/
  unbound : ∀ {k : Nat} {s : Slot} {label : Token}, asm.slots[k]? = some s →
    s.draft.label? = some label → asm.bound? label = none
  within : ∀ label k, asm.bound? label = some k → k ≤ asm.slots.size
  valid : ∀ label k, asm.bound? label = some k → Label.isValid label = true

/-- What is complete in the one is the same in the other. -/
def Keeps (asm asm' : Assembler) : Prop :=
  ∀ (k : Nat) (s : Slot) (i : Instruction), asm.slots[k]? = some s → s.draft = .complete i →
    asm'.slots[k]? = some s

variable {asm asm' : Assembler} {nr : Nat}

theorem Keeps.refl (asm : Assembler) : asm.Keeps asm := fun _ _ _ there _ => there

theorem Keeps.trans {asm'' : Assembler} (first : asm.Keeps asm') (second : asm'.Keeps asm'') :
    asm.Keeps asm'' :=
  fun k s i there complete => second k s i (first k s i there complete) complete

namespace Orderly

theorem clear (asm : Assembler) : asm.clear.Orderly where
  bookkept := rfl
  unbound there := by simp [Assembler.clear] at there
  within label k bound := by simp [Assembler.clear, bound?] at bound
  valid label k bound := by simp [Assembler.clear, bound?] at bound

/-- A label that is bound completes the slots that wait for it. If it was bound before, none
does. -/
theorem bind_slots (h : asm.Orderly) (label : Token) (nr : Nat) :
    (asm.bind label nr).state.slots = asm.slots.map (Slot.fill label asm.slots.size) := by
  cases bound : asm.bound? label with
  | none => rw [bind_unbound h.bookkept bound]
  | some index =>
    rw [bind_bound bound]
    apply Array.ext_getElem?
    intro k
    rw [Array.getElem?_map]
    cases there : asm.slots[k]? with
    | none => rfl
    | some s =>
      have other : s.draft.label? ≠ some label := by
        intro waits
        rw [h.unbound there waits] at bound
        cases bound
      simp [Slot.fill, other]

theorem bind (h : asm.Orderly) {label : Token} (valid : Label.isValid label = true) (nr : Nat) :
    (asm.bind label nr).state.Orderly := by
  obtain ⟨-, size, new⟩ := asm.bind_frame label nr
  refine ⟨bind_bookkept h.bookkept label nr, ?_, ?_, ?_⟩
  · intro k s l there waits
    rw [h.bind_slots, Array.getElem?_map, Option.map_eq_some_iff] at there
    obtain ⟨s', there, rfl⟩ := there
    obtain ⟨waits, other⟩ := Slot.label?_fill.1 waits
    rw [Option.eq_none_iff_forall_ne_some]
    intro index bound
    cases new l index bound with
    | inl old =>
      rw [h.unbound there waits] at old
      cases old
    | inr this => exact other this.1
  · intro l k bound
    rw [size]
    cases new l k bound with
    | inl old => exact h.within l k old
    | inr this => exact Nat.le_of_eq this.2
  · intro l k bound
    cases new l k bound with
    | inl old => exact h.valid l k old
    | inr this =>
      rw [this.1]
      exact valid

theorem emit (h : asm.Orderly) {draft : Draft}
    (unbound : ∀ l, draft.label? = some l → asm.bound? l = none) (nr : Nat) :
    (asm.emit draft nr).state.Orderly := by
  refine ⟨emit_bookkept h.bookkept draft nr, ?_, ?_, ?_⟩
  · intro k s l there waits
    rw [emit_state] at there ⊢
    rw [Array.getElem?_push] at there
    split at there
    · obtain rfl := Option.some.inj there
      exact unbound l waits
    · exact h.unbound there waits
  · intro l k bound
    rw [emit_state] at bound ⊢
    rw [Array.size_push]
    exact Nat.le_succ_of_le (h.within l k bound)
  · intro l k bound
    rw [emit_state] at bound
    exact h.valid l k bound

theorem keeps_bind (h : asm.Orderly) (label : Token) (nr : Nat) :
    asm.Keeps (asm.bind label nr).state := by
  intro k s i there complete
  rw [h.bind_slots, Array.getElem?_map, there, Option.map_some, Slot.fill_complete complete]

end Orderly

theorem keeps_emit (asm : Assembler) (draft : Draft) (nr : Nat) :
    asm.Keeps (asm.emit draft nr).state := by
  intro k s i there complete
  have inside : k < asm.slots.size := (Array.getElem?_eq_some_iff.1 there).1
  rw [emit_state, Array.getElem?_push_lt inside, ← Array.getElem?_eq_getElem inside, there]

namespace Orderly

theorem with_macros (h : asm.Orderly) (macros : MacroTable) : { asm with macros }.Orderly :=
  ⟨h.bookkept, h.unbound, h.within, h.valid⟩

theorem writes (h : asm.Orderly) (writes : asm.Writes nr asm') : asm'.Orderly ∧ asm.Keeps asm' := by
  obtain ⟨bound, first, second⟩ := writes
  have labelled : bound.Orderly ∧ asm.Keeps bound := by
    obtain rfl | ⟨label, valid, rfl⟩ := first
    · exact ⟨h, .refl _⟩
    · exact ⟨h.bind valid nr, h.keeps_bind label nr⟩
  obtain rfl | ⟨draft, unbound, rfl⟩ := second
  · exact labelled
  · exact ⟨labelled.1.emit unbound nr, labelled.2.trans (bound.keeps_emit draft nr)⟩

theorem takeLineWith (h : asm.Orderly) (line : Line) (nr : Nat) :
    let asm' := (asm.takeLineWith postpone line nr).state
    asm'.Orderly ∧ asm.Keeps asm' := by
  cases asm.takeLineWith_writes line nr with
  | inl same =>
    rw [same]
    exact ⟨h.with_macros _, .refl _⟩
  | inr writes => exact h.writes writes

end Orderly

structure Balanced (asm : Assembler) : Prop where
  listed : ∀ label k, k ∈ asm.waitingFor label ↔
    ∃ s, asm.slots[k]? = some s ∧ s.draft.label? = some label
  ascending : ∀ label, (asm.waitingFor label).Pairwise (· < ·)
  apart : ∀ label k, asm.bound? label = some k → asm.waitingFor label = []
  within : ∀ label k, asm.bound? label = some k → k ≤ asm.slots.size

theorem Orderly.balanced (h : asm.Orderly) : asm.Balanced where
  listed label k := mem_waitingFor_iff h.bookkept
  ascending label := by
    have account := pairwise_waiting asm.slots.toList
    rw [← h.bookkept] at account
    exact List.pairwise_map.2 (account.filter _)
  apart label k bound := by
    rw [List.eq_nil_iff_forall_not_mem]
    intro i listed
    obtain ⟨s, there, waits⟩ := (mem_waitingFor_iff h.bookkept).1 listed
    rw [h.unbound there waits] at bound
    cases bound
  within := h.within

end Assembler

namespace Unrolling

theorem Stops.state {u : Unrolling} {t : Assembler.Taking} (stops : u.Stops t) :
    t.state = u.assembler ∨ ∃ d rest, u.due = d :: rest ∧
      t.state = (u.assembler.takeLineWith Assembler.postpone d.line d.nr).state := by
  cases due : u.due with
  | nil =>
    cases stops with
    | halted halts =>
      obtain rfl : .ok () u.assembler u.events = t := by simpa [move, due] using halts
      exact .inl rfl
    | tooDeep enters => simp [move, due] at enters
  | cons d rest =>
    refine .inr ⟨d, rest, rfl, ?_⟩
    cases stops with
    | halted halts =>
      simp only [move, due] at halts
      split at halts
      · cases halts
        rfl
      · split at halts <;> cases halts
    | tooDeep enters =>
      simp only [move, due] at enters
      split at enters
      · cases enters
      · split at enters <;> cases enters
        rfl

section
variable {u v : Unrolling} {done : List Due}

theorem Takes.orderly (taken : u.Takes done v) (h : u.assembler.Orderly) :
    v.assembler.Orderly ∧ u.assembler.Keeps v.assembler := by
  induction taken with
  | refl => exact ⟨h, .refl _⟩
  | @tail done d rest v w _ due _ step ih =>
    have after := after_of_next? due step
    obtain ⟨orderly, keeps⟩ := ih.1.takeLineWith d.line d.nr
    rw [after.assembler]
    exact ⟨orderly, ih.2.trans keeps⟩

theorem Stops.orderly {t : Assembler.Taking} (stops : u.Stops t) (h : u.assembler.Orderly) :
    t.state.Orderly ∧ u.assembler.Keeps t.state := by
  cases stops.state with
  | inl same =>
    rw [same]
    exact ⟨h, .refl _⟩
  | inr last =>
    obtain ⟨d, -, -, state⟩ := last
    rw [state]
    exact h.takeLineWith d.line d.nr

end

end Unrolling

namespace Session
open Unrolling (ofFragments)

theorem takeFragments_orderly (asm : Assembler) (fragments : List (List Line)) :
    ((start asm).takeFragments fragments).state.assembler.Orderly := by
  have begun : (ofFragments asm fragments).assembler.Orderly := .clear asm
  obtain ⟨passes, fails⟩ := Unrolling.session_takes asm fragments
  cases result : ((start asm).takeFragments fragments).result with
  | ok =>
    obtain ⟨done, events, taken⟩ := passes result
    exact (taken.orderly begun).1
  | error e =>
    obtain ⟨done, u, t, taken, stops, -, state⟩ := fails e result
    rw [← state]
    exact (stops.orderly (taken.orderly begun).1).1

/-- The books are in order at every point of a session: before and after each line that it takes, of
its fragments or of expansions, and after the line that it refuses. For each label the slots that
wait for it are listed, each once and in order; a label with an index is waited for by none; no
index is beyond the next slot. So a label that is bound there completes exactly the slots that wait
for it, all of which exist. What is complete is not changed again. -/
theorem waiting_slots_are_accounted (asm : Assembler) (fragments : List (List Line)) :
    let course := ofFragments asm fragments
    let o := (start asm).takeFragments fragments
    (∀ done u, course.Takes done u →
      u.assembler.Balanced ∧
      (∀ label nr, (∀ k ∈ u.assembler.waitingFor label, k < u.assembler.slots.size) ∧
        (u.assembler.bind label nr).state.slots =
          u.assembler.slots.map (Slot.fill label u.assembler.slots.size)) ∧
      (∀ more v, u.Takes more v → u.assembler.Keeps v.assembler) ∧
      ∀ t, u.Stops t → t.state.Balanced ∧ u.assembler.Keeps t.state) ∧
    (o.result = .ok () → ∃ done events, course.Takes done ⟨o.state.assembler, [], events⟩) ∧
    ∀ e, o.result = .error e → ∃ done u t, course.Takes done u ∧ u.Stops t ∧
      t.result = .error e ∧ t.state = o.state.assembler := by
  intro course o
  refine ⟨fun done u taken => ?_, Unrolling.session_takes asm fragments⟩
  have orderly : u.assembler.Orderly := (taken.orderly (.clear asm)).1
  refine ⟨orderly.balanced, fun label nr => ⟨fun k listed => ?_, orderly.bind_slots label nr⟩,
    fun more v onward => (onward.orderly orderly).2, fun t stops => ?_⟩
  · obtain ⟨s, there, -⟩ := (orderly.balanced.listed label k).1 listed
    exact (Array.getElem?_eq_some_iff.1 there).1
  · obtain ⟨after, keeps⟩ := stops.orderly orderly
    exact ⟨after.balanced, keeps⟩

theorem waiting_slots_are_accounted_refused :
    let fragments := [["jump End".toList, "#begin both $1".toList, "boz v0 $1".toList,
      "jump $1 now".toList, "#end".toList], ["top: both end".toList]]
    let o := (start {}).takeFragments fragments
    o.result = .error ⟨1, .surplusOperand "now".toList⟩ ∧ o.state.assembler.Balanced ∧
      o.state.assembler.waitingFor "end".toList = [0, 1] ∧
      o.state.assembler.bound? "top".toList = some 1 := by
  intro fragments o
  have refused : o.result = .error ⟨1, .surplusOperand "now".toList⟩ := by decide +kernel
  have listed : o.state.assembler.waitingFor "end".toList = [0, 1] := by decide +kernel
  have bound : o.state.assembler.bound? "top".toList = some 1 := by decide +kernel
  obtain ⟨along, -, stop⟩ := waiting_slots_are_accounted {} fragments
  obtain ⟨done, u, t, taken, stops, -, state⟩ := stop _ refused
  obtain ⟨-, -, -, atStop⟩ := along done u taken
  have balanced := (atStop t stops).1
  rw [state] at balanced
  exact ⟨refused, balanced, listed, bound⟩

end Session

end RegisterMachine
