import RegisterMachine.Proofs.Assembly.Backpatch
/-! Line numbers and the depth of macro invocations. Numbers show in errors only, and the depth that
is left decides nothing but whether an invocation is refused as nested too deep. -/
namespace RegisterMachine

theorem map_foldl_modify {α β : Type} {g : α → β} {f : α → α} {f' : β → β}
    (hf : ∀ x, g (f x) = f' (g x)) (ks : List Nat) (a : Array α) :
    (ks.foldl (fun a k => a.modify k f) a).map g =
      ks.foldl (fun a k => a.modify k f') (a.map g) := by
  induction ks generalizing a with
  | nil => rfl
  | cons k rest ih =>
    have one : (a.modify k f).map g = (a.map g).modify k f' := by
      apply Array.ext_getElem?
      intro i
      by_cases hi : k = i <;> simp [Array.getElem?_modify, hi, Function.comp_def, hf]
    rw [List.foldl_cons, ih, one, List.foldl_cons]

structure MacroTable.Alike (s t : MacroTable) : Prop where
  buffer : s.buffer = t.buffer
  defined : s.defined = t.defined
  opened : (s.opened.map fun h => (h.name, h.params)) = t.opened.map fun h => (h.name, h.params)

namespace MacroTable.Alike
variable {s t : MacroTable} (h : s.Alike t)
include h

theorem opened_cases : (s.opened = none ∧ t.opened = none) ∨ ∃ u v, s.opened = some u ∧
    t.opened = some v ∧ u.name = v.name ∧ u.params = v.params := by
  have hopened := h.opened
  cases hs : s.opened <;> cases ht : t.opened <;> simp_all

theorem find? (name : Token) : s.find? name = t.find? name := by
  simp only [MacroTable.find?, h.defined]

theorem readHeader (line : Line) : s.readHeader line = t.readHeader line := by
  unfold MacroTable.readHeader
  rcases h.opened_cases with ⟨hs, ht⟩ | ⟨u, v, hs, ht, name, -⟩
  · simp only [hs, ht, h.find?]
  · simp only [hs, ht, name, h.find?]

end MacroTable.Alike

namespace Assembler

/-- The assemblers differ at most in line numbers. -/
structure Alike (s t : Assembler) : Prop where
  labels : s.labels = t.labels
  macros : s.macros.Alike t.macros
  pending : s.pending = t.pending
  drafts : s.slots.map Slot.draft = t.slots.map Slot.draft

theorem Alike.refl (s : Assembler) : Alike s s := ⟨rfl, ⟨rfl, rfl, rfl⟩, rfl, rfl⟩

theorem Alike.symm {s t : Assembler} (h : Alike s t) : Alike t s :=
  ⟨h.labels.symm, ⟨h.macros.buffer.symm, h.macros.defined.symm, h.macros.opened.symm⟩,
    h.pending.symm, h.drafts.symm⟩

theorem Alike.trans {s t u : Assembler} (h : Alike s t) (h' : Alike t u) : Alike s u :=
  ⟨h.labels.trans h'.labels,
    ⟨h.macros.buffer.trans h'.macros.buffer, h.macros.defined.trans h'.macros.defined,
      h.macros.opened.trans h'.macros.opened⟩,
    h.pending.trans h'.pending, h.drafts.trans h'.drafts⟩

theorem Alike.size {s t : Assembler} (h : Alike s t) : s.slots.size = t.slots.size := by
  simpa using congrArg Array.size h.drafts

/-- Unless `o` ran into the bound on nested macros, both succeed with assemblers that are alike, or
both fail for the same problem. -/
inductive Tracks (o o' : Taking) : Prop
  | accepted (ok : o.result = .ok ()) (ok' : o'.result = .ok ()) (alike : Alike o.state o'.state)
  | rejected {e e' : ParseError} (error : o.result = .error e) (error' : o'.result = .error e')
      (same : e.problem = e'.problem)
  | tooDeep {e : ParseError} (error : o.result = .error e)
      (deep : e.problem.errorClass = .macroRecursion)

namespace Tracks
variable {o o' : Taking} {s t : Assembler} {nr nr' : Nat}

theorem after (h : Tracks o o') (u v : List Event) : Tracks (o.after u) (o'.after v) := by
  cases h with
  | accepted ok ok' alike => exact .accepted ok ok' alike
  | rejected error error' same => exact .rejected error error' same
  | tooDeep error deep => exact .tooDeep error deep

theorem fail (problem : Problem) (s t : Assembler) (nr nr' : Nat) :
    Tracks (.fail ⟨nr, problem⟩ s) (.fail ⟨nr', problem⟩ t) :=
  .rejected rfl rfl rfl

theorem andThen (h : Tracks o o') {next next' : Unit → Assembler → Taking}
    (hn : ∀ {s t}, Alike s t → Tracks (next () s) (next' () t)) :
    Tracks (o.andThen next) (o'.andThen next') := by
  cases h with
  | accepted ok ok' alike =>
    simp only [Outcome.andThen, ok, ok']
    exact (hn alike).after _ _
  | rejected error error' same =>
    simp only [Outcome.andThen, error, error']
    exact .rejected rfl rfl same
  | tooDeep error deep =>
    simp only [Outcome.andThen, error]
    exact .tooDeep rfl deep

theorem both (h : Tracks o o') (h' : Tracks o' o) :
    (o.result = .ok () ∧ o'.result = .ok () ∧ Alike o.state o'.state) ∨
      ∃ e e', o.result = .error e ∧ o'.result = .error e' ∧
        e.problem.errorClass = e'.problem.errorClass := by
  cases h with
  | accepted ok ok' alike => exact .inl ⟨ok, ok', alike⟩
  | rejected error error' same =>
    exact .inr ⟨_, _, error, error', congrArg Problem.errorClass same⟩
  | @tooDeep e error deep =>
    cases h' with
    | accepted _ ok => simp [error] at ok
    | @rejected e' again error' error'' same =>
      obtain rfl : e = again := by simpa [error] using error''
      exact .inr ⟨e, e', error, error', (congrArg Problem.errorClass same).symm⟩
    | tooDeep error' deep' => exact .inr ⟨_, _, error, error', deep.trans deep'.symm⟩

end Tracks

namespace Alike
variable {s t : Assembler} (h : Alike s t) {nr nr' : Nat}
include h

theorem bound? : s.bound? = t.bound? := by
  funext label
  simp only [Assembler.bound?, h.labels]

theorem waitingFor (label : Token) : s.waitingFor label = t.waitingFor label := by
  simp only [Assembler.waitingFor, h.pending]

theorem emit (draft : Draft) : Tracks (s.emit draft nr) (t.emit draft nr') := by
  refine .accepted (by cases draft <;> rfl) (by cases draft <;> rfl) ?_
  rw [emit_state, emit_state]
  refine ⟨h.labels, h.macros, ?_, ?_⟩
  · simp only [h.pending, h.size]
  · simp only [Array.map_push, h.drafts]

theorem bind (label : Token) : Tracks (s.bind label nr) (t.bind label nr') := by
  refine .accepted (s.bind_result label nr) (t.bind_result label nr') ?_
  unfold Assembler.bind
  rw [← h.bound?]
  cases s.bound? label with
  | some index => exact h
  | none =>
    have commutes (index : Nat) (x : Slot) :
        Slot.draft { x with draft := x.draft.resolve index } = x.draft.resolve index := rfl
    refine ⟨?_, h.macros, ?_, ?_⟩
    · simp only [Outcome.ok, h.labels, h.size]
    · simp only [Outcome.ok, h.pending]
    · simp only [Outcome.ok, map_foldl_modify (commutes _), h.drafts, h.size, h.waitingFor]

theorem takeInstruction (op : Token) (operands : List Token) :
    Tracks (s.takeInstruction op operands nr) (t.takeInstruction op operands nr') := by
  unfold Assembler.takeInstruction
  rw [h.bound?]
  split
  · exact .fail _ s t nr nr'
  · apply Tracks.after
    split
    · exact .fail _ s t nr nr'
    · exact h.emit _

theorem begin (line : Line) :
    Tracks (s.viaMacros (MacroTable.begin line nr)) (t.viaMacros (MacroTable.begin line nr')) := by
  unfold viaMacros MacroTable.begin
  rw [h.macros.readHeader]
  split
  · exact .fail _ s t nr nr'
  · exact .accepted rfl rfl
      ⟨h.labels, ⟨h.macros.buffer, h.macros.defined, rfl⟩, h.pending, h.drafts⟩

theorem finish :
    Tracks (s.viaMacros (MacroTable.finish nr)) (t.viaMacros (MacroTable.finish nr')) := by
  unfold viaMacros MacroTable.finish
  rcases h.macros.opened_cases with ⟨hs, ht⟩ | ⟨u, v, hs, ht, name, params⟩
  · simp only [hs, ht]
    exact .fail _ s t nr nr'
  · simp only [hs, ht]
    refine .accepted rfl rfl ⟨h.labels, ⟨rfl, ?_, rfl⟩, h.pending, h.drafts⟩
    simp only [Outcome.ok, Outcome.mapState, name, params, h.macros.buffer, h.macros.defined]

end Alike

def Expansion.Tracks (expand expand' : Expansion) : Prop :=
  ∀ (m : Macro) (body : List Line) (nr nr' : Nat) {s t : Assembler}, Alike s t →
    Assembler.Tracks (expand m body nr s) (expand' m body nr' t)

namespace Alike
variable {s t : Assembler} {expand expand' : Expansion} {nr nr' : Nat}

theorem takeOperation (h : Alike s t) (he : expand.Tracks expand') (tokens : List Token) :
    Tracks (s.takeOperation expand tokens nr) (t.takeOperation expand' tokens nr') := by
  cases tokens with
  | nil => exact h.emit (.complete .noop)
  | cons op args =>
    unfold Assembler.takeOperation
    simp only [h.macros.find?]
    split
    · exact h.takeInstruction op args
    · split
      · exact .fail _ s t nr nr'
      · exact he _ _ nr nr' h

theorem takeWords (h : Alike s t) (he : expand.Tracks expand') (tokens : List Token) :
    Tracks (s.takeWords expand tokens nr) (t.takeWords expand' tokens nr') := by
  cases tokens with
  | nil => exact h.takeOperation he []
  | cons first rest =>
    unfold Assembler.takeWords
    simp only
    split
    · split
      · exact .fail _ s t nr nr'
      · exact (h.bind _).andThen fun h => h.takeOperation he rest
    · exact h.takeOperation he (first :: rest)

theorem takeLineWith (h : Alike s t) (he : expand.Tracks expand') (line : Line) :
    Tracks (s.takeLineWith expand line nr) (t.takeLineWith expand' line nr') := by
  have within : s.macros.opened.isSome = t.macros.opened.isSome := by
    rcases h.macros.opened_cases with ⟨hs, ht⟩ | ⟨u, v, hs, ht, -⟩ <;> simp [hs, ht]
  unfold Assembler.takeLineWith takeTrimmed
  rw [within]
  split
  · exact .accepted rfl rfl h
  split
  · exact h.begin _
  split
  · exact h.finish
  split
  · refine .accepted rfl rfl
      ⟨h.labels, ⟨?_, h.macros.defined, h.macros.opened⟩, h.pending, h.drafts⟩
    simp only [Outcome.ok, MacroTable.add, h.macros.buffer]
  · exact h.takeWords he _

theorem takeAll (h : Alike s t) {take take' : Line → Assembler → Taking}
    (step : ∀ (line : Line) {s t : Assembler}, Alike s t → Tracks (take line s) (take' line t))
    (lines : List Line) :
    Tracks (Assembler.takeAll take lines s) (Assembler.takeAll take' lines t) := by
  induction lines generalizing s t with
  | nil => exact .accepted rfl rfl h
  | cons line rest ih => exact (step line h).andThen fun h => ih h

/-- A line that is taken with less depth to go goes as with more, unless it goes too deep. -/
theorem takeLine (h : Alike s t) {depth depth' : Nat} (le : depth ≤ depth') (line : Line) :
    Tracks (s.takeLine depth line nr) (t.takeLine depth' line nr') := by
  induction depth generalizing depth' line nr nr' s t with
  | zero =>
    -- with no depth to go every invocation is refused, and what is refused tracks anything
    have refuses (expand' : Expansion) :
        Expansion.Tracks (fun m _ nr asm => .fail ⟨nr, .tooDeep m.name⟩ asm) expand' :=
      fun m body nr nr' s t h => .tooDeep rfl rfl
    cases depth' with
    | zero => exact h.takeLineWith (refuses _) line
    | succ depth' => exact h.takeLineWith (refuses _) line
  | succ depth ih =>
    cases depth' with
    | zero => exact absurd le (Nat.not_succ_le_zero depth)
    | succ depth' =>
      refine h.takeLineWith (fun m body nr nr' s t h => ?_) line
      exact (h.takeAll (fun line s t h => ih h (Nat.le_of_succ_le_succ le) line) body).after _ _

end Alike

end Assembler

end RegisterMachine
