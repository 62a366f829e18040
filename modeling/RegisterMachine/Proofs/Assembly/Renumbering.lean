import RegisterMachine.Proofs.Assembly.Invocation
/-! Lines under other numbers. Line numbers go into errors, into slots and into an open definition,
and nothing looks at them there: lines that bear other numbers come to the same, with each number in
place of the one that it stands for. -/
namespace RegisterMachine

def ParseError.renumber (f : Nat → Nat) (e : ParseError) : ParseError := ⟨f e.line, e.problem⟩

def Slot.renumber (f : Nat → Nat) (s : Slot) : Slot := { s with line := f s.line }

def MacroTable.renumber (f : Nat → Nat) (t : MacroTable) : MacroTable :=
  { t with opened := t.opened.map fun h => { h with line := f h.line } }

def Assembler.renumber (f : Nat → Nat) (asm : Assembler) : Assembler :=
  { asm with macros := asm.macros.renumber f, slots := asm.slots.map (Slot.renumber f) }

variable {f : Nat → Nat}

namespace MacroTable

theorem find?_renumber (t : MacroTable) : (t.renumber f).find? = t.find? := rfl

theorem isSome_opened_renumber (t : MacroTable) :
    (t.renumber f).opened.isSome = t.opened.isSome := by
  simp [renumber]

theorem readHeader_renumber (t : MacroTable) : (t.renumber f).readHeader = t.readHeader := by
  funext line
  unfold readHeader
  rw [find?_renumber]
  cases h : t.opened <;> simp [renumber, h]

end MacroTable

namespace Assembler

/-- Where `o` goes, `o'` goes with other line numbers. -/
structure Renumbers (f : Nat → Nat) (o o' : Taking) : Prop where
  result : o'.result = o.result.mapError (ParseError.renumber f)
  state : o'.state = o.state.renumber f

namespace Renumbers
variable {o o' : Taking}

theorem after (h : Renumbers f o o') (u v : List Event) : Renumbers f (o.after u) (o'.after v) :=
  ⟨h.result, h.state⟩

theorem ok (asm : Assembler) (u v : List Event) :
    Renumbers f (.ok () asm u) (.ok () (asm.renumber f) v) := ⟨rfl, rfl⟩

theorem fail (problem : Problem) (asm : Assembler) (nr : Nat) :
    Renumbers f (.fail ⟨nr, problem⟩ asm) (.fail ⟨f nr, problem⟩ (asm.renumber f)) := ⟨rfl, rfl⟩

theorem andThen (h : Renumbers f o o') {next next' : Unit → Assembler → Taking}
    (hn : ∀ asm, Renumbers f (next () asm) (next' () (asm.renumber f))) :
    Renumbers f (o.andThen next) (o'.andThen next') := by
  have result := h.result
  unfold Outcome.andThen
  cases ho : o.result with
  | error e =>
    rw [ho] at result
    rw [result]
    exact ⟨rfl, h.state⟩
  | ok u =>
    rw [ho] at result
    rw [result, h.state]
    exact (hn o.state).after _ _

end Renumbers

section Lines
variable (asm : Assembler) (nr : Nat)

theorem emit_renumber (draft : Draft) :
    Renumbers f (asm.emit draft nr) ((asm.renumber f).emit draft (f nr)) := by
  refine ⟨by cases draft <;> rfl, ?_⟩
  simp [emit_state, renumber, Slot.renumber]

theorem bind_renumber (label : Token) :
    Renumbers f (asm.bind label nr) ((asm.renumber f).bind label (f nr)) := by
  have bound : (asm.renumber f).bound? label = asm.bound? label := rfl
  unfold Assembler.bind
  rw [bound]
  cases asm.bound? label with
  | some index => exact .ok asm _ _
  | none =>
    refine ⟨rfl, ?_⟩
    let complete (s : Slot) : Slot := { s with draft := s.draft.resolve asm.slots.size }
    have commutes (s : Slot) : (complete s).renumber f = complete (s.renumber f) := rfl
    have filled := map_foldl_modify commutes (asm.waitingFor label) asm.slots
    simp only [Outcome.ok, renumber, Array.size_map, mk.injEq, true_and]
    exact filled.symm

theorem takeInstruction_renumber (op : Token) (operands : List Token) :
    Renumbers f (asm.takeInstruction op operands nr)
      ((asm.renumber f).takeInstruction op operands (f nr)) := by
  have bound : (asm.renumber f).bound? = asm.bound? := rfl
  unfold takeInstruction
  rw [bound]
  split
  · exact .fail _ asm nr
  · apply Renumbers.after
    split
    · exact .fail _ asm nr
    · exact asm.emit_renumber nr _

theorem begin_renumber (line : Line) :
    Renumbers f (asm.viaMacros (MacroTable.begin line nr))
      ((asm.renumber f).viaMacros (MacroTable.begin line (f nr))) := by
  have header : (asm.renumber f).macros.readHeader = asm.macros.readHeader :=
    asm.macros.readHeader_renumber
  unfold viaMacros MacroTable.begin
  rw [header]
  split
  · exact .fail _ asm nr
  · exact ⟨rfl, rfl⟩

theorem finish_renumber :
    Renumbers f (asm.viaMacros (MacroTable.finish nr))
      ((asm.renumber f).viaMacros (MacroTable.finish (f nr))) := by
  unfold viaMacros MacroTable.finish
  cases opened : asm.macros.opened with
  | none =>
    simp only [renumber, MacroTable.renumber, opened, Option.map_none]
    exact ⟨rfl, by simp [Outcome.fail, Outcome.mapState, renumber, MacroTable.renumber, opened]⟩
  | some h =>
    simp only [renumber, MacroTable.renumber, opened, Option.map_some]
    exact ⟨rfl, rfl⟩

variable {expand : Expansion}

def Expansion.Renumbers (f : Nat → Nat) (expand : Expansion) : Prop :=
  ∀ (m : Macro) (body : List Line) (nr : Nat) (asm : Assembler),
    Assembler.Renumbers f (expand m body nr asm) (expand m body (f nr) (asm.renumber f))

theorem takeOperation_renumber (he : expand.Renumbers f) (tokens : List Token) :
    Renumbers f (asm.takeOperation expand tokens nr)
      ((asm.renumber f).takeOperation expand tokens (f nr)) := by
  cases tokens with
  | nil => exact asm.emit_renumber nr (.complete .noop)
  | cons op args =>
    have find : (asm.renumber f).macros.find? op = asm.macros.find? op := rfl
    unfold takeOperation
    simp only [find]
    split
    · exact asm.takeInstruction_renumber nr op args
    · split
      · exact .fail _ asm nr
      · exact he _ _ nr asm

theorem takeWords_renumber (he : expand.Renumbers f) (tokens : List Token) :
    Renumbers f (asm.takeWords expand tokens nr)
      ((asm.renumber f).takeWords expand tokens (f nr)) := by
  cases tokens with
  | nil => exact asm.takeOperation_renumber nr he []
  | cons first rest =>
    unfold takeWords
    dsimp only
    split
    · split
      · exact .fail _ asm nr
      · exact (asm.bind_renumber nr _).andThen fun asm => asm.takeOperation_renumber nr he rest
    · exact asm.takeOperation_renumber nr he (first :: rest)

theorem takeLineWith_renumber (he : expand.Renumbers f) (line : Line) :
    Renumbers f (asm.takeLineWith expand line nr)
      ((asm.renumber f).takeLineWith expand line (f nr)) := by
  have within : (asm.renumber f).macros.opened.isSome = asm.macros.opened.isSome :=
    asm.macros.isSome_opened_renumber
  unfold takeLineWith takeTrimmed
  rw [within]
  split
  · exact .ok asm _ _
  split
  · exact asm.begin_renumber nr _
  split
  · exact asm.finish_renumber nr
  split
  · exact ⟨rfl, rfl⟩
  · exact asm.takeWords_renumber nr he _

theorem takeAll_renumber {take take' : Line → Assembler → Taking}
    (step : ∀ (line : Line) (asm : Assembler),
      Renumbers f (take line asm) (take' line (asm.renumber f))) (lines : List Line) :
    Renumbers f (takeAll take lines asm) (takeAll take' lines (asm.renumber f)) := by
  induction lines generalizing asm with
  | nil => exact .ok asm _ _
  | cons line rest ih => exact (step line asm).andThen fun asm => ih asm

theorem takeLine_renumber (depth : Nat) (line : Line) :
    Renumbers f (asm.takeLine depth line nr) ((asm.renumber f).takeLine depth line (f nr)) := by
  induction depth generalizing asm nr line with
  | zero =>
    have refuses : Expansion.Renumbers f fun m _ nr asm => .fail ⟨nr, .tooDeep m.name⟩ asm :=
      fun m _ nr asm => .fail (.tooDeep m.name) asm nr
    exact asm.takeLineWith_renumber nr refuses line
  | succ depth ih =>
    refine asm.takeLineWith_renumber nr (fun m body nr asm => ?_) line
    exact (asm.takeAll_renumber (fun line asm => ih asm nr line) body).after _ _

theorem takeNumbered_renumber (lines : List Line) {nr nr' : Nat}
    (hf : ∀ k, k < lines.length → f (nr + k) = nr' + k) :
    Renumbers f (asm.takeNumbered nr lines) ((asm.renumber f).takeNumbered nr' lines) := by
  induction lines generalizing asm nr nr' with
  | nil => exact .ok asm _ _
  | cons line rest ih =>
    have first : f nr = nr' := hf 0 (Nat.zero_lt_succ _)
    have others (k : Nat) (hk : k < rest.length) : f (nr + 1 + k) = nr' + 1 + k := by
      have := hf (k + 1) (Nat.succ_lt_succ hk)
      rwa [Nat.add_comm k 1, ← Nat.add_assoc, ← Nat.add_assoc] at this
    unfold takeNumbered
    rw [← first]
    exact (asm.takeLine_renumber nr maxMacroDepth line).andThen fun asm => first ▸ ih asm others

end Lines

end Assembler

end RegisterMachine
