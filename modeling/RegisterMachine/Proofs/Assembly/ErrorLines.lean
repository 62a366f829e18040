import RegisterMachine.Proofs.Assembly.MacroBodies
/-! The lines that errors name. An error in a line of a fragment names the first line that is bad,
and so do errors in what this line expands to; what follows does not matter. An error at the end
names the line of a definition that is still open, or else of the first instruction whose label is
missing. -/
namespace RegisterMachine

namespace Assembler

def Blames (nr : Nat) (o : Taking) : Prop := ∀ e, o.result = .error e → e.line = nr

namespace Blames
variable {nr : Nat} {o : Taking}

theorem ok (asm : Assembler) (events : List Event) : Blames nr (.ok () asm events) := by
  rintro e ⟨⟩

theorem fail (p : Problem) (asm : Assembler) : Blames nr (.fail ⟨nr, p⟩ asm) := by
  rintro e ⟨⟩
  rfl

theorem after (h : Blames nr o) (events : List Event) : Blames nr (o.after events) := h

theorem andThen {next : Unit → Assembler → Taking} (first : Blames nr o)
    (second : ∀ asm, Blames nr (next () asm)) : Blames nr (o.andThen next) := by
  intro e error
  cases result : o.result with
  | error e' =>
    rw [Outcome.andThen_eq_of_error result] at error
    exact first e error
  | ok u =>
    rw [Outcome.andThen_eq_of_ok result] at error
    exact second o.state e error

theorem emit (draft : Draft) (asm : Assembler) : Blames nr (asm.emit draft nr) := by
  cases draft <;> exact .ok _ _

theorem takeInstruction (op : Token) (operands : List Token) (asm : Assembler) :
    Blames nr (asm.takeInstruction op operands nr) := by
  unfold Assembler.takeInstruction
  split
  · exact .fail _ asm
  · refine .after ?_ _
    split
    · exact .fail _ asm
    · exact .emit _ asm

section
variable {expand : Expansion} (he : ∀ m body asm, Blames nr (expand m body nr asm))
include he

theorem takeOperation (tokens : List Token) (asm : Assembler) :
    Blames nr (asm.takeOperation expand tokens nr) := by
  unfold Assembler.takeOperation
  split
  · exact .emit _ asm
  · split
    · exact .takeInstruction _ _ asm
    · split
      · exact .fail _ asm
      · exact he _ _ asm

theorem takeWords (tokens : List Token) (asm : Assembler) :
    Blames nr (asm.takeWords expand tokens nr) := by
  unfold Assembler.takeWords
  split
  · exact takeOperation he [] asm
  · split
    · split
      · exact .fail _ asm
      · refine .andThen (fun e error => ?_) (takeOperation he _)
        rw [asm.bind_result] at error
        cases error
    · exact takeOperation he _ asm

theorem takeLineWith (line : Line) (asm : Assembler) :
    Blames nr (asm.takeLineWith expand line nr) := by
  unfold Assembler.takeLineWith takeTrimmed
  split
  · exact .ok asm []
  split
  · unfold viaMacros MacroTable.begin
    split
    · exact .fail _ asm
    · exact .ok _ _
  split
  · unfold viaMacros MacroTable.finish
    split
    · exact .fail _ asm
    · exact .ok _ _
  split
  · exact .ok _ []
  · exact takeWords he _ asm

end

theorem takeAll {take : Line → Assembler → Taking} (he : ∀ line asm, Blames nr (take line asm))
    (lines : List Line) (asm : Assembler) : Blames nr (Assembler.takeAll take lines asm) := by
  induction lines generalizing asm with
  | nil => exact .ok asm []
  | cons line rest ih => exact (he line asm).andThen ih

theorem takeLine (depth : Nat) (line : Line) (asm : Assembler) :
    Blames nr (asm.takeLine depth line nr) := by
  induction depth generalizing line asm with
  | zero => exact takeLineWith (fun m _ asm => .fail (.tooDeep m.name) asm) line asm
  | succ depth ih =>
    exact takeLineWith (fun _ body asm => (takeAll ih body asm).after _) line asm

end Blames

theorem refused_line {lines : List Line} {nr : Nat} {asm : Assembler} {e : ParseError}
    (refused : (asm.takeNumbered nr lines).result = .error e) :
    ∃ before line after, lines = before ++ line :: after ∧ e.line = nr + before.length ∧
      (asm.takeNumbered nr before).result = .ok () ∧
      ((asm.takeNumbered nr before).state.takeLine maxMacroDepth line e.line).result =
        .error e := by
  induction lines generalizing nr asm with
  | nil => cases refused
  | cons line rest ih =>
    rw [takeNumbered] at refused
    cases result : (asm.takeLine maxMacroDepth line nr).result with
    | error e' =>
      rw [Outcome.andThen_eq_of_error result, result] at refused
      cases refused
      have named : e.line = nr := Blames.takeLine _ line asm e result
      exact ⟨[], line, rest, rfl, named, rfl, by rw [named]; exact result⟩
    | ok u =>
      rw [Outcome.andThen_eq_of_ok result] at refused
      obtain ⟨before, line', after, rfl, named, taken, error⟩ := ih refused
      have more := Outcome.andThen_of_ok result fun _ asm => asm.takeNumbered (nr + 1) before
      refine ⟨line :: before, line', after, rfl, ?_, more.1.trans taken, ?_⟩
      · rw [named, List.length_cons]
        omega
      · rw [takeNumbered, more.2]
        exact error

theorem takeNumbered_of_refused {before : List Line} {line : Line} {nr : Nat} {asm : Assembler}
    {e : ParseError} (taken : (asm.takeNumbered nr before).result = .ok ())
    (refused : ((asm.takeNumbered nr before).state.takeLine maxMacroDepth line
      (nr + before.length)).result = .error e) (others : List Line) :
    (asm.takeNumbered nr (before ++ line :: others)).result = .error e := by
  rw [takeNumbered_append, (Outcome.andThen_of_ok taken _).1, takeNumbered,
    Outcome.andThen_eq_of_error refused, refused]

/-! ### The lines of the instructions -/

def slotLines (asm : Assembler) : Array Nat := asm.slots.map Slot.line

theorem bind_slotLines (asm : Assembler) (label : Token) (nr : Nat) :
    (asm.bind label nr).state.slotLines = asm.slotLines := by
  unfold bind
  split
  · rfl
  · -- filling in a target keeps the line
    apply Array.ext_getElem?
    intro i
    simp only [Outcome.ok, slotLines, Array.getElem?_map]
    rw [getElem?_foldl_modify (by simp [Draft.resolve_resolve])]
    split
    · rw [Option.map_map]
      rfl
    · rfl

theorem Codes.slotLines {nr : Nat} {asm asm' : Assembler} (codes : asm.Codes nr asm') :
    asm'.slotLines = asm.slotLines ∨ asm'.slotLines = asm.slotLines.push nr := by
  obtain ⟨bound, first, second⟩ := codes
  have kept : bound.slotLines = asm.slotLines := by
    obtain rfl | ⟨label, rfl⟩ := first
    · rfl
    · exact bind_slotLines asm label nr
  rw [← kept]
  obtain rfl | ⟨draft, rfl⟩ := second
  · exact .inl rfl
  · exact .inr (by simp [emit_state, Assembler.slotLines])

end Assembler

theorem Handles.slotLines {d : Due} {asm asm' : Assembler} (handles : Handles d asm asm') :
    asm'.slotLines = asm.slotLines ∨ asm'.slotLines = asm.slotLines.push d.nr := by
  rcases handles.frame with same | ⟨-, codes⟩
  · rw [same]
    exact .inl rfl
  · exact codes.slotLines

namespace Unrolling

theorem Stops.blames {u : Unrolling} {t : Assembler.Taking} {e : ParseError} (stops : u.Stops t)
    (error : t.result = .error e) : ∃ d rest, u.due = d :: rest ∧ d.nr = e.line := by
  cases due : u.due with
  | nil =>
    cases stops with
    | halted halts =>
      obtain rfl : .ok () u.assembler u.events = t := by simpa [move, due] using halts
      cases error
    | tooDeep enters => simp [move, due] at enters
  | cons d rest =>
    refine ⟨d, rest, rfl, ?_⟩
    have refused (e : ParseError)
        (error : (u.assembler.takeLineWith Assembler.postpone d.line d.nr).result = .error e) :
        e.line = d.nr :=
      Assembler.Blames.takeLineWith (fun _ _ asm => .ok asm []) d.line u.assembler e error
    cases stops with
    | tooDeep enters =>
      cases error
      simp only [move, due] at enters
      split at enters
      · cases enters
      · split at enters <;> cases enters
        rfl
    | halted halts =>
      simp only [move, due] at halts
      split at halts
      · rename_i e' result
        cases halts
        obtain rfl : e' = e := Except.error.inj (result.symm.trans error)
        exact (refused e' result).symm
      · split at halts <;> cases halts

/-- The instruction number `k` is added where a line of this number is taken. -/
def Adds (course : Unrolling) (done : List Due) (k nr : Nat) : Prop :=
  ∃ before d after v w, done = before ++ d :: after ∧ course.Takes before v ∧ v.Takes [d] w ∧
    v.assembler.slots.size = k ∧ w.assembler.slots.size = k + 1 ∧ d.nr = nr

/-- On the way through these lines one is refused with this error. It is the line that the error
names, or it comes of this line by expansions, however deep; before the next line only such lines
are due still. -/
def Refused (asm : Assembler) (lines : List Line) (e : ParseError) : Prop :=
  ∃ done u d inner t, Takes ⟨asm, numbered 1 lines, []⟩ done u ∧
    u.due = d :: inner ++ numbered (e.line + 1) (lines.drop e.line) ∧
    (∀ d' ∈ d :: inner, d'.nr = e.line) ∧ u.Stops t ∧ t.result = .error e

theorem refused_of_takeNumbered {asm : Assembler} {lines : List Line} {e : ParseError}
    (error : (asm.takeNumbered 1 lines).result = .error e) : Refused asm lines e := by
  have follows := yields_takeNumbered lines 1 asm [] []
  rw [List.append_nil, Outcome.after_nil] at follows
  cases follows with
  | passes ok => simp [ok] at error
  | fails error' leads stops =>
    obtain rfl := Except.error.inj (error'.symm.trans error)
    obtain ⟨done, taken⟩ := leadsShallowly_iff.1 leads
    obtain ⟨d, rest, due, named⟩ := stops.blames error
    obtain ⟨n, inner, split, own⟩ := taken.due
    obtain ⟨inner', rfl, own'⟩ := exists_inner (due.symm.trans split) own
    rw [named] at due own'
    exact ⟨done, _, d, inner', _, taken, due, List.forall_mem_cons.2 ⟨named, own'⟩, stops, error⟩

theorem Takes.adds {course u : Unrolling} (empty : course.assembler.slots = #[])
    {done : List Due} (taken : course.Takes done u) {k nr : Nat}
    (slot : u.assembler.slotLines[k]? = some nr) : course.Adds done k nr := by
  have size (asm : Assembler) : asm.slotLines.size = asm.slots.size := Array.size_map
  induction taken with
  | refl => simp [Assembler.slotLines, empty] at slot
  | @tail done d rest v w taken due shallow step ih =>
    have after := after_of_next? due step
    have handles := handles_of_accepted after.accepted
    rw [← after.assembler] at handles
    have onward (earlier : v.assembler.slotLines[k]? = some nr) :
        course.Adds (done ++ [d]) k nr := by
      obtain ⟨before, d', after, v', w', rfl, rest⟩ := ih earlier
      exact ⟨before, d', after ++ [d], v', w', by simp, rest⟩
    rcases handles.slotLines with same | more
    · exact onward (same ▸ slot)
    · rw [more, Array.getElem?_push] at slot
      split at slot
      · rename_i last
        obtain rfl : d.nr = nr := Option.some.inj slot
        have single : v.Takes [d] w := Takes.tail .refl due shallow step
        refine ⟨done, d, [], v, w, rfl, taken, single, ?_, ?_, rfl⟩
        · rw [last, size]
        · rw [last, ← size, more, Array.size_push]
      · exact onward slot

end Unrolling

/-! ### At the end of a session -/

structure FirstUndefined (items : List Item) (k : Nat) (st : Statement) (label : Token) : Prop where
  place : (statements items)[k]? = some st
  uses : label ∈ st.labels
  undefined : Item.label label ∉ items
  earlier : ∀ j st', j < k → (statements items)[j]? = some st' →
    ∀ l ∈ st'.labels, Item.label l ∈ items

theorem Holds.waits {index : Token → Option Nat} {st : Statement} {line : Nat} {b : Branch}
    {label : Token} (h : Holds index st ⟨line, .waiting b label⟩) :
    label ∈ st.labels ∧ index label = none := by
  obtain ⟨-, -, d, read, settled⟩ := h
  have labels : st.labels = d.label?.toList := (Form.read_written read).1
  cases d with
  | complete i => cases settled
  | waiting b' label' =>
    cases defined : index label' with
    | some k => simp [Draft.settle, defined] at settled
    | none =>
      obtain ⟨-, rfl⟩ : b = b' ∧ label = label' := by simpa [Draft.settle, defined] using settled
      exact ⟨by simp [labels, Draft.label?], defined⟩

namespace Session
open Unrolling (ofFragments)

theorem exists_waiting {index : Token → Option Nat} {sts : List Statement} {slots : List Slot}
    (h : List.Forall₂ (Holds index) sts slots) {e : ParseError}
    (error : instructions slots = .error e) :
    ∃ (k : Nat) (st : Statement) (label : Token), sts[k]? = some st ∧
      slots[k]?.map Slot.line = some st.line ∧ label ∈ st.labels ∧ index label = none ∧
      (∀ (j : Nat) (st' : Statement), j < k → sts[j]? = some st' →
        ∀ l ∈ st'.labels, (index l).isSome = true) ∧
      e = ⟨st.line, .undefinedLabel label⟩ := by
  induction h with
  | nil => cases error
  | @cons st slot sts slots hst hrest ih =>
    obtain ⟨line, draft⟩ := slot
    obtain rfl : line = st.line := hst.1
    cases draft with
    | complete i =>
      have rest : instructions slots = .error e := by
        cases rest : instructions slots with
        | error e' => simpa [instructions, rest, Except.map] using error
        | ok is => simp [instructions, rest, Except.map] at error
      obtain ⟨k, st', label, place, line, uses, undefined, earlier, named⟩ := ih rest
      refine ⟨k + 1, st', label, place, line, uses, undefined, fun j st'' less at_ => ?_, named⟩
      cases j with
      | zero =>
        obtain rfl : st = st'' := Option.some.inj at_
        exact hst.exists_complete_iff.1 ⟨i, rfl⟩
      | succ j => exact earlier j st'' (Nat.lt_of_succ_lt_succ less) at_
    | waiting b label =>
      obtain rfl : ⟨st.line, .undefinedLabel label⟩ = e := by simpa [instructions] using error
      obtain ⟨uses, undefined⟩ := hst.waits
      exact ⟨0, st, label, rfl, rfl, uses, undefined, by simp, rfl⟩

theorem takeLines_of_refused {asm : Assembler} {lines : List Line} {e : ParseError}
    (refused : (asm.takeNumbered 1 lines).result = .error e) :
    0 < e.line ∧ e.line ≤ lines.length ∧
      (asm.takeNumbered 1 (lines.take (e.line - 1))).result = .ok () ∧
      ∀ others, (asm.takeNumbered 1 (lines.take e.line ++ others)).result = .error e := by
  obtain ⟨before, line, after, rfl, named, taken, error⟩ := Assembler.refused_line refused
  have here : e.line = before.length + 1 := by omega
  have earlier : (before ++ line :: after).take (e.line - 1) = before :=
    List.take_left' (by omega)
  have upTo : (before ++ line :: after).take e.line = before ++ [line] := by
    rw [List.append_cons]
    exact List.take_left' (by simp [here])
  rw [earlier, upTo]
  refine ⟨by omega, by simp [here], taken, fun others => ?_⟩
  rw [List.append_assoc]
  exact Assembler.takeNumbered_of_refused taken (named ▸ error) others

theorem finish_error_cases {asm : Assembler} {e : ParseError}
    (error : (finish ⟨asm, none⟩).result = .error e) :
    (∃ h, asm.macros.opened = some h ∧ e = ⟨h.line, .unclosedMacro h.name⟩) ∨
      asm.macros.opened = none ∧ instructions asm.slots.toList = .error e := by
  unfold finish at error
  cases opened : asm.macros.opened with
  | some h =>
    obtain rfl : ⟨h.line, .unclosedMacro h.name⟩ = e := by
      simpa [opened, Outcome.fail] using error
    exact .inl ⟨h, rfl, rfl⟩
  | none =>
    refine .inr ⟨rfl, ?_⟩
    cases read : instructions asm.slots.toList with
    | error e' => simpa [opened, read, Outcome.fail] using error
    | ok is => simp [opened, read, Outcome.ok] at error

/-- Errors name the first line that is bad. If a session without an error so far refuses a line of a
fragment, it takes those before, and whatever else follows, it answers the same. The line may be
refused for what it expands to, at any depth. If it refuses no line, but its end, the error has the
line of the definition that is open, or with none open, that of the first statement whose label
nothing defines, which is where its instruction was added. -/
theorem errors_name_first_bad_line (asm : Assembler) (fragments : List (List Line))
    (unfailed : ((start asm).takeFragments fragments).state.failure = none) :
    let s := ((start asm).takeFragments fragments).state
    let course := ofFragments asm fragments
    (∀ lines e, (s.takeLines lines).result = .error e →
      0 < e.line ∧ e.line ≤ lines.length ∧
      (s.takeLines (lines.take (e.line - 1))).result = .ok () ∧
      (∀ others, (s.takeLines (lines.take e.line ++ others)).result = .error e) ∧
      Unrolling.Refused s.assembler lines e) ∧
    ∀ e, s.finish.result = .error e → ∃ done events,
      course.Takes done ⟨s.assembler, [], events⟩ ∧
      ((∃ h body, UnderWay done h body ∧ e = ⟨h.line, .unclosedMacro h.name⟩) ∨
        (∀ h body, ¬UnderWay done h body) ∧ ∃ k st label,
          FirstUndefined (itemsOf fragments) k st label ∧ course.Adds done k st.line ∧
          e = ⟨st.line, .undefinedLabel label⟩) := by
  intro s course
  have accepted := accepted_of_unfailed fragments asm.clear unfailed
  have begun : Agrees {} asm.clear := ⟨rfl, fun _ => rfl, rfl, .nil⟩
  obtain ⟨asm', state, agrees⟩ := takeFragments_agrees fragments begun accepted
  have hs : s = ⟨asm', none⟩ := state
  obtain ⟨done, events, taken⟩ := (Unrolling.session_takes asm fragments).1 accepted
  have same : ((start asm).takeFragments fragments).state.assembler = asm' :=
    congrArg assembler state
  rw [same] at taken
  rw [hs]
  constructor
  · intro lines e error
    simp only [takeLines_result] at error ⊢
    obtain ⟨positive, within, earlier, onward⟩ := takeLines_of_refused error
    exact ⟨positive, within, earlier, onward, Unrolling.refused_of_takeNumbered error⟩
  · intro e error
    refine ⟨done, events, taken, ?_⟩
    have follows := taken.follows
    rcases finish_error_cases error with ⟨h, opened, named⟩ | ⟨closed, waiting⟩
    · exact .inl ⟨h, _, (follows.underWay h _).2 ⟨opened, rfl⟩, named⟩
    · obtain ⟨k, st, label, place, line, uses, undefined, earlier, named⟩ :=
        exists_waiting agrees.slots waiting
      simp only [definition?_isSome_iff] at earlier
      have missing : Item.label label ∉ itemsOf fragments := by
        rw [← definition?_isSome_iff, Option.not_isSome_iff_eq_none]
        exact undefined
      refine .inr ⟨fun h body underWay => ?_, k, st, label, ⟨place, uses, missing, earlier⟩,
        taken.adds rfl ?_, named⟩
      · have opened := ((follows.underWay h body).1 underWay).1
        cases opened.symm.trans closed
      · rw [Assembler.slotLines, Array.getElem?_map, ← Array.getElem?_toList]
        exact line

/-- A line is refused for what it expands to two macros deep, and a label is missing for one. -/
theorem errors_name_first_bad_line_nested :
    let fragments := [["#begin go $1".toList, "jump $1".toList, "#end".toList,
      "#begin via $1".toList, "go $1".toList, "#end".toList, "noop".toList, "via far".toList]]
    ((start {}).takeFragments fragments).state.failure = none ∧
      (∀ others, (((start {}).takeFragments fragments).state.takeLines
        (["exit".toList, "via v0".toList] ++ others)).result =
          .error ⟨2, .registerAsTarget "v0".toList⟩) ∧
      ((start {}).takeFragments fragments).state.finish.result =
        .error ⟨8, .undefinedLabel "far".toList⟩ ∧
      ∃ done k, (ofFragments {} fragments).Adds done k 8 := by
  intro fragments
  have unfailed : ((start {}).takeFragments fragments).state.failure = none := by decide +kernel
  have refused : (((start {}).takeFragments fragments).state.takeLines
      ["exit".toList, "via v0".toList]).result = .error ⟨2, .registerAsTarget "v0".toList⟩ := by
    decide +kernel
  have ended : ((start {}).takeFragments fragments).state.finish.result =
      .error ⟨8, .undefinedLabel "far".toList⟩ := by decide +kernel
  obtain ⟨answers, ends⟩ := errors_name_first_bad_line {} fragments unfailed
  obtain ⟨-, -, -, onward, -⟩ := answers _ _ refused
  refine ⟨unfailed, onward, ended, ?_⟩
  obtain ⟨done, -, -, isOpen | ⟨-, k, st, label, -, adds, named⟩⟩ := ends _ ended
  · obtain ⟨h, body, -, named⟩ := isOpen
    cases (ParseError.mk.inj named).2
  · rw [← (ParseError.mk.inj named).1] at adds
    exact ⟨done, k, adds⟩

end Session

end RegisterMachine
