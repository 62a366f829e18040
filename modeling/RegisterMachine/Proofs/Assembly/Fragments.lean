import RegisterMachine.Proofs.Assembly.Renumbering
/-! Sessions of several fragments. How the source is cut and what was assembled before do not
matter: a session comes to what a new assembler makes of all lines in one piece, but that errors
name lines by their numbers in their own fragments. A session that has failed stays as it is. -/
namespace RegisterMachine

inductive Fragment where
  | text (source : String)
  | lines (ls : List Line)

namespace Fragment

def toLines : Fragment → List Line
  | .text source => Text.lines source.toList
  | .lines ls => ls

def size (fragment : Fragment) : Nat := fragment.toLines.length

end Fragment

/-- The number of a line within its own fragment, from its number in the whole source and the sizes
of the fragments. -/
def ownNumber : List Nat → Nat → Nat
  | [], nr => nr
  | size :: rest, nr => if nr ≤ size then nr else ownNumber rest (nr - size)

theorem ownNumber_append (before rest : List Fragment) {fragment : Fragment} {k : Nat}
    (hk : k < fragment.size) :
    ownNumber ((before ++ fragment :: rest).map Fragment.size)
      (1 + (before.map Fragment.toLines).flatten.length + k) = 1 + k := by
  induction before with
  | nil =>
    have here : 1 + k ≤ fragment.size := by omega
    simp [ownNumber, here]
  | cons first others ih =>
    have lines : ((first :: others).map Fragment.toLines).flatten.length =
        first.size + (others.map Fragment.toLines).flatten.length := by
      rw [List.map_cons, List.flatten_cons, List.length_append]
      rfl
    have later : ¬1 + (first.size + (others.map Fragment.toLines).flatten.length) + k ≤
        first.size := by omega
    have less : 1 + (first.size + (others.map Fragment.toLines).flatten.length) + k - first.size =
        1 + (others.map Fragment.toLines).flatten.length + k := by omega
    rw [lines, List.cons_append, List.map_cons, ownNumber, if_neg later, less, ih]

namespace Session
variable {f : Nat → Nat} {e : ParseError}

def renumber (f : Nat → Nat) (s : Session) : Session :=
  ⟨s.assembler.renumber f, s.failure.map (ParseError.renumber f)⟩

theorem instructions_renumber (slots : List Slot) :
    instructions (slots.map (Slot.renumber f)) =
      (instructions slots).mapError (ParseError.renumber f) := by
  induction slots with
  | nil => rfl
  | cons slot rest ih =>
    obtain ⟨line, draft⟩ := slot
    cases draft with
    | waiting b label => rfl
    | complete i =>
      simp only [List.map_cons, Slot.renumber, instructions] at ih ⊢
      rw [ih]
      cases instructions rest <;> rfl

theorem finish_renumber (s : Session) :
    (s.renumber f).finish.result = s.finish.result.mapError (ParseError.renumber f) := by
  obtain ⟨asm, failure⟩ := s
  cases failure with
  | some e => rfl
  | none =>
    have slots : (asm.renumber f).slots.toList = asm.slots.toList.map (Slot.renumber f) := by
      simp [Assembler.renumber]
    simp only [renumber, Option.map_none, finish, slots, instructions_renumber]
    cases opened : asm.macros.opened with
    | some h =>
      simp only [Assembler.renumber, MacroTable.renumber, opened, Option.map_some]
      rfl
    | none =>
      simp only [Assembler.renumber, MacroTable.renumber, opened, Option.map_none]
      cases instructions asm.slots.toList <;> rfl

def ofTaking (o : Assembler.Taking) : Session :=
  ⟨o.state, match o.result with
    | .ok _ => none
    | .error e => some e⟩

theorem takeLines_result (lines : List Line) (asm : Assembler) :
    (takeLines lines ⟨asm, none⟩).result = (asm.takeNumbered 1 lines).result := by
  have taken : takeLines lines ⟨asm, none⟩ = _ := takeFrom_eq lines 1 asm none
  rw [taken]
  dsimp only
  split <;> simp [*, Outcome.ok, Outcome.fail]

theorem takeLines_state (lines : List Line) (asm : Assembler) :
    (takeLines lines ⟨asm, none⟩).state = ofTaking (asm.takeNumbered 1 lines) := by
  have taken : takeLines lines ⟨asm, none⟩ = _ := takeFrom_eq lines 1 asm none
  rw [taken]
  dsimp only
  split <;> simp [*, Outcome.ok, Outcome.fail, ofTaking]

def take (fragment : Fragment) (s : Session) : Outcome ParseError Session Unit :=
  match fragment with
  | .text source => s.takeText source
  | .lines ls => s.takeLines ls

theorem take_eq (fragment : Fragment) (s : Session) :
    s.take fragment = s.takeLines fragment.toLines := by
  cases fragment <;> rfl

theorem take_of_failure {s : Session} (failed : s.failure = some e) (fragment : Fragment) :
    s.take fragment = .fail e s := by
  simp [take_eq, takeLines, failed]

theorem failure_of_take {s : Session} {fragment : Fragment}
    (h : (s.take fragment).result = .error e) : (s.take fragment).state.failure = some e := by
  obtain ⟨asm, failure⟩ := s
  cases failure with
  | some e' =>
    rw [take_of_failure rfl] at h ⊢
    simpa [Outcome.fail] using h
  | none =>
    rw [take_eq, takeLines_result] at h
    rw [take_eq, takeLines_state]
    simp [ofTaking, h]

/-- Submits fragments one after the other, also after a failure; gives the answers and the session
afterwards. -/
def submit : List Fragment → Session → List (Except ParseError Unit) × Session
  | [], s => ([], s)
  | fragment :: rest, s =>
    ((s.take fragment).result :: (submit rest (s.take fragment).state).1,
      (submit rest (s.take fragment).state).2)

theorem submit_append (u v : List Fragment) (s : Session) :
    s.submit (u ++ v) =
      ((s.submit u).1 ++ ((s.submit u).2.submit v).1, ((s.submit u).2.submit v).2) := by
  induction u generalizing s with
  | nil => rfl
  | cons fragment rest ih => simp [submit, ih]

theorem submit_of_failure {s : Session} (failed : s.failure = some e) (fragments : List Fragment) :
    s.submit fragments = (List.replicate fragments.length (.error e), s) := by
  induction fragments with
  | nil => rfl
  | cons fragment rest ih =>
    simp only [submit, take_of_failure failed, Outcome.fail, ih, List.length_cons,
      List.replicate_succ]

theorem submit_renumber (before fragments : List Fragment) (asm : Assembler)
    (hf : f = ownNumber ((before ++ fragments).map Fragment.size)) :
    (submit fragments ⟨asm.renumber f, none⟩).2 =
      (ofTaking (asm.takeNumbered (1 + (before.map Fragment.toLines).flatten.length)
        (fragments.map Fragment.toLines).flatten)).renumber f := by
  induction fragments generalizing before asm with
  | nil => rfl
  | cons fragment rest ih =>
    have lines : 1 + ((before ++ [fragment]).map Fragment.toLines).flatten.length =
        1 + (before.map Fragment.toLines).flatten.length + fragment.toLines.length := by
      simp [Nat.add_assoc]
    have own (k : Nat) (hk : k < fragment.size) :
        f (1 + (before.map Fragment.toLines).flatten.length + k) = 1 + k := by
      rw [hf]
      exact ownNumber_append before rest hk
    have others := ih (before ++ [fragment])
      (asm.takeNumbered (1 + (before.map Fragment.toLines).flatten.length) fragment.toLines).state
      (by simp [hf])
    rw [lines] at others
    generalize 1 + (before.map Fragment.toLines).flatten.length = nr at own others ⊢
    have first := asm.takeNumbered_renumber fragment.toLines own
    have result := first.result
    rw [submit, take_eq, takeLines_state, List.map_cons, List.flatten_cons,
      Assembler.takeNumbered_append]
    simp only [ofTaking, Outcome.andThen, first.state]
    cases taken : (asm.takeNumbered nr fragment.toLines).result with
    | error e =>
      rw [taken] at result
      rw [result, submit_of_failure rfl]
      rfl
    | ok u =>
      rw [taken] at result
      rw [result]
      simpa [ofTaking, Outcome.after, Except.mapError] using others

/-- A session on any assembler, with its source in any fragments, ends as a session on a new one
that gets all lines in one piece: with the same program and labels, or with the same problem, whose
line is counted within its own fragment. Once a fragment fails, all that follow are answered by its
error and have no effect, and so is the end of the session. -/
theorem fragments_concatenate (asm : Assembler) (fragments : List Fragment) :
    let whole := (fragments.map Fragment.toLines).flatten
    let own := ParseError.renumber (ownNumber (fragments.map Fragment.size))
    let one := ((start {}).takeLines whole).state
    let s := ((start asm).submit fragments).2
    (s.finish.result = one.finish.result.mapError own ∧
      s.finish.state.labels = one.finish.state.labels ∧ s.failure = one.failure.map own) ∧
    ∀ before fragment after e, fragments = before ++ fragment :: after →
      (((start asm).submit before).2.take fragment).result = .error e →
        s = (((start asm).submit before).2.take fragment).state ∧
        ((start asm).submit fragments).1 =
          ((start asm).submit before).1 ++ List.replicate (after.length + 1) (.error e) ∧
        (∀ other, s.take other = .fail e s) ∧ s.finish = .fail e s.assembler := by
  intro whole own one s
  have joined : s = one.renumber (ownNumber (fragments.map Fragment.size)) := by
    have whole_taken : one = ofTaking (({} : Assembler).takeNumbered 1 whole) :=
      takeLines_state whole {}
    have fresh : start asm = ⟨({} : Assembler).renumber (ownNumber (fragments.map Fragment.size)),
        none⟩ := by
      simp [start, Assembler.clear, MacroTable.clear, Assembler.renumber, MacroTable.renumber]
    simp only [s, fresh, whole_taken]
    exact submit_renumber [] fragments {} rfl
  refine ⟨⟨?_, ?_, ?_⟩, ?_⟩
  · rw [joined]
    exact finish_renumber one
  · rw [finish_state, finish_state, joined]
    rfl
  · rw [joined]
    rfl
  · intro before fragment after e split failing
    have failed := failure_of_take failing
    have last := submit_of_failure failed after
    have submitted : (start asm).submit fragments =
        (((start asm).submit before).1 ++ List.replicate (after.length + 1) (.error e),
          (((start asm).submit before).2.take fragment).state) := by
      rw [split, submit_append, submit, last, failing, List.replicate_succ]
    have hs : s = (((start asm).submit before).2.take fragment).state := by
      simp only [s, submitted]
    rw [← hs] at failed
    refine ⟨hs, congrArg Prod.fst submitted, take_of_failure failed, ?_⟩
    simp [finish, failed]

/-- A definition runs over the end of a fragment, and the assembler is left within one; the third
line of the second fragment is at fault. -/
theorem fragments_concatenate_failing :
    let asm : Assembler :=
      { macros := { buffer := #["exit".toList], opened := some ⟨"old".toList, [], 9⟩ }
        pending := #[("top".toList, 0)] }
    let fragments : List Fragment := [.text "top: jump end\n#begin m $1",
      .lines ["bonz $1 top".toList, "#end".toList, "m v9".toList], .text "end: noop", .lines []]
    let e : ParseError := ⟨3, .unknownRegister "v9".toList⟩
    ((start {}).takeLines (fragments.map Fragment.toLines).flatten).result =
        .error ⟨5, .unknownRegister "v9".toList⟩ ∧
      ((start asm).submit fragments).1 = [.ok (), .error e, .error e, .error e] ∧
      ((start asm).submit fragments).2.finish =
        .fail e ((start asm).submit fragments).2.assembler ∧
      ((start asm).submit fragments).2.assembler.labels = [("top".toList, 0)] := by
  intro asm fragments e
  have cut : fragments = fragments.take 1 ++
      .lines ["bonz $1 top".toList, "#end".toList, "m v9".toList] ::
        [.text "end: noop", .lines []] := rfl
  have failing : (((start asm).submit (fragments.take 1)).2.take
      (.lines ["bonz $1 top".toList, "#end".toList, "m v9".toList])).result = .error e := by
    decide +kernel
  obtain ⟨-, answers, -, finish⟩ := (fragments_concatenate asm fragments).2 _ _ _ e cut failing
  have first : ((start asm).submit (fragments.take 1)).1 = [.ok ()] := by decide +kernel
  refine ⟨by decide +kernel, ?_, finish, by decide +kernel⟩
  rw [answers, first]
  rfl

end Session

end RegisterMachine
