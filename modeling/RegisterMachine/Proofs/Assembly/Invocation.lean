import RegisterMachine.Proofs.Assembly.Nesting
import RegisterMachine.Proofs.Assembly.TwoPass
/-! A macro invocation stands for the body with the arguments put in: written out in its place, the
lines of the body give the same program and labels. Only the bound on nested macros can tell the
invocation from them. -/
namespace RegisterMachine

namespace Assembler

def invocation? (asm : Assembler) (line : Line) : Option (Macro × List Token) :=
  let line := Text.lower (Text.trim line)
  if isSkipped line || Macro.isOpener line || Macro.isCloser line || asm.macros.opened.isSome then
    none
  else
    match Text.words line with
    | [] => none
    | op :: args =>
      if Label.isMarked op then none else (asm.macros.find? op).map fun m => (m, args)

theorem takeLineWith_invocation {asm : Assembler} {line : Line} {m : Macro} {args : List Token}
    (invokes : asm.invocation? line = some (m, args)) {body : List Line}
    (filled : m.substitute args = .ok body) (expand : Expansion) (nr : Nat) :
    asm.takeLineWith expand line nr = expand m body nr asm := by
  unfold invocation? at invokes
  unfold takeLineWith takeTrimmed
  simp only [Bool.or_eq_true] at invokes
  split at invokes
  · cases invokes
  rename_i plain
  simp only [not_or] at plain
  obtain ⟨⟨⟨notSkipped, notOpener⟩, notCloser⟩, closed⟩ := plain
  rw [if_neg notSkipped, if_neg notOpener, if_neg notCloser, if_neg closed]
  cases words : Text.words (Text.lower (Text.trim line)) with
  | nil => simp [words] at invokes
  | cons op rest =>
    simp only [words, Option.ite_none_left_eq_some, Option.map_eq_some_iff, Prod.mk.injEq]
      at invokes
    obtain ⟨unmarked, m', found, rfl, rfl⟩ := invokes
    simp only [takeWords, unmarked, takeOperation, found, filled, Bool.false_eq_true, if_false]

def takeNumbered : Nat → List Line → Assembler → Taking
  | _, [], asm => .ok () asm
  | nr, line :: rest, asm =>
    (asm.takeLine maxMacroDepth line nr).andThen fun _ asm => takeNumbered (nr + 1) rest asm

theorem takeNumbered_append (u v : List Line) (nr : Nat) (asm : Assembler) :
    asm.takeNumbered nr (u ++ v) =
      (asm.takeNumbered nr u).andThen fun _ asm => asm.takeNumbered (nr + u.length) v := by
  induction u generalizing nr asm with
  | nil => rfl
  | cons line rest ih =>
    simp only [List.cons_append, takeNumbered, ih, Outcome.andThen_assoc, List.length_cons,
      Nat.add_assoc, Nat.add_comm 1]

namespace Alike
variable {s t : Assembler} (h : Alike s t)
include h

theorem takeNumbered (lines : List Line) (nr nr' : Nat) :
    Tracks (s.takeNumbered nr lines) (t.takeNumbered nr' lines) := by
  induction lines generalizing s t nr nr' with
  | nil => exact .accepted rfl rfl h
  | cons line rest ih => exact (h.takeLine (Nat.le_refl _) line).andThen fun h => ih h _ _

/-- The lines of an expansion go as lines of the source do, unless one of them goes too deep. -/
theorem takeAll_takeNumbered {depth : Nat} (le : depth ≤ maxMacroDepth) (body : List Line)
    (nr nr' : Nat) :
    Tracks (Assembler.takeAll (fun line asm => asm.takeLine depth line nr) body s)
      (t.takeNumbered nr' body) := by
  induction body generalizing s t nr' with
  | nil => exact .accepted rfl rfl h
  | cons line rest ih => exact (h.takeLine le line).andThen fun h => ih h _

end Alike

/-- Where a line invokes a macro, the source tracks the one with the body written out. -/
theorem invocation_tracks {asm : Assembler} (xs ys : List Line) {inv : Line} {m : Macro}
    {args : List Token}
    (invokes : (asm.takeNumbered 1 xs).state.invocation? inv = some (m, args)) {body : List Line}
    (filled : m.substitute args = .ok body) :
    Tracks (asm.takeNumbered 1 (xs ++ inv :: ys)) (asm.takeNumbered 1 (xs ++ body ++ ys)) := by
  rw [List.append_assoc, takeNumbered_append xs, takeNumbered_append xs]
  cases taken : (asm.takeNumbered 1 xs).result with
  | error e =>
    -- the invocation is not reached
    simp only [Outcome.andThen, taken]
    exact .rejected rfl rfl rfl
  | ok u =>
    simp only [Outcome.andThen, taken]
    apply Tracks.after
    rw [takeNumbered_append]
    generalize (asm.takeNumbered 1 xs).state = reached at invokes
    have expands (nr : Nat) : reached.takeLine maxMacroDepth inv nr = _ :=
      takeLineWith_invocation invokes filled _ nr
    rw [takeNumbered, expands]
    have inner := (Alike.refl reached).takeAll_takeNumbered (Nat.le_succ 63) body
    exact ((inner _ _).after [_] []).andThen fun h => h.takeNumbered ys _ _

end Assembler

namespace Session
open Assembler (Taking Alike)

theorem takeFrom_eq (lines : List Line) (nr : Nat) (asm : Assembler)
    (failure : Option ParseError) :
    takeFrom nr lines ⟨asm, failure⟩ =
      let o := asm.takeNumbered nr lines
      match o.result with
      | .ok () => .ok () ⟨o.state, failure⟩ o.events
      | .error e => .fail e ⟨o.state, some e⟩ (o.events ++ [.rejected e]) := by
  induction lines generalizing nr asm with
  | nil => rfl
  | cons line rest ih =>
    simp only [takeFrom, Assembler.takeNumbered, Outcome.andThen]
    cases taken : (asm.takeLine maxMacroDepth line nr).result with
    | error e => rfl
    | ok u =>
      simp only [ih, Outcome.after]
      split <;> simp [*, Outcome.ok, Outcome.fail]

/-- The session stands as lines in one piece leave it that end in `o`, up to line numbers. -/
structure Reaches (s : Session) (o : Taking) : Prop where
  taken : o.result = .ok () → ∃ asm, s = ⟨asm, none⟩ ∧ asm.Alike o.state
  failed {e : ParseError} : o.result = .error e →
    ∃ e', s.failure = some e' ∧ e'.problem.errorClass = e.problem.errorClass

theorem takeFragments_reaches (fragments : List (List Line)) {s t : Assembler} (h : Alike s t)
    (nr : Nat) :
    (takeFragments fragments ⟨s, none⟩).state.Reaches (t.takeNumbered nr fragments.flatten) := by
  induction fragments generalizing s t nr with
  | nil => exact ⟨fun _ => ⟨s, rfl, h⟩, fun error => by cases error⟩
  | cons lines rest ih =>
    have first : takeLines lines ⟨s, none⟩ = _ := takeFrom_eq lines 1 s none
    rw [takeFragments, first, List.flatten_cons, Assembler.takeNumbered_append]
    rcases (h.takeNumbered lines 1 nr).both (h.symm.takeNumbered lines nr 1) with
      ⟨ok, ok', alike⟩ | ⟨e, e', error, error', same⟩
    · simp only [ok, Outcome.andThen, ok', Outcome.ok]
      exact ⟨(ih alike _).taken, (ih alike _).failed⟩
    · simp only [error, Outcome.andThen, error', Outcome.fail]
      constructor
      · intro ok
        cases ok
      · intro e'' failed
        obtain rfl : e' = e'' := by simpa using failed
        exact ⟨e, rfl, same⟩

theorem finish_of_failure {s : Session} {e : ParseError} (h : s.failure = some e) :
    s.finish.result = .error e := by
  simp [finish, h, Outcome.fail]

theorem finish_alike {s t : Assembler} (h : s.Alike t) (p : Program) :
    (finish ⟨s, none⟩).result = .ok p ↔ (finish ⟨t, none⟩).result = .ok p := by
  have opened : s.macros.opened = none ↔ t.macros.opened = none := by
    rcases h.macros.opened_cases with ⟨hs, ht⟩ | ⟨u, v, hs, ht, -⟩ <;> simp [hs, ht]
  have drafts : s.slots.toList.map Slot.draft = t.slots.toList.map Slot.draft := by
    simpa using congrArg Array.toList h.drafts
  simp only [finish_eq_ok_iff, opened, instructions_eq_ok_iff, drafts]

/-- A line that invokes a macro stands for the body with the arguments put in. A session that
succeeds with the one succeeds with the other, to the same program and labels, except that the
invocation may be refused because macros nest too deep. -/
theorem invocation_stands_for_body (asm : Assembler) {fragments fragments' : List (List Line)}
    {xs ys : List Line} {inv : Line} {m : Macro} {args : List Token} {body : List Line}
    (invoking : fragments.flatten = xs ++ inv :: ys)
    (writtenOut : fragments'.flatten = xs ++ body ++ ys)
    (invokes : ((start asm).takeLines xs).state.assembler.invocation? inv = some (m, args))
    (filled : m.substitute args = .ok body) :
    let o := ((start asm).takeFragments fragments).state.finish
    let o' := ((start asm).takeFragments fragments').state.finish
    (∀ p, o.result = .ok p → o'.result = .ok p ∧ o'.state.labels = o.state.labels) ∧
    ∀ p, o'.result = .ok p → (o.result = .ok p ∧ o.state.labels = o'.state.labels) ∨
      ∃ e, o.result = .error e ∧ e.problem.errorClass = .macroRecursion := by
  intro o o'
  have reached : ((start asm).takeLines xs).state.assembler =
      (asm.clear.takeNumbered 1 xs).state := by
    have eq : (start asm).takeLines xs = _ := takeFrom_eq xs 1 asm.clear none
    rw [eq]
    dsimp only
    split <;> rfl
  rw [reached] at invokes
  have tracks := Assembler.invocation_tracks xs ys invokes filled
  rw [← invoking, ← writtenOut] at tracks
  have reaches := takeFragments_reaches fragments (.refl asm.clear) 1
  have reaches' := takeFragments_reaches fragments' (.refl asm.clear) 1
  cases tracks with
  | accepted ok ok' alike =>
    obtain ⟨s, hs, like⟩ := reaches.taken ok
    obtain ⟨t, ht, like'⟩ := reaches'.taken ok'
    have same : s.Alike t := (like.trans alike).trans like'.symm
    have ho : o = finish ⟨s, none⟩ := congrArg finish hs
    have ho' : o' = finish ⟨t, none⟩ := congrArg finish ht
    have labels : o.state.labels = o'.state.labels := by
      rw [ho, ho', finish_state, finish_state, same.labels]
    have results (p : Program) : o.result = .ok p ↔ o'.result = .ok p := by
      rw [ho, ho', finish_alike same]
    exact ⟨fun p hp => ⟨(results p).1 hp, labels.symm⟩,
      fun p hp => .inl ⟨(results p).2 hp, labels⟩⟩
  | rejected error error' =>
    obtain ⟨e, he, -⟩ := reaches.failed error
    obtain ⟨e', he', -⟩ := reaches'.failed error'
    have ho : o.result = .error e := finish_of_failure he
    have ho' : o'.result = .error e' := finish_of_failure he'
    exact ⟨fun p hp => by simp [ho] at hp, fun p hp => by simp [ho'] at hp⟩
  | tooDeep error deep =>
    obtain ⟨e, he, same⟩ := reaches.failed error
    have ho : o.result = .error e := finish_of_failure he
    exact ⟨fun p hp => by simp [ho] at hp, fun p hp => .inr ⟨e, ho, same.trans deep⟩⟩

/-- The arguments open and close a definition within the body, which then invokes what it has
defined. Branches stand before and after the definitions of their labels. -/
theorem defining_macro_stands_for_body :
    let xs := ["jump top", "#begin twice $1 $2", "$1 again", "top: jump done", "$2", "again",
      "done:", "#end"].map String.toList
    let m : Macro := ⟨"twice".toList, ["$1".toList, "$2".toList],
      ["$1 again", "top: jump done", "$2", "again", "done:"].map String.toList⟩
    let args := ["#begin".toList, "#end".toList]
    let body := ["#begin again", "top: jump done", "#end", "again", "done:"].map String.toList
    let whole := [xs ++ ["Twice #BEGIN #end".toList], ["again".toList]]
    let unfolded := [xs, body ++ ["again".toList]]
    let p := Program.ofArray #[.branch .always 1, .branch .always 2, .noop, .branch .always 2]
    ((start {}).takeLines xs).state.assembler.invocation? "Twice #BEGIN #end".toList =
        some (m, args) ∧
      m.substitute args = .ok body ∧
      ((start {}).takeFragments whole).state.finish.result = .ok p ∧
      ((start {}).takeFragments unfolded).state.finish.result = .ok p ∧
      ((start {}).takeFragments unfolded).state.finish.state.labels =
        ((start {}).takeFragments whole).state.finish.state.labels := by
  intro xs m args body whole unfolded p
  have invoking : whole.flatten = xs ++ "Twice #BEGIN #end".toList :: ["again".toList] := by
    simp [whole]
  have writtenOut : unfolded.flatten = xs ++ body ++ ["again".toList] := by simp [unfolded]
  have invokes : ((start {}).takeLines xs).state.assembler.invocation?
      "Twice #BEGIN #end".toList = some (m, args) := by decide +kernel
  have filled : m.substitute args = .ok body := by decide +kernel
  have succeeds : ((start {}).takeFragments whole).state.finish.result = .ok p := by
    decide +kernel
  have stands := invocation_stands_for_body {} invoking writtenOut invokes filled
  exact ⟨invokes, filled, succeeds, stands.1 p succeeds⟩

/-- The exception is real: of macros that each invoke the one before, the last is refused where the
only line of its body is taken. -/
example :
    let name (k : Nat) : Token := [Char.ofNat (97 + k / 26), Char.ofNat (97 + k % 26)]
    let defined := (List.range 65).map fun k => ⟨name (k + 1), [], [if k = 0 then [] else name k]⟩
    let asm : Assembler := { macros := { defined } }
    (asm.takeNumbered 1 [name 65]).result = .error ⟨1, .tooDeep (name 1)⟩ ∧
      (asm.takeNumbered 1 [name 64]).result = .ok () := by
  decide +kernel

end Session

end RegisterMachine
