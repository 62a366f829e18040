import RegisterMachine.Proofs.Assembly.MacroBodies
import RegisterMachine.Proofs.Text.LowerCase
/-! Lines that name a macro. They invoke it from the end of its definition on: no other reading of
the line comes first. The one exception is a name that starts like a comment, which the check of
names lets pass and no line can use. -/
namespace RegisterMachine

namespace Assembler
variable {asm : Assembler} {line : Line} {m : Macro} {args : List Token}

section FirstWord
variable {word : Token} {rest : List Token} (cut : Text.tokens line = word :: rest)
include cut

theorem isSkipped_of_tokens :
    isSkipped (Text.lower (Text.trim line)) = "//".toList.isPrefixOf word := by
  rw [isSkipped_eq (Text.head_lower (Text.head_trim line)), Text.words_taken, cut]
  rfl

theorem takeLineWith_of_comment (comment : "//".toList <+: word) (expand : Expansion) (nr : Nat) :
    asm.takeLineWith expand line nr = .ok () asm := by
  rw [takeLineWith, takeTrimmed, isSkipped_of_tokens cut,
    if_pos (List.isPrefixOf_iff_prefix.2 comment)]

section Plain
variable (plain : ¬"//".toList <+: word) (unmarked : word.head? ≠ some '#')
include plain unmarked

theorem plain_of_first :
    isSkipped (Text.lower (Text.trim line)) = false ∧
      Macro.isOpener (Text.lower (Text.trim line)) = false ∧
      Macro.isCloser (Text.lower (Text.trim line)) = false := by
  have words := (Text.words_taken line).trans cut
  refine ⟨?_, ?_, ?_⟩
  · rw [isSkipped_of_tokens cut, ← Bool.not_eq_true, List.isPrefixOf_iff_prefix]
    exact plain
  · rw [Macro.isOpener, words, List.head?_cons, beq_eq_false_iff_ne]
    rintro ⟨⟩
    exact unmarked rfl
  · rw [isCloser_eq, words, beq_eq_false_iff_ne]
    rintro ⟨⟩
    exact unmarked rfl

theorem takeLineWith_of_code (closed : asm.macros.opened = none) (expand : Expansion) (nr : Nat) :
    asm.takeLineWith expand line nr = asm.takeWords expand (word :: rest) nr := by
  have words := (Text.words_taken line).trans cut
  obtain ⟨kept, notOpener, notCloser⟩ := plain_of_first cut plain unmarked
  simp only [takeLineWith, takeTrimmed, kept, notOpener, notCloser, closed, words,
    Option.isSome_none, Bool.false_eq_true, if_false]

theorem takeLineWith_of_body {h : MacroHeader} (opened : asm.macros.opened = some h)
    (expand : Expansion) (nr : Nat) : asm.takeLineWith expand line nr =
      .ok () { asm with macros := asm.macros.add (Text.lower (Text.trim line)) } := by
  obtain ⟨kept, notOpener, notCloser⟩ := plain_of_first cut plain unmarked
  simp only [takeLineWith, takeTrimmed, kept, notOpener, notCloser, opened, Option.isSome_some,
    Bool.false_eq_true, if_false, if_true]

end Plain

end FirstWord

theorem takeLineWith_of_call (closed : asm.macros.opened = none)
    (found : asm.macros.find? m.name = some m) (allowed : Macro.Nameable m.name)
    (cut : Text.tokens line = m.name :: args) (plain : ¬"//".toList <+: m.name)
    (expand : Expansion) (nr : Nat) :
    asm.takeLineWith expand line nr =
      match m.substitute args with
      | .error p => .fail ⟨nr, p⟩ asm
      | .ok body => expand m body nr asm := by
  have unlabelled : Label.isMarked m.name = false := by
    simpa [Label.isMarked] using allowed.colon
  rw [takeLineWith_of_code cut plain allowed.marker closed, takeWords]
  cases filled : m.substitute args <;>
    simp only [unlabelled, takeOperation, found, filled, Bool.false_eq_true, if_false]

/-- The line invokes the macro with these arguments. If they are as many as it has parameters, what
the line does is to take the lines of its body with the arguments put in, one macro deeper, or to be
refused where that is too deep; otherwise it is refused for their number. -/
structure Invokes (asm : Assembler) (line : Line) (nr : Nat) (m : Macro) (args : List Token) :
    Prop where
  expands : args.length = m.params.length → ∃ body, m.substitute args = .ok body ∧
    (∀ depth, asm.takeLine (depth + 1) line nr =
      (takeAll (fun line asm => asm.takeLine depth line nr) body asm).after
        [.macroExpanded nr m.name]) ∧
    asm.takeLine 0 line nr = .fail ⟨nr, .tooDeep m.name⟩ asm
  misfits : args.length ≠ m.params.length → ∀ depth, asm.takeLine depth line nr =
    .fail ⟨nr, .wrongArity m.name m.params.length args.length⟩ asm

theorem invokes_of_plain (closed : asm.macros.opened = none)
    (found : asm.macros.find? m.name = some m) (allowed : Macro.Nameable m.name)
    (cut : Text.tokens line = m.name :: args) (plain : ¬"//".toList <+: m.name) (nr : Nat) :
    asm.Invokes line nr m args := by
  have call := takeLineWith_of_call closed found allowed cut plain
  constructor
  · intro fits
    have filled : m.substitute args = .ok (m.body.map (Macro.fill (m.params.zip args))) :=
      if_pos fits
    refine ⟨_, filled, fun depth => ?_, ?_⟩
    · rw [takeLine, call, filled]
    · rw [takeLine, call, filled]
  · intro other depth
    have refused : m.substitute args = .error (.wrongArity m.name m.params.length args.length) :=
      if_neg other
    cases depth <;> rw [takeLine, call, refused]

theorem not_invokes_of_comment (cut : Text.tokens line = m.name :: args)
    (comment : "//".toList <+: m.name) (nr : Nat) : ¬asm.Invokes line nr m args := by
  intro invokes
  have skipped : asm.takeLine 0 line nr = .ok () asm := takeLineWith_of_comment cut comment _ nr
  by_cases fits : args.length = m.params.length
  · obtain ⟨-, -, -, refused⟩ := invokes.expands fits
    cases skipped.symm.trans refused
  · cases skipped.symm.trans (invokes.misfits fits 0)

end Assembler

theorem Captured.lower_name {done : List Due} {m : Macro} (captured : Captured done m) :
    Text.lower m.name = m.name := by
  obtain ⟨_, _, _, _, rfl, -, _, opener, _, rfl, ⟨cut, -⟩, -, -⟩ := captured
  have there : m.name ∈ Text.tokens opener.line := by
    rw [← Text.words_taken]
    simp [Due.cleaned] at cut
    simp [cut]
  rw [Text.tokens, Text.words_lower] at there
  obtain ⟨word, -, same⟩ := List.mem_map.1 there
  rw [← same, Text.lower_lower]

namespace Session
open Unrolling (ofFragments)

/-- A macro can be invoked from the end of its definition on, unless its name starts like a comment.
Wherever a session stands outside of definitions, a line with the name of a macro for its first word
invokes this macro, be it a line of the source or of an expansion. With a name that starts like a
comment the line is passed over. -/
theorem macro_is_invoked_iff (asm : Assembler) (fragments : List (List Line)) {done : List Due}
    {u : Unrolling} (taken : (ofFragments asm fragments).Takes done u) {m : Macro}
    (captured : Captured done m) (closed : ∀ h body, ¬UnderWay done h body) {line : Line}
    {args : List Token} (cut : Text.tokens line = m.name :: args) (nr : Nat) :
    (u.assembler.Invokes line nr m args ↔ ¬"//".toList <+: m.name) ∧
    ("//".toList <+: m.name → ∀ depth,
      u.assembler.takeLine depth line nr = .ok () u.assembler) ∧
    Text.lower m.name = m.name := by
  have follows := taken.follows
  have found := follows.find?_eq_some_iff.2 ⟨rfl, captured⟩
  have allowed := follows.allowed m ((follows.captured m).1 captured)
  have outside : u.assembler.macros.opened = none :=
    Option.eq_none_iff_forall_ne_some.2 fun h opened =>
      closed h _ ((follows.underWay h _).2 ⟨opened, rfl⟩)
  refine ⟨⟨fun invokes comment => ?_, fun plain => ?_⟩, fun comment depth => ?_,
    captured.lower_name⟩
  · exact Assembler.not_invokes_of_comment cut comment nr invokes
  · exact Assembler.invokes_of_plain outside found allowed cut plain nr
  · cases depth <;> exact Assembler.takeLineWith_of_comment cut comment _ nr

theorem macro_is_invoked_iff_twice :
    let fragments := [["#begin Twice $1".toList, "add $1 $1 $1".toList, "#end".toList],
      ["noop".toList]]
    let s := ((start {}).takeFragments fragments).state.assembler
    s.takeLine maxMacroDepth "\tTWICE  v0 ".toList 2 =
        (Assembler.takeAll (fun line asm => asm.takeLine 63 line 2) ["add v0 v0 v0".toList] s).after
          [.macroExpanded 2 "twice".toList] ∧
      s.takeLine 0 "twice v0".toList 3 = .fail ⟨3, .tooDeep "twice".toList⟩ s ∧
      s.takeLine maxMacroDepth "twice v0 v1".toList 4 =
        .fail ⟨4, .wrongArity "twice".toList 1 2⟩ s := by
  intro fragments s
  let twice : Macro := ⟨"twice".toList, ["$1".toList], ["add $1 $1 $1".toList]⟩
  have accepted : ((start {}).takeFragments fragments).result = .ok () := by decide +kernel
  have defined : s.macros.find? "twice".toList = some twice := by decide +kernel
  have outside : s.macros.opened = none := by decide +kernel
  obtain ⟨done, events, taken⟩ := (Unrolling.session_takes {} fragments).1 accepted
  have follows : Follows done s.macros := taken.follows
  have captured : Captured done twice := (follows.find?_eq_some_iff.1 defined).2
  have closed (h : MacroHeader) (body : List Line) : ¬UnderWay done h body := by
    simp [follows.underWay, outside]
  have invokes (line : Line) (args : List Token) (cut : Text.tokens line = twice.name :: args)
      (nr : Nat) : s.Invokes line nr twice args :=
    (macro_is_invoked_iff {} fragments taken captured closed cut nr).1.2 (by decide)
  obtain ⟨body, filled, expanded, -⟩ :=
    (invokes "\tTWICE  v0 ".toList ["v0".toList] (by decide +kernel) 2).expands rfl
  obtain ⟨-, -, -, deep⟩ :=
    (invokes "twice v0".toList ["v0".toList] (by decide +kernel) 3).expands rfl
  have misfit := (invokes "twice v0 v1".toList ["v0".toList, "v1".toList] (by decide +kernel)
    4).misfits (by decide) maxMacroDepth
  obtain rfl : ["add v0 v0 v0".toList] = body :=
    Except.ok.inj ((show twice.substitute ["v0".toList] = _ by decide +kernel).symm.trans filled)
  exact ⟨expanded 63, deep, misfit⟩

/-- The name is accepted and the definition closed, but no line invokes the macro. -/
theorem comment_is_no_invocation :
    ¬∀ (fragments : List (List Line)) (done : List Due) (u : Unrolling) (m : Macro) (line : Line)
      (args : List Token) (nr : Nat), (ofFragments {} fragments).Takes done u → Captured done m →
      (∀ h body, ¬UnderWay done h body) → Text.tokens line = m.name :: args →
        u.assembler.Invokes line nr m args := by
  intro always
  let fragments := [["#begin //x".toList, "loadi v0 1".toList, "#end".toList]]
  let x : Macro := ⟨"//x".toList, [], ["loadi v0 1".toList]⟩
  have accepted : ((start {}).takeFragments fragments).result = .ok () := by decide +kernel
  have defined : ((start {}).takeFragments fragments).state.assembler.macros.find? "//x".toList =
      some x := by decide +kernel
  have outside : ((start {}).takeFragments fragments).state.assembler.macros.opened = none := by
    decide +kernel
  obtain ⟨done, events, taken⟩ := (Unrolling.session_takes {} fragments).1 accepted
  have captured : Captured done x := (taken.follows.find?_eq_some_iff.1 defined).2
  have closed (h : MacroHeader) (body : List Line) : ¬UnderWay done h body := fun underWay => by
    have opened := ((taken.follows.underWay h body).1 underWay).1
    cases opened.symm.trans outside
  have cut : Text.tokens "//x".toList = x.name :: [] := by decide +kernel
  exact Assembler.not_invokes_of_comment cut (by decide) 4
    (always fragments done _ x "//x".toList [] 4 taken captured closed cut)

end Session

end RegisterMachine
