import RegisterMachine.Proofs.Assembly.Bookkeeping
import RegisterMachine.Proofs.Assembly.Grammar
import RegisterMachine.Proofs.Assembly.Headers
import RegisterMachine.Proofs.Assembly.Spacing
/-! Macro definitions along the course of a session. The lines from an opener to the next closer are
recorded and make the body of the macro. They do nothing else, and nothing else gets into it. -/
namespace RegisterMachine

namespace Due

def cleaned (d : Due) : Line := Text.lower (Text.trim d.line)

def Counts (d : Due) : Prop := d.cleaned ≠ [] ∧ ¬"//".toList <+: d.cleaned

instance (d : Due) : Decidable d.Counts := inferInstanceAs (Decidable (_ ∧ ¬_))

def Opens (d : Due) (h : MacroHeader) : Prop :=
  Text.words d.cleaned = Macro.opener :: h.name :: h.params ∧ h.line = d.nr

def Closes (d : Due) : Prop := Text.words d.cleaned = [Macro.closer]

end Due

def recorded (lines : List Due) : List Line := (lines.filter (·.Counts)).map Due.cleaned

/-- A definition is open after these lines, and this is its body so far: a line opened it, and none
since has closed it. -/
def UnderWay (done : List Due) (h : MacroHeader) (body : List Line) : Prop :=
  ∃ before opener between, done = before ++ opener :: between ∧ opener.Opens h ∧
    (∀ d ∈ between, ¬d.Closes) ∧ recorded between = body

/-- A definition of the macro was opened and closed among these lines, and what stood between is its
body. -/
def Captured (done : List Due) (m : Macro) : Prop :=
  ∃ before closer after nr, done = before ++ closer :: after ∧ closer.Closes ∧
    UnderWay before ⟨m.name, m.params, nr⟩ m.body

section
variable {done more : List Due} {d : Due} {h : MacroHeader} {body : List Line} {m : Macro}

theorem recorded_concat (lines : List Due) (d : Due) :
    recorded (lines ++ [d]) = recorded lines ++ if d.Counts then [d.cleaned] else [] := by
  by_cases counts : d.Counts <;> simp [recorded, counts]

theorem not_underWay_nil : ¬UnderWay [] h body := by
  rintro ⟨before, opener, between, split, -⟩
  simp at split

theorem underWay_concat : UnderWay (done ++ [d]) h body ↔
    d.Opens h ∧ body = [] ∨ ¬d.Closes ∧ ∃ body', UnderWay done h body' ∧
      body = body' ++ if d.Counts then [d.cleaned] else [] := by
  constructor
  · rintro ⟨before, opener, between, split, opens, unclosed, rfl⟩
    rcases List.eq_nil_or_concat between with rfl | ⟨between, last, rfl⟩
    · obtain ⟨-, ⟨⟩⟩ := List.append_inj' split rfl
      exact .inl ⟨opens, rfl⟩
    · have split : done ++ [d] = (before ++ opener :: between) ++ [last] := by simpa using split
      obtain ⟨rfl, ⟨⟩⟩ := List.append_inj' split rfl
      simp only [List.concat_eq_append, List.forall_mem_append, List.forall_mem_singleton]
        at unclosed
      rw [List.concat_eq_append]
      exact .inr ⟨unclosed.2, _, ⟨before, opener, between, rfl, opens, unclosed.1, rfl⟩,
        recorded_concat between d⟩
  · rintro (⟨opens, rfl⟩ | ⟨plain, body', underWay, rfl⟩)
    · exact ⟨done, d, [], rfl, opens, by simp, rfl⟩
    · obtain ⟨before, opener, between, rfl, opens, unclosed, rfl⟩ := underWay
      refine ⟨before, opener, between ++ [d], by simp, opens, ?_, recorded_concat between d⟩
      simpa [or_imp, forall_and, plain] using unclosed

theorem not_captured_nil : ¬Captured [] m := by
  rintro ⟨before, closer, after, nr, split, -⟩
  simp at split

theorem captured_concat : Captured (done ++ [d]) m ↔
    Captured done m ∨ d.Closes ∧ ∃ nr, UnderWay done ⟨m.name, m.params, nr⟩ m.body := by
  constructor
  · rintro ⟨before, closer, after, nr, split, closes, underWay⟩
    rcases List.eq_nil_or_concat after with rfl | ⟨after, last, rfl⟩
    · obtain ⟨rfl, ⟨⟩⟩ := List.append_inj' split rfl
      exact .inr ⟨closes, nr, underWay⟩
    · have split : done ++ [d] = (before ++ closer :: after) ++ [last] := by simpa using split
      obtain ⟨rfl, -⟩ := List.append_inj' split rfl
      exact .inl ⟨before, closer, after, nr, rfl, closes, underWay⟩
  · rintro (⟨before, closer, after, nr, rfl, closes, underWay⟩ | ⟨closes, nr, underWay⟩)
    · exact ⟨before, closer, after ++ [d], nr, by simp, closes, underWay⟩
    · exact ⟨done, d, [], nr, rfl, closes, underWay⟩

theorem Captured.append (captured : Captured done m) (more : List Due) :
    Captured (done ++ more) m := by
  obtain ⟨before, closer, after, nr, rfl, closes, underWay⟩ := captured
  exact ⟨before, closer, after ++ more, nr, by simp, closes, underWay⟩

end

namespace Assembler

/-- A label may be bound, and after that an instruction added. -/
def Codes (nr : Nat) (asm asm' : Assembler) : Prop :=
  ∃ bound : Assembler, (bound = asm ∨ ∃ label, bound = (asm.bind label nr).state) ∧
    (asm' = bound ∨ ∃ draft, asm' = (bound.emit draft nr).state)

theorem Codes.macros {nr : Nat} {asm asm' : Assembler} (codes : asm.Codes nr asm') :
    asm'.macros = asm.macros := by
  obtain ⟨bound, first, second⟩ := codes
  have kept : bound.macros = asm.macros := by
    obtain rfl | ⟨label, rfl⟩ := first
    · rfl
    · exact (bind_leavesMacros label nr).kept asm
  obtain rfl | ⟨draft, rfl⟩ := second
  · exact kept
  · rw [(emit_leavesMacros draft nr).kept, kept]

theorem takeWords_codes (asm : Assembler) (tokens : List Token) (nr : Nat) :
    asm.Codes nr (asm.takeWords postpone tokens nr).state := by
  obtain ⟨bound, first, second⟩ := asm.takeWords_writes tokens nr
  refine ⟨bound, first.imp_right fun labelled => ?_, second.imp_right fun added => ?_⟩
  · obtain ⟨label, -, same⟩ := labelled
    exact ⟨label, same⟩
  · obtain ⟨draft, -, same⟩ := added
    exact ⟨draft, same⟩

end Assembler

/-- What an accepted line does before its call. -/
inductive Handles (d : Due) (asm asm' : Assembler) : Prop
  | skipped (void : ¬d.Counts) (state : asm' = asm)
  | opened {h : MacroHeader} (opens : d.Opens h) (closed : asm.macros.opened = none)
      (free : asm.macros.Admits h.name)
      (state : asm' = { asm with macros := { asm.macros with opened := some h } })
  | closed {h : MacroHeader} (closes : d.Closes) (opened : asm.macros.opened = some h)
      (state : asm' = { asm with macros :=
        { buffer := #[]
          defined := ⟨h.name, h.params, asm.macros.buffer.toList⟩ :: asm.macros.defined
          opened := none } })
  | recorded {h : MacroHeader} (counts : d.Counts) (plain : ¬d.Closes)
      (unmarked : ∀ h, ¬d.Opens h) (opened : asm.macros.opened = some h)
      (state : asm' = { asm with macros := asm.macros.add d.cleaned })
  | code (plain : ¬d.Closes) (unmarked : ∀ h, ¬d.Opens h) (closed : asm.macros.opened = none)
      (codes : asm.Codes d.nr asm')

/-- Only a line of code does anything but to the macros, and no definition is open then. -/
theorem Handles.frame {d : Due} {asm asm' : Assembler} (handles : Handles d asm asm') :
    asm' = { asm with macros := asm'.macros } ∨
      asm.macros.opened = none ∧ asm.Codes d.nr asm' := by
  cases handles with
  | skipped _ state => exact .inl (by rw [state])
  | opened _ _ _ state => exact .inl (by rw [state])
  | closed _ _ state => exact .inl (by rw [state])
  | recorded _ _ _ _ state => exact .inl (by rw [state])
  | code _ _ closed codes => exact .inr ⟨closed, codes⟩

theorem Due.counts_iff (d : Due) : d.Counts ↔ Assembler.isSkipped d.cleaned = false := by
  rw [Assembler.isSkipped, Bool.or_eq_false_iff, Due.Counts, ← List.isPrefixOf_iff_prefix,
    Bool.not_eq_true, List.isEmpty_eq_false_iff]

theorem Due.closes_iff (d : Due) : d.Closes ↔ Macro.isCloser d.cleaned = true := by
  rw [Assembler.isCloser_eq, beq_iff_eq, Due.Closes]

theorem Due.Opens.isOpener {d : Due} {h : MacroHeader} (opens : d.Opens h) :
    Macro.isOpener d.cleaned = true := by
  simp [Macro.isOpener, opens.1]

theorem opened_of_begin {t : MacroTable} {d : Due} (opener : Macro.isOpener d.cleaned = true)
    (ok : (t.begin d.cleaned d.nr).result = .ok ()) :
    ∃ h, d.Opens h ∧ t.opened = none ∧ t.Admits h.name ∧
      (t.begin d.cleaned d.nr).state = { t with opened := some h } := by
  unfold MacroTable.begin at ok ⊢
  split at ok
  · cases ok
  rename_i name params read
  have closed : t.opened = none := by
    cases opened : t.opened with
    | none => rfl
    | some h =>
      unfold MacroTable.readHeader at read
      rw [opened] at read
      cases read
  have first : (Text.words d.cleaned).head? = some Macro.opener := by
    simpa [Macro.isOpener] using opener
  cases cut : Text.words d.cleaned with
  | nil => simp [cut] at first
  | cons word rest =>
    obtain rfl : word = Macro.opener := by simpa [cut] using first
    obtain ⟨rfl, free, -⟩ := (MacroTable.readHeader_eq_ok_iff closed cut).1 read
    exact ⟨⟨name, params, d.nr⟩, ⟨cut, rfl⟩, closed, free, rfl⟩

theorem handles_of_accepted {d : Due} {asm : Assembler}
    (ok : (asm.takeLineWith Assembler.postpone d.line d.nr).result = .ok ()) :
    Handles d asm (asm.takeLineWith Assembler.postpone d.line d.nr).state := by
  change (asm.takeTrimmed _ d.cleaned d.nr).result = _ at ok
  change Handles d asm (asm.takeTrimmed _ d.cleaned d.nr).state
  unfold Assembler.takeTrimmed at ok ⊢
  split
  · rename_i skipped
    exact .skipped (by simp [d.counts_iff, skipped]) rfl
  rename_i counts
  rw [if_neg counts] at ok
  split
  · rename_i opener
    rw [if_pos opener] at ok
    obtain ⟨h, opens, closed, free, state⟩ := opened_of_begin opener ok
    exact .opened opens closed free (congrArg (fun macros => { asm with macros }) state)
  rename_i notOpener
  rw [if_neg notOpener] at ok
  split
  · rename_i closer
    rw [if_pos closer] at ok
    unfold Assembler.viaMacros MacroTable.finish at ok ⊢
    cases opened : asm.macros.opened with
    | none => simp [opened, Outcome.mapState, Outcome.fail] at ok
    | some h => exact .closed (d.closes_iff.2 closer) opened rfl
  rename_i notCloser
  rw [if_neg notCloser] at ok
  have plain : ¬d.Closes := mt d.closes_iff.1 notCloser
  have unmarked (h : MacroHeader) : ¬d.Opens h := fun opens => notOpener opens.isOpener
  split
  · rename_i inside
    obtain ⟨h, opened⟩ := Option.isSome_iff_exists.1 inside
    exact .recorded (d.counts_iff.2 (by simpa using counts)) plain unmarked opened rfl
  · rename_i outside
    exact .code plain unmarked (by simpa using outside) (asm.takeWords_codes _ d.nr)

section
variable {d : Due} {h h' : MacroHeader}

theorem Due.Opens.not_closes (opens : d.Opens h) : ¬d.Closes := by
  intro closes
  cases opens.1.symm.trans closes

theorem Due.Opens.unique (opens : d.Opens h) (opens' : d.Opens h') : h = h' := by
  obtain ⟨name, params, nr⟩ := h
  obtain ⟨name', params', nr'⟩ := h'
  obtain ⟨rfl, rfl⟩ : name = name' ∧ params = params' := by
    simpa using opens.1.symm.trans opens'.1
  obtain rfl : nr = nr' := opens.2.trans opens'.2.symm
  rfl

theorem Due.counts_of_first {word : Token} {rest : List Token}
    (cut : Text.words d.cleaned = word :: rest) (plain : "//".toList.isPrefixOf word = false) :
    d.Counts := by
  have first : ∀ c ∈ d.cleaned.head?, Text.isBlank c = false :=
    Text.head_lower (Text.head_trim d.line)
  rw [d.counts_iff, Assembler.isSkipped_eq first, cut]
  simpa using plain

theorem Due.Opens.counts (opens : d.Opens h) : d.Counts :=
  Due.counts_of_first opens.1 (by decide)

theorem Due.Closes.counts (closes : d.Closes) : d.Counts :=
  Due.counts_of_first closes (by decide)

end

/-- The macro table stands where the definitions among the lines are. -/
structure Follows (done : List Due) (t : MacroTable) : Prop where
  underWay : ∀ h body, UnderWay done h body ↔ t.opened = some h ∧ t.buffer.toList = body
  captured : ∀ m, Captured done m ↔ m ∈ t.defined
  empty : t.opened = none → t.buffer = #[]
  free : ∀ h, t.opened = some h → t.Admits h.name
  allowed : ∀ m ∈ t.defined, Macro.Nameable m.name
  distinct : t.defined.Pairwise fun m m' => m.name ≠ m'.name

namespace Follows
variable {done : List Due} {d : Due} {asm asm' : Assembler}

theorem clear (asm : Assembler) : Follows [] asm.clear.macros where
  underWay h body := iff_of_false not_underWay_nil (by simp [Assembler.clear, MacroTable.clear])
  captured m := iff_of_false not_captured_nil (by simp [Assembler.clear, MacroTable.clear])
  empty _ := rfl
  free := nofun
  allowed := nofun
  distinct := .nil

theorem plain {t t' : MacroTable} (follows : Follows done t) (plain : ¬d.Closes)
    (unmarked : ∀ h, ¬d.Opens h) (opened : t'.opened = t.opened) (defined : t'.defined = t.defined)
    (buffer : t'.buffer.toList = t.buffer.toList ++
      if t.opened.isSome ∧ d.Counts then [d.cleaned] else []) :
    Follows (done ++ [d]) t' where
  underWay h body := by
    simp only [underWay_concat, unmarked, false_and, false_or, plain, not_false_eq_true, true_and,
      follows.underWay, opened]
    constructor
    · rintro ⟨_, ⟨isOpen, rfl⟩, rfl⟩
      simp [isOpen, buffer]
    · rintro ⟨isOpen, rfl⟩
      exact ⟨_, ⟨isOpen, rfl⟩, by simp [isOpen, buffer]⟩
  captured m := by simp [captured_concat, plain, follows.captured, defined]
  empty := by
    intro closed
    rw [opened] at closed
    rw [← Array.toList_eq_nil_iff, buffer, closed, follows.empty closed]
    rfl
  free h := by
    rw [opened]
    rintro isOpen
    obtain ⟨allowed, unused⟩ := follows.free h isOpen
    exact ⟨allowed, defined ▸ unused⟩
  allowed := defined ▸ follows.allowed
  distinct := defined ▸ follows.distinct

theorem step (follows : Follows done asm.macros) (handles : Handles d asm asm') :
    Follows (done ++ [d]) asm'.macros := by
  cases handles with
  | skipped void state =>
    subst state
    refine follows.plain (mt Due.Closes.counts void) (fun h => mt Due.Opens.counts void) rfl rfl ?_
    simp [void]
  | recorded counts plain unmarked opened state =>
    subst state
    refine follows.plain plain unmarked rfl rfl ?_
    simp [MacroTable.add, opened, counts]
  | code plain unmarked closed codes =>
    rw [codes.macros]
    refine follows.plain plain unmarked rfl rfl ?_
    simp [closed]
  | @opened h opens closed free state =>
    subst state
    -- outside of definitions the buffer is empty, and so the new body starts empty
    have nothing := follows.empty closed
    refine ⟨fun h' body => ?_, fun m => ?_, by simp, ?_, follows.allowed, follows.distinct⟩
    · simp only [underWay_concat, follows.underWay, closed, nothing, opens.not_closes, reduceCtorEq,
        false_and, exists_false, and_false, or_false, Option.some.injEq]
      constructor
      · rintro ⟨opens', rfl⟩
        exact ⟨opens.unique opens', rfl⟩
      · rintro ⟨rfl, rfl⟩
        exact ⟨opens, rfl⟩
    · simp [captured_concat, opens.not_closes, follows.captured]
    · intro h' same
      obtain rfl : h = h' := Option.some.inj same
      exact ⟨free.allowed, free.unused⟩
  | @closed h closes opened state =>
    subst state
    obtain ⟨allowed, unused⟩ := follows.free h opened
    have unmarked (h : MacroHeader) : ¬d.Opens h := fun opens => opens.not_closes closes
    refine ⟨fun h' body => ?_, fun m => ?_, fun _ => rfl, by simp,
      List.forall_mem_cons.2 ⟨allowed, follows.allowed⟩,
      .cons (fun m hm => (unused m hm).symm) follows.distinct⟩
    · simp [underWay_concat, unmarked, closes]
    · -- what was under way is in the buffer, and goes to the macro as a whole
      have new : (∃ nr, UnderWay done ⟨m.name, m.params, nr⟩ m.body) ↔
          m = ⟨h.name, h.params, asm.macros.buffer.toList⟩ := by
        simp only [follows.underWay, opened, Option.some.injEq]
        constructor
        · rintro ⟨nr, rfl, same⟩
          rw [same]
        · rintro rfl
          exact ⟨h.line, rfl, rfl⟩
      rw [captured_concat, and_iff_right closes, new, follows.captured, List.mem_cons, or_comm]

theorem find?_eq_some_iff {t : MacroTable} (follows : Follows done t) {name : Token} {m : Macro} :
    t.find? name = some m ↔ m.name = name ∧ Captured done m := by
  rw [follows.captured]
  have distinct := follows.distinct
  unfold MacroTable.find?
  generalize t.defined = defined at distinct ⊢
  induction defined with
  | nil => simp
  | cons first others ih =>
    obtain ⟨apart, distinct⟩ := List.pairwise_cons.1 distinct
    rw [List.find?_cons, List.mem_cons]
    by_cases named : first.name = name
    · have others (h : m ∈ others) : m.name ≠ name := fun same => apart m h (named.trans same.symm)
      simp only [named, beq_self_eq_true, Option.some.injEq]
      constructor
      · rintro rfl
        exact ⟨named, .inl rfl⟩
      · rintro ⟨same, rfl | there⟩
        · rfl
        · exact absurd same (others there)
    · rw [beq_eq_false_iff_ne.2 named]
      refine (ih distinct).trans (and_congr_right fun same => (or_iff_right ?_).symm)
      rintro rfl
      exact named same

end Follows

namespace Unrolling

theorem Takes.follows {asm : Assembler} {fragments : List (List Line)} {done : List Due}
    {u : Unrolling} (taken : (ofFragments asm fragments).Takes done u) :
    Follows done u.assembler.macros := by
  induction taken with
  | refl => exact .clear asm
  | tail _ due _ step ih =>
    have after := after_of_next? due step
    rw [after.assembler]
    exact ih.step (handles_of_accepted after.accepted)

/-- In an open definition a line does nothing but to the definition. -/
theorem Takes.inert {u v : Unrolling} {d : Due} (taken : u.Takes [d] v)
    (inside : u.assembler.macros.opened.isSome = true) :
    v.assembler = { u.assembler with macros := v.assembler.macros } ∧ u.due = d :: v.due := by
  obtain ⟨rest, due, after⟩ := taken.single
  have uncalled : u.assembler.lineCall? d.line = none := by
    simp [Assembler.lineCall?, inside]
  have handles := handles_of_accepted after.accepted
  rw [← after.assembler] at handles
  constructor
  · rcases handles.frame with same | ⟨closed, -⟩
    · exact same
    · simp [closed] at inside
  · rcases after.due with ⟨-, rest'⟩ | ⟨m, body, call, -⟩
    · rw [due, rest']
    · simp [uncalled] at call

end Unrolling

theorem Macro.Nameable.not_named {name : Token} (allowed : Macro.Nameable name) :
    (∀ op : Opcode, ¬op.NamedBy name) ∧ ∀ r : Register, ¬r.NamedBy name := by
  have noMnemonic := Macro.ofMnemonic?_eq_none_iff.2 ⟨allowed.mnemonic, allowed.spelling⟩
  have noRegister := Macro.ofName?_eq_none_iff.2 allowed.register
  refine ⟨fun op named => ?_, Register.ofName?_eq_none_iff.1 noRegister⟩
  rw [Opcode.ofMnemonic?_eq_some_iff.2 named] at noMnemonic
  cases noMnemonic

namespace Session
open Unrolling (ofFragments)

/-- Bodies of macros are captured exactly, and for good. Whatever lines a session has taken, those
of its fragments and those of expansions, a name finds a macro just when a definition of it was
opened and closed among them, with what stood between as its body. While a definition is open, a
line does nothing but to it: there is no new instruction or label, and nothing is expanded. What a
name finds it finds for the rest of the session; it spells no operation that a source can name, and
no register. -/
theorem macro_bodies_are_captured (asm : Assembler) (fragments : List (List Line)) :
    let course := ofFragments asm fragments
    let o := (start asm).takeFragments fragments
    (∀ done u, course.Takes done u →
      (∀ name m, u.assembler.macros.find? name = some m ↔ m.name = name ∧ Captured done m) ∧
      (∀ h body d v, UnderWay done h body → u.Takes [d] v →
        v.assembler = { u.assembler with macros := v.assembler.macros } ∧ u.due = d :: v.due) ∧
      (∀ more v name m, u.Takes more v → u.assembler.macros.find? name = some m →
        v.assembler.macros.find? name = some m) ∧
      ∀ name m, u.assembler.macros.find? name = some m →
        (∀ op : Opcode, ¬op.NamedBy name) ∧ ∀ r : Register, ¬r.NamedBy name) ∧
    (o.result = .ok () → ∃ done events, course.Takes done ⟨o.state.assembler, [], events⟩) ∧
    ∀ e, o.result = .error e → ∃ done u t, course.Takes done u ∧ u.Stops t ∧
      t.result = .error e ∧ t.state = o.state.assembler := by
  intro course o
  refine ⟨fun done u taken => ?_, Unrolling.session_takes asm fragments⟩
  have follows := taken.follows
  refine ⟨fun name m => follows.find?_eq_some_iff, fun h body d v underWay next => ?_,
    fun more v name m onward found => ?_, fun name m found => ?_⟩
  · have isOpen := ((follows.underWay h body).1 underWay).1
    exact next.inert (by rw [isOpen]; rfl)
  · obtain ⟨named, captured⟩ := follows.find?_eq_some_iff.1 found
    exact (taken.trans onward).follows.find?_eq_some_iff.2 ⟨named, captured.append more⟩
  · obtain ⟨rfl, captured⟩ := follows.find?_eq_some_iff.1 found
    exact (follows.allowed m ((follows.captured m).1 captured)).not_named

theorem macro_bodies_are_captured_making :
    let fragments := [["#begin make $1 $2".toList, "  $1 Inner".toList, " // no line".toList],
      ["\tEXIT ".toList, "".toList, "$2".toList, "#END".toList, "make #begin #end".toList]]
    let make : Macro := ⟨"make".toList, ["$1".toList, "$2".toList],
      ["$1 inner".toList, "exit".toList, "$2".toList]⟩
    let inner : Macro := ⟨"inner".toList, [], ["exit".toList]⟩
    ∃ done asm events, (ofFragments {} fragments).Takes done ⟨asm, [], events⟩ ∧
      asm.slots = #[] ∧ Captured done make ∧ Captured done inner ∧
      ∀ op : Opcode, ¬op.NamedBy "inner".toList := by
  intro fragments make inner
  have accepted : ((start {}).takeFragments fragments).result = .ok () := by decide +kernel
  have empty : ((start {}).takeFragments fragments).state.assembler.slots = #[] := by
    decide +kernel
  have findMake : ((start {}).takeFragments fragments).state.assembler.macros.find?
      "make".toList = some make := by decide +kernel
  have findInner : ((start {}).takeFragments fragments).state.assembler.macros.find?
      "inner".toList = some inner := by decide +kernel
  obtain ⟨along, ends, -⟩ := macro_bodies_are_captured {} fragments
  obtain ⟨done, events, taken⟩ := ends accepted
  generalize ((start {}).takeFragments fragments).state.assembler = asm at *
  obtain ⟨finds, -, -, apart⟩ := along done _ taken
  exact ⟨done, asm, events, taken, empty, ((finds _ _).1 findMake).2,
    ((finds _ _).1 findInner).2, (apart _ _ findInner).1⟩

end Session

end RegisterMachine
