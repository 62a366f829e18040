import Mathlib.Logic.Relation
import RegisterMachine.Proofs.Assembly.Invocation
import RegisterMachine.Proofs.Assembly.LabelTargets
/-! Macros without a bound on their nesting. The lines of a body come due in place of the line that
invokes it, and so on, perhaps without end. The assembler follows this line by line until it comes
to an invocation that is nested too deep. -/
namespace RegisterMachine

namespace Outcome
variable {ε σ α β : Type} {o : Outcome ε σ α}

theorem andThen_eq_of_ok {a : α} (h : o.result = .ok a) (next : α → σ → Outcome ε σ β) :
    o.andThen next = (next a o.state).after o.events := by
  simp only [andThen, h]

theorem andThen_eq_of_error {e : ε} (h : o.result = .error e) (next : α → σ → Outcome ε σ α) :
    o.andThen next = o := by
  simp only [andThen, h]
  rw [← h]

end Outcome

namespace Assembler

def postpone : Expansion := fun _ _ _ asm => .ok () asm

def unlabelled : List Token → List Token
  | [] => []
  | first :: rest => if Label.isMarked first then rest else first :: rest

/-- The macro that an operation invokes with the right number of arguments, and the body with the
arguments put in. -/
def call? (asm : Assembler) : List Token → Option (Macro × List Line)
  | [] => none
  | op :: args =>
    (asm.macros.find? op).bind fun m => (m.substitute args).toOption.map fun body => (m, body)

def lineCall? (asm : Assembler) (line : Line) : Option (Macro × List Line) :=
  let line := Text.lower (Text.trim line)
  if isSkipped line || Macro.isOpener line || Macro.isCloser line || asm.macros.opened.isSome then
    none
  else asm.call? (unlabelled (Text.words line))

def answer (expand : Expansion) (nr : Nat) (asm : Assembler) : Option (Macro × List Line) → Taking
  | none => .ok () asm
  | some (m, body) => expand m body nr asm

variable {asm : Assembler} {expand : Expansion} {nr : Nat}

theorem andThen_answer_none (o : Taking) :
    (o.andThen fun _ asm => answer expand nr asm none) = o := o.andThen_ok

theorem takeOperation_postpone (tokens : List Token) :
    asm.takeOperation expand tokens nr =
      (asm.takeOperation postpone tokens nr).andThen fun _ asm' =>
        answer expand nr asm' (asm.call? tokens) := by
  cases tokens with
  | nil => exact (andThen_answer_none _).symm
  | cons op args =>
    cases found : asm.macros.find? op with
    | none =>
      simp only [takeOperation, call?, found, Option.bind_none]
      exact (andThen_answer_none _).symm
    | some m =>
      simp only [takeOperation, call?, found, Option.bind_some]
      cases m.substitute args with
      | error p => rfl
      | ok body => rfl

theorem takeWords_postpone (tokens : List Token) :
    asm.takeWords expand tokens nr =
      (asm.takeWords postpone tokens nr).andThen fun _ asm' =>
        answer expand nr asm' (asm.call? (unlabelled tokens)) := by
  cases tokens with
  | nil => exact takeOperation_postpone []
  | cons first rest =>
    cases marked : Label.isMarked first with
    | false =>
      simp only [takeWords, unlabelled, marked, Bool.false_eq_true, if_false]
      exact takeOperation_postpone (first :: rest)
    | true =>
      simp only [takeWords, unlabelled, marked, if_true]
      cases Label.read first with
      | error p => rfl
      | ok label =>
        -- binding the label does not change which macros there are
        have calls : (asm.bind label nr).state.call? = asm.call? := by
          funext tokens
          cases tokens with
          | nil => rfl
          | cons op args => rw [call?, call?, (bind_frame asm label nr).1]
        dsimp only
        rw [Outcome.andThen_assoc, ← calls]
        rcases asm.bind label nr with ⟨_ | u, s, events⟩
        · rfl
        · exact congrArg (Outcome.after events) (takeOperation_postpone rest)

/-- A line is taken by what there is to do before its call, and then the call. -/
theorem takeLineWith_postpone (line : Line) :
    asm.takeLineWith expand line nr =
      (asm.takeLineWith postpone line nr).andThen fun _ asm' =>
        answer expand nr asm' (asm.lineCall? line) := by
  unfold takeLineWith takeTrimmed lineCall?
  generalize Text.lower (Text.trim line) = line
  dsimp only
  split
  · rename_i skipped
    simp [skipped, answer, Outcome.ok, Outcome.andThen, Outcome.after]
  split
  · rename_i opener
    simp [opener, andThen_answer_none]
  split
  · rename_i closer
    simp [closer, andThen_answer_none]
  split
  · rename_i opened
    simp [opened, answer, Outcome.ok, Outcome.andThen, Outcome.after]
  · rename_i notSkipped notOpener notCloser closed
    rw [if_neg (by simp [notSkipped, notOpener, notCloser, closed])]
    exact takeWords_postpone _

end Assembler

/-! ### Lines that are due -/

/-- A line with the number it bears and the number of invocations that it is nested in. -/
structure Due where
  nr : Nat
  nesting : Nat
  line : Line
  deriving DecidableEq, Repr

/-- A source on the way: what comes of the lines so far, and the lines that are due, the next one
first. -/
structure Unrolling where
  assembler : Assembler
  due : List Due
  events : List Event
  deriving DecidableEq, Repr

namespace Unrolling
open Assembler (Taking)

inductive Move where
  | halt (o : Taking)
  | pass (u : Unrolling)
  /-- The line `d` invokes a macro, and all before the body is done. -/
  | enter (d : Due) (m : Macro) (body : List Line) (u : Unrolling)

def move (u : Unrolling) : Move :=
  match u.due with
  | [] => .halt (.ok () u.assembler u.events)
  | d :: rest =>
    let o := (u.assembler.takeLineWith Assembler.postpone d.line d.nr).after u.events
    match o.result with
    | .error _ => .halt o
    | .ok () =>
      match u.assembler.lineCall? d.line with
      | none => .pass ⟨o.state, rest, o.events⟩
      | some (m, body) => .enter d m body ⟨o.state, rest, o.events⟩

/-- Puts a body first, nested in one invocation more. Its lines bear the number of the
invocation. -/
def unroll (d : Due) (m : Macro) (body : List Line) (u : Unrolling) : Unrolling :=
  { u with
    due := body.map (⟨d.nr, d.nesting + 1, ·⟩) ++ u.due
    events := u.events ++ [.macroExpanded d.nr m.name] }

def next? (u : Unrolling) : Option Unrolling :=
  match u.move with
  | .halt _ => none
  | .pass v => some v
  | .enter d m body v => some (v.unroll d m body)

def numbered : Nat → List Line → List Due
  | _, [] => []
  | nr, line :: rest => ⟨nr, 0, line⟩ :: numbered (nr + 1) rest

def ofSource (asm : Assembler) (source : String) : Unrolling :=
  ⟨asm.clear, numbered 1 (Text.lines source.toList), []⟩

def conclude (o : Taking) : Outcome ParseError Assembler Program :=
  match o.result with
  | .error e => .fail e o.state (o.events ++ [.rejected e])
  | .ok () => (Session.finish ⟨o.state, none⟩).after o.events

def Leads : Unrolling → Unrolling → Prop := Relation.ReflTransGen fun u v => u.next? = some v

/-- The next line is not an invocation nested in as many others as may be. -/
def Shallow (u : Unrolling) : Prop :=
  ∀ d m body v, u.move = .enter d m body v → d.nesting < maxMacroDepth

def LeadsShallowly : Unrolling → Unrolling → Prop :=
  Relation.ReflTransGen fun u v => u.Shallow ∧ u.next? = some v

theorem LeadsShallowly.leads {u v : Unrolling} (h : u.LeadsShallowly v) : u.Leads v :=
  Relation.ReflTransGen.mono (fun _ _ step => step.2) u v h

/-- The assembler stops here, with this outcome. -/
inductive Stops (u : Unrolling) : Taking → Prop
  | halted {o : Taking} (halts : u.move = .halt o) : Stops u o
  | tooDeep {d : Due} {m : Macro} {body : List Line} {v : Unrolling}
      (enters : u.move = .enter d m body v) (deep : d.nesting = maxMacroDepth) :
      Stops u (.fail ⟨d.nr, .tooDeep m.name⟩ v.assembler v.events)

theorem LeadsShallowly.of_pass {u v : Unrolling} (passes : u.move = .pass v) :
    u.LeadsShallowly v := by
  refine .single ⟨fun d m body w enters => ?_, ?_⟩
  · simp [passes] at enters
  · simp [next?, passes]

theorem shallow_of_enter {u v : Unrolling} {d : Due} {m : Macro} {body : List Line}
    (enters : u.move = .enter d m body v) (bound : d.nesting < maxMacroDepth) : u.Shallow := by
  intro d' m' body' v' enters'
  obtain ⟨rfl, -⟩ := Move.enter.inj (enters.symm.trans enters')
  exact bound

theorem Stops.final {u v : Unrolling} {o : Taking} (stops : u.Stops o)
    (on : u.LeadsShallowly v) : v = u := by
  rcases on.cases_head with rfl | ⟨_, ⟨shallow, step⟩, -⟩
  · rfl
  cases stops with
  | halted halts => simp [next?, halts] at step
  | tooDeep enters deep => exact absurd (shallow _ _ _ _ enters) (by omega)

theorem Stops.unique {u : Unrolling} {o o' : Taking} (h : u.Stops o) (h' : u.Stops o') :
    o = o' := by
  cases h with
  | halted halts =>
    cases h' with
    | halted halts' => exact Move.halt.inj (halts.symm.trans halts')
    | tooDeep enters => simp [enters] at halts
  | tooDeep enters =>
    cases h' with
    | halted halts => simp [enters] at halts
    | tooDeep enters' =>
      obtain ⟨rfl, rfl, -, rfl⟩ := Move.enter.inj (enters.symm.trans enters')
      rfl

theorem Stops.unique_of_leads {u v w : Unrolling} {o o' : Taking} (hv : u.LeadsShallowly v)
    (hw : u.LeadsShallowly w) (stops : v.Stops o) (stops' : w.Stops o') : o = o' := by
  have unique : Relator.RightUnique fun u v : Unrolling => u.Shallow ∧ u.next? = some v :=
    fun u v w hv hw => Option.some.inj (hv.2.symm.trans hw.2)
  have same : v = w := by
    rcases Relation.ReflTransGen.total_of_right_unique unique hv hw with on | back
    · exact (Stops.final stops on).symm
    · exact Stops.final stops' back
  subst same
  exact stops.unique stops'

/-! ### What the assembler does -/

/-- The assembler follows from `u` on, to the outcome `o`; after a success `rest` is due. -/
inductive Yields (u : Unrolling) (rest : List Due) (o : Taking) : Prop
  | passes (ok : o.result = .ok ()) (leads : u.LeadsShallowly ⟨o.state, rest, o.events⟩)
  | fails {e : ParseError} {v : Unrolling} (error : o.result = .error e)
      (leads : u.LeadsShallowly v) (stops : v.Stops o)

namespace Yields
variable {u v : Unrolling} {rest mid : List Due} {o : Taking}

theorem refl (asm : Assembler) (events : List Event) :
    Yields ⟨asm, rest, events⟩ rest (.ok () asm events) :=
  .passes rfl .refl

theorem of_leads (leads : u.LeadsShallowly v) (h : v.Yields rest o) : u.Yields rest o := by
  cases h with
  | passes ok onward => exact .passes ok (leads.trans onward)
  | fails error onward stops => exact .fails error (leads.trans onward) stops

theorem andThen (h : u.Yields mid o) {next : Unit → Assembler → Taking}
    (onward : o.result = .ok () →
      Yields ⟨o.state, mid, o.events⟩ rest ((next () o.state).after o.events)) :
    u.Yields rest (o.andThen next) := by
  cases h with
  | passes ok leads =>
    rw [Outcome.andThen_eq_of_ok ok]
    exact (onward ok).of_leads leads
  | fails error leads stops =>
    rw [Outcome.andThen_eq_of_error error]
    exact .fails error leads stops

end Yields

section
variable {asm : Assembler} {d : Due} {rest : List Due} {events : List Event}

theorem yields_of_call {expand : Assembler.Expansion}
    (entered : ∀ m body v, move ⟨asm, d :: rest, events⟩ = .enter d m body v →
      v.due = rest → Yields ⟨asm, d :: rest, events⟩ rest
        ((expand m body d.nr v.assembler).after v.events)) :
    Yields ⟨asm, d :: rest, events⟩ rest
      ((asm.takeLineWith expand d.line d.nr).after events) := by
  rw [Assembler.takeLineWith_postpone, ← Outcome.after_andThen]
  generalize ho : (asm.takeLineWith Assembler.postpone d.line d.nr).after events = o
  cases result : o.result with
  | error e =>
    have halts : move ⟨asm, d :: rest, events⟩ = .halt o := by simp only [move, ho, result]
    rw [Outcome.andThen_eq_of_error result]
    exact .fails result .refl (.halted halts)
  | ok u =>
    cases call : asm.lineCall? d.line with
    | none =>
      have passes : move ⟨asm, d :: rest, events⟩ = .pass ⟨o.state, rest, o.events⟩ := by
        simp only [move, ho, result, call]
      rw [Assembler.andThen_answer_none]
      exact .passes result (.of_pass passes)
    | some found =>
      obtain ⟨m, body⟩ := found
      have enters : move ⟨asm, d :: rest, events⟩ = .enter d m body ⟨o.state, rest, o.events⟩ := by
        simp only [move, ho, result, call]
      rw [Outcome.andThen_eq_of_ok result]
      exact entered m body _ enters rfl

end

theorem yields_takeAll {take : Line → Assembler → Taking} (due : Line → Due)
    (line : ∀ l asm rest events,
      Yields ⟨asm, due l :: rest, events⟩ rest ((take l asm).after events))
    (body : List Line) (asm : Assembler) (rest : List Due) (events : List Event) :
    Yields ⟨asm, body.map due ++ rest, events⟩ rest
      ((Assembler.takeAll take body asm).after events) := by
  induction body generalizing asm events with
  | nil => simpa [Assembler.takeAll, Outcome.after, Outcome.ok] using Yields.refl asm events
  | cons l body ih =>
    rw [Assembler.takeAll, ← Outcome.after_andThen]
    exact (line l asm _ events).andThen fun _ => ih _ _

/-- The assembler takes a line within its depth as it comes due. The induction is on the depth that
is left, of which the lines of a body have one less. -/
theorem yields_takeLine {depth nesting : Nat} (sum : nesting + depth = maxMacroDepth) (nr : Nat)
    (line : Line) (asm : Assembler) (rest : List Due) (events : List Event) :
    Yields ⟨asm, ⟨nr, nesting, line⟩ :: rest, events⟩ rest
      ((asm.takeLine depth line nr).after events) := by
  induction depth generalizing nesting line asm rest events with
  | zero =>
    refine yields_of_call fun m body v enters _ => ?_
    have stop : Outcome.after v.events (.fail ⟨nr, .tooDeep m.name⟩ v.assembler : Taking) =
        .fail ⟨nr, .tooDeep m.name⟩ v.assembler v.events := by
      simp [Outcome.after, Outcome.fail]
    rw [stop]
    exact .fails rfl .refl (.tooDeep enters sum)
  | succ depth ih =>
    refine yields_of_call fun m body v enters due => ?_
    have bound : nesting < maxMacroDepth := by omega
    have inner := yields_takeAll (⟨nr, nesting + 1, ·⟩) (ih (by omega)) body v.assembler rest
      (v.events ++ [.macroExpanded nr m.name])
    rw [Outcome.after_after]
    refine inner.of_leads (.single ⟨shallow_of_enter enters bound, ?_⟩)
    simp only [next?, enters, unroll, due]

theorem yields_takeNumbered (lines : List Line) (nr : Nat) (asm : Assembler) (rest : List Due)
    (events : List Event) :
    Yields ⟨asm, numbered nr lines ++ rest, events⟩ rest
      ((asm.takeNumbered nr lines).after events) := by
  induction lines generalizing nr asm events with
  | nil =>
    simpa [Assembler.takeNumbered, numbered, Outcome.after, Outcome.ok] using Yields.refl asm events
  | cons line lines ih =>
    rw [Assembler.takeNumbered, ← Outcome.after_andThen]
    exact (yields_takeLine (Nat.zero_add _) nr line asm _ events).andThen fun _ => ih _ _ _

theorem assemble_eq_conclude (asm : Assembler) (source : String) :
    asm.assemble source = conclude (asm.clear.takeNumbered 1 (Text.lines source.toList)) := by
  have taken : (Session.start asm).takeText source = _ :=
    Session.takeFrom_eq (Text.lines source.toList) 1 asm.clear none
  unfold Assembler.assemble conclude
  rw [taken]
  cases result : (asm.clear.takeNumbered 1 (Text.lines source.toList)).result with
  | error e => simp only [result, Outcome.fail]
  | ok u => simp only [result, Outcome.ok]

theorem exists_stop (asm : Assembler) (source : String) :
    ∃ u o, (ofSource asm source).LeadsShallowly u ∧ u.Stops o ∧
      asm.assemble source = conclude o := by
  rw [assemble_eq_conclude]
  have follows := yields_takeNumbered (Text.lines source.toList) 1 asm.clear [] []
  rw [Outcome.after_nil, List.append_nil] at follows
  cases follows with
  | passes ok leads =>
    refine ⟨_, _, leads, .halted rfl, ?_⟩
    rw [conclude, ok]
    rfl
  | fails error leads stops => exact ⟨_, _, leads, stops, rfl⟩

/-- The bound on nested macros is exact. Where the lines come to an end with no invocation nested in
as many others as the bound, the assembler gives that end. Where they come to one that is, it stops
there, and names the macro and the line of the source. It always comes to one of the two, and so it
refuses a source whose lines come to no end. -/
theorem nesting_bound_is_exact (asm : Assembler) (source : String) :
    let start := ofSource asm source
    (∀ u o, start.LeadsShallowly u → u.move = .halt o → asm.assemble source = conclude o) ∧
    (∀ u d m body v, start.LeadsShallowly u → u.move = .enter d m body v →
      d.nesting = maxMacroDepth →
        asm.assemble source = conclude (.fail ⟨d.nr, .tooDeep m.name⟩ v.assembler v.events)) ∧
    (∃ u, start.LeadsShallowly u ∧ ((∃ o, u.move = .halt o) ∨
      ∃ d m body v, u.move = .enter d m body v ∧ d.nesting = maxMacroDepth)) ∧
    ((∀ u, start.Leads u → ∃ v, u.next? = some v) →
      ∃ e, (asm.assemble source).result = .error e ∧ e.problem.errorClass = .macroRecursion) := by
  intro start
  obtain ⟨w, end_, leads, stops, assembled⟩ := exists_stop asm source
  have outcome {u : Unrolling} {o : Taking} (leads' : start.LeadsShallowly u) (stops' : u.Stops o) :
      asm.assemble source = conclude o := by
    rw [assembled, Stops.unique_of_leads leads leads' stops stops']
  refine ⟨fun u o leads' halts => outcome leads' (.halted halts),
    fun u d m body v leads' enters deep => outcome leads' (.tooDeep enters deep), ⟨w, leads, ?_⟩,
    fun endless => ?_⟩
  · cases stops with
    | halted halts => exact .inl ⟨_, halts⟩
    | tooDeep enters deep => exact .inr ⟨_, _, _, _, enters, deep⟩
  · cases stops with
    | halted halts =>
      obtain ⟨v, step⟩ := endless w leads.leads
      simp [next?, halts] at step
    | tooDeep enters deep => exact ⟨_, congrArg Outcome.result assembled, rfl⟩

/-! ### A line that invokes itself -/

section
variable {asm : Assembler} {m : Macro} {line : Line} {nr : Nat} {events : List Event}
  (taken : asm.takeLineWith Assembler.postpone line nr = .ok () asm)
  (again : asm.lineCall? line = some (m, [line]))
include taken again

theorem move_of_loop (k : Nat) : move ⟨asm, [⟨nr, k, line⟩], events⟩ =
    .enter ⟨nr, k, line⟩ m [line] ⟨asm, [], events⟩ := by
  simp [move, taken, again, Outcome.ok, Outcome.after]

theorem next?_of_loop (k : Nat) : next? ⟨asm, [⟨nr, k, line⟩], events⟩ =
    some ⟨asm, [⟨nr, k + 1, line⟩], events ++ [.macroExpanded nr m.name]⟩ := by
  simp [next?, move_of_loop taken again, unroll]

theorem endless_of_loop {k : Nat} {u : Unrolling} (leads : Leads ⟨asm, [⟨nr, k, line⟩], events⟩ u) :
    ∃ v, u.next? = some v := by
  have form : ∃ k events, u = ⟨asm, [⟨nr, k, line⟩], events⟩ := by
    induction leads with
    | refl => exact ⟨k, events, rfl⟩
    | tail _ step ih =>
      obtain ⟨k, events, rfl⟩ := ih
      exact ⟨_, _, Option.some.inj (step.symm.trans (next?_of_loop taken again k))⟩
  obtain ⟨k, events, rfl⟩ := form
  exact ⟨_, next?_of_loop taken again k⟩

theorem endless_of_leads {u : Unrolling} {k : Nat}
    (leads : u.Leads ⟨asm, [⟨nr, k, line⟩], events⟩) {v : Unrolling} (on : u.Leads v) :
    ∃ w, v.next? = some w := by
  have unique : Relator.RightUnique fun u v : Unrolling => u.next? = some v :=
    fun u v w hv hw => Option.some.inj (hv.symm.trans hw)
  rcases Relation.ReflTransGen.total_of_right_unique unique leads on with beyond | before
  · exact endless_of_loop taken again beyond
  · rcases Relation.ReflTransGen.cases_head before with rfl | ⟨w, step, -⟩
    · exact ⟨_, next?_of_loop taken again k⟩
    · exact ⟨w, step⟩

theorem leadsShallowly_of_loop {k : Nat} (bound : k ≤ maxMacroDepth) :
    LeadsShallowly ⟨asm, [⟨nr, 0, line⟩], events⟩
      ⟨asm, [⟨nr, k, line⟩], events ++ List.replicate k (.macroExpanded nr m.name)⟩ := by
  induction k with
  | zero =>
    rw [List.replicate_zero, List.append_nil]
    exact .refl
  | succ k ih =>
    refine (ih (by omega)).tail ⟨shallow_of_enter (move_of_loop taken again k) bound, ?_⟩
    rw [next?_of_loop taken again, List.append_assoc, List.replicate_succ']

end

/-- A macro that invokes itself goes on without end, and is refused at the line that invokes it
after 64 expansions; one that does not is taken to its end. -/
theorem nesting_bound_is_exact_spin :
    let o := Assembler.assemble "#begin spin\nspin\n#end\nspin" {}
    (∀ u, (ofSource {} "#begin spin\nspin\n#end\nspin").Leads u → ∃ v, u.next? = some v) ∧
      (∃ e, o.result = .error e ∧ e.problem.errorClass = .macroRecursion) ∧
      o.result = .error ⟨4, .tooDeep "spin".toList⟩ ∧
      o.events = .macroOpened 1 "spin".toList 0 ::
        List.replicate 64 (.macroExpanded 4 "spin".toList) ++
          [.rejected ⟨4, .tooDeep "spin".toList⟩] ∧
      (Assembler.assemble "#begin stop\nexit\n#end\nstop" {}).result =
        .ok (.ofArray #[.exit]) := by
  intro o
  let spin : Macro := ⟨"spin".toList, [], ["spin".toList]⟩
  let defined : Assembler := { macros := { defined := [spin] } }
  have taken : defined.takeLineWith Assembler.postpone "spin".toList 4 = .ok () defined := rfl
  have again : defined.lineCall? "spin".toList = some (spin, ["spin".toList]) := rfl
  have opens : (ofSource {} "#begin spin\nspin\n#end\nspin").LeadsShallowly
      ⟨defined, [⟨4, 0, "spin".toList⟩], [.macroOpened 1 "spin".toList 0]⟩ :=
    (LeadsShallowly.of_pass rfl).trans
      ((LeadsShallowly.of_pass rfl).trans (LeadsShallowly.of_pass rfl))
  have deep := opens.trans (leadsShallowly_of_loop taken again (Nat.le_refl maxMacroDepth))
  have endless := fun u => endless_of_leads (v := u) taken again opens.leads
  obtain ⟨-, stops, -, rejects⟩ := nesting_bound_is_exact {} "#begin spin\nspin\n#end\nspin"
  obtain ⟨ends, -⟩ := nesting_bound_is_exact {} "#begin stop\nexit\n#end\nstop"
  have refused := stops _ _ _ _ _ deep (move_of_loop taken again _) rfl
  refine ⟨endless, rejects endless, congrArg Outcome.result refused,
    congrArg Outcome.events refused, ?_⟩
  · let stop : Macro := ⟨"stop".toList, [], ["exit".toList]⟩
    let defined : Assembler := { macros := { defined := [stop] } }
    have opens : (ofSource {} "#begin stop\nexit\n#end\nstop").LeadsShallowly
        ⟨defined, [⟨4, 0, "stop".toList⟩], [.macroOpened 1 "stop".toList 0]⟩ :=
      (LeadsShallowly.of_pass rfl).trans
        ((LeadsShallowly.of_pass rfl).trans (LeadsShallowly.of_pass rfl))
    have enters : move ⟨defined, [⟨4, 0, "stop".toList⟩], [.macroOpened 1 "stop".toList 0]⟩ =
        .enter ⟨4, 0, "stop".toList⟩ stop ["exit".toList]
          ⟨defined, [], [.macroOpened 1 "stop".toList 0]⟩ := rfl
    have inside := (opens.tail ⟨shallow_of_enter enters (by decide), rfl⟩).trans
      (LeadsShallowly.of_pass rfl)
    exact congrArg Outcome.result (ends _ _ inside rfl)

end Unrolling

end RegisterMachine
