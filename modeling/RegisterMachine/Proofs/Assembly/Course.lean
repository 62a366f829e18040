import RegisterMachine.Proofs.Assembly.Unrolling
/-! The course of a session: its lines in the order in which the assembler takes them, the lines
of the source and those that expansions bring. -/
namespace RegisterMachine

namespace Unrolling
open Assembler (Taking)

def ofFragments (asm : Assembler) (fragments : List (List Line)) : Unrolling :=
  ⟨asm.clear, (fragments.map (numbered 1)).flatten, []⟩

inductive Takes (u : Unrolling) : List Due → Unrolling → Prop
  | refl : Takes u [] u
  | tail {done : List Due} {d : Due} {rest : List Due} {v w : Unrolling} (before : Takes u done v)
      (due : v.due = d :: rest) (shallow : v.Shallow) (step : v.next? = some w) :
      Takes u (done ++ [d]) w

/-- What a line leaves: it has done the work before its call, and the body, if it has one, is due
in its place. -/
structure After (u : Unrolling) (d : Due) (rest : List Due) (v : Unrolling) : Prop where
  accepted : (u.assembler.takeLineWith Assembler.postpone d.line d.nr).result = .ok ()
  assembler : v.assembler = (u.assembler.takeLineWith Assembler.postpone d.line d.nr).state
  due : u.assembler.lineCall? d.line = none ∧ v.due = rest ∨
    ∃ m body, u.assembler.lineCall? d.line = some (m, body) ∧
      v.due = body.map (⟨d.nr, d.nesting + 1, ·⟩) ++ rest

section
variable {u v w : Unrolling} {d : Due} {rest : List Due} {done more : List Due}

theorem after_of_next? (due : u.due = d :: rest) (step : u.next? = some v) : u.After d rest v := by
  generalize ho : (u.assembler.takeLineWith Assembler.postpone d.line d.nr) = o
  cases result : o.result with
  | error e => simp [next?, move, due, ho, Outcome.after, result] at step
  | ok =>
    cases call : u.assembler.lineCall? d.line with
    | none =>
      obtain rfl : ⟨o.state, rest, u.events ++ o.events⟩ = v := by
        simpa [next?, move, due, ho, Outcome.after, result, call] using step
      exact ⟨by rw [ho, result], by rw [ho], .inl ⟨call, rfl⟩⟩
    | some found =>
      obtain ⟨m, body⟩ := found
      obtain rfl : unroll d m body ⟨o.state, rest, u.events ++ o.events⟩ = v := by
        simpa [next?, move, due, ho, Outcome.after, result, call] using step
      exact ⟨by rw [ho, result], by rw [ho]; rfl, .inr ⟨m, body, call, rfl⟩⟩

theorem exists_due_of_next? (step : u.next? = some v) : ∃ d rest, u.due = d :: rest := by
  cases due : u.due with
  | nil => simp [next?, move, due] at step
  | cons d rest => exact ⟨d, rest, rfl⟩

theorem Takes.trans (first : u.Takes done v) (second : v.Takes more w) :
    u.Takes (done ++ more) w := by
  induction second with
  | refl => rwa [List.append_nil]
  | tail _ due shallow step ih =>
    rw [← List.append_assoc]
    exact ih.tail due shallow step

theorem leadsShallowly_iff : u.LeadsShallowly v ↔ ∃ done, u.Takes done v := by
  constructor
  · intro leads
    induction leads with
    | refl => exact ⟨[], .refl⟩
    | tail _ step ih =>
      obtain ⟨done, taken⟩ := ih
      obtain ⟨d, rest, due⟩ := exists_due_of_next? step.2
      exact ⟨done ++ [d], taken.tail due step.1 step.2⟩
  · rintro ⟨done, taken⟩
    induction taken with
    | refl => exact .refl
    | tail _ _ shallow step ih => exact ih.tail ⟨shallow, step⟩

theorem takes_nil_iff : u.Takes [] v ↔ v = u := by
  constructor
  · intro taken
    generalize hnone : [] = none at taken
    cases taken with
    | refl => rfl
    | tail => simp at hnone
  · rintro rfl
    exact .refl

theorem Takes.cases_concat (taken : u.Takes (done ++ [d]) w) :
    ∃ v rest, u.Takes done v ∧ v.due = d :: rest ∧ v.Shallow ∧ v.next? = some w := by
  generalize hall : done ++ [d] = all at taken
  cases taken with
  | refl => simp at hall
  | tail before due shallow step =>
    obtain ⟨rfl, ⟨⟩⟩ := List.append_inj' hall rfl
    exact ⟨_, _, before, due, shallow, step⟩

theorem Takes.single (taken : u.Takes [d] v) : ∃ rest, u.due = d :: rest ∧ u.After d rest v := by
  have taken : u.Takes ([] ++ [d]) v := taken
  obtain ⟨u', rest, before, due, -, step⟩ := taken.cases_concat
  obtain rfl := takes_nil_iff.1 before
  exact ⟨rest, due, after_of_next? due step⟩

theorem exists_inner {lines : List Line} {n : Nat} {inner : List Due}
    (split : d :: rest = inner ++ numbered (n + 1) (lines.drop n)) (own : ∀ d ∈ inner, d.nr = n) :
    ∃ inner', rest = inner' ++ numbered (d.nr + 1) (lines.drop d.nr) ∧
      ∀ d' ∈ inner', d'.nr = d.nr := by
  cases inner with
  | cons d' inner =>
    obtain ⟨rfl, rfl⟩ := List.cons.inj split
    obtain ⟨rfl, own⟩ := List.forall_mem_cons.1 own
    exact ⟨inner, rfl, own⟩
  | nil =>
    cases next : lines.drop n with
    | nil => simp [next, numbered] at split
    | cons line lines' =>
      rw [next] at split
      obtain ⟨rfl, rfl⟩ := List.cons.inj split
      have others : lines.drop (n + 1) = lines' := by
        rw [← List.tail_drop, next]
        rfl
      exact ⟨[], by rw [others]; rfl, by simp⟩

/-- A line of the source and the lines of the macros that it invokes stand before the lines that
follow it in the source, and bear its number. -/
theorem Takes.due {asm : Assembler} {lines : List Line} {events : List Event}
    (taken : Takes ⟨asm, numbered 1 lines, events⟩ done u) :
    ∃ n inner, u.due = inner ++ numbered (n + 1) (lines.drop n) ∧ ∀ d ∈ inner, d.nr = n := by
  induction taken with
  | refl => exact ⟨0, [], rfl, by simp⟩
  | @tail done d rest v w _ due _ step ih =>
    obtain ⟨n, inner, split, own⟩ := ih
    obtain ⟨inner', rfl, own'⟩ := exists_inner (due.symm.trans split) own
    rcases (after_of_next? due step).due with ⟨-, passed⟩ | ⟨m, body, -, entered⟩
    · exact ⟨d.nr, inner', passed, own'⟩
    · refine ⟨d.nr, body.map (⟨d.nr, d.nesting + 1, ·⟩) ++ inner', by simp [entered], ?_⟩
      simpa [or_imp, forall_and] using own'

end

/-! ### What a session takes -/

theorem exists_yields (fragments : List (List Line)) (asm : Assembler) (events : List Event) :
    ∃ o : Taking, Yields ⟨asm, (fragments.map (numbered 1)).flatten, events⟩ [] o ∧
      (Session.takeFragments fragments ⟨asm, none⟩).result = o.result ∧
      (Session.takeFragments fragments ⟨asm, none⟩).state = Session.ofTaking o := by
  induction fragments generalizing asm events with
  | nil => exact ⟨.ok () asm events, .refl asm events, rfl, rfl⟩
  | cons lines others ih =>
    have first := yields_takeNumbered lines 1 asm (others.map (numbered 1)).flatten events
    have result := Session.takeLines_result lines asm
    have state := Session.takeLines_state lines asm
    unfold Session.takeFragments
    rw [List.map_cons, List.flatten_cons]
    cases first with
    | fails error leads stops =>
      have error : (asm.takeNumbered 1 lines).result = .error _ := error
      rw [error] at result
      refine ⟨(asm.takeNumbered 1 lines).after events, .fails error leads stops, ?_, ?_⟩
      · rw [Outcome.andThen_eq_of_error result, result]
        exact error.symm
      · rw [Outcome.andThen_eq_of_error result, state]
        rfl
    | passes ok leads =>
      have ok : (asm.takeNumbered 1 lines).result = .ok () := ok
      obtain ⟨o, follows, last, final⟩ := ih (asm.takeNumbered 1 lines).state
        ((asm.takeNumbered 1 lines).after events).events
      have next : (Session.takeLines lines ⟨asm, none⟩).state =
          ⟨(asm.takeNumbered 1 lines).state, none⟩ := by
        rw [state, Session.ofTaking, ok]
      obtain ⟨result', state'⟩ := Outcome.andThen_of_ok (result.trans ok) fun _ s =>
        Session.takeFragments others s
      exact ⟨o, follows.of_leads leads, by rw [result', next, last], by rw [state', next, final]⟩

/-- What a session takes without an error it takes in the order of its course, to the end of the
fragments or to the line that it refuses. -/
theorem session_takes (asm : Assembler) (fragments : List (List Line)) :
    let o := (Session.start asm).takeFragments fragments
    (o.result = .ok () → ∃ done events,
      (ofFragments asm fragments).Takes done ⟨o.state.assembler, [], events⟩) ∧
    ∀ e, o.result = .error e → ∃ done u t, (ofFragments asm fragments).Takes done u ∧
      u.Stops t ∧ t.result = .error e ∧ t.state = o.state.assembler := by
  intro o
  obtain ⟨t, follows, result, state⟩ := exists_yields fragments asm.clear []
  have result : o.result = t.result := result
  have state : o.state = Session.ofTaking t := state
  rw [result, state]
  cases follows with
  | passes ok leads =>
    obtain ⟨done, taken⟩ := leadsShallowly_iff.1 leads
    exact ⟨fun _ => ⟨done, _, taken⟩, fun e error => by simp [ok] at error⟩
  | fails error leads stops =>
    obtain ⟨done, taken⟩ := leadsShallowly_iff.1 leads
    exact ⟨fun ok => by simp [error] at ok, fun e error => ⟨done, _, t, taken, stops, error, rfl⟩⟩

end Unrolling

end RegisterMachine
