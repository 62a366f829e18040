import RegisterMachine.Event
/-! Outcomes of operations on a state: a value or an error, the state afterwards in either case,
and the events on the way. -/
namespace RegisterMachine

structure Outcome (ε σ α : Type) where
  result : Except ε α
  state : σ
  events : List Event

namespace Outcome
variable {ε ε' σ τ α β : Type}

def ok (a : α) (s : σ) (events : List Event := []) : Outcome ε σ α := ⟨.ok a, s, events⟩

def fail (e : ε) (s : σ) (events : List Event := []) : Outcome ε σ α := ⟨.error e, s, events⟩

def after (earlier : List Event) (o : Outcome ε σ α) : Outcome ε σ α :=
  { o with events := earlier ++ o.events }

def andThen (o : Outcome ε σ α) (next : α → σ → Outcome ε σ β) : Outcome ε σ β :=
  match o.result with
  | .ok a => (next a o.state).after o.events
  | .error e => ⟨.error e, o.state, o.events⟩

def reporting (o : Outcome ε σ α) (event : Event) : Outcome ε σ α :=
  o.andThen fun a s => ok a s [event]

def mapState (f : σ → τ) (o : Outcome ε σ α) : Outcome ε τ α := ⟨o.result, f o.state, o.events⟩

def mapError (f : ε → ε') (o : Outcome ε σ α) : Outcome ε' σ α :=
  ⟨o.result.mapError f, o.state, o.events⟩

def map (f : α → β) (o : Outcome ε σ α) : Outcome ε σ β := ⟨o.result.map f, o.state, o.events⟩

@[simp] theorem ok_andThen (a : α) (s : σ) (events : List Event)
    (next : α → σ → Outcome ε σ β) :
    (ok a s events).andThen next = (next a s).after events := rfl

@[simp] theorem fail_andThen (e : ε) (s : σ) (events : List Event)
    (next : α → σ → Outcome ε σ β) : (fail e s events).andThen next = fail e s events := rfl

@[simp] theorem after_nil (o : Outcome ε σ α) : o.after [] = o := rfl

@[simp] theorem after_after (u v : List Event) (o : Outcome ε σ α) :
    (o.after v).after u = o.after (u ++ v) := by
  simp [after, List.append_assoc]

theorem andThen_ok (o : Outcome ε σ α) : (o.andThen fun a s => ok a s) = o := by
  rcases o with ⟨_ | a, s, events⟩
  · rfl
  · simp [andThen, ok, after]

theorem after_andThen (u : List Event) (o : Outcome ε σ α) (next : α → σ → Outcome ε σ β) :
    (o.after u).andThen next = (o.andThen next).after u := by
  rcases o with ⟨_ | a, s, events⟩
  · rfl
  · simp [andThen, after, List.append_assoc]

theorem andThen_assoc {γ : Type} (o : Outcome ε σ α) (f : α → σ → Outcome ε σ β)
    (g : β → σ → Outcome ε σ γ) :
    (o.andThen f).andThen g = o.andThen fun a s => (f a s).andThen g := by
  rcases o with ⟨_ | a, s, events⟩
  · rfl
  · exact after_andThen events (f a s) g

end Outcome

end RegisterMachine
