import Dalvik.Event

/-! Steps of work that can fail and that report what they do. -/
namespace Dalvik

/-- What a step of work comes to: a result or an error, the state it leaves, which an error does
not undo, and the journal. -/
structure Outcome (σ α : Type) where
  result : Except Error α
  state : σ
  events : List Event

namespace Outcome

def ok (state : σ) (value : α) : Outcome σ α := ⟨.ok value, state, []⟩

def fail (state : σ) (error : Error) : Outcome σ α := ⟨.error error, state, []⟩

/-- A result that leaves the state alone. -/
def ofExcept (state : σ) (result : Except Error α) : Outcome σ α := ⟨result, state, []⟩

def note (event : Event) (outcome : Outcome σ α) : Outcome σ α :=
  { outcome with events := event :: outcome.events }

/-- Goes on from the state and value of a step that succeeded. -/
def andThen (first : Outcome σ α) (next : σ → α → Outcome σ β) : Outcome σ β :=
  match first with
  | ⟨.error error, state, events⟩ => ⟨.error error, state, events⟩
  | ⟨.ok value, state, events⟩ =>
    let second := next state value
    ⟨second.result, second.state, events ++ second.events⟩

def map (f : α → β) (outcome : Outcome σ α) : Outcome σ β :=
  ⟨outcome.result.map f, outcome.state, outcome.events⟩

/-- The same outcome seen as a step on a larger state. -/
def lift (embed : σ → τ) (outcome : Outcome σ α) : Outcome τ α :=
  ⟨outcome.result, embed outcome.state, outcome.events⟩

/-- Runs a step on each item in turn and stops at the first error, keeping the journal. -/
def traverse (step : α → Outcome Unit β) : List α → Outcome Unit (List β)
  | [] => .ok () []
  | item :: rest =>
    (step item).andThen fun _ first =>
      (traverse step rest).map (first :: ·)

/-- After a step that succeeds comes the next. -/
theorem andThen_of_ok {first : Outcome σ α} {next : σ → α → Outcome σ β} {value : α}
    (h : first.result = .ok value) :
    (first.andThen next).result = (next first.state value).result ∧
      (first.andThen next).state = (next first.state value).state := by
  obtain ⟨result, state, events⟩ := first
  obtain rfl : result = .ok value := h
  exact ⟨rfl, rfl⟩

/-- A step that fails is the last. -/
theorem andThen_of_error {first : Outcome σ α} {next : σ → α → Outcome σ β} {error : Error}
    (h : first.result = .error error) :
    (first.andThen next).result = .error error ∧ (first.andThen next).state = first.state := by
  obtain ⟨result, state, events⟩ := first
  obtain rfl : result = .error error := h
  exact ⟨rfl, rfl⟩

end Outcome
end Dalvik
