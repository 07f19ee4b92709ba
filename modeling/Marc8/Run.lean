/-
Marc8.Run — a computation that reports events and may fail.

A run has the events reported so far, also when it fails: what was reported
before the failure stays reported, and nothing is reported behind it.
-/
import Marc8.Event
import Marc8.Failure

namespace Marc8

/-- What a computation reported, and how it ended. -/
structure Run (α : Type) where
  /-- The events in the order of their report. -/
  events : List Event
  /-- The result, or the failure that ended the run. -/
  outcome : Except Failure α

namespace Run

variable {α β : Type}

/-- A run that reports nothing and ends well. -/
def done (a : α) : Run α := ⟨[], .ok a⟩

/-- A run that reports nothing. -/
def silent (outcome : Except Failure α) : Run α := ⟨[], outcome⟩

/-- A run that reports some events. -/
def report (events : List Event) : Run Unit := ⟨events, .ok ()⟩

/-- One run after another. -/
def andThen (r : Run α) (next : α → Run β) : Run β :=
  match r.outcome with
  | .ok a => ⟨r.events ++ (next a).events, (next a).outcome⟩
  | .error failure => ⟨r.events, .error failure⟩

instance : Monad Run where
  pure := done
  bind := andThen

/-- Behind a run that ended well the next one is run, and its events follow. -/
theorem bind_ok {r : Run α} {a : α} (h : r.outcome = .ok a) (next : α → Run β) :
    r >>= next = ⟨r.events ++ (next a).events, (next a).outcome⟩ := by
  show andThen r next = _
  rw [andThen, h]

/-- Behind a failure nothing is run. -/
theorem bind_error {r : Run α} {failure : Failure} (h : r.outcome = .error failure)
    (next : α → Run β) : r >>= next = ⟨r.events, .error failure⟩ := by
  show andThen r next = _
  rw [andThen, h]

/-- One run after another ends well when both do. -/
theorem outcome_bind_eq_ok {r : Run α} {next : α → Run β} {b : β} :
    (r >>= next).outcome = .ok b ↔ ∃ a, r.outcome = .ok a ∧ (next a).outcome = .ok b := by
  cases h : r.outcome with
  | ok a => simp [bind_ok h]
  | error failure => simp [bind_error h]

/-- One run after another fails when the first does, or else the second. -/
theorem outcome_bind_eq_error {r : Run α} {next : α → Run β} {failure : Failure} :
    (r >>= next).outcome = .error failure ↔
      r.outcome = .error failure ∨ ∃ a, r.outcome = .ok a ∧ (next a).outcome = .error failure := by
  cases h : r.outcome with
  | ok a => simp [bind_ok h]
  | error failure => simp [bind_error h]

@[simp] theorem outcome_pure (a : α) : (pure a : Run α).outcome = .ok a := rfl

@[simp] theorem outcome_silent (outcome : Except Failure α) : (silent outcome).outcome = outcome :=
  rfl

@[simp] theorem outcome_report (events : List Event) : (report events).outcome = .ok () := rfl

/-- Runs follow each other associatively, and a run that only returns adds nothing. -/
instance : LawfulMonad Run := by
  refine LawfulMonad.mk' Run (fun r => ?_) (fun a f => ?_) (fun r f g => ?_)
  · show andThen r (fun a => done (id a)) = r
    rcases r with ⟨events, _ | a⟩ <;> simp [andThen, done]
  · show andThen (done a) f = f a
    simp [andThen, done]
  · show andThen (andThen r f) g = andThen r fun a => andThen (f a) g
    rcases r with ⟨events, failure | a⟩
    · rfl
    · simp only [andThen]
      cases (f a).outcome <;> simp

end Run

end Marc8
