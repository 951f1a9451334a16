/-
Runs that report events and may fail.

A run is its events, in order, and its result. One run after another joins the events and
stops at the first failure, which keeps every event reported until then. The laws of a monad
hold, so runs may be regrouped freely.
-/

namespace MarkupBlocks

/-- A run that reported events and ended in a value or an error. -/
structure Traced (Event Error Value : Type) where
  /-- What was reported, earliest first. -/
  events : List Event
  /-- How the run ended. -/
  result : Except Error Value

namespace Traced

variable {Event Error Other Value Result : Type}

/-- A run that reports nothing and ends as given. -/
def ofExcept (result : Except Error Value) : Traced Event Error Value := ⟨[], result⟩

/-- A run that reports one event. -/
def report (event : Event) : Traced Event Error Unit := ⟨[event], .ok ()⟩

/-- A run that reports nothing and fails. -/
def fail (error : Error) : Traced Event Error Value := ⟨[], .error error⟩

/-- One run, then another that knows the value of the first. -/
def andThen (run : Traced Event Error Value) (next : Value → Traced Event Error Result) :
    Traced Event Error Result :=
  match run.result with
  | .error error => ⟨run.events, .error error⟩
  | .ok value =>
    let later := next value
    ⟨run.events ++ later.events, later.result⟩

/-- The same run with its error replaced. -/
def mapError (change : Error → Other) (run : Traced Event Error Value) :
    Traced Event Other Value :=
  ⟨run.events, run.result.mapError change⟩

instance : Monad (Traced Event Error) where
  pure value := ⟨[], .ok value⟩
  bind := andThen

/-! ### Events and results of composed runs -/

@[simp] theorem events_pure (value : Value) :
    (pure value : Traced Event Error Value).events = [] := rfl

@[simp] theorem result_pure (value : Value) :
    (pure value : Traced Event Error Value).result = .ok value := rfl

@[simp] theorem events_report (event : Event) :
    (report event : Traced Event Error Unit).events = [event] := rfl

@[simp] theorem result_report (event : Event) :
    (report event : Traced Event Error Unit).result = .ok () := rfl

@[simp] theorem events_fail (error : Error) :
    (fail error : Traced Event Error Value).events = [] := rfl

@[simp] theorem result_fail (error : Error) :
    (fail error : Traced Event Error Value).result = .error error := rfl

@[simp] theorem events_ofExcept (result : Except Error Value) :
    (ofExcept result : Traced Event Error Value).events = [] := rfl

@[simp] theorem result_ofExcept (result : Except Error Value) :
    (ofExcept result : Traced Event Error Value).result = result := rfl

/-- A run that succeeds hands its value on and its events come first. -/
theorem bind_of_ok {run : Traced Event Error Value} {value : Value}
    (succeeds : run.result = .ok value) (next : Value → Traced Event Error Result) :
    run >>= next = ⟨run.events ++ (next value).events, (next value).result⟩ := by
  show run.andThen next = _
  simp only [andThen, succeeds]

/-- Nothing happens after a failure. -/
theorem bind_of_error {run : Traced Event Error Value} {error : Error}
    (fails : run.result = .error error) (next : Value → Traced Event Error Result) :
    run >>= next = ⟨run.events, .error error⟩ := by
  show run.andThen next = _
  simp only [andThen, fails]

instance : LawfulMonad (Traced Event Error) := LawfulMonad.mk' _
  (by rintro _ ⟨_, _ | _⟩ <;> simp [Functor.map, andThen])
  (by intro _ _ _ _; simp [Bind.bind, Pure.pure, andThen])
  (by
    rintro _ _ _ ⟨_, _ | value⟩ middle _
    · simp [Bind.bind, andThen]
    · cases ended : (middle value).result <;> simp [Bind.bind, andThen, ended])

end Traced

end MarkupBlocks
