import Weave.Fault

namespace Weave

/-!
# Outcomes

What an evaluation leaves: the lines it logged and either a value or a fault.  The
lines logged before a fault are kept.
-/

/-- How urgent a logged line is. -/
inductive LogLevel where
  | debug
  | info
  | warning
  | error
  deriving Repr, DecidableEq

/-- A line of the log. -/
structure LogEntry where
  level : LogLevel
  message : String
  deriving Repr, DecidableEq

/-- Logged lines and a value or a fault. -/
structure Outcome (α : Type) where
  logs : List LogEntry
  result : Except Fault α

namespace Outcome

def value (result : α) : Outcome α :=
  ⟨[], .ok result⟩

def fault (fault : Fault) : Outcome α :=
  ⟨[], .error fault⟩

def ofExcept (result : Except Fault α) : Outcome α :=
  ⟨[], result⟩

/-- Go on with a value, behind its logs. -/
def andThen (outcome : Outcome α) (next : α → Outcome β) : Outcome β :=
  match outcome.result with
  | .ok value =>
    let following := next value
    ⟨outcome.logs ++ following.logs, following.result⟩
  | .error fault => ⟨outcome.logs, .error fault⟩

instance : Monad Outcome where
  pure := value
  bind := andThen

instance : MonadExceptOf Fault Outcome where
  throw := fault
  tryCatch outcome handle :=
    match outcome.result with
    | .ok _ => outcome
    | .error fault =>
      let handled := handle fault
      ⟨outcome.logs ++ handled.logs, handled.result⟩

instance : MonadLift (Except Fault) Outcome where
  monadLift := ofExcept

/-- Log a line. -/
def log (level : LogLevel) (message : String) : Outcome Unit :=
  ⟨[⟨level, message⟩], .ok ()⟩

/-- Apply a computation to every item, from the first to the last. -/
def each (compute : α → Outcome β) : List α → Outcome (List β)
  | [] => value []
  | item :: rest =>
    andThen (compute item) fun result =>
      andThen (each compute rest) fun results => value (result :: results)

/-- Keep the items that pass a test. -/
def keep (holds : α → Outcome Bool) : List α → Outcome (List α)
  | [] => value []
  | item :: rest =>
    andThen (holds item) fun kept =>
      andThen (keep holds rest) fun others => value (if kept then item :: others else others)

end Outcome

end Weave
