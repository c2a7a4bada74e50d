/-
  Series catalog — log messages.

  The catalog writes no log itself: an operation that may log returns its
  result together with the messages for the caller's logger.  A logger hears
  the levels for which it has a hook.
-/
import SeriesCatalog.Error

namespace SeriesCatalog

/-- The level of a message. -/
inductive LogLevel where
  | info
  | warn
  | error
deriving DecidableEq

/-- A message at its level. -/
structure LogEntry where
  level : LogLevel
  text : Text
deriving DecidableEq

/-- The levels that a caller listens to; none unless stated. -/
structure Logger where
  info : Bool := false
  warn : Bool := false
  error : Bool := false
deriving DecidableEq

/-- Whether a logger has a hook for a level. -/
def Logger.hears (logger : Logger) : LogLevel → Bool
  | .info => logger.info
  | .warn => logger.warn
  | .error => logger.error

/-- What a logger receives of a message: the message, or nothing if it has no hook for it. -/
def Logger.entry (logger : Logger) (level : LogLevel) (text : Text) : List LogEntry :=
  if logger.hears level then [⟨level, text⟩] else []

theorem Logger.mem_entry_iff {logger : Logger} {level : LogLevel} {text : Text} {e : LogEntry} :
    e ∈ logger.entry level text ↔ logger.hears level ∧ e = ⟨level, text⟩ := by
  cases h : logger.hears level <;> simp [entry, h]

/-- The result of an operation, with the messages that it logged. -/
structure Logged (α : Type) where
  result : Except CatalogError α
  log : List LogEntry := []

end SeriesCatalog
