import BytePack.Diagnostic

/-!
# Logging diagnostics

Where nobody collects diagnostics they are logged, all at one level.
-/

namespace BytePack

/-- How urgent a log event is. -/
inductive LogLevel where
  | trace
  | debug
  | info
  | warn
  | error
  deriving DecidableEq, Repr

namespace LogLevel

/-- The level of diagnostics unless a configuration says otherwise. -/
def standard : LogLevel := .warn

/-- Every level. -/
def all : List LogLevel := [.trace, .debug, .info, .warn, .error]

/-- The name of a level. -/
def name : LogLevel → String
  | .trace => "trace"
  | .debug => "debug"
  | .info => "info"
  | .warn => "warn"
  | .error => "error"

/-- The level of a name, which is in lower case. -/
def ofName? (name : String) : Option LogLevel := all.find? fun level => level.name == name

end LogLevel

/-- An entry of a log. -/
structure LogEvent where
  level : LogLevel
  kind : String
  text : String
  deriving DecidableEq, Repr

/-- A diagnostic as a log event. -/
def LogLevel.event (level : LogLevel) (d : Diagnostic) : LogEvent := ⟨level, d.kind, d.message⟩

/-- Diagnostics as log events, in order. -/
def LogLevel.log (level : LogLevel) (ds : List Diagnostic) : List LogEvent := ds.map level.event

end BytePack
