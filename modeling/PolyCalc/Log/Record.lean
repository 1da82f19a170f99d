set_option autoImplicit false

/-! # Log records

A record is a message with a level. A log keeps the records whose level is at most as verbose as
the one it was set to; at level `off` it keeps none. -/

namespace PolyCalc

/-- The verbosity of a log or of a record, from the least. -/
inductive LogLevel where
  | off | error | warn | info | debug | trace
  deriving DecidableEq

namespace LogLevel

/-- All levels, from the least verbose. -/
def all : List LogLevel := [off, error, warn, info, debug, trace]

/-- The place of a level in the order of verbosity. -/
def rank : LogLevel → Nat
  | off => 0
  | error => 1
  | warn => 2
  | info => 3
  | debug => 4
  | trace => 5

/-- The word for a level in configuration files. -/
def word : LogLevel → List Char
  | off => "off".toList
  | error => "error".toList
  | warn => "warn".toList
  | info => "info".toList
  | debug => "debug".toList
  | trace => "trace".toList

/-- The name of a level in descriptions of settings. -/
def title : LogLevel → String
  | off => "Off"
  | error => "Error"
  | warn => "Warn"
  | info => "Info"
  | debug => "Debug"
  | trace => "Trace"

/-- The name of a level at the start of a record. -/
def label : LogLevel → String
  | off => "OFF"
  | error => "ERROR"
  | warn => "WARN"
  | info => "INFO"
  | debug => "DEBUG"
  | trace => "TRACE"

/-- The level that a word stands for. -/
def ofWord? (w : List Char) : Option LogLevel := all.find? (fun l => l.word = w)

end LogLevel

/-- A message and its level. -/
structure LogRecord where
  level : LogLevel
  message : String
  deriving DecidableEq

namespace LogRecord

/-- The record as a line of a log. -/
def line (r : LogRecord) : String := r.level.label ++ " " ++ r.message

/-- The records that a log of the given level keeps. -/
def keep (level : LogLevel) (rs : List LogRecord) : List LogRecord :=
  rs.filter (fun r => r.level.rank ≤ level.rank)

end LogRecord

end PolyCalc
