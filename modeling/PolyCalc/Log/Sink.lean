import PolyCalc.Log.Record

set_option autoImplicit false

/-! # Where a log goes

A log goes to the terminal and, if asked for, also to a file that is named for the time at which
it was started. At level `off` there is no log and no file. A process has at most one log. -/

namespace PolyCalc

/-! ## Names of log files -/

/-- A local date and time of day. -/
structure Timestamp where
  year : Nat
  month : Nat
  day : Nat
  hour : Nat
  minute : Nat
  second : Nat
  deriving DecidableEq

/-- A number with zeros in front of it, up to a width. -/
def padded (width n : Nat) : String :=
  let digits := Nat.toDigits 10 n
  String.ofList (List.replicate (width - digits.length) '0' ++ digits)

/-- The name of a log file that is started at the given time. -/
def Timestamp.logFileName (t : Timestamp) : String :=
  "log_" ++ padded 4 t.year ++ "-" ++ padded 2 t.month ++ "-" ++ padded 2 t.day ++ "_" ++
    padded 2 t.hour ++ "-" ++ padded 2 t.minute ++ "-" ++ padded 2 t.second ++ ".txt"

/-! ## Starting a log -/

/-- Why a log is not started. -/
inductive LogError where
  /-- The file cannot be made, for a reason in the words of the operating system. -/
  | file (reason : String)
  /-- The process has a log already. -/
  | alreadyStarted
  deriving DecidableEq

/-- What is wrong, without what was attempted. -/
def LogError.reason : LogError → String
  | .file reason => reason
  | .alreadyStarted =>
    "attempted to set a logger after the logging system was already initialized"

/-- The wording of an error. -/
def LogError.message : LogError → String
  | .file reason => "cannot create log file: " ++ reason
  | .alreadyStarted => "logger already initialized: " ++ LogError.alreadyStarted.reason

/-- The result of starting a log: the name of its file if it has one. -/
structure LogStart where
  result : Except LogError (Option String)
  /-- The files that were made, also if the log could not be started. -/
  files : List String

/-- Starts a log. `makeFile` is what comes of making the file of the given name, and `started`
    tells whether the process has a log already. The file is made first. -/
def startLog (level : LogLevel) (toFile started : Bool) (now : Timestamp)
    (makeFile : Except String Unit) : LogStart :=
  if level = .off then ⟨.ok none, []⟩
  else
    let finish (name? : Option String) (files : List String) : LogStart :=
      if started then ⟨.error .alreadyStarted, files⟩ else ⟨.ok name?, files⟩
    if toFile then
      match makeFile with
      | .error reason => ⟨.error (.file reason), []⟩
      | .ok () => finish (some now.logFileName) [now.logFileName]
    else finish none []

end PolyCalc
