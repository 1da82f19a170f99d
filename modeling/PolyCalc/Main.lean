import PolyCalc.Session
import Std.Time.Format

set_option autoImplicit false

/-! # The command line

Gathers what the run depends on, runs the calculator, and delivers what comes of it. -/

namespace PolyCalc.CommandLine

/-- The reason for a failure in the words of the operating system, with its number. -/
def reason (details : String) (code : UInt32) : String :=
  details ++ " (os error " ++ toString code ++ ")"

/-- Why a file could not be read. -/
def readFailure : IO.Error → Config.ReadFailure
  | .noFileOrDirectory _ _ _ => .notFound
  | .inappropriateType _ code details =>
    if code = 21 then .isDirectory else .other (reason details code)
  | .permissionDenied _ code details => .other (reason details code)
  | e => .other (toString e)

/-- Reads a file. -/
def readBytes (path : String) : IO (Except Config.ReadFailure (List UInt8)) := do
  try
    return .ok (← IO.FS.readBinFile path).toList
  catch e => return .error (readFailure e)

/-- Makes an empty file. -/
def makeFile (path : String) : IO (Except String Unit) := do
  try
    IO.FS.writeFile path ""
    return .ok ()
  catch e => return .error (readFailure e).message

/-- The local time. -/
def now : IO Timestamp := do
  let t ← Std.Time.PlainDateTime.now
  return ⟨t.year.toInt.toNat, t.month.toNat, t.day.toNat, t.hour.toNat, t.minute.toNat,
    t.time.second.toNat⟩

/-- Reads all of standard input. -/
def readInput : IO (List UInt8) := do
  return (← (← IO.getStdin).readBinToEnd).toList

end PolyCalc.CommandLine

open PolyCalc in
/-- Runs the calculator on standard input, with the settings of the file that the first argument
    names. -/
def main (args : List String) : IO UInt32 := do
  let content ←
    match args with
    | path :: _ => CommandLine.readBytes path
    | [] => pure (.ok [])
  let now ← CommandLine.now
  let quiet : Surroundings := ⟨args, fun _ => content, [], now, .ok ()⟩
  let makeLogFile ←
    match Session.settings quiet with
    | .ok settings =>
      if settings.logFile && settings.logLevel != .off then CommandLine.makeFile now.logFileName
      else pure (.ok ())
    | .error _ => pure (.ok ())
  let stdin ← CommandLine.readInput
  let session := Session.run { quiet with stdin, makeLogFile }
  IO.print session.stdout
  for line in session.records.map LogRecord.line ++ session.stderr do
    IO.eprintln line
  for (name, records) in session.logFiles do
    IO.FS.writeFile name (String.join (records.map (fun r => r.line ++ "\n")))
  return session.exitCode
