import PolyCalc.Config.Settings
import PolyCalc.Log.Sink
import PolyCalc.Log.Trace

set_option autoImplicit false

/-! # A run of the command line

The command reads its settings from the file that is named by the first argument, or takes the
defaults without one, and runs the script on standard input. -/

namespace PolyCalc

/-- What the command finds when it starts. -/
structure Surroundings where
  args : List String
  /-- What comes of reading a file. -/
  contentOf : String → Except Config.ReadFailure (List UInt8)
  stdin : List UInt8
  now : Timestamp
  /-- What comes of making a log file. -/
  makeLogFile : Except String Unit

/-- What the command leaves. -/
structure Session where
  exitCode : UInt32
  stdout : String
  /-- The lines on standard error that are no log records. -/
  stderr : List String
  records : List LogRecord
  /-- The log files with their records. -/
  logFiles : List (String × List LogRecord)

namespace Session

/-- A run that ends with a message before it reads the script. -/
def failed (message : String) (logFiles : List (String × List LogRecord)) : Session :=
  ⟨1, "", [message], [], logFiles⟩

/-- The settings of a run. -/
def settings (s : Surroundings) : Except Config.ConfigError Config.Settings :=
  match s.args with
  | [] => .ok {}
  | path :: _ => Config.Settings.ofFile path (s.contentOf path)

/-- The records of a run, before any are left out. -/
def allRecords (settings : Config.Settings) (logFile? : Option String) (stdin : List UInt8) :
    List LogRecord :=
  let opening : List LogRecord :=
    match logFile? with
    | some name => [⟨.info, "logging into " ++ name⟩]
    | none => []
  opening ++ [⟨.info, "calculator started with " ++ settings.describe⟩] ++
    (Calculator.new settings.depthLimit).runRecords stdin

/-- Runs the command. -/
def run (s : Surroundings) : Session :=
  match settings s with
  | .error e => failed e.message []
  | .ok settings =>
    let start := startLog settings.logLevel settings.logFile false s.now s.makeLogFile
    match start.result with
    | .error e => failed e.message (start.files.map (fun name => (name, [])))
    | .ok logFile? =>
      let t := (Calculator.new settings.depthLimit).run s.stdin
      let records := LogRecord.keep settings.logLevel (allRecords settings logFile? s.stdin)
      ⟨0, t.stdout, t.errorLines, records, start.files.map (fun name => (name, records))⟩

end Session

end PolyCalc
