import PolyCalc.Config.Document
import PolyCalc.Log.Record
import PolyCalc.Poly.Parser
import PolyCalc.Text.Utf8

set_option autoImplicit false

/-! # Settings of the calculator

A configuration document sets `max_depth` in the section `calculator`, and `loglevel` and
`log_file` in the section `logging`. Each takes one value; what is not set keeps its default. -/

namespace PolyCalc.Config

/-- The settings of the calculator. -/
structure Settings where
  /-- The limit of nested sums in the polynomials that are read. -/
  depthLimit : Nat := defaultDepthLimit
  logLevel : LogLevel := .off
  /-- Whether the log is also written to a file. -/
  logFile : Bool := false
  deriving DecidableEq

/-- The settings as they are described in log records. -/
def Settings.describe (s : Settings) : String :=
  "CalcConfig \x7b max_depth: " ++ toString s.depthLimit ++ ", loglevel: " ++ s.logLevel.title ++
    ", log_file: " ++ (if s.logFile then "true" else "false") ++ " \x7d"

/-! ## Errors -/

/-- Why a file is not read. -/
inductive ReadFailure where
  | notFound
  | isDirectory
  | notUtf8
  /-- Another reason, in the words of the operating system. -/
  | other (text : String)
  deriving DecidableEq

/-- The wording of a reason. -/
def ReadFailure.message : ReadFailure → String
  | .notFound => "No such file or directory (os error 2)"
  | .isDirectory => "Is a directory (os error 21)"
  | .notUtf8 => "stream did not contain valid UTF-8"
  | .other text => text

/-- Why a document gives no settings. -/
inductive ConfigError where
  | unreadable (path : String) (failure : ReadFailure)
  | malformed (fault : DocumentFault)
  | unknownSection (title : List Char)
  | unknownKey (title key : List Char)
  | invalidValue (title key : List Char) (values : List Value)
  deriving DecidableEq

/-- The values of a list, separated by commas. -/
def renderValues (values : List Value) : List Char :=
  List.intercalate [',', ' '] (values.map Value.render)

/-- The wording of an error. -/
def ConfigError.message : ConfigError → String
  | .unreadable path failure => "cannot read config file '" ++ path ++ "': " ++ failure.message
  | .malformed fault => "config syntax error: " ++ fault.message
  | .unknownSection title => "unknown config section '" ++ String.ofList title ++ "'"
  | .unknownKey title key =>
    "unknown key '" ++ String.ofList key ++ "' in config section '" ++ String.ofList title ++ "'"
  | .invalidValue title key values =>
    "invalid value '" ++ String.ofList (renderValues values) ++ "' for key '" ++
      String.ofList key ++ "' in config section '" ++ String.ofList title ++ "'"

/-! ## From values to settings -/

/-- The settings that a document can set. -/
inductive SettingKey where
  | depthLimit | logLevel | logFile
  deriving DecidableEq

/-- The titles of the sections that may occur. -/
def knownTitles : List (List Char) := ["calculator".toList, "logging".toList]

/-- The setting that a key stands for in a section. -/
def SettingKey.ofKey? (title key : List Char) : Option SettingKey :=
  if title = "calculator".toList ∧ key = "max_depth".toList then some .depthLimit
  else if title = "logging".toList ∧ key = "loglevel".toList then some .logLevel
  else if title = "logging".toList ∧ key = "log_file".toList then some .logFile
  else none

/-- Changes a setting to the value of a list, which must hold one value of the right type and
    range. -/
def Settings.set? (s : Settings) : SettingKey → List Value → Option Settings
  | .depthLimit, [.integer i] => if 0 < i then some { s with depthLimit := i.toInt.toNat } else none
  | .logLevel, [.string w] => (LogLevel.ofWord? w).map (fun level => { s with logLevel := level })
  | .logFile, [.boolean b] => some { s with logFile := b }
  | _, _ => none

/-- Changes the setting of a key in a section. -/
def Settings.apply (s : Settings) (title key : List Char) (values : List Value) :
    Except ConfigError Settings :=
  match SettingKey.ofKey? title key with
  | none => .error (.unknownKey title key)
  | some setting =>
    match s.set? setting values with
    | none => .error (.invalidValue title key values)
    | some s => .ok s

/-- Changes the settings of a section, key by key. -/
def Settings.applySection (s : Settings) (title : List Char) :
    Section → Except ConfigError Settings
  | [] => .ok s
  | (key, values) :: rest => do
    let s ← s.apply title key values
    s.applySection title rest

/-- Changes the settings of a document, section by section. -/
def Settings.applyDocument (s : Settings) : Document → Except ConfigError Settings
  | [] => .ok s
  | (title, entries) :: rest =>
    if title ∈ knownTitles then do
      let s ← s.applySection title entries
      s.applyDocument rest
    else .error (.unknownSection title)

/-- The settings that a text gives. -/
def Settings.ofText (text : List Char) : Except ConfigError Settings :=
  match Document.parse text with
  | .error fault => .error (.malformed fault)
  | .ok d => Settings.applyDocument {} d

/-- The settings that a file gives, from what came of reading it. -/
def Settings.ofFile (path : String) (content : Except ReadFailure (List UInt8)) :
    Except ConfigError Settings :=
  match content with
  | .error failure => .error (.unreadable path failure)
  | .ok bytes =>
    match Text.decodeUtf8? bytes with
    | none => .error (.unreadable path .notUtf8)
    | some text => Settings.ofText text

end PolyCalc.Config
