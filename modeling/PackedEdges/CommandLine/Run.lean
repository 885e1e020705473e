import PackedEdges.CommandLine.FileSystem
import PackedEdges.CommandLine.Request
import PackedEdges.Report
import PackedEdges.Schema.Builder

/-! One run of the program: what it prints, what it logs and how it ends. -/

namespace PackedEdges.CommandLine

inductive Level
  | info
  | error
deriving DecidableEq

structure LogLine where
  level : Level
  text : String
deriving DecidableEq

/-- A text whose further lines are indented, so that none of them looks like a log line. -/
def indentFurtherLines (text : String) : String :=
  String.ofList <| text.toList.flatMap fun c =>
    if c = '\n' then '\n' :: List.replicate 4 ' ' else [c]

def LogLine.render (line : LogLine) : String :=
  (match line.level with
    | .info => "INFO "
    | .error => "ERROR ") ++ indentFurtherLines line.text

structure Ending where
  exitCode : UInt8
  output : String
  log : List LogLine
deriving DecidableEq

namespace Ending

def success (output : String) (log : List LogLine) : Ending where
  exitCode := 0
  output := output
  log := log

def failure (output : String) (log : List LogLine) (reason : String) : Ending where
  exitCode := 1
  output := output
  log := log ++ [{ level := .error, text := "❌ Error: " ++ reason }]

def misuse : Ending where
  exitCode := 2
  output := ""
  log := []

def abort (log : List LogLine) : Ending where
  exitCode := 101
  output := ""
  log := log

end Ending

def versionText : String := "butterfly-ev 0.3.0"

def helpText : String :=
  "layout CONFIG\nsnapshot CONFIG [-o OUTPUT]\ncheck-name NAMES... [--reserved WORDS]"

def explain (context : String) (error : Error) : String :=
  context ++ ": " ++ error.message ++
    match error.cause? with
    | some cause => ": " ++ cause
    | none => ""

def loadDefinition (content : Except FileFault ByteArray) : Except Error Definition :=
  match content with
  | .ok bytes => Definition.ofFileBytes bytes
  | .error fault => .error (.file fault)

variable {m : Type → Type} [Monad m]

def withSchema (files : FileSystem m) (path : String)
    (next : Schema → List LogLine → m Ending) : m Ending := do
  match loadDefinition (← files.read path) with
  | .error e => return .failure "" [] (explain ("Failed to load schema definition " ++ path) e)
  | .ok definition =>
    match definition.build with
    | .failed e => return .failure "" [] (explain ("Invalid schema definition " ++ path) e)
    | .refused => return .abort []
    | .done schema => next schema [{ level := .info, text := "🦋 " ++ Report.summary schema }]

def saveSnapshot (files : FileSystem m) (path : String) (schema : Schema)
    (log : List LogLine) : m Ending := do
  match ← files.write path schema.toSnapshot.fileBytes with
  | .ok () =>
    return .success "" (log ++ [{ level := .info, text := "📁 Snapshot saved to " ++ path }])
  | .error fault => return .failure "" log (explain ("Failed to write " ++ path) (.file fault))

def checkNames (rules : NameRules) (names : List String) : Ending :=
  let checks := names.map (Report.nameCheck rules)
  let output := String.join (checks.map fun check => check.2 ++ "\n")
  if checks.all (·.1) then .success output [] else .failure output [] "invalid attribute names"

def Request.run (files : FileSystem m) : Request → m Ending
  | .layout path =>
    withSchema files path fun schema log =>
      return .success (Report.layout schema ++ "\n") log
  | .snapshot path none =>
    withSchema files path fun schema log =>
      return .success (schema.toSnapshot.text ++ "\n") log
  | .snapshot path (some output) => withSchema files path (saveSnapshot files output)
  | .checkName names reserved =>
    return checkNames { reserved := reserved.getD defaultReservedWords } names
  | .version => return .success (versionText ++ "\n") []
  | .help => return .success (helpText ++ "\n") []

def run (files : FileSystem m) (arguments : List String) : m Ending :=
  match Request.ofList? arguments with
  | some request => request.run files
  | none => return .misuse

end PackedEdges.CommandLine
