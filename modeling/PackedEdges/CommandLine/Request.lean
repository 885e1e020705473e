/-! What the command line asks for. Arguments are read from left to right: options may stand
between operands, `--` ends the options, and the first operand names the command. -/

namespace PackedEdges.CommandLine

inductive Request
  | layout (definition : String)
  | snapshot (definition : String) (output : Option String)
  | checkName (names : List String) (reserved : Option (List String))
  | version
  | help
deriving DecidableEq

inductive Stop
  | usage
  | version
  | help
deriving DecidableEq

inductive ValueKind
  | text
  | path
deriving DecidableEq

def ValueKind.accepts : ValueKind → String → Bool
  | .text, _ => true
  | .path, value => value ≠ ""

inductive OptionKind
  | flag
  | value (kind : ValueKind) (mayRepeat : Bool)
  | stop (reason : Stop)
deriving DecidableEq

structure OptionRule where
  long : String
  short : Option Char
  kind : OptionKind
deriving DecidableEq

structure OperandRule where
  kind : ValueKind
  limit : Option Nat
deriving DecidableEq

structure Arguments where
  /-- The options that were given, each with its value; flags have none. -/
  options : List (String × String) := []
  operands : List String := []
  /-- The option that waits for its value, with the kind of it. -/
  pending : Option (String × ValueKind) := none
  operandsOnly : Bool := false

namespace Arguments

def valuesOf (arguments : Arguments) (long : String) : List String :=
  (arguments.options.filter fun option => option.1 = long).map (·.2)

def raise (arguments : Arguments) (long : String) : Arguments :=
  { arguments with options := arguments.options ++ [(long, "")] }

def give (arguments : Arguments) (long : String) (kind : ValueKind) (value : String) :
    Except Stop Arguments :=
  if kind.accepts value then
    .ok { arguments with options := arguments.options ++ [(long, value)], pending := none }
  else .error .usage

def addOperand (rule : OperandRule) (arguments : Arguments) (operand : String) :
    Except Stop Arguments :=
  if rule.limit.any (· ≤ arguments.operands.length) then .error .usage
  else if rule.kind.accepts operand then
    .ok { arguments with operands := arguments.operands ++ [operand] }
  else .error .usage

def isSpent (arguments : Arguments) (rule : OptionRule) : Bool :=
  let mayRepeat :=
    match rule.kind with
    | .value _ mayRepeat => mayRepeat
    | _ => false
  !mayRepeat && arguments.options.any fun option => option.1 = rule.long

def takeOption (rule : OptionRule) (attached : Option String) (arguments : Arguments) :
    Except Stop Arguments :=
  if arguments.isSpent rule then .error .usage
  else
    match rule.kind, attached with
    | .flag, none => .ok (arguments.raise rule.long)
    | .value kind _, none => .ok { arguments with pending := some (rule.long, kind) }
    | .value kind _, some value => arguments.give rule.long kind value
    | .stop reason, none => .error reason
    | _, some _ => .error .usage

def takeLong (rules : List OptionRule) (text : List Char) (arguments : Arguments) :
    Except Stop Arguments :=
  let long := String.ofList (text.takeWhile (· ≠ '='))
  let attached :=
    match text.dropWhile (· ≠ '=') with
    | _ :: value => some (String.ofList value)
    | [] => none
  match rules.find? fun rule => rule.long = long with
  | some rule => takeOption rule attached arguments
  | none => .error .usage

/-- Takes options of one letter each. Behind one with a value the rest is its value. -/
def takeShort (rules : List OptionRule) : List Char → Arguments → Except Stop Arguments
  | [], arguments => .ok arguments
  | c :: rest, arguments =>
    match rules.find? fun rule => rule.short = some c with
    | none => .error .usage
    | some rule =>
      match rule.kind, rest with
      | .value .., [] => takeOption rule none arguments
      | .value .., '=' :: value => takeOption rule (some (String.ofList value)) arguments
      | .value .., value => takeOption rule (some (String.ofList value)) arguments
      | _, _ => do
        let arguments ← takeOption rule none arguments
        takeShort rules rest arguments

def isOption (argument : String) : Bool :=
  match argument.toList with
  | '-' :: _ :: _ => true
  | _ => false

def take (rules : List OptionRule) (operands : OperandRule) (arguments : Arguments)
    (argument : String) : Except Stop Arguments :=
  if arguments.operandsOnly then arguments.addOperand operands argument
  else
    match arguments.pending with
    | some (long, kind) =>
      if isOption argument then .error .usage else arguments.give long kind argument
    | none =>
      match argument.toList with
      | ['-', '-'] => .ok { arguments with operandsOnly := true }
      | '-' :: '-' :: text => arguments.takeLong rules text
      | '-' :: c :: text => arguments.takeShort rules (c :: text)
      | _ => arguments.addOperand operands argument

def ofList (rules : List OptionRule) (operands : OperandRule) (list : List String) :
    Except Stop Arguments := do
  let arguments ← list.foldlM (take rules operands) {}
  if arguments.pending.isSome then .error .usage else .ok arguments

end Arguments

def verboseRule : OptionRule := { long := "verbose", short := some 'v', kind := .flag }

def helpRule : OptionRule := { long := "help", short := some 'h', kind := .stop .help }

def versionRule : OptionRule := { long := "version", short := some 'V', kind := .stop .version }

def outputRule : OptionRule := { long := "output", short := some 'o', kind := .value .path false }

def reservedRule : OptionRule := { long := "reserved", short := none, kind := .value .text true }

namespace Request

def commandNames : List String :=
  ["layout", "snapshot", "check-name", "help"]

def pathOperand : OperandRule := { kind := .path, limit := some 1 }

def nameOperands : OperandRule := { kind := .text, limit := none }

def noOperands : OperandRule := { kind := .text, limit := some 0 }

def oneOperand (arguments : Arguments) : Except Stop String :=
  match arguments.operands with
  | [operand] => .ok operand
  | _ => .error .usage

def ofCommand (command : String) (list : List String) : Except Stop Request := do
  if command = "layout" then
    let arguments ← Arguments.ofList [verboseRule, helpRule] pathOperand list
    return .layout (← oneOperand arguments)
  else if command = "snapshot" then
    let arguments ← Arguments.ofList [verboseRule, helpRule, outputRule] pathOperand list
    return .snapshot (← oneOperand arguments) (arguments.valuesOf "output").head?
  else if command = "check-name" then
    let arguments ← Arguments.ofList [verboseRule, helpRule, reservedRule] nameOperands list
    if arguments.operands.isEmpty then .error .usage
    else
      let reserved :=
        match arguments.valuesOf "reserved" with
        | [] => none
        | values => some (values.flatMap fun value => value.splitOn ",")
      return .checkName arguments.operands reserved
  else if command = "help" ∧ list.length ≤ 1 ∧ list.all commandNames.contains then .error .help
  else .error .usage

/-- Takes the options before the command, then the command with its own arguments. -/
def ofArguments (before : Arguments) : List String → Except Stop Request
  | [] => .error .usage
  | argument :: rest =>
    if before.operandsOnly ∨ Arguments.isOption argument then do
      let before ← before.take [verboseRule, helpRule, versionRule] noOperands argument
      ofArguments before rest
    else ofCommand argument rest

/-- The request of a whole command line; `none` for one that makes no sense. -/
def ofList? (list : List String) : Option Request :=
  match ofArguments {} list with
  | .ok request => some request
  | .error .version => some .version
  | .error .help => some .help
  | .error .usage => none

end Request

end PackedEdges.CommandLine
