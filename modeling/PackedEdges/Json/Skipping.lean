import PackedEdges.Json.Reader

/-! Skipping a value of any kind and depth. The brackets that are open form a stack, so one token
after the other settles what may come next. -/

namespace PackedEdges.Json.Skipping

inductive Bracket
  | array
  | object
deriving DecidableEq

/-- What may come next. -/
inductive Due
  | value
  /-- The first element of the innermost bracket, or its end. -/
  | first
  | next
  | key
  | colon
deriving DecidableEq

/-- What is due, inside which brackets; the innermost comes first. -/
abbrev State := Due × List Bracket

def Bracket.endFault : Bracket → Fault
  | array => .endInList
  | object => .endInObject

def Bracket.commaFault : Bracket → Fault
  | array => .expectedCommaOrListEnd
  | object => .expectedCommaOrObjectEnd

/-- The state after a value: none when it was the whole. -/
def afterValue : List Bracket → Option State
  | [] => none
  | stack => some (.next, stack)

def skipNumber : Except Fault Number → Except Fault Unit
  | .ok _ => .ok ()
  | .error .numberOutOfRange => .ok ()
  | .error _ => .error .invalidNumber

def stepValue (stack : List Bracket) : Token → Except Fault (Option State)
  | .null => .ok (afterValue stack)
  | .boolean _ => .ok (afterValue stack)
  | .number value => (skipNumber value).map fun _ => afterValue stack
  | .string _ skipped => skipped.map fun _ => afterValue stack
  | .openArray => .ok (some (.first, .array :: stack))
  | .openObject => .ok (some (.first, .object :: stack))
  | .broken fault => .error fault
  | .closeArray => .error .expectedValue
  | .closeObject => .error .expectedValue
  | .comma => .error .expectedValue
  | .colon => .error .expectedValue

def stepKey (stack : List Bracket) : Token → Except Fault (Option State)
  | .string _ skipped => skipped.map fun _ => some (.colon, stack)
  | _ => .error .keyNotString

def step : State → Token → Except Fault (Option State)
  | (.first, .array :: stack), .closeArray => .ok (afterValue stack)
  | (.first, .object :: stack), .closeObject => .ok (afterValue stack)
  | (.first, .object :: stack), token => stepKey (.object :: stack) token
  | (.next, .array :: stack), .closeArray => .ok (afterValue stack)
  | (.next, .object :: stack), .closeObject => .ok (afterValue stack)
  | (.next, .array :: stack), .comma => .ok (some (.value, .array :: stack))
  | (.next, .object :: stack), .comma => .ok (some (.key, .object :: stack))
  | (.next, bracket :: _), _ => .error bracket.commaFault
  | (.key, stack), token => stepKey stack token
  | (.colon, stack), .colon => .ok (some (.value, stack))
  | (.colon, _), _ => .error .expectedColon
  | (_, stack), token => stepValue stack token

def endFault : State → Fault
  | (.value, _) => .endInValue
  | (_, bracket :: _) => bracket.endFault
  | (_, []) => .endInValue

def skipFrom (state : State) : List Token → Except Fault (List Token)
  | [] => .error (endFault state)
  | token :: rest =>
    match step state token with
    | .ok none => .ok rest
    | .ok (some state) => skipFrom state rest
    | .error fault => .error fault

def skip (tokens : List Token) : Except Fault (List Token) :=
  skipFrom (.value, []) tokens

end PackedEdges.Json.Skipping
