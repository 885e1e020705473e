import PackedEdges.Json.Token
import PackedEdges.Json.Value

/-! Readers take a value of a known kind from the front of a list of tokens. They report the first
problem they meet. -/

namespace PackedEdges.Json

/-- Gives the value at the front and the tokens behind it. -/
abbrev Reader (α : Type) :=
  List Token → Except Fault (α × List Token)

structure Codec (α : Type) where
  read : Reader α
  write : α → Value

namespace Token

/-- The value that a token begins, as faults describe it. -/
def found : Token → Except Fault Found
  | null => .ok .null
  | boolean value => .ok (.boolean value)
  | number (.ok (.integer value)) => .ok (.integer value)
  | number (.ok (.float value)) => .ok (.float value)
  | number (.error fault) => .error fault
  | string (.ok value) _ => .ok (.string value)
  | string (.error fault) _ => .error fault
  | openArray => .ok .sequence
  | openObject => .ok .map
  | broken fault => .error fault
  | closeArray => .error .expectedValue
  | closeObject => .error .expectedValue
  | comma => .error .expectedValue
  | colon => .error .expectedValue

def unwanted (wanted : String) (token : Token) : Fault :=
  match token.found with
  | .ok found => .wrongType found wanted
  | .error fault => fault

end Token

namespace Reader

variable {α : Type}

def single (wanted : String) (pick : Token → Option (Except Fault α)) : Reader α
  | [] => .error .endInValue
  | token :: rest =>
    match pick token with
    | some result => result.map fun a => (a, rest)
    | none => .error (token.unwanted wanted)

def integer (wanted : String) (low high : Int) : Reader Int :=
  single wanted fun
    | .number (.ok (.integer n)) =>
      some (if low ≤ n ∧ n ≤ high then .ok n else .error (.integerOutOfRange n wanted))
    | _ => none

/-- What comes next in an array: `none` at its closing bracket, else the tokens of the next
element. -/
def nextElement (first : Bool) : List Token → Except Fault (Option (List Token))
  | [] => .error .endInList
  | .closeArray :: _ => .ok none
  | .comma :: rest =>
    if first then .ok (some (.comma :: rest))
    else
      match rest with
      | .closeArray :: _ => .error .trailingComma
      | _ => .ok (some rest)
  | token :: rest =>
    if first then .ok (some (token :: rest)) else .error .expectedCommaOrListEnd

def closeArray : List Token → Except Fault (List Token)
  | [] => .error .endInList
  | .closeArray :: rest => .ok rest
  | .comma :: .closeArray :: _ => .error .trailingComma
  | _ :: _ => .error .trailingCharacters

/-- The elements of an array up to its closing bracket, `bound` of them at most. -/
def elements (read : Reader α) : Nat → Bool → Reader (List α)
  | 0, _, _ => .error .endInList
  | bound + 1, first, tokens => do
    match ← nextElement first tokens with
    | none => return ([], tokens)
    | some tokens =>
      let (a, tokens) ← read tokens
      let (as, tokens) ← elements read bound false tokens
      return (a :: as, tokens)

def list (read : Reader α) : Reader (List α)
  | [] => .error .endInValue
  | .openArray :: tokens => do
    let (as, tokens) ← elements read (tokens.length + 1) true tokens
    let tokens ← closeArray tokens
    return (as, tokens)
  | token :: _ => .error (token.unwanted "a sequence")

def optional (read : Reader α) : Reader (Option α)
  | .null :: rest => .ok (none, rest)
  | tokens => do
    let (a, tokens) ← read tokens
    return (some a, tokens)

def run (read : Reader α) (symbols : List Symbol) : Except Fault α :=
  match read (tokens symbols) with
  | .ok (a, []) => .ok a
  | .ok (_, _ :: _) => .error .trailingCharacters
  | .error fault => .error fault

end Reader

namespace Codec

variable {α β : Type}

def boolean : Codec Bool where
  read := .single "a boolean" fun
    | .boolean b => some (.ok b)
    | _ => none
  write := .boolean

def string : Codec String where
  read := .single "a string" fun
    | .string value _ => some value
    | _ => none
  write := .string

def unsigned32 : Codec UInt32 where
  read tokens := do
    let (n, tokens) ← Reader.integer "u32" 0 (UInt32.size - 1) tokens
    return (UInt32.ofNat n.toNat, tokens)
  write n := .integer n.toNat

def size : Codec UInt64 where
  read tokens := do
    let (n, tokens) ← Reader.integer "usize" 0 (UInt64.size - 1) tokens
    return (UInt64.ofNat n.toNat, tokens)
  write n := .integer n.toNat

def signed32 : Codec Int32 where
  read tokens := do
    let (n, tokens) ← Reader.integer "i32" Int32.minValue.toInt Int32.maxValue.toInt tokens
    return (Int32.ofInt n, tokens)
  write n := .integer n.toInt

def list (codec : Codec α) : Codec (List α) where
  read := .list codec.read
  write as := .array (as.map codec.write)

def optional (codec : Codec α) : Codec (Option α) where
  read := .optional codec.read
  write
    | none => .null
    | some a => codec.write a

def map (codec : Codec α) (toTarget : α → β) (ofTarget : β → α) : Codec β where
  read tokens := do
    let (a, tokens) ← codec.read tokens
    return (toTarget a, tokens)
  write b := codec.write (ofTarget b)

end Codec

end PackedEdges.Json
