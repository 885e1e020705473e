import PackedEdges.Json.Skipping

/-! Records are objects with a fixed set of fields, each of a type of its own. They are read from
an object with the fields in any order, or from an array with the fields in their own order. -/

namespace PackedEdges.Json

structure Field (α : Type) where
  name : String
  codec : Codec α
  /-- The value of a field that is absent. -/
  default? : Option α := none
  /-- Whether a value is written by leaving the field out. -/
  isOmitted : α → Bool := fun _ => false

structure Shape (Key : Type) (Cell : Key → Type) where
  title : String
  keys : List Key
  mem_keys : ∀ key, key ∈ keys
  field : (key : Key) → Field (Cell key)
  /-- Whether fields of other names are refused; else they are skipped. -/
  isClosed : Bool

abbrev Row {Key : Type} (Cell : Key → Type) :=
  (key : Key) → Option (Cell key)

def Row.put {Key : Type} {Cell : Key → Type} [DecidableEq Key] (row : Row Cell) (key : Key)
    (value : Cell key) : Row Cell :=
  fun other => if h : key = other then some (h ▸ value) else row other

namespace Shape

variable {Key : Type} {Cell : Key → Type} [DecidableEq Key]

def names (shape : Shape Key Cell) : List String :=
  shape.keys.map fun key => (shape.field key).name

def key? (shape : Shape Key Cell) (name : String) : Option Key :=
  shape.keys.find? fun key => (shape.field key).name == name

def wanted (shape : Shape Key Cell) : String :=
  "struct " ++ shape.title

/-- The key of the next entry and the tokens behind it; `none` at the closing bracket. -/
def nextKey (first : Bool) : List Token → Except Fault (Option (String × List Token))
  | [] => .error .endInObject
  | .closeObject :: _ => .ok none
  | .string name _ :: rest =>
    if first then name.map fun name => some (name, rest) else .error .expectedCommaOrObjectEnd
  | .comma :: rest =>
    if first then .error .keyNotString
    else
      match rest with
      | [] => .error .endInValue
      | .string name _ :: rest => name.map fun name => some (name, rest)
      | .closeObject :: _ => .error .trailingComma
      | _ :: _ => .error .keyNotString
  | _ :: _ => .error (if first then .keyNotString else .expectedCommaOrObjectEnd)

def dropColon : List Token → Except Fault (List Token)
  | [] => .error .endInObject
  | .colon :: rest => .ok rest
  | _ :: _ => .error .expectedColon

def readEntries (shape : Shape Key Cell) :
    Nat → Bool → Row Cell → Reader (Row Cell)
  | 0, _, _, _ => .error .endInObject
  | bound + 1, first, row, tokens => do
    match ← nextKey first tokens with
    | none => return (row, tokens.tail)
    | some (name, tokens) =>
      match shape.key? name with
      | some key =>
        if (row key).isSome then .error (.duplicateField name)
        else
          let tokens ← dropColon tokens
          let (value, tokens) ← (shape.field key).codec.read tokens
          readEntries shape bound false (row.put key value) tokens
      | none =>
        if shape.isClosed then .error (.unknownField name shape.names)
        else
          let tokens ← dropColon tokens
          let tokens ← Skipping.skip tokens
          readEntries shape bound false row tokens

def readElements (shape : Shape Key Cell) :
    List Key → Nat → Bool → Row Cell → Reader (Row Cell)
  | [], _, _, row, tokens => .ok (row, tokens)
  | key :: keys, index, first, row, tokens => do
    match ← Reader.nextElement first tokens with
    | some tokens =>
      let (value, tokens) ← (shape.field key).codec.read tokens
      readElements shape keys (index + 1) false (row.put key value) tokens
    | none =>
      if (shape.field key).default?.isSome then
        readElements shape keys (index + 1) first row tokens
      else .error (.wrongLength index shape.wanted shape.keys.length)

/-- A row in which absent fields have their defaults. -/
def fill (shape : Shape Key Cell) (row : Row Cell) : Row Cell :=
  fun key => row key <|> (shape.field key).default?

/-- Finds the first key of the list whose field is absent, or a proof that there is none. -/
def checkPresent (shape : Shape Key Cell) (row : Row Cell) :
    (keys : List Key) → Except Fault (PLift (∀ key ∈ keys, (row key).isSome))
  | [] => .ok ⟨by simp⟩
  | key :: keys =>
    if h : (row key).isSome then
      match checkPresent shape row keys with
      | .ok rest => .ok ⟨by simpa [h] using rest.down⟩
      | .error fault => .error fault
    else .error (.missingField (shape.field key).name)

def finish (shape : Shape Key Cell) (row : Row Cell) : Except Fault ((key : Key) → Cell key) :=
  match checkPresent shape (shape.fill row) shape.keys with
  | .ok present =>
    .ok fun key => (shape.fill row key).get (present.down key (shape.mem_keys key))
  | .error fault => .error fault

def read (shape : Shape Key Cell) : Reader ((key : Key) → Cell key)
  | [] => .error .endInValue
  | .openObject :: tokens => do
    let (row, tokens) ← shape.readEntries (tokens.length + 1) true (fun _ => none) tokens
    let record ← shape.finish row
    return (record, tokens)
  | .openArray :: tokens => do
    let (row, tokens) ← shape.readElements shape.keys 0 true (fun _ => none) tokens
    let record ← shape.finish row
    let tokens ← Reader.closeArray tokens
    return (record, tokens)
  | token :: _ => .error (token.unwanted shape.wanted)

def write (shape : Shape Key Cell) (record : (key : Key) → Cell key) : Value :=
  .object (shape.keys.filterMap fun key =>
    let field := shape.field key
    if field.isOmitted (record key) then none
    else some (field.name, field.codec.write (record key)))

def codec (shape : Shape Key Cell) : Codec ((key : Key) → Cell key) where
  read := shape.read
  write := shape.write

end Shape

end PackedEdges.Json
