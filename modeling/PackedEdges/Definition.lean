import PackedEdges.Attribute.Basic
import PackedEdges.Json.Record

/-! A schema definition lists the attributes of a schema and may replace the reserved words. Its
file is a JSON text in which only names and widths have to be given. -/

namespace PackedEdges

structure AttributeDefinition where
  name : String
  settings : Settings
deriving DecidableEq

structure Definition where
  /-- The words to reserve in place of the usual ones. -/
  reservedWords : Option (List String)
  attributes : List AttributeDefinition
deriving DecidableEq

namespace AttributeDefinition

inductive Key
  | name | bits | minimum | negates | twoDirections | byBytes
deriving DecidableEq

abbrev Key.Cell : Key → Type
  | .name => String
  | .bits => UInt32
  | .minimum => Int32
  | .negates => Bool
  | .twoDirections => Bool
  | .byBytes => Bool

def Key.field : (key : Key) → Json.Field key.Cell
  | .name => { name := "name", codec := .string }
  | .bits => { name := "bits", codec := .unsigned32 }
  | .minimum => { name := "min_storable", codec := .signed32, default? := some 0 }
  | .negates => { name := "negate_reverse", codec := .boolean, default? := some false }
  | .twoDirections => { name := "store_two_directions", codec := .boolean, default? := some false }
  | .byBytes => { name := "byte_support", codec := .boolean, default? := some true }

def shape : Json.Shape Key Key.Cell where
  title := "AttributeConfig"
  keys := [.name, .bits, .minimum, .negates, .twoDirections, .byBytes]
  mem_keys key := by cases key <;> simp
  field := Key.field
  isClosed := true

def ofRecord (r : (key : Key) → key.Cell) : AttributeDefinition where
  name := r .name
  settings :=
    { bits := r .bits
      minimum := r .minimum
      negates := r .negates
      twoDirections := r .twoDirections
      byBytes := r .byBytes }

def toRecord (d : AttributeDefinition) : (key : Key) → key.Cell
  | .name => d.name
  | .bits => d.settings.bits
  | .minimum => d.settings.minimum
  | .negates => d.settings.negates
  | .twoDirections => d.settings.twoDirections
  | .byBytes => d.settings.byBytes

def codec : Json.Codec AttributeDefinition :=
  shape.codec.map ofRecord toRecord

@[simp] theorem ofRecord_toRecord (d : AttributeDefinition) : ofRecord d.toRecord = d := rfl

end AttributeDefinition

namespace Definition

inductive Key
  | reservedWords | attributes
deriving DecidableEq

abbrev Key.Cell : Key → Type
  | .reservedWords => Option (List String)
  | .attributes => List AttributeDefinition

def Key.field : (key : Key) → Json.Field key.Cell
  | .reservedWords =>
    { name := "reserved_words", codec := .optional (.list .string), default? := some none,
      isOmitted := Option.isNone }
  | .attributes => { name := "attributes", codec := .list AttributeDefinition.codec }

def shape : Json.Shape Key Key.Cell where
  title := "SchemaConfig"
  keys := [.reservedWords, .attributes]
  mem_keys key := by cases key <;> simp
  field := Key.field
  isClosed := true

def ofRecord (r : (key : Key) → key.Cell) : Definition where
  reservedWords := r .reservedWords
  attributes := r .attributes

def toRecord (d : Definition) : (key : Key) → key.Cell
  | .reservedWords => d.reservedWords
  | .attributes => d.attributes

def codec : Json.Codec Definition :=
  shape.codec.map ofRecord toRecord

@[simp] theorem ofRecord_toRecord (d : Definition) : ofRecord d.toRecord = d := rfl

def text (d : Definition) : String :=
  (codec.write d).text .compact

def parse (text : String) : Except Json.Fault Definition :=
  Json.Reader.run codec.read (Json.symbolsOfText text)

/-- Reads a definition's file, which has to be UTF-8 throughout. -/
def ofFileBytes (bytes : ByteArray) : Except Error Definition :=
  match String.fromUTF8? bytes with
  | none => .error (.file .notText)
  | some text => (parse text).mapError .json

def rules (d : Definition) : NameRules :=
  match d.reservedWords with
  | some words => { reserved := words }
  | none => {}

end Definition

end PackedEdges
