import PackedEdges.Attribute.Basic
import PackedEdges.Json.Record

/-! A snapshot is the lasting form of a schema: every attribute with the slots it was given, so
that a schema can be restored without laying out the records again. -/

namespace PackedEdges

structure AttributeSnapshot where
  name : String
  bits : UInt32
  minimum : Int32
  maximum : Int32
  greatest : Int32
  negates : Bool
  twoDirections : Bool
  forward : Slot
  /-- Unused, and all zero, unless the attribute has two directions. -/
  reverse : Slot
  byBytes : Bool
deriving DecidableEq

structure Snapshot where
  bytesPerEdge : UInt64
  attributes : List AttributeSnapshot
deriving DecidableEq

/-- The form in which an attribute is kept. An attribute without a reverse slot keeps an all-zero
one. -/
def Attribute.toSnapshot (a : Attribute) : AttributeSnapshot where
  name := a.name
  bits := a.bits
  minimum := a.minimum
  maximum := a.maximum
  greatest := a.greatest
  negates := a.negates
  twoDirections := a.twoDirections
  forward := a.forward
  reverse := a.reverse.getD {}
  byBytes := a.byBytes

def Attribute.ofSnapshot (s : AttributeSnapshot) : Attribute where
  name := s.name
  bits := s.bits
  minimum := s.minimum
  maximum := s.maximum
  greatest := s.greatest
  negates := s.negates
  twoDirections := s.twoDirections
  byBytes := s.byBytes
  forward := s.forward
  reverse := if s.twoDirections then some s.reverse else none

namespace AttributeSnapshot

inductive Key
  | name | bits | minimum | maximum | greatest | negates | twoDirections
  | forwardWord | reverseWord | forwardShift | reverseShift | forwardMask | reverseMask
  | byBytes
deriving DecidableEq

abbrev Key.Cell : Key → Type
  | .name => String
  | .bits => UInt32
  | .minimum => Int32
  | .maximum => Int32
  | .greatest => Int32
  | .negates => Bool
  | .twoDirections => Bool
  | .forwardWord => UInt32
  | .reverseWord => UInt32
  | .forwardShift => UInt32
  | .reverseShift => UInt32
  | .forwardMask => UInt32
  | .reverseMask => UInt32
  | .byBytes => Bool

def Key.field : (key : Key) → Json.Field key.Cell
  | .name => { name := "name", codec := .string }
  | .bits => { name := "bits", codec := .unsigned32 }
  | .minimum => { name := "min_storable_value", codec := .signed32 }
  | .maximum => { name := "max_storable_value", codec := .signed32 }
  | .greatest => { name := "max_value", codec := .signed32 }
  | .negates => { name := "negate_reverse_direction", codec := .boolean }
  | .twoDirections => { name := "store_two_directions", codec := .boolean }
  | .forwardWord => { name := "fwd_data_index", codec := .unsigned32 }
  | .reverseWord => { name := "bwd_data_index", codec := .unsigned32 }
  | .forwardShift => { name := "fwd_shift", codec := .unsigned32 }
  | .reverseShift => { name := "bwd_shift", codec := .unsigned32 }
  | .forwardMask => { name := "fwd_mask", codec := .unsigned32 }
  | .reverseMask => { name := "bwd_mask", codec := .unsigned32 }
  | .byBytes => { name := "byte_support", codec := .boolean }

def shape : Json.Shape Key Key.Cell where
  title := "IntEncodedValueSnapshot"
  keys :=
    [.name, .bits, .minimum, .maximum, .greatest, .negates, .twoDirections, .forwardWord,
     .reverseWord, .forwardShift, .reverseShift, .forwardMask, .reverseMask, .byBytes]
  mem_keys key := by cases key <;> simp
  field := Key.field
  isClosed := false

def ofRecord (r : (key : Key) → key.Cell) : AttributeSnapshot where
  name := r .name
  bits := r .bits
  minimum := r .minimum
  maximum := r .maximum
  greatest := r .greatest
  negates := r .negates
  twoDirections := r .twoDirections
  forward := { word := r .forwardWord, shift := r .forwardShift, mask := r .forwardMask }
  reverse := { word := r .reverseWord, shift := r .reverseShift, mask := r .reverseMask }
  byBytes := r .byBytes

def toRecord (s : AttributeSnapshot) : (key : Key) → key.Cell
  | .name => s.name
  | .bits => s.bits
  | .minimum => s.minimum
  | .maximum => s.maximum
  | .greatest => s.greatest
  | .negates => s.negates
  | .twoDirections => s.twoDirections
  | .forwardWord => s.forward.word
  | .reverseWord => s.reverse.word
  | .forwardShift => s.forward.shift
  | .reverseShift => s.reverse.shift
  | .forwardMask => s.forward.mask
  | .reverseMask => s.reverse.mask
  | .byBytes => s.byBytes

def codec : Json.Codec AttributeSnapshot :=
  shape.codec.map ofRecord toRecord

@[simp] theorem ofRecord_toRecord (s : AttributeSnapshot) : ofRecord s.toRecord = s := rfl

def parse (text : String) : Except Json.Fault AttributeSnapshot :=
  Json.Reader.run codec.read (Json.symbolsOfText text)

end AttributeSnapshot

namespace Snapshot

inductive Key
  | bytesPerEdge | attributes
deriving DecidableEq

abbrev Key.Cell : Key → Type
  | .bytesPerEdge => UInt64
  | .attributes => List AttributeSnapshot

def Key.field : (key : Key) → Json.Field key.Cell
  | .bytesPerEdge => { name := "bytes_per_edge", codec := .size }
  | .attributes => { name := "attributes", codec := .list AttributeSnapshot.codec }

def shape : Json.Shape Key Key.Cell where
  title := "SchemaSnapshot"
  keys := [.bytesPerEdge, .attributes]
  mem_keys key := by cases key <;> simp
  field := Key.field
  isClosed := false

def ofRecord (r : (key : Key) → key.Cell) : Snapshot where
  bytesPerEdge := r .bytesPerEdge
  attributes := r .attributes

def toRecord (s : Snapshot) : (key : Key) → key.Cell
  | .bytesPerEdge => s.bytesPerEdge
  | .attributes => s.attributes

def codec : Json.Codec Snapshot :=
  shape.codec.map ofRecord toRecord

@[simp] theorem ofRecord_toRecord (s : Snapshot) : ofRecord s.toRecord = s := rfl

def text (s : Snapshot) : String :=
  (codec.write s).text .pretty

def parse (text : String) : Except Json.Fault Snapshot :=
  Json.Reader.run codec.read (Json.symbolsOfText text)

def fileBytes (s : Snapshot) : ByteArray :=
  s.text.toUTF8

/-- Reads a snapshot's file. Only its strings have to be UTF-8. -/
def ofFileBytes (bytes : ByteArray) : Except Json.Fault Snapshot :=
  Json.Reader.run codec.read (Json.symbolsOfBytes bytes)

end Snapshot

end PackedEdges
