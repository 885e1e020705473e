import PackedEdges.Attribute.Access
import PackedEdges.Snapshot
import PackedEdges.Suggestion

/-! A schema holds registered attributes under distinct names, and knows how large an edge record
they need. -/

namespace PackedEdges

structure Schema where
  /-- In the order of registration. -/
  attributes : List Attribute
  bytesPerEdge : UInt64
deriving DecidableEq

namespace Schema

/-- The first name that occurs a second time; `before` holds the names that came before. -/
def repeated? (before : List String) : List String → Option String
  | [] => none
  | name :: names =>
    if before.contains name then some name else repeated? (name :: before) names

def names (schema : Schema) : List String :=
  schema.attributes.map Attribute.name

def ofAttributes? (attributes : List Attribute) (bytesPerEdge : UInt64) : Except Error Schema :=
  match repeated? [] (attributes.map Attribute.name) with
  | some name => .error (.definition name .alreadyDefined)
  | none => .ok { attributes, bytesPerEdge }

/-- The schema that is kept in a snapshot, which is taken as it is. -/
def ofSnapshot? (s : Snapshot) : Except Error Schema :=
  ofAttributes? (s.attributes.map Attribute.ofSnapshot) s.bytesPerEdge

def toSnapshot (schema : Schema) : Snapshot where
  bytesPerEdge := schema.bytesPerEdge
  attributes := schema.attributes.map Attribute.toSnapshot

def attribute? (schema : Schema) (name : String) : Option Attribute :=
  schema.attributes.find? fun a => a.name == name

theorem mem_of_attribute? {schema : Schema} {name : String} {a : Attribute}
    (h : schema.attribute? name = some a) : a ∈ schema.attributes ∧ a.name = name :=
  ⟨List.mem_of_find?_eq_some h, by simpa using List.find?_some h⟩

def has (schema : Schema) (name : String) : Bool :=
  (schema.attribute? name).isSome

/-- The attribute with this name, or an error that may suggest another name. -/
def lookup (schema : Schema) (name : String) : Except Error Attribute :=
  match schema.attribute? name with
  | some a => .ok a
  | none => .error (.unknownAttribute name (suggestion? name schema.names))

def replace (schema : Schema) (a : Attribute) : Schema where
  attributes := schema.attributes.map fun b => if b.name = a.name then a else b
  bytesPerEdge := schema.bytesPerEdge

def read (schema : Schema) (name : String) (direction : Direction) (edge : Nat)
    (store : EdgeStore) : Outcome Int32 :=
  match schema.lookup name with
  | .ok a => a.read direction edge store
  | .error e => .failed e

/-- Stores a value for a named attribute. Gives the schema after the attempt, too. -/
def write (schema : Schema) (name : String) (direction : Direction) (edge : Nat) (value : Int32)
    (store : EdgeStore) : Schema × Outcome EdgeStore :=
  match schema.lookup name with
  | .ok a =>
    let (a, outcome) := a.write direction edge value store
    (schema.replace a, outcome)
  | .error e => (schema, .failed e)

def newStore? (schema : Schema) (edges : Nat) : Option EdgeStore :=
  EdgeStore.zeroed? edges schema.bytesPerEdge.toNat

end Schema

end PackedEdges
