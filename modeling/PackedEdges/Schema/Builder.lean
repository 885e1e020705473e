import PackedEdges.Definition
import PackedEdges.Schema.Basic

/-! A schema builder collects attributes and then registers them, in the order in which they were
added, with one layout cursor. -/

namespace PackedEdges

structure SchemaBuilder where
  rules : NameRules := {}
  attributes : List Attribute := []
deriving DecidableEq, Inhabited

namespace SchemaBuilder

/-- Adds an attribute that was defined elsewhere. -/
def addAttribute? (builder : SchemaBuilder) (a : Attribute) : Except Error SchemaBuilder :=
  if builder.attributes.any fun b => b.name == a.name then
    .error (.definition a.name .alreadyDefined)
  else .ok { builder with attributes := builder.attributes ++ [a] }

def add? (builder : SchemaBuilder) (name : String) (settings : Settings) :
    Except Error SchemaBuilder := do
  let a ← Attribute.define? builder.rules name settings
  builder.addAttribute? a

def ofDefinition? (definition : Definition) : Except Error SchemaBuilder :=
  definition.attributes.foldlM (fun builder d => builder.add? d.name d.settings)
    { rules := definition.rules }

def registerAll (cursor : LayoutCursor) :
    List Attribute → Outcome (List Attribute × LayoutCursor)
  | [] => .done ([], cursor)
  | a :: as => do
    let (_, a, cursor) ← a.register cursor
    let (as, cursor) ← registerAll cursor as
    return (a :: as, cursor)

def build (builder : SchemaBuilder) : Outcome Schema := do
  let (attributes, cursor) ← registerAll .initial builder.attributes
  .ofExcept (Schema.ofAttributes? attributes (UInt64.ofNat cursor.requiredBytes))

end SchemaBuilder

def Definition.build (definition : Definition) : Outcome Schema :=
  match SchemaBuilder.ofDefinition? definition with
  | .ok builder => builder.build
  | .error e => .failed e

end PackedEdges
