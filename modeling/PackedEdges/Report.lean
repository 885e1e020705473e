import PackedEdges.Schema.Basic

/-! Reports for people: the table of a schema's slots, one line per attribute, and the verdict on
an attribute name. -/

namespace PackedEdges.Report

def padRight (width : Nat) (text : String) : String :=
  text ++ String.ofList (List.replicate (width - text.length) ' ')

def padLeft (width : Nat) (text : String) : String :=
  String.ofList (List.replicate (width - text.length) ' ') ++ text

def hexWord (n : UInt32) : String :=
  let digits := Nat.toDigits 16 n.toNat
  String.ofList (List.replicate (8 - digits.length) '0' ++ digits)

def slotText (slot : Slot) : String :=
  "w" ++ toString slot.word.toNat ++ " >>" ++ padRight 2 (toString slot.shift.toNat) ++
    " mask=0x" ++ hexWord slot.mask ++ " byte=" ++ toString slot.byteIndex.toNat ++ "+" ++
    toString slot.byteShift.toNat

structure Line where
  name : String
  bits : String
  range : String
  flags : String
  forward : String
  reverse : String

namespace Line

def head : Line where
  name := "name"
  bits := "bits"
  range := "range"
  flags := "flags"
  forward := "forward"
  reverse := "reverse"

/-- One letter for each property that an attribute has, a dash for each that it lacks. -/
def flagsOf (a : Attribute) : String :=
  String.ofList
    [if a.twoDirections then '2' else '-', if a.negates then 'n' else '-',
     if a.byBytes then 'b' else '-']

def reverseOf (a : Attribute) : String :=
  match a.reverse with
  | some slot => slotText slot
  | none => if a.negates then "= -forward" else "= forward"

def ofAttribute (a : Attribute) : Line where
  name := a.name
  bits := toString a.bits.toNat
  range := "[" ++ toString a.minimum.toInt ++ ", " ++ toString a.maximum.toInt ++ "]"
  flags := flagsOf a
  forward := slotText a.forward
  reverse := reverseOf a

def text (nameWidth : Nat) (line : Line) : String :=
  padRight nameWidth line.name ++ "  " ++ padLeft 4 line.bits ++ "  " ++
    padLeft 23 line.range ++ "  " ++ padRight 5 line.flags ++ "  " ++
    padRight 36 line.forward ++ "  " ++ line.reverse

end Line

/-- The width of the name column: that of the name with the most bytes, and at least four. -/
def nameWidth (schema : Schema) : Nat :=
  schema.attributes.foldl (fun width a => max width a.name.utf8ByteSize) 4

def summary (schema : Schema) : String :=
  toString schema.attributes.length ++ " attributes, " ++ toString schema.bytesPerEdge.toNat ++
    " bytes per edge"

def layoutLines (schema : Schema) : List String :=
  let width := nameWidth schema
  Line.head.text width :: schema.attributes.map (fun a => (Line.ofAttribute a).text width) ++
    [summary schema]

def layout (schema : Schema) : String :=
  String.intercalate "\n" (layoutLines schema)

def nameCheck (rules : NameRules) (name : String) : Bool × String :=
  if rules.accepts name then (true, "✓ " ++ name)
  else if rules.isReserved name then (false, "✗ " ++ name ++ ": reserved word")
  else (false, "✗ " ++ name ++ ": not a valid attribute name")

end PackedEdges.Report
