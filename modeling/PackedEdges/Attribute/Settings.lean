/-! What can be chosen for an attribute. -/

namespace PackedEdges

/-- The widest attribute that can be asked for; a sign bit may come on top. -/
def maxBits : UInt32 := 31

/-- The minimum that no attribute may have, because as a maximum it means that nothing was
written. -/
def neverWritten : Int32 := Int32.minValue

structure Settings where
  bits : UInt32
  minimum : Int32 := 0
  /-- Whether the reverse value is the negated forward value. -/
  negates : Bool := false
  /-- Whether the reverse direction has a slot of its own. -/
  twoDirections : Bool := false
  /-- Whether values may be read from single bytes. -/
  byBytes : Bool := true
deriving DecidableEq

end PackedEdges
