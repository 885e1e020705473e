import PackedEdges.Attribute.Basic
import PackedEdges.Slot.Value

/-! Reading and writing the value of an attribute. A slot holds the value less the attribute's
minimum, so what it holds is never negative. -/

namespace PackedEdges.Attribute

def decode (a : Attribute) (raw : UInt32) : Int32 :=
  a.minimum + raw.toInt32

def encode (a : Attribute) (value : Int32) : UInt32 :=
  (value - a.minimum).toUInt32

def valueIn (a : Attribute) (slot : Slot) (store : EdgeStore) (edge : Nat) : Outcome Int32 :=
  match slot.value? store edge a.bits a.byBytes with
  | some raw => .done (a.decode raw)
  | none => .refused

/-- The value for a direction. Without a reverse slot the direction only matters to an attribute
that negates. -/
def read (a : Attribute) (direction : Direction) (edge : Nat) (store : EdgeStore) :
    Outcome Int32 :=
  if !a.isRegistered then .failed (.stage a.name .notRegistered)
  else if a.twoDirections ∧ direction = .reverse then
    match a.reverse with
    | some slot => a.valueIn slot store edge
    | none => .failed (.stage a.name .noReverseSlot)
  else do
    let value ← a.valueIn a.forward store edge
    return if a.negates ∧ direction = .reverse then -value else value

def checkValue (a : Attribute) (value : Int32) : Except Error Unit :=
  if !a.isRegistered then .error (.stage a.name .notRegistered)
  else if a.maximum < value then .error (.outOfRange a.name value a.maximum .above)
  else if value < a.minimum then .error (.outOfRange a.name value a.minimum .below)
  else .ok ()

def target (a : Attribute) (direction : Direction) (value : Int32) :
    Except Error (Slot × Int32) :=
  match direction with
  | .forward => .ok (a.forward, value)
  | .reverse =>
    if a.negates then .ok (a.forward, -value)
    else if !a.twoDirections then .error (.directionConflict a.name)
    else
      match a.reverse with
      | some slot => .ok (slot, value)
      | none => .error (.stage a.name .noReverseSlot)

def noteStored (a : Attribute) (value : Int32) : Attribute :=
  { a with greatest := if a.greatest < value then value else a.greatest }

def putRaw (slot : Slot) (raw : UInt32) (edge : Nat) (store : EdgeStore) : Option EdgeStore := do
  let word ← store.word? edge slot.wordOffset
  store.setWord? edge slot.wordOffset ((word &&& ~~~slot.mask) ||| (raw <<< slot.shift))

/-- Stores a value for a direction. Gives the attribute after the attempt, too: it takes note of
the value before the store can refuse the edge. -/
def write (a : Attribute) (direction : Direction) (edge : Nat) (value : Int32)
    (store : EdgeStore) : Attribute × Outcome EdgeStore :=
  match a.checkValue value, a.target direction value with
  | .error e, _ => (a, .failed e)
  | .ok (), .error e => (a, .failed e)
  | .ok (), .ok (slot, stored) =>
    (a.noteStored stored, .ofOption (putRaw slot (a.encode stored) edge store))

@[simp] theorem name_noteStored (a : Attribute) (value : Int32) :
    (a.noteStored value).name = a.name := rfl

@[simp] theorem name_write (a : Attribute) (direction : Direction) (edge : Nat) (value : Int32)
    (store : EdgeStore) : (a.write direction edge value store).1.name = a.name := by
  unfold write
  split <;> rfl

end PackedEdges.Attribute
