import PackedEdges.EdgeStore
import PackedEdges.Slot.Basic

/-! The raw number in a slot can be read from the whole word or from just the bytes that the slot
covers. Both ways give the same number for every slot that is a run of bits. -/

namespace PackedEdges.Slot

def lowMask (bits : UInt32) : UInt32 :=
  (1 <<< bits) - 1

def ofWord (word mask shift : UInt32) : UInt32 :=
  (word &&& mask) >>> shift

def ofByte (b₀ : UInt8) (bits shift : UInt32) : UInt32 :=
  (b₀.toUInt32 >>> shift) &&& lowMask bits

def ofTwoBytes (b₀ b₁ : UInt8) (bits shift : UInt32) : UInt32 :=
  ((b₁.toUInt32 <<< 8 ||| b₀.toUInt32) >>> shift) &&& lowMask bits

def ofThreeBytes (b₀ b₁ b₂ : UInt8) (bits shift : UInt32) : UInt32 :=
  ((b₂.toUInt32 <<< 16 ||| b₁.toUInt32 <<< 8 ||| b₀.toUInt32) >>> shift) &&& lowMask bits

def wordValue? (slot : Slot) (store : EdgeStore) (edge : Nat) : Option UInt32 := do
  let word ← store.word? edge slot.wordOffset
  return ofWord word slot.mask slot.shift

/-- The slot's number, read from as few bytes as its `bits` bits cover. A slot that reaches into
all four bytes is read from its word. -/
def byteValue? (slot : Slot) (store : EdgeStore) (edge : Nat) (bits : UInt32) : Option UInt32 :=
  let offset := slot.byteOffset
  let footprint := slot.byteShift + bits
  if footprint ≤ 8 then do
    let b₀ ← store.byte? edge offset
    return ofByte b₀ bits slot.byteShift
  else if footprint ≤ 16 then do
    let b₀ ← store.byte? edge offset
    let b₁ ← store.byte? edge (offset + 1)
    return ofTwoBytes b₀ b₁ bits slot.byteShift
  else if footprint ≤ 24 then do
    let b₀ ← store.byte? edge offset
    let b₁ ← store.byte? edge (offset + 1)
    let b₂ ← store.byte? edge (offset + 2)
    return ofThreeBytes b₀ b₁ b₂ bits slot.byteShift
  else slot.wordValue? store edge

def value? (slot : Slot) (store : EdgeStore) (edge : Nat) (bits : UInt32) (byBytes : Bool) :
    Option UInt32 :=
  if byBytes then slot.byteValue? store edge bits else slot.wordValue? store edge

@[simp] theorem value?_false (slot : Slot) (store : EdgeStore) (edge : Nat) (bits : UInt32) :
    slot.value? store edge bits false = slot.wordValue? store edge := rfl

@[simp] theorem value?_true (slot : Slot) (store : EdgeStore) (edge : Nat) (bits : UInt32) :
    slot.value? store edge bits true = slot.byteValue? store edge bits := rfl

end PackedEdges.Slot
