/-! A slot is a run of bits inside one 32-bit word of an edge record. Words lie in the record
one after another, four bytes each, least significant byte first. -/

namespace PackedEdges

/-- Where a value lives in an edge record. The all-zero slot stands for "not placed yet". -/
structure Slot where
  word : UInt32 := 0
  /-- Position of the slot's lowest bit within the word. -/
  shift : UInt32 := 0
  mask : UInt32 := 0
deriving DecidableEq, Inhabited

namespace Slot

def run (width shift : Nat) : UInt32 :=
  UInt32.ofNat ((1 <<< width - 1) <<< shift)

def wordOffset (slot : Slot) : Nat :=
  4 * slot.word.toNat

def byteIndex (slot : Slot) : UInt32 :=
  slot.shift / 8

def byteShift (slot : Slot) : UInt32 :=
  slot.shift % 8

/-- Byte offset, inside the record, of the byte that holds the slot's lowest bit. -/
def byteOffset (slot : Slot) : Nat :=
  slot.wordOffset + slot.byteIndex.toNat

/-- A slot without bits places nothing. -/
def IsPlaced (slot : Slot) : Prop :=
  slot.mask ≠ 0

instance (slot : Slot) : Decidable slot.IsPlaced :=
  inferInstanceAs (Decidable (slot.mask ≠ 0))

@[simp] theorem not_isPlaced_default : ¬ (({} : Slot).IsPlaced) := by decide

end Slot

end PackedEdges
