import PackedEdges.Slot.Basic

/-! The layout cursor hands out slots from the front of a record to its end. It only moves
forward, and a slot that does not fit into the rest of a word starts at the next one, so no slot
straddles two words. -/

namespace PackedEdges

structure LayoutCursor where
  /-- Number of record bits up to the end of the last slot. -/
  position : Nat := 0
  /-- Sum of all granted widths; the bits left over at word ends do not count. -/
  requested : Nat := 0
  /-- A word end leaves over fewer bits than the slot has that did not fit there. -/
  position_le : position ≤ 2 * requested := by omega
  requested_lt : requested < UInt32.size := by decide
deriving DecidableEq

namespace LayoutCursor

def initial : LayoutCursor := {}

instance : Inhabited LayoutCursor := ⟨initial⟩

/-- The bit at which a slot of `width` bits starts: here if it fits into this word, else at the
beginning of the next word. -/
def start (cursor : LayoutCursor) (width : Nat) : Nat :=
  if cursor.position % 32 + width ≤ 32 then cursor.position
  else 32 * (cursor.position / 32 + 1)

def slotAt (bit width : Nat) : Slot where
  word := UInt32.ofNat (bit / 32)
  shift := UInt32.ofNat (bit % 32)
  mask := Slot.run width (bit % 32)

theorem position_le_start (cursor : LayoutCursor) (width : Nat) :
    cursor.position ≤ cursor.start width := by
  simp only [start]
  split <;> omega

theorem start_lt (cursor : LayoutCursor) {width : Nat} (hw : 0 < width) :
    cursor.start width < cursor.position + width := by
  simp only [start]
  split <;> omega

/-- Whether a slot of `width` bits can be granted: it has to fit into a word, and the sum of all
widths has to be counted. -/
def Grantable (cursor : LayoutCursor) (width : Nat) : Prop :=
  (1 ≤ width ∧ width ≤ 32) ∧ cursor.requested + width < UInt32.size

instance (cursor : LayoutCursor) (width : Nat) : Decidable (cursor.Grantable width) :=
  inferInstanceAs (Decidable (_ ∧ _))

def next? (cursor : LayoutCursor) (bits : UInt32) : Option (Slot × LayoutCursor) :=
  let width := bits.toNat
  if h : cursor.Grantable width then
    let bit := cursor.start width
    some (slotAt bit width,
      { position := bit + width
        requested := cursor.requested + width
        position_le := by
          have hs := cursor.start_lt h.1.1
          have hp := cursor.position_le
          omega
        requested_lt := h.2 })
  else none

def requiredWords (cursor : LayoutCursor) : Nat :=
  (cursor.position + 31) / 32

def requiredBytes (cursor : LayoutCursor) : Nat :=
  4 * cursor.requiredWords

theorem next?_eq_none_iff {cursor : LayoutCursor} {bits : UInt32} :
    cursor.next? bits = none ↔ ¬ cursor.Grantable bits.toNat := by
  simp [next?]

end LayoutCursor

end PackedEdges
