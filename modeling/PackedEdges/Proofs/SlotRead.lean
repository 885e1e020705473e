import Mathlib.Data.Set.Basic
import PackedEdges.Proofs.BitView
import PackedEdges.Slot.Value

/-! What a slot reads. A slot that is a run of bits reads the number which these bits form in the
record, by its word as well as by the bytes that it covers. -/

namespace PackedEdges

namespace Slot

/-- The slot is a run of `width` bits inside its word, and its mask has exactly these bits. -/
structure IsRun (slot : Slot) (width : Nat) : Prop where
  width_pos : 0 < width
  fits : slot.shift.toNat + width ≤ 32
  testBit_mask (j : Nat) : slot.mask.toNat.testBit j =
    (decide (slot.shift.toNat ≤ j) && decide (j < slot.shift.toNat + width))

/-- The slot's lowest bit, counted from the first bit of the record. -/
def start (slot : Slot) : Nat :=
  32 * slot.word.toNat + slot.shift.toNat

/-- The bits of the record that the mask gives to the slot. -/
def recordBits (slot : Slot) : Set Nat :=
  {i | i / 32 = slot.word.toNat ∧ slot.mask.toNat.testBit (i % 32) = true}

theorem testBit_run (width shift j : Nat) :
    (run width shift).toNat.testBit j =
      (decide (j < 32) && (decide (shift ≤ j) && decide (j < shift + width))) := by
  simp only [run, UInt32.toNat_ofNat', Nat.testBit_mod_two_pow, Nat.testBit_shiftLeft,
    Nat.one_shiftLeft, Nat.testBit_two_pow_sub_one]
  by_cases hs : shift ≤ j
  · simp [hs, show j - shift < width ↔ j < shift + width by omega]
  · simp [hs]

namespace IsRun

variable {slot : Slot} {width : Nat}

theorem shift_lt (h : slot.IsRun width) : slot.shift.toNat < 32 := by
  have hf := h.fits
  have hp := h.width_pos
  omega

theorem isPlaced (h : slot.IsRun width) : slot.IsPlaced := by
  intro hz
  have hb := h.testBit_mask slot.shift.toNat
  have hp := h.width_pos
  simp [hz] at hb
  omega

theorem toNat_mask (h : slot.IsRun width) :
    slot.mask.toNat = (2 ^ width - 1) * 2 ^ slot.shift.toNat := by
  apply Nat.eq_of_testBit_eq
  intro j
  rw [h.testBit_mask, Nat.testBit_mul_two_pow, Nat.testBit_two_pow_sub_one]
  by_cases hj : slot.shift.toNat ≤ j
  · simp [hj, show j - slot.shift.toNat < width ↔ j < slot.shift.toNat + width by omega]
  · simp [hj]

theorem mem_recordBits (h : slot.IsRun width) {i : Nat} :
    i ∈ slot.recordBits ↔ slot.start ≤ i ∧ i < slot.start + width := by
  have hf := h.fits
  simp only [recordBits, start, Set.mem_ofPred_eq, h.testBit_mask, Bool.and_eq_true,
    decide_eq_true_eq]
  omega

theorem toNat_ofWord (h : slot.IsRun width) {word : UInt32} {store : EdgeStore} {first : Nat}
    (hword : ∀ j < 32, word.toNat.testBit j = store.bit (first + j)) :
    (ofWord word slot.mask slot.shift).toNat =
      store.number (first + slot.shift.toNat) width := by
  apply EdgeStore.eq_number_of_testBit
  intro j
  rw [ofWord, UInt32.toNat_shiftRight, UInt32.toNat_and, Nat.testBit_shiftRight, Nat.testBit_and,
    Nat.mod_eq_of_lt h.shift_lt, h.testBit_mask]
  by_cases hj : j < width
  · have hf := h.fits
    rw [hword _ (by omega), ← Nat.add_assoc]
    simp [hj]
  · simp [hj]

end IsRun

theorem testBit_lowMask {bits : UInt32} (h : bits.toNat < 32) (j : Nat) :
    (lowMask bits).toNat.testBit j = decide (j < bits.toNat) := by
  have hone : ((1 : UInt32) <<< bits).toNat = 2 ^ bits.toNat := by
    rw [UInt32.toNat_shiftLeft, Nat.mod_eq_of_lt h, UInt32.toNat_one, Nat.one_shiftLeft]
    exact Nat.mod_eq_of_lt (Nat.pow_lt_pow_right (by decide) h)
  have hle : (1 : UInt32) ≤ 1 <<< bits := by
    rw [UInt32.le_iff_toNat_le, hone]
    exact Nat.one_le_two_pow
  rw [lowMask, UInt32.toNat_sub_of_le _ _ hle, hone, UInt32.toNat_one,
    Nat.testBit_two_pow_sub_one]

theorem toNat_lowBits {v bits shift : UInt32} {size : Nat} {store : EdgeStore} {first : Nat}
    (hsize : size ≤ 24) (hfit : shift.toNat + bits.toNat ≤ size)
    (hv : ∀ j < size, v.toNat.testBit j = store.bit (first + j)) :
    ((v >>> shift) &&& lowMask bits).toNat = store.number (first + shift.toNat) bits.toNat := by
  apply EdgeStore.eq_number_of_testBit
  intro j
  rw [UInt32.toNat_and, Nat.testBit_and, UInt32.toNat_shiftRight, Nat.testBit_shiftRight,
    testBit_lowMask (by omega), Nat.mod_eq_of_lt (show shift.toNat < 32 by omega)]
  by_cases hj : j < bits.toNat
  · rw [hv _ (by omega), ← Nat.add_assoc]
    simp [hj]
  · simp [hj]

theorem testBit_twoBytes {store : EdgeStore} {edge offset : Nat} {b₀ b₁ : UInt8}
    (h₀ : store.byte? edge offset = some b₀) (h₁ : store.byte? edge (offset + 1) = some b₁)
    {j : Nat} (hj : j < 16) : (b₁.toUInt32 <<< 8 ||| b₀.toUInt32).toNat.testBit j =
      store.bit (8 * (store.recordStart edge + offset) + j) := by
  simp only [UInt32.toNat_or, Nat.testBit_or, EdgeStore.testBit_lowestByte h₀,
    EdgeStore.testBit_shiftedByte h₁ (s := 8) rfl (by decide) (show j < 32 by omega)]
  rw [← Bool.and_or_distrib_right]
  have hplace : j < 8 ∨ 8 ≤ j := by omega
  rcases hplace with hp | hp <;> simp [hp, hj]

theorem testBit_threeBytes {store : EdgeStore} {edge offset : Nat} {b₀ b₁ b₂ : UInt8}
    (h₀ : store.byte? edge offset = some b₀) (h₁ : store.byte? edge (offset + 1) = some b₁)
    (h₂ : store.byte? edge (offset + 2) = some b₂) {j : Nat} (hj : j < 24) :
    (b₂.toUInt32 <<< 16 ||| b₁.toUInt32 <<< 8 ||| b₀.toUInt32).toNat.testBit j =
      store.bit (8 * (store.recordStart edge + offset) + j) := by
  simp only [UInt32.toNat_or, Nat.testBit_or, EdgeStore.testBit_lowestByte h₀,
    EdgeStore.testBit_shiftedByte h₁ (s := 8) rfl (by decide) (show j < 32 by omega),
    EdgeStore.testBit_shiftedByte h₂ (s := 16) rfl (by decide) (show j < 32 by omega)]
  rw [← Bool.and_or_distrib_right, ← Bool.and_or_distrib_right]
  have hplace : j < 8 ∨ (8 ≤ j ∧ j < 16) ∨ 16 ≤ j := by omega
  rcases hplace with hp | hp | hp <;> simp [hp, hj]

def InStore (slot : Slot) (store : EdgeStore) (edge : Nat) : Prop :=
  store.recordStart edge + slot.wordOffset + 4 ≤ store.bytes.size

instance (slot : Slot) (store : EdgeStore) (edge : Nat) : Decidable (slot.InStore store edge) :=
  inferInstanceAs (Decidable (_ ≤ _))

/-- The number that the slot's bits form in an edge's record. -/
def field (slot : Slot) (width : Nat) (store : EdgeStore) (edge : Nat) : Nat :=
  store.number (8 * store.recordStart edge + slot.start) width

theorem testBit_field (slot : Slot) (width : Nat) (store : EdgeStore) (edge j : Nat) :
    (slot.field width store edge).testBit j =
      (decide (j < width) && store.recordBit edge (slot.start + j)) := by
  rw [field, EdgeStore.testBit_number, EdgeStore.recordBit, Nat.add_assoc]

theorem inStore_of_wordValue? {slot : Slot} {store : EdgeStore} {edge : Nat} {raw : UInt32}
    (h : slot.wordValue? store edge = some raw) : slot.InStore store edge := by
  simp only [wordValue?, Option.bind_eq_bind, Option.bind_eq_some_iff] at h
  obtain ⟨word, hword, _⟩ := h
  exact EdgeStore.word?_isSome_iff.mp (Option.isSome_of_eq_some hword)

namespace IsRun

variable {slot : Slot} {width edge : Nat} {store : EdgeStore} {bits : UInt32}

/-- The number of a slot depends on the bits of the slot alone. -/
theorem field_congr (h : slot.IsRun width) {store' : EdgeStore} {edge' : Nat}
    (hbit : ∀ i ∈ slot.recordBits, store'.recordBit edge' i = store.recordBit edge i) :
    slot.field width store' edge' = slot.field width store edge := by
  apply Nat.eq_of_testBit_eq
  intro j
  rw [testBit_field, testBit_field]
  by_cases hj : j < width
  · rw [hbit _ (h.mem_recordBits.mpr (by omega))]
  · simp [hj]

theorem recordBit_eq_testBit_field (h : slot.IsRun width) {i : Nat} (hi : i ∈ slot.recordBits) :
    store.recordBit edge i = (slot.field width store edge).testBit (i - slot.start) := by
  obtain ⟨hlow, hhigh⟩ := h.mem_recordBits.mp hi
  rw [testBit_field, Nat.add_sub_cancel' hlow]
  simp [show i - slot.start < width by omega]

theorem field_lt (h : slot.IsRun width) (store : EdgeStore) (edge : Nat) :
    slot.field width store edge < 2 ^ 32 := by
  have hw : width ≤ 32 := by have hf := h.fits; omega
  exact lt_of_lt_of_le (EdgeStore.number_lt _ _ _) (Nat.pow_le_pow_right Nat.two_pos hw)

theorem wordValue?_eq (h : slot.IsRun width) (hin : slot.InStore store edge) :
    slot.wordValue? store edge = some (UInt32.ofNat (slot.field width store edge)) := by
  obtain ⟨word, hword⟩ := Option.isSome_iff_exists.mp (EdgeStore.word?_isSome_iff.mpr hin)
  have hnat := h.toNat_ofWord fun j hj => EdgeStore.testBit_of_word? hword hj
  have hfield : 8 * (store.recordStart edge + slot.wordOffset) + slot.shift.toNat =
      8 * store.recordStart edge + slot.start := by
    simp only [wordOffset, start]
    omega
  rw [hfield] at hnat
  simp [wordValue?, hword, field, ← hnat]

theorem toNat_footprint (h : slot.IsRun bits.toNat) :
    (slot.byteShift + bits).toNat = slot.shift.toNat % 8 + bits.toNat := by
  have hf := h.fits
  simp only [byteShift, UInt32.toNat_add, UInt32.toNat_mod, UInt32.reduceToNat]
  exact Nat.mod_eq_of_lt (by omega)

theorem toNat_byteRead (h : slot.IsRun bits.toNat) {v : UInt32} (size : Nat) (hsize : size ≤ 24)
    (hfoot : slot.byteShift + bits ≤ UInt32.ofNat size)
    (hv : ∀ j < size, v.toNat.testBit j =
      store.bit (8 * (store.recordStart edge + slot.byteOffset) + j)) :
    (v >>> slot.byteShift) &&& lowMask bits =
      UInt32.ofNat (slot.field bits.toNat store edge) := by
  have hshift : slot.byteShift.toNat = slot.shift.toNat % 8 := by
    simp [byteShift]
  have hfit : slot.byteShift.toNat + bits.toNat ≤ size := by
    rw [UInt32.le_iff_toNat_le, h.toNat_footprint,
      UInt32.toNat_ofNat_of_lt' (lt_of_le_of_lt hsize (by decide))] at hfoot
    omega
  have hstart : 8 * (store.recordStart edge + slot.byteOffset) + slot.byteShift.toNat =
      8 * store.recordStart edge + slot.start := by
    simp only [hshift, byteOffset, byteIndex, wordOffset, start, UInt32.toNat_div,
      UInt32.reduceToNat]
    omega
  apply UInt32.toNat_inj.mp
  rw [toNat_lowBits hsize hfit hv, hstart, UInt32.toNat_ofNat_of_lt' (h.field_lt store edge)]
  rfl

theorem byteValue?_eq (h : slot.IsRun bits.toNat) (hin : slot.InStore store edge) :
    slot.byteValue? store edge bits =
      some (UInt32.ofNat (slot.field bits.toNat store edge)) := by
  have hf := h.fits
  have hfoot := h.toNat_footprint
  -- The last byte of the footprint is a byte of the slot's word.
  have hbyte (k : Nat) (hk : slot.shift.toNat / 8 + k ≤ 3) :
      ∃ b, store.byte? edge (slot.byteOffset + k) = some b := by
    apply EdgeStore.exists_byte
    simp only [InStore] at hin
    simp only [byteOffset, byteIndex, UInt32.toNat_div, UInt32.reduceToNat]
    omega
  have hpos := h.width_pos
  obtain ⟨b₀, h₀⟩ := hbyte 0 (by omega)
  rw [Nat.add_zero] at h₀
  simp only [byteValue?]
  split_ifs with h8 h16 h24
  · simp only [h₀, Option.bind_eq_bind, Option.bind_some, Option.pure_def, ofByte]
    rw [h.toNat_byteRead 8 (by decide) h8 fun j hj => ?_]
    rw [EdgeStore.testBit_lowestByte h₀]
    simp [hj]
  · simp only [UInt32.le_iff_toNat_le, hfoot, UInt32.reduceToNat] at h8
    obtain ⟨b₁, h₁⟩ := hbyte 1 (by omega)
    simp only [h₀, h₁, Option.bind_eq_bind, Option.bind_some, Option.pure_def, ofTwoBytes]
    rw [h.toNat_byteRead 16 (by decide) h16 fun j hj => testBit_twoBytes h₀ h₁ hj]
  · simp only [UInt32.le_iff_toNat_le, hfoot, UInt32.reduceToNat] at h16
    obtain ⟨b₁, h₁⟩ := hbyte 1 (by omega)
    obtain ⟨b₂, h₂⟩ := hbyte 2 (by omega)
    simp only [h₀, h₁, h₂, Option.bind_eq_bind, Option.bind_some, Option.pure_def, ofThreeBytes]
    rw [h.toNat_byteRead 24 (by decide) h24 fun j hj => testBit_threeBytes h₀ h₁ h₂ hj]
  · exact h.wordValue?_eq hin

theorem value?_eq (h : slot.IsRun bits.toNat) (hin : slot.InStore store edge) (byBytes : Bool) :
    slot.value? store edge bits byBytes =
      some (UInt32.ofNat (slot.field bits.toNat store edge)) := by
  cases byBytes with
  | false => exact h.wordValue?_eq hin
  | true => exact h.byteValue?_eq hin

end IsRun

end Slot

end PackedEdges
