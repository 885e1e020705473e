import PackedEdges.Attribute.Access
import PackedEdges.Proofs.SlotRead

/-! What a write into a slot changes: the bits of the slot in the record of that edge become the
bits of the new number, and all other bits of the store stay as they are. -/

namespace PackedEdges

/-- `store'` is `store` with the `width` bits from bit `first` on put to the number `n`. -/
structure EdgeStore.Overwritten (store store' : EdgeStore) (first width n : Nat) : Prop where
  bytesPerEdge_eq : store'.bytesPerEdge = store.bytesPerEdge
  size_eq : store'.bytes.size = store.bytes.size
  bit_eq (i : Nat) : store'.bit i =
    if first ≤ i ∧ i < first + width then n.testBit (i - first) else store.bit i

namespace EdgeStore.Overwritten

variable {store store' : EdgeStore} {first width n : Nat}

theorem recordStart_eq (h : Overwritten store store' first width n) (edge : Nat) :
    store'.recordStart edge = store.recordStart edge := by
  simp only [recordStart, h.bytesPerEdge_eq]

theorem number_eq (h : Overwritten store store' first width n) (hn : n < 2 ^ width) :
    store'.number first width = n := by
  symm
  apply eq_number_of_testBit
  intro j
  by_cases hj : j < width
  · rw [h.bit_eq, if_pos (by omega), Nat.add_sub_cancel_left]
    simp [hj]
  · rw [testBit_eq_false hn (Nat.not_lt.mp hj)]
    simp [hj]

theorem recordBit_eq {edge start : Nat}
    (h : Overwritten store store' (8 * store.recordStart edge + start) width n)
    (hinside : start + width ≤ 8 * store.bytesPerEdge) {edge' i : Nat}
    (hi : i < 8 * store.bytesPerEdge) :
    store'.recordBit edge' i = if edge' = edge ∧ start ≤ i ∧ i < start + width then
      n.testBit (i - start) else store.recordBit edge' i := by
  rw [recordBit, h.recordStart_eq, h.bit_eq]
  by_cases hedge : edge' = edge
  · subst hedge
    by_cases hin : start ≤ i ∧ i < start + width
    · rw [if_pos (by omega), if_pos ⟨rfl, hin⟩]
      congr 1
      omega
    · rw [if_neg (by omega), if_neg (fun hc => hin hc.2), recordBit]
  · rw [if_neg ?_, if_neg (fun hc => hedge hc.1), recordBit]
    rintro ⟨hlow, hhigh⟩
    obtain ⟨k, hk⟩ := Nat.le.dest hlow
    have hinj : edge = edge' ∧ start + k = i :=
      recordStart_add_inj (by omega) hi (by omega)
    exact hedge hinj.1.symm

end EdgeStore.Overwritten

namespace Slot

theorem IsRun.testBit_merged {slot : Slot} {width : Nat} (h : slot.IsRun width)
    {word raw : UInt32} (hraw : raw.toNat < 2 ^ width) {j : Nat} (hj : j < 32) :
    ((word &&& ~~~slot.mask) ||| (raw <<< slot.shift)).toNat.testBit j =
      if slot.shift.toNat ≤ j ∧ j < slot.shift.toNat + width then
        raw.toNat.testBit (j - slot.shift.toNat)
      else word.toNat.testBit j := by
  have hnot : (~~~slot.mask).toNat = 2 ^ 32 - (slot.mask.toNat + 1) := by
    rw [UInt32.toNat_not, UInt32.size]
    omega
  rw [UInt32.toNat_or, UInt32.toNat_and, UInt32.toNat_shiftLeft, Nat.testBit_or, Nat.testBit_and,
    Nat.testBit_mod_two_pow, Nat.testBit_shiftLeft, Nat.mod_eq_of_lt h.shift_lt, hnot,
    Nat.testBit_two_pow_sub_succ slot.mask.toNat_lt, h.testBit_mask]
  by_cases hs : slot.shift.toNat ≤ j
  · by_cases hw : j < slot.shift.toNat + width
    · simp [hs, hw, hj]
    · have hhigh : raw.toNat.testBit (j - slot.shift.toNat) = false :=
        testBit_eq_false hraw (by omega)
      simp [hs, hw, hj, hhigh]
  · simp [hs, hj]

theorem IsRun.putRaw {slot : Slot} {width : Nat} (h : slot.IsRun width) {store : EdgeStore}
    {edge : Nat} (hin : slot.InStore store edge) {raw : UInt32} (hraw : raw.toNat < 2 ^ width) :
    ∃ store', Attribute.putRaw slot raw edge store = some store' ∧
      store.Overwritten store' (8 * store.recordStart edge + slot.start) width raw.toNat := by
  obtain ⟨word, hword⟩ := Option.isSome_iff_exists.mp (EdgeStore.word?_isSome_iff.mpr hin)
  have hfits : (store.setWord? edge slot.wordOffset
      ((word &&& ~~~slot.mask) ||| (raw <<< slot.shift))).isSome :=
    EdgeStore.setWord?_isSome_iff.mpr hin
  obtain ⟨store', hset⟩ := Option.isSome_iff_exists.mp hfits
  refine ⟨store', by simp [Attribute.putRaw, hword, hset],
    EdgeStore.bytesPerEdge_of_write? hset, EdgeStore.size_of_write? hset, ?_⟩
  intro i
  have hf := h.fits
  have hfirst : 8 * store.recordStart edge + slot.start =
      8 * (store.recordStart edge + slot.wordOffset) + slot.shift.toNat := by
    simp only [wordOffset, start]
    omega
  rw [EdgeStore.bit_of_setWord? hset, hfirst]
  by_cases hi : 8 * (store.recordStart edge + slot.wordOffset) ≤ i ∧
      i < 8 * (store.recordStart edge + slot.wordOffset) + 32
  · rw [if_pos hi, h.testBit_merged hraw (by omega),
      EdgeStore.testBit_of_word? hword (by omega), Nat.add_sub_cancel' hi.1, Nat.sub_sub]
    by_cases hs : 8 * (store.recordStart edge + slot.wordOffset) + slot.shift.toNat ≤ i ∧
        i < 8 * (store.recordStart edge + slot.wordOffset) + slot.shift.toNat + width
    · rw [if_pos hs, if_pos (by omega)]
    · rw [if_neg hs, if_neg (by omega)]
  · rw [if_neg hi, if_neg (by omega)]

variable {slot : Slot} {width n edge : Nat} {store store' : EdgeStore}

theorem field_of_overwritten
    (h : store.Overwritten store' (8 * store.recordStart edge + slot.start) width n)
    (hn : n < 2 ^ width) : slot.field width store' edge = n := by
  rw [field, h.recordStart_eq]
  exact h.number_eq hn

theorem IsRun.recordBit_of_overwritten (hrun : slot.IsRun width)
    (h : store.Overwritten store' (8 * store.recordStart edge + slot.start) width n)
    (hinside : slot.start + width ≤ 8 * store.bytesPerEdge) {edge' i : Nat}
    (hi : i < 8 * store.bytesPerEdge) (hout : ¬ (edge' = edge ∧ i ∈ slot.recordBits)) :
    store'.recordBit edge' i = store.recordBit edge' i := by
  rw [hrun.mem_recordBits] at hout
  rw [h.recordBit_eq hinside hi, if_neg hout]

end Slot

end PackedEdges
