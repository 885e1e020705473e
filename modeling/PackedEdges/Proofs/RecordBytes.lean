import PackedEdges.Proofs.BitView

/-! The records of a store as lists of bytes. A record has the bits that its edge has in the store,
and putting a record into the store changes nothing else. -/

namespace PackedEdges

/-- Bit `i` of a list of bytes, counted from the lowest bit of the first one. -/
def bitAt (record : List UInt8) (i : Nat) : Bool :=
  (record[i / 8]?.getD 0).toNat.testBit (i % 8)

theorem bitAt_eq_testBit {record : List UInt8} {k j : Nat} {b : UInt8} (h : record[k]? = some b)
    (hj : j < 8) : bitAt record (8 * k + j) = b.toNat.testBit j := by
  rw [bitAt, show (8 * k + j) / 8 = k by omega, show (8 * k + j) % 8 = j by omega, h,
    Option.getD_some]

theorem eq_of_bitAt_eq {record record' : List UInt8} (hlength : record.length = record'.length)
    (hbit : ∀ i < 8 * record.length, bitAt record i = bitAt record' i) : record = record' := by
  apply List.ext_getElem hlength
  intro k hk hk'
  apply UInt8.toNat_inj.mp
  apply Nat.eq_of_testBit_eq
  intro j
  by_cases hj : j < 8
  · have heq := hbit (8 * k + j) (by omega)
    rwa [bitAt_eq_testBit (List.getElem?_eq_getElem hk) hj,
      bitAt_eq_testBit (List.getElem?_eq_getElem hk') hj] at heq
  · rw [testBit_eq_false (UInt8.toNat_lt _) (Nat.not_lt.mp hj),
      testBit_eq_false (UInt8.toNat_lt _) (Nat.not_lt.mp hj)]

theorem bitAt_append_zeros (record : List UInt8) (count i : Nat) :
    bitAt (record ++ List.replicate count 0) i =
      (decide (i < 8 * record.length) && bitAt record i) := by
  by_cases hi : i < 8 * record.length
  · rw [bitAt, List.getElem?_append_left (by omega)]
    simp [hi, bitAt]
  · have hzero : (record ++ List.replicate count 0)[i / 8]?.getD 0 = (0 : UInt8) := by
      rw [List.getElem?_append_right (by omega), List.getElem?_replicate]
      split <;> rfl
    simp [bitAt, hzero, hi]

namespace EdgeStore

def SameShape (store store' : EdgeStore) : Prop :=
  store'.bytesPerEdge = store.bytesPerEdge ∧ store'.bytes.size = store.bytes.size

theorem SameShape.refl (store : EdgeStore) : store.SameShape store :=
  ⟨rfl, rfl⟩

/-- All bytes of the edge's record lie in the store. -/
def HasRecord (store : EdgeStore) (edge : Nat) : Prop :=
  store.recordStart edge + store.bytesPerEdge ≤ store.bytes.size

theorem hasRecord_of_lt {store : EdgeStore} {edge edges : Nat}
    (hsize : edges * store.bytesPerEdge ≤ store.bytes.size) (h : edge < edges) :
    store.HasRecord edge := by
  have hrows : (edge + 1) * store.bytesPerEdge ≤ edges * store.bytesPerEdge :=
    Nat.mul_le_mul_right _ h
  rw [Nat.succ_mul] at hrows
  exact hrows.trans hsize

theorem hasRecord_of_lt_edgeCount {store : EdgeStore} {edge : Nat} (h : edge < store.edgeCount) :
    store.HasRecord edge :=
  hasRecord_of_lt (Nat.div_mul_le_self _ _) h

variable {store store' : EdgeStore} {edge edge' : Nat} {record : List UInt8}

theorem SameShape.trans {store'' : EdgeStore} (h : store.SameShape store')
    (h' : store'.SameShape store'') : store.SameShape store'' :=
  ⟨h'.1.trans h.1, h'.2.trans h.2⟩

theorem SameShape.edgeCount_eq (h : store.SameShape store') :
    store'.edgeCount = store.edgeCount := by
  rw [edgeCount, edgeCount, h.1, h.2]

theorem HasRecord.of_sameShape (h : store.HasRecord edge) (hshape : store.SameShape store') :
    store'.HasRecord edge := by
  rw [HasRecord, recordStart, hshape.1, hshape.2]
  exact h

theorem recordBit_eq_byte (store : EdgeStore) (edge i : Nat) : store.recordBit edge i =
    ((store.byte? edge (i / 8)).getD 0).toNat.testBit (i % 8) := by
  have hdiv : (8 * store.recordStart edge + i) / 8 = store.recordStart edge + i / 8 := by omega
  have hmod : (8 * store.recordStart edge + i) % 8 = i % 8 := by omega
  rw [recordBit, bit, hdiv, hmod, byte?]

theorem record?_eq_some_iff : store.record? edge = some record ↔
    store.HasRecord edge ∧ record.length = store.bytesPerEdge ∧
      ∀ k < store.bytesPerEdge, record[k]? = store.byte? edge k := by
  have hslice (h : store.HasRecord edge) (k : Nat) (hk : k < store.bytesPerEdge) :
      (store.bytes.extract (store.recordStart edge)
        (store.recordStart edge + store.bytesPerEdge)).toList[k]? = store.byte? edge k := by
    rw [HasRecord] at h
    rw [Array.getElem?_toList, Array.getElem?_extract, byte?, if_pos (by omega)]
  have hlength (h : store.HasRecord edge) : (store.bytes.extract (store.recordStart edge)
      (store.recordStart edge + store.bytesPerEdge)).toList.length = store.bytesPerEdge := by
    rw [HasRecord] at h
    simp
    omega
  simp only [record?, Option.ite_none_right_eq_some, Option.some.injEq]
  constructor
  · rintro ⟨hin, rfl⟩
    exact ⟨hin, hlength hin, hslice hin⟩
  · rintro ⟨hin, hlen, hbytes⟩
    refine ⟨hin, List.ext_getElem? fun k => ?_⟩
    by_cases hk : k < store.bytesPerEdge
    · rw [hslice hin k hk, hbytes k hk]
    · rw [List.getElem?_eq_none (by rw [hlength hin]; omega),
        List.getElem?_eq_none (by rw [hlen]; omega)]

theorem HasRecord.exists_record (h : store.HasRecord edge) :
    ∃ record, store.record? edge = some record :=
  ⟨_, if_pos h⟩

theorem recordBit_of_record? (h : store.record? edge = some record) {i : Nat}
    (hi : i < 8 * store.bytesPerEdge) : store.recordBit edge i = bitAt record i := by
  obtain ⟨_, _, hbytes⟩ := record?_eq_some_iff.mp h
  rw [recordBit_eq_byte, bitAt, hbytes _ (by omega)]

theorem record?_eq_record?_iff (h : store.HasRecord edge) (h' : store'.HasRecord edge')
    (hsize : store'.bytesPerEdge = store.bytesPerEdge) :
    store.record? edge = store'.record? edge' ↔
      ∀ i < 8 * store.bytesPerEdge, store.recordBit edge i = store'.recordBit edge' i := by
  obtain ⟨record, hrecord⟩ := h.exists_record
  obtain ⟨record', hrecord'⟩ := h'.exists_record
  have hlength := (record?_eq_some_iff.mp hrecord).2.1
  have hlength' := (record?_eq_some_iff.mp hrecord').2.1
  have hbits {i : Nat} (hi : i < 8 * store.bytesPerEdge) :
      store.recordBit edge i = bitAt record i ∧ store'.recordBit edge' i = bitAt record' i :=
    ⟨recordBit_of_record? hrecord hi, recordBit_of_record? hrecord' (hsize ▸ hi)⟩
  rw [hrecord, hrecord', Option.some.injEq]
  constructor
  · rintro rfl i hi
    rw [(hbits hi).1, (hbits hi).2]
  · intro hsame
    refine eq_of_bitAt_eq (by rw [hlength, hlength', hsize]) fun i hi => ?_
    rw [hlength] at hi
    rw [← (hbits hi).1, ← (hbits hi).2, hsame i hi]

theorem record?_congr (hshape : store.SameShape store')
    (hbit : ∀ i < 8 * store.bytesPerEdge, store'.recordBit edge i = store.recordBit edge i) :
    store'.record? edge = store.record? edge := by
  by_cases h : store.HasRecord edge
  · rw [record?_eq_record?_iff (h.of_sameShape hshape) h hshape.1.symm, hshape.1]
    exact hbit
  · have hnone : ¬ store'.HasRecord edge := by
      rw [HasRecord, recordStart, hshape.1, hshape.2]
      exact h
    exact (if_neg hnone).trans (if_neg h).symm

theorem byte?_of_setRecord? (h : store.setRecord? edge record = some store') {other k : Nat}
    (hk : k < store.bytesPerEdge) :
    store'.byte? other k = if other = edge then record[k]? else store.byte? other k := by
  simp only [setRecord?, write?, Option.ite_none_right_eq_some, Option.some.injEq] at h
  obtain ⟨hlength, hin, rfl⟩ := h
  have hbit : 8 * k < 8 * store.bytesPerEdge := by omega
  have hplace : store.recordStart edge + 0 ≤ store.recordStart other + k ∧
      store.recordStart other + k < store.recordStart edge + 0 + record.length ↔ other = edge := by
    constructor
    · rintro ⟨hlow, hhigh⟩
      obtain ⟨j, hj⟩ := Nat.le.dest hlow
      have hinj : other = edge ∧ 8 * k = 8 * j := recordStart_add_inj hbit (by omega) (by omega)
      exact hinj.1
    · rintro rfl
      omega
  change (overwrite store.bytes _ record)[store.recordStart other + k]? = _
  rw [getElem?_overwrite _ _ _ _ hin]
  by_cases hother : other = edge
  · rw [if_pos (hplace.mpr hother), if_pos hother, hother, Nat.add_zero, Nat.add_sub_cancel_left]
  · rw [if_neg (mt hplace.mp hother), if_neg hother, byte?]

theorem sameShape_of_setRecord? (h : store.setRecord? edge record = some store') :
    store.SameShape store' := by
  simp only [setRecord?, Option.ite_none_right_eq_some] at h
  exact ⟨bytesPerEdge_of_write? h.2, size_of_write? h.2⟩

theorem exists_setRecord (h : store.HasRecord edge) (hlength : record.length = store.bytesPerEdge) :
    ∃ store', store.setRecord? edge record = some store' := by
  rw [HasRecord, ← hlength] at h
  simp [setRecord?, write?, hlength, show store.recordStart edge + store.bytesPerEdge ≤
    store.bytes.size by omega]

theorem record?_setRecord?_self (h : store.setRecord? edge record = some store')
    (hin : store.HasRecord edge) : store'.record? edge = some record := by
  have hshape := sameShape_of_setRecord? h
  have hlength : record.length = store.bytesPerEdge := by
    simp only [setRecord?, Option.ite_none_right_eq_some] at h
    exact h.1
  refine record?_eq_some_iff.mpr ⟨hin.of_sameShape hshape, by rw [hlength, hshape.1], ?_⟩
  intro k hk
  rw [byte?_of_setRecord? h (hshape.1 ▸ hk), if_pos rfl]

/-- The stores differ in the record of one edge at most. -/
structure ChangedAt (edge : Nat) (store store' : EdgeStore) : Prop where
  sameShape : store.SameShape store'
  record?_eq {other : Nat} : other ≠ edge → store'.record? other = store.record? other

theorem ChangedAt.refl (edge : Nat) (store : EdgeStore) : ChangedAt edge store store :=
  ⟨.refl store, fun _ => rfl⟩

theorem ChangedAt.trans {store'' : EdgeStore} (h : ChangedAt edge store store')
    (h' : ChangedAt edge store' store'') : ChangedAt edge store store'' :=
  ⟨h.sameShape.trans h'.sameShape,
    fun hother => (h'.record?_eq hother).trans (h.record?_eq hother)⟩

theorem changedAt_of_setRecord? (h : store.setRecord? edge record = some store') :
    ChangedAt edge store store' := by
  have hshape := sameShape_of_setRecord? h
  refine ⟨hshape, fun hother => record?_congr hshape fun i hi => ?_⟩
  rw [recordBit_eq_byte, recordBit_eq_byte, byte?_of_setRecord? h (by omega), if_neg hother]

end EdgeStore

end PackedEdges
