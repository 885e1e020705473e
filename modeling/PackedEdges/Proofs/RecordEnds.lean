import PackedEdges.Proofs.RecordBytes

/-! Accesses that leave the record of their edge. Only the end of the whole store refuses an
access: an offset behind a record leads into the records of the edges that follow. -/

namespace PackedEdges.EdgeStore

variable {store store' : EdgeStore} {edge offset : Nat} {value : UInt32}

theorem size_eq (store : EdgeStore) : store.bytes.size = store.edgeCount * store.bytesPerEdge :=
  (Nat.div_mul_cancel store.whole).symm

theorem recordStart_add_div {k : Nat} (hk : k < store.bytesPerEdge) :
    (store.recordStart edge + k) / store.bytesPerEdge = edge := by
  rw [recordStart, Nat.mul_comm, Nat.mul_add_div (by omega), Nat.div_eq_of_lt hk, Nat.add_zero]

theorem recordStart_add_eq (store : EdgeStore) (edge offset : Nat) :
    store.recordStart (edge + offset / store.bytesPerEdge) + offset % store.bytesPerEdge =
      store.recordStart edge + offset := by
  rw [recordStart, recordStart, Nat.add_mul, Nat.add_assoc, Nat.div_add_mod']

theorem byte?_eq_none_iff : store.byte? edge offset = none ↔
    store.edgeCount * store.bytesPerEdge ≤ store.recordStart edge + offset := by
  rw [byte?, Array.getElem?_eq_none_iff, size_eq]

theorem word?_eq_none_iff : store.word? edge offset = none ↔
    store.edgeCount * store.bytesPerEdge < store.recordStart edge + offset + 4 := by
  rw [← Option.not_isSome_iff_eq_none, word?_isSome_iff, size_eq, Nat.not_le]

theorem setWord?_eq_none_iff : store.setWord? edge offset value = none ↔
    store.edgeCount * store.bytesPerEdge < store.recordStart edge + offset + 4 := by
  rw [← Option.not_isSome_iff_eq_none, setWord?_isSome_iff, size_eq, Nat.not_le]

theorem size_le_recordStart {edges : Nat} (hsize : store.bytes.size = edges * store.bytesPerEdge)
    (h : edges ≤ edge) : store.bytes.size ≤ store.recordStart edge := by
  rw [hsize]
  exact Nat.mul_le_mul_right _ h

theorem byte?_beyond {edges : Nat} (hsize : store.bytes.size = edges * store.bytesPerEdge)
    (h : edges ≤ edge) (offset : Nat) : store.byte? edge offset = none := by
  rw [byte?_eq_none_iff, ← size_eq]
  exact (size_le_recordStart hsize h).trans (Nat.le_add_right _ _)

theorem refused_of_edgeCount_le (h : store.edgeCount ≤ edge) :
    store.byte? edge offset = none ∧ store.word? edge offset = none ∧
      store.setWord? edge offset value = none := by
  have hbehind := size_le_recordStart store.size_eq h
  refine ⟨byte?_beyond store.size_eq h offset, ?_⟩
  rw [word?_eq_none_iff, setWord?_eq_none_iff, ← size_eq]
  omega

theorem byte?_eq_byte? (store : EdgeStore) (edge offset : Nat) :
    store.byte? edge offset =
      store.byte? (edge + offset / store.bytesPerEdge) (offset % store.bytesPerEdge) := by
  rw [byte?, byte?, recordStart_add_eq]

theorem wordBytes_of_word? {word : UInt32} (h : store.word? edge offset = some word) {k : Nat}
    (hk : k < 4) : (wordBytes word)[k]? = store.byte? edge (offset + k) := by
  have hinside := word?_isSome_iff.mp (Option.isSome_of_eq_some h)
  obtain ⟨b, hb⟩ := exists_byte (show store.recordStart edge + (offset + k) < _ by omega)
  obtain ⟨c, hc⟩ : ∃ c, (wordBytes word)[k]? = some c := ⟨_, List.getElem?_eq_getElem hk⟩
  rw [hb, hc, Option.some_inj, ← UInt8.toNat_inj]
  refine Nat.eq_of_testBit_eq fun j => ?_
  rw [bit_getElem hb]
  by_cases hj : j < 8
  · have hplace : 8 * (store.recordStart edge + offset) + (8 * k + j) =
        8 * (store.recordStart edge + (offset + k)) + j := by omega
    rw [testBit_wordBytes hj hc, testBit_of_word? h (by omega), hplace]
    simp [hj]
  · have hsmall : c.toNat < 2 ^ j :=
      c.toNat_lt.trans_le (Nat.pow_le_pow_right (by decide) (Nat.le_of_not_lt hj))
    rw [Nat.testBit_lt_two_pow hsmall]
    simp [hj]

theorem byte?_of_setWord? (h : store.setWord? edge offset value = some store') (other k : Nat) :
    store'.byte? other k =
      if store.recordStart edge + offset ≤ store.recordStart other + k ∧
          store.recordStart other + k < store.recordStart edge + offset + 4 then
        (wordBytes value)[store.recordStart other + k - (store.recordStart edge + offset)]?
      else store.byte? other k := by
  simp only [setWord?, write?, Option.ite_none_right_eq_some, Option.some.injEq] at h
  obtain ⟨hin, rfl⟩ := h
  simp only [byte?, recordStart] at hin ⊢
  rw [getElem?_overwrite _ _ _ _ hin]
  rfl

theorem byte?_setWord?_self (h : store.setWord? edge offset value = some store') {k : Nat}
    (hk : k < 4) : store'.byte? edge (offset + k) = (wordBytes value)[k]? := by
  rw [byte?_of_setWord? h, if_pos (by omega)]
  congr 1
  omega

/-- A word that lies inside the record of its edge is written there and nowhere else. -/
theorem changedAt_of_setWord? (h : store.setWord? edge offset value = some store')
    (hinside : offset + 4 ≤ store.bytesPerEdge) : ChangedAt edge store store' := by
  have hshape : store.SameShape store' := ⟨bytesPerEdge_of_write? h, size_of_write? h⟩
  refine ⟨hshape, fun {other} hother => record?_congr hshape fun i hi => ?_⟩
  have houtside : ¬ (store.recordStart edge + offset ≤ store.recordStart other + i / 8 ∧
      store.recordStart other + i / 8 < store.recordStart edge + offset + 4) := by
    rintro ⟨hlow, hhigh⟩
    obtain ⟨k, hk⟩ := Nat.le.dest hlow
    -- One and the same place belongs to the records of both edges.
    have hedge : (store.recordStart edge + (offset + k)) / store.bytesPerEdge = edge :=
      recordStart_add_div (by omega)
    rw [← Nat.add_assoc, hk, recordStart_add_div (by omega)] at hedge
    exact hother hedge
  rw [recordBit_eq_byte, recordBit_eq_byte, byte?_of_setWord? h, if_neg houtside]

/-- An access is refused exactly if it leaves the whole store, so always beyond the last edge. One
that stays in the record of its edge touches no other record; any other one reads and changes bytes
of the records behind. Places are sums without a bound. One that no machine word can hold lies
behind every store, so it counts as refused, just as a checked addition refuses it. -/
theorem access_ends_with_store (store : EdgeStore) (edge offset : Nat) (value : UInt32) :
    let size := store.edgeCount * store.bytesPerEdge
    let place := store.recordStart edge + offset
    (store.byte? edge offset = none ↔ size ≤ place) ∧
    (store.word? edge offset = none ↔ size < place + 4) ∧
    (store.setWord? edge offset value = none ↔ size < place + 4) ∧
    (store.edgeCount ≤ edge → store.byte? edge offset = none ∧ store.word? edge offset = none ∧
      store.setWord? edge offset value = none) ∧
    (∀ k, store.byte? edge (offset + k) = store.byte?
      (edge + (offset + k) / store.bytesPerEdge) ((offset + k) % store.bytesPerEdge)) ∧
    (∀ word, store.word? edge offset = some word → ∀ k < 4, (wordBytes word)[k]? = store.byte?
      (edge + (offset + k) / store.bytesPerEdge) ((offset + k) % store.bytesPerEdge)) ∧
    ∀ store', store.setWord? edge offset value = some store' →
      (∀ k < 4, store'.byte? (edge + (offset + k) / store.bytesPerEdge)
        ((offset + k) % store.bytesPerEdge) = (wordBytes value)[k]?) ∧
      (offset + 4 ≤ store.bytesPerEdge → ChangedAt edge store store') := by
  refine ⟨byte?_eq_none_iff, word?_eq_none_iff, setWord?_eq_none_iff, refused_of_edgeCount_le,
    fun k => byte?_eq_byte? store edge _, fun word h k hk => ?_,
    fun store' h => ⟨fun k hk => ?_, changedAt_of_setWord? h⟩⟩
  · rw [wordBytes_of_word? h hk, byte?_eq_byte?]
  · rw [← byte?_setWord?_self h hk, byte?_eq_byte? store' edge (offset + k),
      bytesPerEdge_of_write? h]

def twoRecords : EdgeStore where
  bytesPerEdge := 4
  bytes := #[1, 2, 3, 4, 5, 6, 7, 8]
  whole := by decide

/-- A word that begins in the middle of the first record ends in the second one, and is read and
written all the same. -/
theorem twoRecords_access_beyond_record :
    0 < twoRecords.edgeCount ∧ ¬ 2 + 4 ≤ twoRecords.bytesPerEdge ∧
      twoRecords.word? 0 2 = some 0x06050403 ∧ twoRecords.byte? 0 4 = some 5 ∧
      twoRecords.record? 1 = some [5, 6, 7, 8] ∧
      ((twoRecords.setWord? 0 2 0).bind fun changed => changed.record? 1) = some [0, 0, 7, 8] := by
  decide

end PackedEdges.EdgeStore
