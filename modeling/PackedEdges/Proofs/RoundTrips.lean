import PackedEdges.Proofs.ExactAccess
import PackedEdges.Proofs.InPlace
import PackedEdges.Proofs.RecordLocality

/-! Writes and reads on stores with any contents. A write puts its value into its slot and changes
no bit beside it. A value that was read can be written back, and then changes nothing; only one
content of a slot, in attributes that negate, stands for no value. -/

namespace PackedEdges

theorem EdgeStore.Overwritten.eq_self {store written : EdgeStore} {first width : Nat}
    (h : store.Overwritten written first width (store.number first width)) : written = store := by
  apply eq_of_bit_eq h.bytesPerEdge_eq h.size_eq
  intro i _
  rw [h.bit_eq, testBit_number]
  by_cases hi : first ≤ i ∧ i < first + width
  · rw [if_pos hi, Nat.add_sub_cancel' hi.1]
    simp [show i - first < width by omega]
  · rw [if_neg hi]

namespace Slot

/-- Every bit of the slot is set in the record of an edge. -/
def AllOnes (slot : Slot) (store : EdgeStore) (edge : Nat) : Prop :=
  ∀ i ∈ slot.recordBits, store.recordBit edge i = true

theorem IsRun.allOnes_iff {slot : Slot} {width : Nat} (h : slot.IsRun width) {store : EdgeStore}
    {edge : Nat} : slot.AllOnes store edge ↔ slot.field width store edge = 2 ^ width - 1 := by
  constructor
  · intro hones
    apply Nat.eq_of_testBit_eq
    intro j
    rw [testBit_field, Nat.testBit_two_pow_sub_one]
    by_cases hj : j < width
    · have hone := hones (slot.start + j) (h.mem_recordBits.mpr (by omega))
      simp [hj, hone]
    · simp [hj]
  · intro hfield i hi
    have hplace := h.mem_recordBits.mp hi
    rw [h.recordBit_eq_testBit_field hi, hfield, Nat.testBit_two_pow_sub_one]
    simp
    omega

end Slot

namespace Attribute

section

variable {a : Attribute} {direction : Direction} {slot : Slot} {store : EdgeStore} {edge : Nat}

theorem Placed.write_ne_done (h : a.Placed) {value : Int32} (hv : ¬ a.Accepts direction value.toInt)
    {b : Attribute} {written : EdgeStore} :
    a.write direction edge value store ≠ (b, .done written) := by
  intro hdone
  obtain ⟨e, hwrite⟩ := h.write_of_not_accepts hv a.greatest edge store
  rw [show a.withGreatest a.greatest = a from rfl, hdone] at hwrite
  cases hwrite

/-- What an accepted write does to its slot, to the rest of the store and to the next read. -/
theorem Sound.write_cases (h : a.Sound) (hplaced : a.Placed)
    (hslot : a.slot? (a.side direction) = some slot) (hin : slot.InStore store edge)
    {value : Int32} (hv : a.Accepts direction value.toInt) :
    ∃ b written, a.write direction edge value store = (b, .done written) ∧
      store.SameShape written ∧
      (∃ raw, slot.wordValue? written edge = some raw ∧
        (raw.toNat : Int) = a.turn direction value.toInt - a.minimum.toInt) ∧
      (∀ i, (∀ j ∈ slot.recordBits, i ≠ 8 * store.recordStart edge + j) →
        written.bit i = store.bit i) ∧
      b.read direction edge written = .done value := by
  have hrun := hplaced.isRun_of_slot? hslot
  obtain ⟨n, written, hn, hlt, hwrite, hover⟩ := h.exists_write hplaced hslot hin hv a.greatest
  have hin' : slot.InStore written edge := by
    rw [Slot.InStore, hover.recordStart_eq, hover.size_eq]
    exact hin
  have hfield : slot.field a.bits.toNat written edge = n := Slot.field_of_overwritten hover hlt
  refine ⟨_, written, hwrite, ⟨hover.bytesPerEdge_eq, hover.size_eq⟩, ?_, ?_, ?_⟩
  · refine ⟨UInt32.ofNat n, by rw [hrun.wordValue?_eq hin', hfield], ?_⟩
    rw [UInt32.toNat_ofNat_of_lt' (hfield ▸ hrun.field_lt written edge), hn]
  · intro i hi
    rw [hover.bit_eq, if_neg]
    rintro ⟨hlow, hhigh⟩
    refine hi (i - 8 * store.recordStart edge) (hrun.mem_recordBits.mpr ?_) ?_ <;> omega
  · rw [read_withGreatest]
    obtain ⟨w, hread, hw⟩ := h.exists_read hplaced hslot hin' (h.turn_inRange direction hv.1)
      (by rw [hfield, hn])
    rw [turn_turn] at hw
    rw [hread, Int32.toInt_inj.mp hw]

/-- A write that is accepted puts its value into the slot that serves the direction and changes no
other bit of the store, whatever the bytes were; and the value can be read back. -/
theorem write_changes_only_its_slot (h : a.InUse) (hslot : a.slot? (a.side direction) = some slot)
    (hin : slot.InStore store edge) (value : Int32) :
    ((∃ b written, a.write direction edge value store = (b, .done written)) ↔
        a.Accepts direction value.toInt) ∧
      ∀ b written, a.write direction edge value store = (b, .done written) →
        (∃ raw, slot.wordValue? written edge = some raw ∧
          (raw.toNat : Int) = a.turn direction value.toInt - a.minimum.toInt) ∧
        store.SameShape written ∧
        (∀ i, (∀ j ∈ slot.recordBits, i ≠ 8 * store.recordStart edge + j) →
          written.bit i = store.bit i) ∧
        b.read direction edge written = .done value := by
  obtain ⟨hsound, hplaced⟩ := h.sound_placed
  by_cases hv : a.Accepts direction value.toInt
  · obtain ⟨b, written, hwrite, hshape, hraw, hbit, hread⟩ :=
      hsound.write_cases hplaced hslot hin hv
    refine ⟨⟨fun _ => hv, fun _ => ⟨b, written, hwrite⟩⟩, fun b' written' hwrite' => ?_⟩
    rw [hwrite, Prod.mk.injEq, Outcome.done.injEq] at hwrite'
    obtain ⟨rfl, rfl⟩ := hwrite'
    exact ⟨hraw, hshape, hbit, hread⟩
  · refine ⟨⟨?_, fun hc => absurd hc hv⟩, fun b written hwrite => ?_⟩
    · rintro ⟨b, written, hwrite⟩
      exact absurd hwrite (hplaced.write_ne_done hv)
    · exact absurd hwrite (hplaced.write_ne_done hv)

theorem slope_inUse : Schema.slope.InUse :=
  ⟨neverWritten, Schema.slope.withoutSlots, ⟨10, 10, by decide, by decide⟩, _, 8,
    Schema.defined_of_mem_roads _ (by simp), rfl⟩

theorem write_changes_only_its_slot_slope :
    let slope := Schema.slope
    let store := Schema.wornStore
    slope.InUse ∧ slope.slot? (slope.side .reverse) = some slope.forward ∧
      slope.forward.InStore store 1 ∧ slope.Accepts .reverse 100 ∧
      ∃ b written, slope.write .reverse 1 100 store = (b, .done written) ∧
        (∃ raw, slope.forward.wordValue? written 1 = some raw ∧ (raw.toNat : Int) = 27) ∧
        written.bit 41 = store.bit 41 ∧ b.read .reverse 1 written = .done 100 := by
  intro slope store
  have hslot : slope.slot? (slope.side .reverse) = some slope.forward := by decide
  have hin : slope.forward.InStore store 1 := by decide
  have hv : slope.Accepts .reverse 100 := by decide
  obtain ⟨haccepted, hchanges⟩ := write_changes_only_its_slot slope_inUse hslot hin 100
  obtain ⟨b, written, hwrite⟩ := haccepted.mpr hv
  obtain ⟨hraw, _, hbit, hread⟩ := hchanges b written hwrite
  refine ⟨slope_inUse, hslot, hin, hv, b, written, hwrite, hraw, hbit 41 ?_, hread⟩
  intro j hj
  have hrun := slope_inUse.sound_placed.2.isRun_of_slot? hslot
  have hfirst : 10 ≤ j := (hrun.mem_recordBits.mp hj).1
  have hrecord : store.recordStart 1 = 4 := rfl
  omega

theorem Sound.inRange_of_field (h : a.Sound) {n : Nat} (hn : n < 2 ^ a.bits.toNat)
    (hvalue : ¬ (a.negates = true ∧ n = 2 ^ a.bits.toNat - 1)) :
    a.InRange (a.minimum.toInt + n) := by
  refine ⟨by omega, ?_⟩
  cases hnegates : a.negates with
  | true =>
    have hmax := h.maximum_eq_of_negates hnegates
    have hne : n ≠ 2 ^ a.bits.toNat - 1 := fun he => hvalue ⟨hnegates, he⟩
    omega
  | false =>
    have hmax := h.maximum_eq_of_not_negates hnegates
    omega

theorem Sound.exists_write_back (h : a.Sound) (hplaced : a.Placed)
    (hslot : a.slot? (a.side direction) = some slot) (hin : slot.InStore store edge)
    (hwritable : direction = .reverse → a.negates = true ∨ a.twoDirections = true)
    (hvalue : ¬ (a.negates = true ∧ slot.AllOnes store edge)) :
    ∃ v b, a.read direction edge store = .done v ∧ a.InRange v.toInt ∧
      a.write direction edge v store = (b, .done store) := by
  have hrun := hplaced.isRun_of_slot? hslot
  have hrange : a.InRange (a.minimum.toInt + slot.field a.bits.toNat store edge) :=
    h.inRange_of_field (EdgeStore.number_lt _ _ _) (by rwa [← hrun.allOnes_iff])
  obtain ⟨v, hread, hv⟩ := h.exists_read hplaced hslot hin hrange (by omega)
  have hin' : a.InRange v.toInt := hv ▸ h.turn_inRange direction hrange
  obtain ⟨n, written, hn, _, hwrite, hover⟩ :=
    h.exists_write hplaced hslot hin ⟨hin', hwritable⟩ a.greatest
  have hsame : n = slot.field a.bits.toNat store edge := by
    rw [hv, turn_turn] at hn
    omega
  subst hsame
  obtain rfl : written = store := hover.eq_self
  exact ⟨v, _, hread, hin', hwrite⟩

/-- All ones in a slot are read as the integer above the range. In a slot that fills a word this
integer wraps around. -/
theorem Sound.read_allOnes (h : a.Sound) (hplaced : a.Placed) (hnegates : a.negates = true)
    (hin : a.forward.InStore store edge) (hones : a.forward.AllOnes store edge) :
    ∃ v, a.read .forward edge store = .done v ∧
      v.toInt = Int.bmod (a.maximum.toInt + 1) (2 ^ 32) := by
  have hslot : a.slot? (a.side .forward) = some a.forward := by simp [side, slot?]
  have hrun := hplaced.isRun_of_slot? hslot
  have hmax := h.maximum_eq_of_negates hnegates
  have hraw : (UInt32.ofNat (a.forward.field a.bits.toNat store edge)).toNat =
      2 ^ a.bits.toNat - 1 := by
    rw [UInt32.toNat_ofNat_of_lt' (hrun.field_lt store edge), hrun.allOnes_iff.mp hones]
  refine ⟨_, h.read_of_inStore hplaced hslot hin, ?_⟩
  rw [turn, if_neg (by simp), toInt_decode_eq_bmod, hraw]
  congr 1
  have hpos : 1 ≤ 2 ^ a.bits.toNat := Nat.one_le_two_pow
  omega

theorem Sound.maximum_of_negates (h : a.Sound) (hnegates : a.negates = true) :
    a.bits.toNat = 32 ∧ a.maximum.toInt + 1 = 2 ^ 31 ∨
      a.bits.toNat < 32 ∧ a.maximum.toInt + 1 < 2 ^ 31 := by
  have hmax := h.maximum_eq_of_negates hnegates
  have hsymmetric := h.symmetric hnegates
  rcases Nat.lt_or_eq_of_le h.bits_le with hlt | heq
  · have hpow : 2 ^ a.bits.toNat ≤ 2 ^ 31 :=
      Nat.pow_le_pow_right Nat.two_pos (Nat.le_of_lt_succ hlt)
    exact .inr ⟨hlt, by omega⟩
  · rw [heq] at hmax
    exact .inl ⟨heq, by omega⟩

theorem Placed.writeInPlace_of_above (h : a.Placed) {v : Int32} (hv : a.maximum < v) :
    writeInPlace direction edge v (a, store) =
      (.failed (.outOfRange a.name v a.maximum .above), a, store) := by
  simp [writeInPlace_eq, write, checkValue, h.isRegistered, hv]

theorem Placed.writeInPlace_of_below (h : a.Placed) {v : Int32} (hle : ¬ a.maximum < v)
    (hv : v < a.minimum) : writeInPlace direction edge v (a, store) =
      (.failed (.outOfRange a.name v a.minimum .below), a, store) := by
  simp [writeInPlace_eq, write, checkValue, h.isRegistered, hle, hv]

theorem Sound.allOnes_refused (h : a.Sound) (hplaced : a.Placed) (hnegates : a.negates = true)
    (hin : a.forward.InStore store edge) (hones : a.forward.AllOnes store edge) :
    ∃ v, a.read .forward edge store = .done v ∧
      (a.bits.toNat < 32 ∧ v.toInt = a.maximum.toInt + 1 ∧
          writeInPlace .forward edge v (a, store) =
            (.failed (.outOfRange a.name v a.maximum .above), a, store) ∨
        a.bits.toNat = 32 ∧ v = Int32.minValue ∧
          writeInPlace .forward edge v (a, store) =
            (.failed (.outOfRange a.name v a.minimum .below), a, store)) := by
  obtain ⟨v, hread, hv⟩ := h.read_allOnes hplaced hnegates hin hones
  refine ⟨v, hread, ?_⟩
  rcases h.maximum_of_negates hnegates with ⟨hbits, htop⟩ | ⟨hbits, htop⟩
  · have hwrapped : v = Int32.minValue := by
      apply Int32.toInt_inj.mp
      rw [hv, htop]
      decide
    have hmin : v.toInt = neverWritten.toInt := congrArg Int32.toInt hwrapped
    have hbelow := h.neverWritten_lt
    have horder := h.inRange_minimum.2
    refine .inr ⟨hbits, hwrapped, hplaced.writeInPlace_of_below ?_ ?_⟩
    · rw [Int32.lt_iff_toInt_lt]
      omega
    · rw [Int32.lt_iff_toInt_lt]
      omega
  · have hnext : v.toInt = a.maximum.toInt + 1 := by
      have hlow := a.maximum.le_toInt
      rw [hv]
      apply Int.bmod_eq_of_le <;> omega
    refine .inl ⟨hbits, hnext, hplaced.writeInPlace_of_above ?_⟩
    rw [Int32.lt_iff_toInt_lt]
    omega

/-- A value that was read can be written back for the same direction, and this changes no byte. In
an attribute that negates, all ones in the slot are read as no value that can be written. -/
theorem write_undoes_read (h : a.InUse) (hslot : a.slot? (a.side direction) = some slot)
    (hin : slot.InStore store edge)
    (hwritable : direction = .reverse → a.negates = true ∨ a.twoDirections = true) :
    (¬ (a.negates = true ∧ slot.AllOnes store edge) →
      ∃ v b, a.read direction edge store = .done v ∧ a.InRange v.toInt ∧
        a.write direction edge v store = (b, .done store)) ∧
    (a.negates = true ∧ slot.AllOnes store edge →
      ∃ v, a.read .forward edge store = .done v ∧ ¬ a.InRange v.toInt ∧
        (a.bits.toNat < 32 ∧ v.toInt = a.maximum.toInt + 1 ∧
            writeInPlace .forward edge v (a, store) =
              (.failed (.outOfRange a.name v a.maximum .above), a, store) ∨
          a.bits.toNat = 32 ∧ v = Int32.minValue ∧
            writeInPlace .forward edge v (a, store) =
              (.failed (.outOfRange a.name v a.minimum .below), a, store))) := by
  obtain ⟨hsound, hplaced⟩ := h.sound_placed
  refine ⟨hsound.exists_write_back hplaced hslot hin hwritable, ?_⟩
  rintro ⟨hnegates, hones⟩
  have hforward : a.forward = slot := by
    simpa [side, hsound.oneDirection hnegates, slot?] using hslot
  subst hforward
  obtain ⟨v, hread, hrefused⟩ := hsound.allOnes_refused hplaced hnegates hin hones
  refine ⟨v, hread, ?_, hrefused⟩
  rintro ⟨hlow, hhigh⟩
  rcases hrefused with ⟨_, hnext, _⟩ | ⟨_, rfl, _⟩
  · omega
  · exact absurd hsound.neverWritten_lt (Int.not_lt.mpr hlow)

theorem balance_inUse : Schema.balance.InUse :=
  ⟨neverWritten, Schema.balance.withoutSlots, .initial, _, 32,
    ⟨{}, "balance", { bits := 31, negates := true }, by cbv⟩, rfl⟩

def fullStore : EdgeStore where
  bytesPerEdge := 4
  bytes := #[0xff, 0xff, 0xff, 0xff]
  whole := by decide

theorem write_undoes_read_slope :
    let slope := Schema.slope
    let balance := Schema.balance
    let store := Schema.wornStore
    (slope.InUse ∧ slope.forward.InStore store 0 ∧ ¬ slope.forward.AllOnes store 0 ∧
      slope.read .reverse 0 store = .done (-65) ∧
      ∃ b, slope.write .reverse 0 (-65) store = (b, .done store)) ∧
    (slope.forward.InStore store 1 ∧ slope.forward.AllOnes store 1 ∧
      slope.read .forward 1 store = .done 128 ∧
      writeInPlace .forward 1 128 (slope, store) =
        (.failed (.outOfRange "slope" 128 127 .above), slope, store)) ∧
    balance.InUse ∧ balance.forward.InStore fullStore 0 ∧ balance.forward.AllOnes fullStore 0 ∧
      balance.read .forward 0 fullStore = .done Int32.minValue ∧
      writeInPlace .forward 0 Int32.minValue (balance, fullStore) =
        (.failed (.outOfRange "balance" Int32.minValue (-2147483647) .below), balance,
          fullStore) := by
  intro slope balance store
  have hslot (direction : Direction) : slope.slot? (slope.side direction) = some slope.forward := by
    cases direction <;> rfl
  have hin (edge : Nat) (hedge : edge < 2) : slope.forward.InStore store edge := by
    have hplace : edge = 0 ∨ edge = 1 := by omega
    rcases hplace with rfl | rfl <;> decide
  have hfull : balance.forward.InStore fullStore 0 := by decide
  have hrun := slope_inUse.sound_placed.2.isRun_of_slot? (hslot .forward)
  have hmixed : ¬ slope.forward.AllOnes store 0 := by
    rw [hrun.allOnes_iff]
    decide
  have hones : slope.forward.AllOnes store 1 := by
    rw [hrun.allOnes_iff]
    decide
  have hones' : balance.forward.AllOnes fullStore 0 := by
    rw [(balance_inUse.sound_placed.2.isRun List.mem_cons_self).allOnes_iff]
    decide
  have hreads : slope.read .reverse 0 store = .done (-65) ∧
      slope.read .forward 1 store = .done 128 ∧
      balance.read .forward 0 fullStore = .done Int32.minValue := ⟨by cbv, by cbv, by cbv⟩
  obtain ⟨hback, _⟩ :=
    write_undoes_read slope_inUse (hslot .reverse) (hin 0 (by decide)) (fun _ => .inl rfl)
  obtain ⟨v, b, hv, _, hwrite⟩ := hback fun hc => hmixed hc.2
  obtain rfl := Outcome.done.inj (hv.symm.trans hreads.1)
  obtain ⟨_, hunused⟩ := write_undoes_read slope_inUse (hslot .forward) (hin 1 (by decide)) (by simp)
  obtain ⟨w, hw, _, hrefused⟩ := hunused ⟨rfl, hones⟩
  obtain rfl := Outcome.done.inj (hw.symm.trans hreads.2.1)
  have hforward : balance.slot? (balance.side .forward) = some balance.forward := rfl
  obtain ⟨_, hunused'⟩ := write_undoes_read balance_inUse hforward hfull (by simp)
  obtain ⟨u, hu, _, hrefused'⟩ := hunused' ⟨rfl, hones'⟩
  obtain rfl := Outcome.done.inj (hu.symm.trans hreads.2.2)
  refine ⟨⟨slope_inUse, hin 0 (by decide), hmixed, hreads.1, b, hwrite⟩,
    ⟨hin 1 (by decide), hones, hreads.2.1, ?_⟩, balance_inUse, hfull, hones', hreads.2.2, ?_⟩
  · rcases hrefused with ⟨_, _, hrefused⟩ | ⟨hbits, _⟩
    · exact hrefused
    · exact absurd hbits (by decide)
  · rcases hrefused' with ⟨hbits, _⟩ | ⟨_, _, hrefused⟩
    · exact absurd hbits (by decide)
    · exact hrefused

end

end Attribute

end PackedEdges
