import Mathlib.Data.Nat.Bitwise
import PackedEdges.EdgeStore

/-! The bits of an edge store, counted from the lowest bit of its first byte. Words, bytes and
slots are numbers that some of these bits form, so what one access leaves alone and what it
changes can be said bit by bit. -/

namespace PackedEdges

theorem testBit_eq_false {n width j : Nat} (hn : n < 2 ^ width) (h : width ≤ j) :
    n.testBit j = false := by
  apply Nat.testBit_lt_two_pow
  exact lt_of_lt_of_le hn (Nat.pow_le_pow_right Nat.two_pos h)

theorem mul_two_pow_lt {n width shift : Nat} (hn : n < 2 ^ width) (hfits : shift + width ≤ 32) :
    n * 2 ^ shift < 2 ^ 32 := by
  calc n * 2 ^ shift
      < 2 ^ width * 2 ^ shift := Nat.mul_lt_mul_of_pos_right hn (Nat.two_pow_pos _)
    _ = 2 ^ (width + shift) := (Nat.pow_add 2 width shift).symm
    _ ≤ 2 ^ 32 := Nat.pow_le_pow_right Nat.two_pos (by omega)

namespace EdgeStore

def bit (store : EdgeStore) (i : Nat) : Bool :=
  (store.bytes[i / 8]?.getD 0).toNat.testBit (i % 8)

/-- The number that `width` bits from bit `start` on form. -/
def number (store : EdgeStore) (start width : Nat) : Nat :=
  Nat.ofBits fun j : Fin width => store.bit (start + j)

theorem testBit_number (store : EdgeStore) (start width j : Nat) :
    (store.number start width).testBit j = (decide (j < width) && store.bit (start + j)) := by
  by_cases hj : j < width
  · rw [number, Nat.testBit_ofBits_lt _ j hj]
    simp [hj]
  · rw [number, Nat.testBit_ofBits_ge _ j (by omega)]
    simp [hj]

theorem number_lt (store : EdgeStore) (start width : Nat) :
    store.number start width < 2 ^ width :=
  Nat.ofBits_lt_two_pow _

theorem eq_number_of_testBit {store : EdgeStore} {start width n : Nat}
    (h : ∀ j, n.testBit j = (decide (j < width) && store.bit (start + j))) :
    n = store.number start width := by
  apply Nat.eq_of_testBit_eq
  intro j
  rw [h j, testBit_number]

theorem bit_getElem {store : EdgeStore} {p j : Nat} {b : UInt8} (h : store.bytes[p]? = some b) :
    b.toNat.testBit j = (decide (j < 8) && store.bit (8 * p + j)) := by
  by_cases hj : j < 8
  · have hdiv : (8 * p + j) / 8 = p := by omega
    have hmod : (8 * p + j) % 8 = j := by omega
    simp [bit, hdiv, hmod, hj, h]
  · rw [testBit_eq_false b.toNat_lt (by omega)]
    simp [hj]

theorem eq_of_bit_eq {store store' : EdgeStore} (hrecord : store.bytesPerEdge = store'.bytesPerEdge)
    (hsize : store.bytes.size = store'.bytes.size)
    (hbit : ∀ i < 8 * store.bytes.size, store.bit i = store'.bit i) : store = store' := by
  have hbytes : store.bytes = store'.bytes := by
    apply Array.ext hsize
    intro p hp hp'
    apply UInt8.toNat_inj.mp
    apply Nat.eq_of_testBit_eq
    intro j
    rw [bit_getElem (Array.getElem?_eq_getElem hp),
      bit_getElem (Array.getElem?_eq_getElem hp')]
    by_cases hj : j < 8
    · rw [hbit _ (by omega)]
    · simp [hj]
  cases store
  cases store'
  simp_all

def recordBit (store : EdgeStore) (edge i : Nat) : Bool :=
  store.bit (8 * store.recordStart edge + i)

theorem recordStart_add_inj {store : EdgeStore} {edge edge' i i' : Nat}
    (hi : i < 8 * store.bytesPerEdge) (hi' : i' < 8 * store.bytesPerEdge)
    (h : 8 * store.recordStart edge + i = 8 * store.recordStart edge' + i') :
    edge = edge' ∧ i = i' := by
  have hstart (e : Nat) : 8 * store.recordStart e = 8 * store.bytesPerEdge * e := by
    rw [recordStart, Nat.mul_comm e, Nat.mul_assoc]
  rw [hstart, hstart] at h
  have hdiv := congrArg (· / (8 * store.bytesPerEdge)) h
  simp only [Nat.mul_add_div (show 0 < 8 * store.bytesPerEdge by omega), Nat.div_eq_of_lt hi,
    Nat.div_eq_of_lt hi', Nat.add_zero] at hdiv
  subst hdiv
  exact ⟨rfl, by omega⟩

theorem eq_of_recordBit_eq {store store' : EdgeStore} {edges : Nat}
    (hrecord : store.bytesPerEdge = store'.bytesPerEdge)
    (hsize : store.bytes.size = edges * store.bytesPerEdge)
    (hsize' : store'.bytes.size = edges * store'.bytesPerEdge)
    (hbit : ∀ edge < edges, ∀ i < 8 * store.bytesPerEdge,
      store.recordBit edge i = store'.recordBit edge i) : store = store' := by
  apply eq_of_bit_eq hrecord (by rw [hsize, hsize', hrecord])
  intro i hi
  have hlt : i < 8 * store.bytesPerEdge * edges := by
    rwa [hsize, Nat.mul_comm edges, ← Nat.mul_assoc] at hi
  have hpos : 0 < 8 * store.bytesPerEdge := by
    by_contra hz
    simp [show 8 * store.bytesPerEdge = 0 by omega] at hlt
  have hplace : 8 * store.recordStart (i / (8 * store.bytesPerEdge)) +
      i % (8 * store.bytesPerEdge) = i := by
    rw [recordStart, Nat.mul_comm (i / _), ← Nat.mul_assoc, Nat.div_add_mod]
  have heq := hbit _ (Nat.div_lt_of_lt_mul hlt) _ (Nat.mod_lt i hpos)
  have hstart : store'.recordStart (i / (8 * store.bytesPerEdge)) =
      store.recordStart (i / (8 * store.bytesPerEdge)) := by
    simp only [recordStart, hrecord]
  rwa [recordBit, recordBit, hstart, hplace] at heq

theorem byte?_isSome_iff {store : EdgeStore} {edge offset : Nat} :
    (store.byte? edge offset).isSome ↔ store.recordStart edge + offset < store.bytes.size := by
  simp [byte?]

theorem exists_byte {store : EdgeStore} {edge offset : Nat}
    (h : store.recordStart edge + offset < store.bytes.size) :
    ∃ b, store.byte? edge offset = some b :=
  Option.isSome_iff_exists.mp (byte?_isSome_iff.mpr h)

theorem testBit_lowestByte {store : EdgeStore} {edge offset j : Nat} {b : UInt8}
    (h : store.byte? edge offset = some b) : b.toUInt32.toNat.testBit j =
      (decide (j < 8) && store.bit (8 * (store.recordStart edge + offset) + j)) := by
  rw [UInt8.toNat_toUInt32]
  exact bit_getElem h

/-- The byte that lies `k` bytes behind `offset`, shifted to its place in a word. -/
theorem testBit_shiftedByte {store : EdgeStore} {edge offset k j : Nat} {b : UInt8} {s : UInt32}
    (h : store.byte? edge (offset + k) = some b) (hs : s.toNat = 8 * k) (hk : k < 4)
    (hj : j < 32) : (b.toUInt32 <<< s).toNat.testBit j =
      (decide (8 * k ≤ j ∧ j < 8 * k + 8) &&
        store.bit (8 * (store.recordStart edge + offset) + j)) := by
  rw [UInt32.toNat_shiftLeft, Nat.testBit_mod_two_pow, Nat.testBit_shiftLeft, hs,
    Nat.mod_eq_of_lt (show 8 * k < 32 by omega), testBit_lowestByte h]
  by_cases hin : 8 * k ≤ j ∧ j < 8 * k + 8
  · have he : 8 * (store.recordStart edge + (offset + k)) + (j - 8 * k) =
        8 * (store.recordStart edge + offset) + j := by omega
    simp [hin, hj, he, show j - 8 * k < 8 by omega]
  · simp only [hin, decide_false, Bool.false_and]
    by_cases hle : 8 * k ≤ j
    · simp [show ¬ j - 8 * k < 8 by omega]
    · simp [hle]

theorem word?_isSome_iff {store : EdgeStore} {edge offset : Nat} :
    (store.word? edge offset).isSome ↔
      store.recordStart edge + offset + 4 ≤ store.bytes.size := by
  constructor
  · intro h
    obtain ⟨w, hw⟩ := Option.isSome_iff_exists.mp h
    simp only [word?, Option.bind_eq_bind, Option.bind_eq_some_iff] at hw
    obtain ⟨_, _, _, _, _, _, b₃, h₃, _⟩ := hw
    have hlast := byte?_isSome_iff.mp (Option.isSome_of_eq_some h₃)
    omega
  · intro h
    have hbyte (k : Nat) (hk : k < 4) : ∃ b, store.byte? edge (offset + k) = some b :=
      exists_byte (by omega)
    obtain ⟨b₀, h₀⟩ := hbyte 0 (by omega)
    obtain ⟨b₁, h₁⟩ := hbyte 1 (by omega)
    obtain ⟨b₂, h₂⟩ := hbyte 2 (by omega)
    obtain ⟨b₃, h₃⟩ := hbyte 3 (by omega)
    rw [Nat.add_zero] at h₀
    simp [word?, h₀, h₁, h₂, h₃]

theorem testBit_of_word? {store : EdgeStore} {edge offset j : Nat} {w : UInt32}
    (h : store.word? edge offset = some w) (hj : j < 32) :
    w.toNat.testBit j = store.bit (8 * (store.recordStart edge + offset) + j) := by
  simp only [word?, Option.bind_eq_bind, Option.bind_eq_some_iff, Option.pure_def,
    Option.some.injEq] at h
  obtain ⟨b₀, h₀, b₁, h₁, b₂, h₂, b₃, h₃, rfl⟩ := h
  simp only [wordOfBytes, UInt32.toNat_or, Nat.testBit_or, testBit_lowestByte h₀,
    testBit_shiftedByte h₁ (s := 8) rfl (by decide) hj,
    testBit_shiftedByte h₂ (s := 16) rfl (by decide) hj,
    testBit_shiftedByte h₃ (s := 24) rfl (by decide) hj]
  rw [← Bool.and_or_distrib_right, ← Bool.and_or_distrib_right, ← Bool.and_or_distrib_right]
  have hplace : j < 8 ∨ (8 ≤ j ∧ j < 16) ∨ (16 ≤ j ∧ j < 24) ∨ 24 ≤ j := by omega
  rcases hplace with hp | hp | hp | hp <;> simp [hp, hj]

theorem getElem?_overwrite (bytes : Array UInt8) (pos : Nat) (new : List UInt8) (p : Nat)
    (h : pos + new.length ≤ bytes.size) :
    (overwrite bytes pos new)[p]? =
      if pos ≤ p ∧ p < pos + new.length then new[p - pos]? else bytes[p]? := by
  induction new generalizing bytes pos with
  | nil => simp [overwrite, show ¬ (pos ≤ p ∧ p < pos) by omega]
  | cons b new ih =>
    simp only [List.length_cons] at h
    rw [overwrite, ih _ _ (by simp; omega)]
    by_cases hp : p = pos
    · subst p
      rw [if_neg (by omega), Array.getElem?_setIfInBounds_self_of_lt (by omega)]
      simp
    · rw [Array.getElem?_setIfInBounds_ne (by omega)]
      by_cases hin : pos + 1 ≤ p ∧ p < pos + 1 + new.length
      · rw [if_pos hin, if_pos (by simp; omega), show p - pos = p - (pos + 1) + 1 by omega]
        rfl
      · rw [if_neg hin, if_neg (by simp; omega)]

theorem testBit_wordBytes {value : UInt32} {k j : Nat} {b : UInt8} (hj : j < 8)
    (h : (wordBytes value)[k]? = some b) : b.toNat.testBit j = value.toNat.testBit (8 * k + j) := by
  have hk : k < 4 := by simpa [wordBytes] using (List.getElem?_eq_some_iff.mp h).1
  obtain rfl | rfl | rfl | rfl : k = 0 ∨ k = 1 ∨ k = 2 ∨ k = 3 := by omega
  all_goals
    simp only [wordBytes, List.getElem?_cons_zero, List.getElem?_cons_succ,
      Option.some.injEq] at h
    subst b
    rw [UInt32.toNat_toUInt8, Nat.testBit_mod_two_pow]
    simp [hj]

theorem setWord?_isSome_iff {store : EdgeStore} {edge offset : Nat} {value : UInt32} :
    (store.setWord? edge offset value).isSome ↔
      store.recordStart edge + offset + 4 ≤ store.bytes.size := by
  simp [setWord?, write?, wordBytes]

theorem bit_of_setWord? {store store' : EdgeStore} {edge offset : Nat} {value : UInt32}
    (h : store.setWord? edge offset value = some store') (i : Nat) :
    let first := 8 * (store.recordStart edge + offset)
    store'.bit i =
      if first ≤ i ∧ i < first + 32 then value.toNat.testBit (i - first) else store.bit i := by
  intro first
  simp only [setWord?, write?, Option.ite_none_right_eq_some, Option.some.injEq] at h
  obtain ⟨hin, rfl⟩ := h
  simp only [bit, getElem?_overwrite _ _ _ _ hin]
  have hlen : (wordBytes value).length = 4 := rfl
  by_cases hi : first ≤ i ∧ i < first + 32
  · have hpos : store.recordStart edge + offset ≤ i / 8 ∧
        i / 8 < store.recordStart edge + offset + 4 := by omega
    rw [hlen, if_pos hpos, if_pos hi]
    obtain ⟨b, hb⟩ := Option.isSome_iff_exists.mp
      (show ((wordBytes value)[i / 8 - (store.recordStart edge + offset)]?).isSome by
        simp [hlen]; omega)
    rw [hb, Option.getD_some, testBit_wordBytes (Nat.mod_lt _ (by decide)) hb]
    congr 1
    omega
  · have hpos : ¬ (store.recordStart edge + offset ≤ i / 8 ∧
        i / 8 < store.recordStart edge + offset + 4) := by omega
    rw [hlen, if_neg hpos, if_neg hi]

end EdgeStore

end PackedEdges
