import Mathlib
import PackedEdges.Proofs.Registration
import PackedEdges.Proofs.AttributeRange

/-! Reading by bytes and reading by words. Where the word of a slot can be read, its bytes can be
read too and give the same number, so an attribute may be read either way. -/

namespace PackedEdges

namespace Slot.IsRun

variable {slot : Slot} {bits : UInt32}

theorem byteValue?_of_wordValue? (h : slot.IsRun bits.toNat) {store : EdgeStore} {edge : Nat}
    {raw : UInt32} (hraw : slot.wordValue? store edge = some raw) :
    slot.byteValue? store edge bits = some raw ∧ raw.toNat = slot.field bits.toNat store edge := by
  have hin := inStore_of_wordValue? hraw
  rw [h.wordValue?_eq hin, Option.some.injEq] at hraw
  subst raw
  exact ⟨h.byteValue?_eq hin, UInt32.toNat_ofNat_of_lt' (h.field_lt store edge)⟩

theorem wordValue?_eq_none (h : slot.IsRun bits.toNat) {store : EdgeStore} {edge : Nat}
    (hnone : slot.byteValue? store edge bits = none) : slot.wordValue? store edge = none := by
  by_contra hsome
  obtain ⟨raw, hraw⟩ := Option.ne_none_iff_exists'.mp hsome
  simp [(h.byteValue?_of_wordValue? hraw).1] at hnone

end Slot.IsRun

theorem Slot.field_eq (slot : Slot) (width : Nat) (store : EdgeStore) (edge : Nat) :
    slot.field width store edge = store.number
      (8 * (store.recordStart edge + slot.wordOffset) + slot.shift.toNat) width := by
  have he : 8 * store.recordStart edge + slot.start =
      8 * (store.recordStart edge + slot.wordOffset) + slot.shift.toNat := by
    simp only [start, wordOffset]
    omega
  rw [field, he]

namespace Attribute

/-- Every slot that the attribute can read from is a run of its bits. -/
structure ReadsRuns (a : Attribute) : Prop where
  forward : a.forward.IsRun a.bits.toNat
  reverse {slot : Slot} : a.twoDirections = true → a.reverse = some slot →
    slot.IsRun a.bits.toNat

theorem readsRuns_of_register {a b : Attribute} {cursor last : LayoutCursor} {taken : Nat}
    (h : a.register cursor = .done (taken, b, last)) : b.ReadsRuns := by
  obtain ⟨_, _, forward, next, hforward, ⟨htwo, rfl, rfl⟩ | ⟨reverse, htwo, hback, rfl⟩⟩ :=
    register_cases h
  · exact ⟨hforward.isRun, fun hc => absurd hc (by simp [htwo])⟩
  · refine ⟨hforward.isRun, ?_⟩
    intro slot _ he
    cases he
    exact hback.isRun

theorem valueIn_byBytes (a : Attribute) {slot : Slot} (h : slot.IsRun a.bits.toNat)
    {store : EdgeStore} {edge : Nat}
    (hword : { a with byBytes := false }.valueIn slot store edge ≠ .refused) :
    { a with byBytes := true }.valueIn slot store edge =
      { a with byBytes := false }.valueIn slot store edge := by
  cases hraw : slot.wordValue? store edge with
  | none => simp [valueIn, hraw] at hword
  | some raw => simp [valueIn, hraw, (h.byteValue?_of_wordValue? hraw).1, decode]

theorem read_byBytes {a : Attribute} (h : a.ReadsRuns) {direction : Direction} {edge : Nat}
    {store : EdgeStore}
    (hword : { a with byBytes := false }.read direction edge store ≠ .refused) :
    { a with byBytes := true }.read direction edge store =
      { a with byBytes := false }.read direction edge store := by
  have hregistered : a.isRegistered = true := by
    simpa [isRegistered] using h.forward.isPlaced
  by_cases hback : a.twoDirections = true ∧ direction = .reverse
  · rcases Option.eq_none_or_eq_some a.reverse with hreverse | ⟨slot, hreverse⟩
    · simp [read, isRegistered, hback, hreverse]
    · have hread (b : Bool) : { a with byBytes := b }.read direction edge store =
          { a with byBytes := b }.valueIn slot store edge := by
        change (if !a.isRegistered then _ else _) = _
        simp [hregistered, hback, hreverse]
      rw [hread] at hword
      rw [hread, hread]
      exact valueIn_byBytes a (h.reverse hback.1 hreverse) hword
  · have hread (b : Bool) : { a with byBytes := b }.read direction edge store =
        ({ a with byBytes := b }.valueIn a.forward store edge >>= fun value =>
          .done (if a.negates ∧ direction = .reverse then -value else value)) := by
      change (if !a.isRegistered then _ else _) = _
      simp [hregistered, hback]
      rfl
    rw [hread] at hword
    rw [hread, hread, valueIn_byBytes a h.forward]
    intro hrefused
    exact hword (by rw [hrefused]; rfl)

/-- Reading by bytes succeeds wherever reading the word does, with the number that the slot's bits
form in the little-endian word; so attributes that differ only in the way they are read agree. -/
theorem byteRead_eq_wordRead :
    (∀ (slot : Slot) (bits : UInt32), slot.IsRun bits.toNat →
      ∀ (store : EdgeStore) (edge : Nat),
        (∀ raw, slot.value? store edge bits false = some raw →
          slot.value? store edge bits true = some raw ∧ raw.toNat = store.number
            (8 * (store.recordStart edge + slot.wordOffset) + slot.shift.toNat) bits.toNat) ∧
        (slot.value? store edge bits true = none → slot.value? store edge bits false = none)) ∧
    (∀ a : Attribute, a.ReadsRuns → ∀ direction edge store,
      { a with byBytes := false }.read direction edge store ≠ .refused →
        { a with byBytes := true }.read direction edge store =
          { a with byBytes := false }.read direction edge store) ∧
    ∀ (a b : Attribute) (cursor last : LayoutCursor) (taken : Nat),
      a.register cursor = .done (taken, b, last) → b.ReadsRuns := by
  refine ⟨?_, fun a h direction edge store hword => read_byBytes h hword,
    fun a b cursor last taken h => readsRuns_of_register h⟩
  intro slot bits h store edge
  refine ⟨?_, h.wordValue?_eq_none⟩
  intro raw hraw
  obtain ⟨hbyte, hnat⟩ := h.byteValue?_of_wordValue? hraw
  exact ⟨hbyte, by rw [hnat, Slot.field_eq]⟩

theorem byteRead_eq_wordRead_threeBytes :
    let store : EdgeStore :=
      { bytesPerEdge := 4, bytes := #[0xef, 0xbe, 0xad, 0xde], whole := by decide }
    let slot := LayoutCursor.slotAt 5 14
    let a := ofSettings "lanes" { bits := 14 }
    let b := { a with forward := slot }
    slot.IsRun 14 ∧ slot.value? store 0 14 false = some 11767 ∧
      slot.value? store 0 14 true = some 11767 ∧
      a.register { position := 5, requested := 5 } =
        .done (14, b, { position := 19, requested := 19 }) ∧
      { b with byBytes := false }.read .forward 0 store = .done 11767 ∧
      { b with byBytes := true }.read .forward 0 store = .done 11767 := by
  intro store slot a b
  have hrun : slot.IsRun 14 := LayoutCursor.isRun_slotAt (by decide) (by decide)
  have hword : slot.value? store 0 14 false = some 11767 := by decide
  have hregister : a.register { position := 5, requested := 5 } =
      .done (14, b, { position := 19, requested := 19 }) := rfl
  have hread : { b with byBytes := false }.read .forward 0 store = .done 11767 := by cbv
  refine ⟨hrun, hword, ((byteRead_eq_wordRead.1 slot 14 hrun store 0).1 11767 hword).1, hregister,
    hread, ?_⟩
  rw [byteRead_eq_wordRead.2.1 b (byteRead_eq_wordRead.2.2 _ _ _ _ _ hregister), hread]
  simp [hread]

end Attribute

end PackedEdges
