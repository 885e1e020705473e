import PackedEdges.Proofs.AttributeRange
import PackedEdges.Proofs.Registration
import PackedEdges.Proofs.SlotWrite

/-! What reads and writes of a placed attribute do. Every direction of travel leads to one of the
attribute's slots, and a value is stored there as it is or with its sign changed. The greatest
value stored so far plays no part in either. -/

namespace PackedEdges.Attribute

/-- The direction whose slot serves the given direction. -/
def side (a : Attribute) (direction : Direction) : Direction :=
  if a.twoDirections then direction else .forward

def slot? (a : Attribute) : Direction → Option Slot
  | .forward => some a.forward
  | .reverse => a.reverse

/-- Turns a value between a slot and a direction. -/
def turn {α : Type} [Neg α] (a : Attribute) (direction : Direction) (v : α) : α :=
  if a.negates ∧ direction = .reverse then -v else v

theorem turn_turn (a : Attribute) (direction : Direction) (v : Int) :
    a.turn direction (a.turn direction v) = v := by
  by_cases hn : a.negates = true ∧ direction = .reverse <;> simp [turn, hn]

/-- The values that can be written for a direction. -/
def Accepts (a : Attribute) (direction : Direction) (v : Int) : Prop :=
  a.InRange v ∧ (direction = .reverse → a.negates = true ∨ a.twoDirections = true)

instance (a : Attribute) (v : Int) : Decidable (a.InRange v) :=
  inferInstanceAs (Decidable (_ ∧ _))

instance (a : Attribute) (direction : Direction) (v : Int) : Decidable (a.Accepts direction v) :=
  inferInstanceAs (Decidable (_ ∧ (_ → _)))

def withGreatest (a : Attribute) (greatest : Int32) : Attribute :=
  { a with greatest }

@[simp] theorem name_withGreatest (a : Attribute) (greatest : Int32) :
    (a.withGreatest greatest).name = a.name := rfl

def greater (v w : Int32) : Int32 :=
  if v < w then w else v

theorem toInt_greater (v w : Int32) : (greater v w).toInt = max v.toInt w.toInt := by
  simp only [greater, Int32.lt_iff_toInt_lt]
  split_ifs <;> omega

theorem greater_right_comm (u v w : Int32) :
    greater (greater u v) w = greater (greater u w) v := by
  apply Int32.toInt_inj.mp
  rw [toInt_greater, toInt_greater, toInt_greater, toInt_greater]
  exact max_right_comm _ _ _

theorem mem_slots_iff {a : Attribute} {slot : Slot} :
    slot ∈ a.slots ↔ ∃ side, a.slot? side = some slot := by
  constructor
  · intro h
    rcases List.mem_cons.mp h with rfl | hback
    · exact ⟨.forward, rfl⟩
    · exact ⟨.reverse, by simpa [slot?] using hback⟩
  · rintro ⟨side, hside⟩
    cases side with
    | forward =>
      cases hside
      exact List.mem_cons_self
    | reverse =>
      have hback : a.reverse = some slot := hside
      simp [slots, hback]

theorem side_cases (a : Attribute) (direction : Direction) :
    a.side direction = .forward ∧ ¬ (a.twoDirections = true ∧ direction = .reverse) ∨
      a.side direction = .reverse ∧ a.twoDirections = true ∧ direction = .reverse := by
  cases direction with
  | forward => simp [side]
  | reverse =>
    by_cases htwo : a.twoDirections = true
    · exact .inr ⟨by simp [side, htwo], htwo, rfl⟩
    · exact .inl ⟨by simp [side, htwo], by simp [htwo]⟩

theorem read_withGreatest (a : Attribute) (greatest : Int32) (direction : Direction) (edge : Nat)
    (store : EdgeStore) : (a.withGreatest greatest).read direction edge store =
      a.read direction edge store := rfl

namespace Placed

variable {a : Attribute}

theorem isRun_of_slot? (h : a.Placed) {side : Direction} {slot : Slot}
    (hslot : a.slot? side = some slot) : slot.IsRun a.bits.toNat :=
  h.isRun (mem_slots_iff.mpr ⟨side, hslot⟩)

theorem isRegistered (h : a.Placed) : a.isRegistered = true := by
  have hrun := h.isRun (mem_slots_iff.mpr ⟨.forward, rfl⟩)
  simpa [Attribute.isRegistered] using hrun.isPlaced

theorem exists_slot (h : a.Placed) (direction : Direction) :
    ∃ slot, a.slot? (a.side direction) = some slot := by
  rcases a.side_cases direction with ⟨hside, _⟩ | ⟨hside, htwo, _⟩
  · exact ⟨a.forward, by rw [hside]; rfl⟩
  · rw [hside]
    exact Option.isSome_iff_exists.mp (h.isSome_reverse.trans htwo)

theorem checkValue_eq_ok_iff (h : a.Placed) {v : Int32} :
    a.checkValue v = .ok () ↔ a.InRange v.toInt := by
  simp only [checkValue, h.isRegistered, InRange, Int32.lt_iff_toInt_lt]
  split_ifs <;> simp_all

end Placed

namespace Sound

theorem of_withoutSlots {a : Attribute} (h : a.withoutSlots.Sound) : a.Sound :=
  ⟨h.bits_pos, h.bits_le, h.range_eq, h.neverWritten_lt, h.symmetric, h.oneDirection⟩

variable {a : Attribute} {direction : Direction} {slot : Slot} {store : EdgeStore} {edge : Nat}

theorem turn_inRange (h : a.Sound) (direction : Direction) {v : Int} (hv : a.InRange v) :
    a.InRange (a.turn direction v) := by
  by_cases hn : a.negates = true ∧ direction = .reverse
  · rw [turn, if_pos hn]
    exact h.inRange_neg hn.1 hv
  · rwa [turn, if_neg hn]

theorem toInt_turn (h : a.Sound) (direction : Direction) {v : Int32} (hv : a.InRange v.toInt) :
    (a.turn direction v).toInt = a.turn direction v.toInt := by
  by_cases hn : a.negates = true ∧ direction = .reverse
  · rw [turn, turn, if_pos hn, if_pos hn, h.toInt_neg hv]
  · rw [turn, turn, if_neg hn, if_neg hn]

theorem read_eq (h : a.Sound) (hplaced : a.Placed) (hslot : a.slot? (a.side direction) = some slot)
    {v : Int32} (hvalue : a.valueIn slot store edge = .done v) :
    a.read direction edge store = .done (a.turn direction v) := by
  rcases a.side_cases direction with ⟨hside, hdir⟩ | ⟨hside, hdir⟩
  · have hforward : a.forward = slot := by simpa [hside, slot?] using hslot
    simp only [read, hplaced.isRegistered, hdir, hforward, hvalue, turn]
    rfl
  · have hback : a.reverse = some slot := by simpa [hside, slot?] using hslot
    have hturn : a.turn direction v = v := by
      rw [turn, if_neg]
      rintro ⟨hneg, _⟩
      simp [h.oneDirection hneg] at hdir
    rw [hturn]
    simp [read, hplaced.isRegistered, hdir, hback, hvalue]

theorem read_of_inStore (h : a.Sound) (hplaced : a.Placed)
    (hslot : a.slot? (a.side direction) = some slot) (hin : slot.InStore store edge) :
    a.read direction edge store = .done
      (a.turn direction (a.decode (UInt32.ofNat (slot.field a.bits.toNat store edge)))) := by
  apply h.read_eq hplaced hslot
  simp [valueIn, (hplaced.isRun_of_slot? hslot).value?_eq hin]

theorem read_congr (h : a.Sound) (hplaced : a.Placed)
    (hslot : a.slot? (a.side direction) = some slot) (hin : slot.InStore store edge)
    {store' : EdgeStore} {edge' : Nat} (hin' : slot.InStore store' edge')
    (hbit : ∀ i ∈ slot.recordBits, store'.recordBit edge' i = store.recordBit edge i) :
    ∃ v, a.read direction edge store = .done v ∧ a.read direction edge' store' = .done v := by
  have hfield := (hplaced.isRun_of_slot? hslot).field_congr hbit
  refine ⟨_, h.read_of_inStore hplaced hslot hin, ?_⟩
  rw [h.read_of_inStore hplaced hslot hin', hfield]

theorem exists_read (h : a.Sound) (hplaced : a.Placed)
    (hslot : a.slot? (a.side direction) = some slot) (hin : slot.InStore store edge) {v : Int}
    (hv : a.InRange v)
    (hfield : (slot.field a.bits.toNat store edge : Int) = v - a.minimum.toInt) :
    ∃ w, a.read direction edge store = .done w ∧ w.toInt = a.turn direction v := by
  have hdecode := toInt_decode_of_eq hv hfield
  refine ⟨_, h.read_of_inStore hplaced hslot hin, ?_⟩
  rw [h.toInt_turn direction (by rwa [hdecode]), hdecode]

theorem target_of_accepts (h : a.Sound) (hslot : a.slot? (a.side direction) = some slot)
    {v : Int32} (hv : a.Accepts direction v.toInt) :
    a.target direction v = .ok (slot, a.turn direction v) := by
  cases direction with
  | forward =>
    have hforward : a.forward = slot := by simpa [side, slot?] using hslot
    simp [target, turn, hforward]
  | reverse =>
    by_cases hneg : a.negates = true
    · have hforward : a.forward = slot := by simpa [side, h.oneDirection hneg, slot?] using hslot
      simp [target, turn, hneg, hforward]
    · have htwo : a.twoDirections = true := (hv.2 rfl).resolve_left hneg
      have hback : a.reverse = some slot := by simpa [side, htwo, slot?] using hslot
      simp [target, turn, hneg, htwo, hback]

/-- An accepted write notes the turned value and puts it into the slot that serves the direction. -/
theorem write_of_accepts (h : a.Sound) (hplaced : a.Placed)
    (hslot : a.slot? (a.side direction) = some slot) {v : Int32}
    (hv : a.Accepts direction v.toInt) (greatest : Int32) (edge : Nat) (store : EdgeStore) :
    (a.withGreatest greatest).write direction edge v store =
      (a.withGreatest (greater greatest (a.turn direction v)),
        .ofOption (putRaw slot (a.encode (a.turn direction v)) edge store)) := by
  have hcheck : (a.withGreatest greatest).checkValue v = .ok () :=
    hplaced.checkValue_eq_ok_iff.mpr hv.1
  have htarget : (a.withGreatest greatest).target direction v = .ok (slot, a.turn direction v) :=
    h.target_of_accepts hslot hv
  simp only [write, hcheck, htarget]
  rfl

theorem exists_write (h : a.Sound) (hplaced : a.Placed)
    (hslot : a.slot? (a.side direction) = some slot) (hin : slot.InStore store edge) {v : Int32}
    (hv : a.Accepts direction v.toInt) (greatest : Int32) :
    ∃ (n : Nat) (store' : EdgeStore),
      (n : Int) = a.turn direction v.toInt - a.minimum.toInt ∧ n < 2 ^ a.bits.toNat ∧
      (a.withGreatest greatest).write direction edge v store =
        (a.withGreatest (greater greatest (a.turn direction v)), .done store') ∧
      store.Overwritten store' (8 * store.recordStart edge + slot.start) a.bits.toNat n := by
  have hstored : a.InRange (a.turn direction v).toInt := by
    rw [h.toInt_turn direction hv.1]
    exact h.turn_inRange direction hv.1
  obtain ⟨store', hput, hover⟩ :=
    (hplaced.isRun_of_slot? hslot).putRaw hin (h.encode_lt hstored)
  refine ⟨_, store', ?_, h.encode_lt hstored, ?_, hover⟩
  · rw [toNat_encode hstored.1, h.toInt_turn direction hv.1]
  · rw [h.write_of_accepts hplaced hslot hv, hput]
    rfl

end Sound

theorem Placed.write_of_not_accepts {a : Attribute} (h : a.Placed) {direction : Direction}
    {v : Int32} (hv : ¬ a.Accepts direction v.toInt) (greatest : Int32) (edge : Nat)
    (store : EdgeStore) : ∃ e, (a.withGreatest greatest).write direction edge v store =
      (a.withGreatest greatest, .failed e) := by
  have hsame : (a.withGreatest greatest).checkValue v = a.checkValue v := rfl
  by_cases hrange : a.InRange v.toInt
  · have hcheck : a.checkValue v = .ok () := h.checkValue_eq_ok_iff.mpr hrange
    have hdir : ¬ (direction = .reverse → a.negates = true ∨ a.twoDirections = true) :=
      fun hc => hv ⟨hrange, hc⟩
    rw [Classical.not_imp, not_or] at hdir
    obtain ⟨rfl, hneg, htwo⟩ := hdir
    have htarget : (a.withGreatest greatest).target .reverse v =
        .error (.directionConflict a.name) := by
      simp [target, withGreatest, hneg, htwo]
    exact ⟨.directionConflict a.name, by simp only [write, hsame, hcheck, htarget]⟩
  · cases hcheck : a.checkValue v with
    | error e => exact ⟨e, by simp only [write, hsame, hcheck]⟩
    | ok u => exact absurd (h.checkValue_eq_ok_iff.mp hcheck) hrange

end PackedEdges.Attribute
