import Mathlib.Order.CompletePartialOrder
import Mathlib.Order.Interval.Set.Disjoint
import PackedEdges.LayoutCursor
import PackedEdges.Proofs.SlotRead

/-! Runs of the layout cursor. Every granted slot lies behind the slots granted before it, so the
slots of a run share no bit, and the last one lies in the last word that the record needs. -/

namespace PackedEdges.LayoutCursor

theorem start_mod_add_le (cursor : LayoutCursor) {width : Nat} (hw : width ≤ 32) :
    cursor.start width % 32 + width ≤ 32 := by
  simp only [start]
  split <;> omega

theorem isRun_slotAt {bit width : Nat} (hw : 0 < width) (hfit : bit % 32 + width ≤ 32) :
    (slotAt bit width).IsRun width := by
  have hshift : (slotAt bit width).shift.toNat = bit % 32 := by
    simp only [slotAt]
    exact UInt32.toNat_ofNat_of_lt' (lt_of_lt_of_le (Nat.mod_lt bit (by decide)) (by decide))
  refine ⟨hw, by omega, ?_⟩
  intro j
  rw [hshift]
  simp only [slotAt, Slot.testBit_run]
  by_cases hj : j < bit % 32 + width
  · simp [hj, show j < 32 by omega]
  · simp [hj]

structure Granted (cursor : LayoutCursor) (bits : UInt32) (slot : Slot) (next : LayoutCursor) :
    Prop where
  grantable : cursor.Grantable bits.toNat
  isRun : slot.IsRun bits.toNat
  start_eq : slot.start = cursor.start bits.toNat
  position_eq : next.position = slot.start + bits.toNat
  requested_eq : next.requested = cursor.requested + bits.toNat

theorem granted_of_next? {cursor next : LayoutCursor} {bits : UInt32} {slot : Slot}
    (h : cursor.next? bits = some (slot, next)) : cursor.Granted bits slot next := by
  simp only [next?, Option.dite_none_right_eq_some, Option.some.injEq, Prod.mk.injEq] at h
  obtain ⟨hg, rfl, rfl⟩ := h
  have hfit := cursor.start_mod_add_le hg.1.2
  have hstart : (slotAt (cursor.start bits.toNat) bits.toNat).start = cursor.start bits.toNat := by
    -- The cursor counts its bits in one word, so the index of the slot's word fits into another.
    have hlt := cursor.start_lt hg.1.1
    have hposition := cursor.position_le
    have hrequested := hg.2
    have hword : cursor.start bits.toNat / 32 < UInt32.size := by
      simp only [UInt32.size] at hrequested ⊢
      omega
    have hshift : cursor.start bits.toNat % 32 < UInt32.size :=
      lt_of_lt_of_le (Nat.mod_lt _ (by decide)) (by decide)
    simp only [slotAt, Slot.start, UInt32.toNat_ofNat_of_lt' hword,
      UInt32.toNat_ofNat_of_lt' hshift]
    omega
  exact ⟨hg, isRun_slotAt hg.1.1 hfit, hstart, by rw [hstart], rfl⟩

theorem next?_of_grantable {cursor : LayoutCursor} {bits : UInt32}
    (h : cursor.Grantable bits.toNat) : ∃ slot next, cursor.next? bits = some (slot, next) := by
  simp [next?, h]

namespace Granted

variable {cursor next : LayoutCursor} {bits : UInt32} {slot : Slot}

theorem position_le_start (h : Granted cursor bits slot next) : cursor.position ≤ slot.start := by
  rw [h.start_eq]
  exact cursor.position_le_start _

theorem position_le (h : Granted cursor bits slot next) : cursor.position ≤ next.position := by
  have hs := h.position_le_start
  have hp := h.position_eq
  omega

theorem recordBits_subset (h : Granted cursor bits slot next) :
    slot.recordBits ⊆ Set.Ico cursor.position next.position := by
  intro i hi
  have hs := h.position_le_start
  have hp := h.position_eq
  have hb := h.isRun.mem_recordBits.mp hi
  exact ⟨by omega, by omega⟩

theorem requiredWords_eq (h : Granted cursor bits slot next) :
    next.requiredWords = slot.word.toNat + 1 := by
  have hf := h.isRun.fits
  have hw := h.isRun.width_pos
  simp only [requiredWords, h.position_eq, Slot.start]
  omega

end Granted

/-- Requests one after another, with the slots that they give. -/
inductive Grants : LayoutCursor → List Slot → LayoutCursor → Prop
  | nil (cursor : LayoutCursor) : Grants cursor [] cursor
  | cons {cursor next last : LayoutCursor} {bits : UInt32} {slot : Slot} {slots : List Slot}
      (first : Granted cursor bits slot next) (rest : Grants next slots last) :
      Grants cursor (slot :: slots) last

theorem requiredWords_mono {cursor last : LayoutCursor} (h : cursor.position ≤ last.position) :
    cursor.requiredWords ≤ last.requiredWords := by
  simp only [requiredWords]
  omega

namespace Grants

variable {cursor next last : LayoutCursor} {slots slots' : List Slot}

theorem append (h : Grants cursor slots next) (h' : Grants next slots' last) :
    Grants cursor (slots ++ slots') last := by
  induction h with
  | nil => exact h'
  | cons first _ ih => exact .cons first (ih h')

theorem position_le (h : Grants cursor slots last) : cursor.position ≤ last.position := by
  induction h with
  | nil => exact Nat.le_refl _
  | cons first _ ih => exact first.position_le.trans ih

theorem recordBits_subset (h : Grants cursor slots last) {slot : Slot} (hs : slot ∈ slots) :
    slot.recordBits ⊆ Set.Ico cursor.position last.position := by
  induction h with
  | nil => simp at hs
  | cons first rest ih =>
    rcases List.mem_cons.mp hs with rfl | hs
    · exact first.recordBits_subset.trans (Set.Ico_subset_Ico_right rest.position_le)
    · exact (ih hs).trans (Set.Ico_subset_Ico_left first.position_le)

theorem pairwise_disjoint (h : Grants cursor slots last) :
    slots.Pairwise fun s t => Disjoint s.recordBits t.recordBits := by
  induction h with
  | nil => exact List.Pairwise.nil
  | cons first rest ih =>
    refine List.pairwise_cons.mpr ⟨?_, ih⟩
    intro t ht
    exact Set.disjoint_of_subset first.recordBits_subset (rest.recordBits_subset ht)
      (Set.Ico_disjoint_Ico_same)

theorem word_lt (h : Grants cursor slots last) {slot : Slot} (hs : slot ∈ slots) :
    slot.word.toNat < last.requiredWords := by
  induction h with
  | nil => simp at hs
  | cons first rest ih =>
    rcases List.mem_cons.mp hs with rfl | hs
    · have hword := first.requiredWords_eq
      have hmono := requiredWords_mono rest.position_le
      omega
    · exact ih hs

theorem position_le_start (h : Grants cursor slots last) {slot : Slot} (hs : slot ∈ slots) :
    cursor.position ≤ slot.start := by
  induction h with
  | nil => simp at hs
  | cons first rest ih =>
    rcases List.mem_cons.mp hs with rfl | hs
    · exact first.position_le_start
    · exact first.position_le.trans (ih hs)

theorem pairwise_start_lt (h : Grants cursor slots last) :
    slots.Pairwise fun s t => s.start < t.start := by
  induction h with
  | nil => exact List.Pairwise.nil
  | cons first rest ih =>
    refine List.pairwise_cons.mpr ⟨fun t ht => ?_, ih⟩
    have hbehind := rest.position_le_start ht
    have hposition := first.position_eq
    have hwidth := first.isRun.width_pos
    omega

theorem requiredWords_eq (h : Grants cursor slots last) : last.requiredWords =
    slots.getLast?.elim cursor.requiredWords fun slot => slot.word.toNat + 1 := by
  induction h with
  | nil => rfl
  | @cons _ _ _ _ slot slots first rest ih =>
    rw [ih, first.requiredWords_eq]
    cases slots with
    | nil => rfl
    | cons t slots =>
      rw [List.getLast?_cons_cons, List.getLast?_cons]
      rfl

theorem exists_last_word (h : Grants cursor slots last) (hne : slots ≠ []) :
    ∃ slot ∈ slots, last.requiredWords = slot.word.toNat + 1 := by
  refine ⟨slots.getLast hne, List.getLast_mem hne, ?_⟩
  rw [h.requiredWords_eq, List.getLast?_eq_some_getLast hne]
  rfl

end Grants

end PackedEdges.LayoutCursor
