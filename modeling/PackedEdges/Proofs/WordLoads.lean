import Mathlib.Algebra.BigOperators.Group.Finset.Basic
import PackedEdges.Proofs.BuiltSchema
import PackedEdges.Proofs.FirstFit

/-! How full the words of a layout are. A slot goes into a new word only when the word before has
no room for it, so two words in a row carry more bits than one word has, and a record is hardly
twice as long as the bits that were asked for. -/

namespace PackedEdges

/-- Number of requested bits that lie in a word. -/
def load (word : Nat) : List UInt32 → List (Option Slot) → Nat
  | bits :: requests, some slot :: answers =>
    (if slot.word.toNat = word then bits.toNat else 0) + load word requests answers
  | _ :: requests, none :: answers => load word requests answers
  | _, _ => 0

/-- Words that are not empty and carry more than 32 bits in any two that follow each other. -/
theorem le_twice_sum_loads {loads : Nat → Nat} {words : Nat} (hpos : ∀ word < words, 1 ≤ loads word)
    (hpair : ∀ word, word + 1 < words → 33 ≤ loads word + loads (word + 1)) :
    33 * words ≤ 2 * (∑ word ∈ Finset.range words, loads word) + 31 := by
  induction words using Nat.twoStepInduction with
  | zero => exact Nat.zero_le _
  | one =>
    have hfirst := hpos 0 (by decide)
    rw [Finset.sum_range_one]
    omega
  | more words ih _ =>
    have hrest := ih (fun word hword => hpos word (by omega))
      (fun word hword => hpair word (by omega))
    have hlast := hpair words (by omega)
    rw [Finset.sum_range_succ, Finset.sum_range_succ]
    omega

namespace LayoutCursor

/-- The requested bits of a run lie in the words as `loads` tells, behind each other from the
beginning of each word. -/
structure Loaded (cursor : LayoutCursor) (loads : Nat → Nat) : Prop where
  requested_eq : cursor.requested = ∑ word ∈ Finset.range cursor.requiredWords, loads word
  position_eq (word : Nat) : word + 1 = cursor.requiredWords →
    cursor.position = 32 * word + loads word
  pos (word : Nat) : word < cursor.requiredWords → 1 ≤ loads word
  le (word : Nat) : loads word ≤ 32
  pair (word : Nat) : word + 1 < cursor.requiredWords → 33 ≤ loads word + loads (word + 1)
  beyond (word : Nat) : cursor.requiredWords ≤ word → loads word = 0

namespace Loaded

variable {cursor next : LayoutCursor} {loads : Nat → Nat} {bits : UInt32} {slot : Slot}

theorem initial : LayoutCursor.initial.Loaded fun _ => 0 where
  requested_eq := rfl
  position_eq := nofun
  pos := nofun
  le _ := by decide
  pair := nofun
  beyond _ _ := rfl

/-- A slot lies in the last word behind what was there, or opens a new word because it does not
fit into the last one. -/
theorem granted_cases (h : cursor.Loaded loads) (hgranted : cursor.Granted bits slot next) :
    next.position = 32 * slot.word.toNat + (loads slot.word.toNat + bits.toNat) ∧
      (slot.word.toNat + 1 = cursor.requiredWords ∨
        slot.word.toNat = cursor.requiredWords ∧
          ∀ word, word + 1 = cursor.requiredWords → 33 ≤ loads word + bits.toNat) := by
  have hpos := hgranted.isRun.width_pos
  have hfits := hgranted.isRun.fits
  have hstart : 32 * slot.word.toNat + slot.shift.toNat = cursor.start bits.toNat :=
    hgranted.start_eq
  have hnext : next.position = 32 * slot.word.toNat + slot.shift.toNat + bits.toNat :=
    hgranted.position_eq
  simp only [LayoutCursor.start] at hstart
  have hwords : cursor.requiredWords = (cursor.position + 31) / 32 := rfl
  cases hcount : cursor.requiredWords with
  | zero =>
    have hzero : slot.word.toNat = 0 := by split at hstart <;> omega
    have hempty := h.beyond slot.word.toNat (by omega)
    exact ⟨by split at hstart <;> omega, .inr ⟨hzero, by simp⟩⟩
  | succ word =>
    have hposition := h.position_eq word hcount.symm
    have hload := h.pos word (by omega)
    have hfull := h.le word
    by_cases hlast : slot.word.toNat = word
    · subst hlast
      exact ⟨by split at hstart <;> omega, .inl rfl⟩
    · have hopened : slot.word.toNat = word + 1 := by split at hstart <;> omega
      have hempty := h.beyond slot.word.toNat (by omega)
      refine ⟨by split at hstart <;> omega, .inr ⟨hopened, fun other hother => ?_⟩⟩
      obtain rfl : other = word := Nat.succ.inj hother
      split at hstart <;> omega

/-- One more slot adds its width to the load of its word. -/
theorem granted (h : cursor.Loaded loads) (hgranted : cursor.Granted bits slot next) :
    next.Loaded fun word => loads word + if slot.word.toNat = word then bits.toNat else 0 := by
  obtain ⟨hposition, hplace⟩ := h.granted_cases hgranted
  have hwords := hgranted.requiredWords_eq
  have hpos := hgranted.isRun.width_pos
  constructor
  case requested_eq =>
    have hsum : ∑ word ∈ Finset.range next.requiredWords, loads word = cursor.requested := by
      rw [h.requested_eq, hwords]
      rcases hplace with hsame | ⟨hopened, _⟩
      · rw [hsame]
      · rw [hopened, Finset.sum_range_succ, h.beyond _ (Nat.le_refl _), Nat.add_zero]
    have hmem : slot.word.toNat ∈ Finset.range next.requiredWords :=
      Finset.mem_range.mpr (by omega)
    rw [hgranted.requested_eq, Finset.sum_add_distrib, hsum, Finset.sum_ite_eq, if_pos hmem]
  case position_eq =>
    intro word hword
    obtain rfl : word = slot.word.toNat := by omega
    rw [hposition, if_pos rfl]
  case pos =>
    intro word hword
    by_cases hown : slot.word.toNat = word
    · rw [if_pos hown]
      omega
    · have hload := h.pos word (by omega)
      omega
  case le =>
    intro word
    by_cases hown : slot.word.toNat = word
    · have hfits := hgranted.isRun.fits
      have hshift := hgranted.position_eq
      rw [Slot.start] at hshift
      rw [if_pos hown, ← hown]
      omega
    · rw [if_neg hown]
      exact h.le word
  case pair =>
    intro word hword
    rcases hplace with hsame | ⟨hopened, hfull⟩
    · have hpair := h.pair word (by omega)
      omega
    · by_cases hedge : slot.word.toNat = word + 1
      · have hlast := hfull word (by omega)
        rw [if_pos hedge]
        omega
      · have hpair := h.pair word (by omega)
        omega
  case beyond =>
    intro word hword
    rw [if_neg (by omega), h.beyond word (by omega)]

theorem requestAll (h : cursor.Loaded loads) (requests : List UInt32) :
    (requestAll next? cursor requests).2.Loaded fun word =>
      loads word + load word requests (requestAll next? cursor requests).1 := by
  induction requests generalizing cursor loads with
  | nil => exact h
  | cons bits requests ih =>
    cases hnext : cursor.next? bits with
    | none =>
      rw [requestAll_cons_refused hnext]
      exact ih h
    | some result =>
      obtain ⟨slot, next⟩ := result
      rw [requestAll_cons_granted hnext]
      simpa only [load, Nat.add_assoc] using ih (h.granted (granted_of_next? hnext))

theorem record_bounds (h : cursor.Loaded loads) :
    cursor.requested ≤ 32 * cursor.requiredWords ∧
      33 * cursor.requiredWords ≤ 2 * cursor.requested + 31 := by
  rw [h.requested_eq]
  constructor
  · calc ∑ word ∈ Finset.range cursor.requiredWords, loads word
        ≤ ∑ _word ∈ Finset.range cursor.requiredWords, 32 :=
          Finset.sum_le_sum fun word _ => h.le word
      _ = 32 * cursor.requiredWords := by simp [Nat.mul_comm]
  · exact le_twice_sum_loads h.pos h.pair

end Loaded

/-- Bits on their own, and a whole word between any two of them. -/
def scattered : Nat → List UInt32
  | 0 => [1]
  | n + 1 => 1 :: 32 :: scattered n

theorem exists_next (cursor : LayoutCursor) (bits : UInt32) (hwidth : FitsWord bits)
    (hroom : cursor.requested + bits.toNat < UInt32.size) :
    ∃ slot next, cursor.next? bits = some (slot, next) ∧
      next.position = cursor.start bits.toNat + bits.toNat ∧
      next.requested = cursor.requested + bits.toNat := by
  obtain ⟨slot, next, hnext⟩ := next?_of_grantable ((cursor.grantable_iff hroom).mpr hwidth)
  have hgranted := granted_of_next? hnext
  exact ⟨slot, next, hnext, by rw [hgranted.position_eq, hgranted.start_eq],
    hgranted.requested_eq⟩

/-- From the edge of a word the first bit stands alone in it, and a whole word follows. -/
theorem exists_next_one (cursor : LayoutCursor) (hedge : cursor.position % 32 = 0)
    (hroom : cursor.requested + 1 < UInt32.size) :
    ∃ slot next, cursor.next? 1 = some (slot, next) ∧ next.position = cursor.position + 1 ∧
      next.requested = cursor.requested + 1 := by
  obtain ⟨slot, next, hnext, hposition, hrequested⟩ := cursor.exists_next 1 (by decide) hroom
  refine ⟨slot, next, hnext, ?_, hrequested⟩
  simp only [LayoutCursor.start, UInt32.reduceToNat] at hposition
  rwa [if_pos (by omega)] at hposition

theorem exists_next_word (cursor : LayoutCursor) (hbit : cursor.position % 32 = 1)
    (hroom : cursor.requested + 32 < UInt32.size) :
    ∃ slot next, cursor.next? 32 = some (slot, next) ∧ next.position = cursor.position + 63 ∧
      next.requested = cursor.requested + 32 := by
  obtain ⟨slot, next, hnext, hposition, hrequested⟩ := cursor.exists_next 32 (by decide) hroom
  refine ⟨slot, next, hnext, ?_, hrequested⟩
  simp only [LayoutCursor.start, UInt32.reduceToNat] at hposition
  rw [if_neg (by omega)] at hposition
  omega

theorem requestAll_scattered (n : Nat) (cursor : LayoutCursor) (hedge : cursor.position % 32 = 0)
    (hroom : cursor.requested + (33 * n + 1) < UInt32.size) :
    let last := (requestAll next? cursor (scattered n)).2
    last.position = cursor.position + (64 * n + 1) ∧
      last.requested = cursor.requested + (33 * n + 1) := by
  induction n generalizing cursor with
  | zero =>
    obtain ⟨slot, next, hnext, hposition, hrequested⟩ := cursor.exists_next_one hedge hroom
    rw [scattered, requestAll_cons_granted hnext]
    exact ⟨hposition, hrequested⟩
  | succ n ih =>
    obtain ⟨slot, next, hnext, hposition, hrequested⟩ :=
      cursor.exists_next_one hedge (by omega)
    obtain ⟨slot', next', hnext', hposition', hrequested'⟩ :=
      next.exists_next_word (by omega) (by omega)
    obtain ⟨hlast, htotal⟩ := ih next' (by omega) (by omega)
    rw [scattered, requestAll_cons_granted hnext, requestAll_cons_granted hnext']
    exact ⟨by dsimp only; omega, by dsimp only; omega⟩

end LayoutCursor

namespace SchemaBuilder

open Attribute

theorem loaded_of_register {a b : Attribute} {cursor last : LayoutCursor} {taken : Nat}
    {loads : Nat → Nat} (h : cursor.Loaded loads)
    (hregister : a.register cursor = .done (taken, b, last)) :
    (∃ loads', last.Loaded loads') ∧ last.requested = cursor.requested + b.storedWidth := by
  obtain ⟨_, _, forward, next, hforward, ⟨htwo, rfl, rfl⟩ | ⟨reverse, htwo, hback, rfl⟩⟩ :=
    register_cases hregister
  · exact ⟨⟨_, h.granted hforward⟩, by simp [storedWidth, htwo, hforward.requested_eq]⟩
  · refine ⟨⟨_, (h.granted hforward).granted hback⟩, ?_⟩
    simp only [storedWidth, htwo, if_true, hback.requested_eq, hforward.requested_eq]
    omega

theorem loaded_of_registerAll {as bs : List Attribute} {cursor last : LayoutCursor}
    (h : ∃ loads, cursor.Loaded loads) (hall : registerAll cursor as = .done (bs, last)) :
    (∃ loads, last.Loaded loads) ∧
      last.requested = cursor.requested + (bs.map storedWidth).sum := by
  induction as generalizing cursor bs with
  | nil =>
    cases hall
    exact ⟨h, rfl⟩
  | cons a as ih =>
    rw [registerAll_cons] at hall
    obtain ⟨⟨taken, b, next⟩, hfirst, hall⟩ := Outcome.bind_eq_done_iff.mp hall
    obtain ⟨⟨bs, last'⟩, hrest, hall⟩ := Outcome.bind_eq_done_iff.mp hall
    cases hall
    obtain ⟨loads, hloads⟩ := h
    obtain ⟨hnext, hrequested⟩ := loaded_of_register hloads hfirst
    obtain ⟨hlast, htotal⟩ := ih hnext hrest
    exact ⟨hlast, by rw [htotal, hrequested, List.map_cons, List.sum_cons, Nat.add_assoc]⟩

theorem bytesPerEdge_le_of_build {builder : SchemaBuilder} {schema : Schema}
    (h : builder.build = .done schema) : schema.bytesPerEdge.toNat ≤
      4 * ((2 * (schema.attributes.map storedWidth).sum + 31) / 33) := by
  obtain ⟨placed, last, hall, hschema⟩ := build_cases h
  obtain ⟨_, rfl⟩ := Schema.ofAttributes?_eq_ok_iff.mp hschema
  obtain ⟨⟨loads, hloads⟩, hrequested⟩ := loaded_of_registerAll ⟨_, .initial⟩ hall
  obtain ⟨_, hwords⟩ := hloads.record_bounds
  have hzero : LayoutCursor.initial.requested = 0 := rfl
  rw [toNat_requiredBytes, LayoutCursor.requiredBytes]
  dsimp only
  omega

end SchemaBuilder

open LayoutCursor

/-- No word of a layout is empty and any two words in a row carry more than 32 requested bits, so a
record is at most as long as stated; and there are requests that need a record of this length. -/
theorem record_size_bounds :
    (∀ requests : List UInt32,
      let run := requestAll next? .initial requests
      let words := run.2.requiredWords
      (∀ word < words, 1 ≤ load word requests run.1) ∧
      (∀ word, word + 1 < words →
        33 ≤ load word requests run.1 + load (word + 1) requests run.1) ∧
      run.2.requested = ∑ word ∈ Finset.range words, load word requests run.1 ∧
      run.2.requested ≤ 32 * words ∧ 33 * words ≤ 2 * run.2.requested + 31) ∧
    (∀ n, 33 * n + 1 < UInt32.size → ∃ requests : List UInt32,
      let last := (requestAll next? .initial requests).2
      last.requiredWords = 2 * n + 1 ∧ 33 * last.requiredWords = 2 * last.requested + 31) ∧
    ∀ (builder : SchemaBuilder) (schema : Schema), builder.build = .done schema →
      schema.bytesPerEdge.toNat ≤
        4 * ((2 * (schema.attributes.map Attribute.storedWidth).sum + 31) / 33) := by
  refine ⟨fun requests => ?_, fun n hroom => ⟨scattered n, ?_⟩,
    fun builder schema => SchemaBuilder.bytesPerEdge_le_of_build⟩
  · intro run words
    have hloads := Loaded.initial.requestAll requests
    simp only [Nat.zero_add] at hloads
    exact ⟨hloads.pos, hloads.pair, hloads.requested_eq, hloads.record_bounds⟩
  · have hzero : initial.position = 0 ∧ initial.requested = 0 := ⟨rfl, rfl⟩
    obtain ⟨hposition, hrequested⟩ := requestAll_scattered n .initial (by decide) (by omega)
    simp only [requiredWords]
    omega

theorem record_size_bounds_roads :
    let requests : List UInt32 := [20, 13, 20, 5]
    let run := requestAll next? .initial requests
    let builder : SchemaBuilder :=
      { attributes := [Schema.speed.withoutSlots, Schema.slope.withoutSlots] }
    (run.2.requiredWords = 3 ∧ 33 ≤ load 0 requests run.1 + load 1 requests run.1 ∧
      33 * 3 ≤ 2 * run.2.requested + 31) ∧
    (33 * 1000 + 1 < UInt32.size ∧ ∃ requests : List UInt32,
      (requestAll next? .initial requests).2.requiredWords = 2001) ∧
    builder.build = .done Schema.roads ∧ Schema.roads.bytesPerEdge.toNat ≤ 8 := by
  intro requests run builder
  obtain ⟨hbounds, htight, hschema⟩ := record_size_bounds
  obtain ⟨_, hpair, _, _, hsize⟩ := hbounds requests
  have hwords : run.2.requiredWords = 3 := by decide
  have hroom : 33 * 1000 + 1 < UInt32.size := by decide
  obtain ⟨wasteful, hcount, _⟩ := htight 1000 hroom
  have hbuild : builder.build = .done Schema.roads := by cbv
  exact ⟨⟨hwords, hpair 0 (hwords ▸ by decide), hwords ▸ hsize⟩, ⟨hroom, wasteful, hcount⟩, hbuild,
    hschema builder Schema.roads hbuild⟩

end PackedEdges
