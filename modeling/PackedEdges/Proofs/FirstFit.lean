import Mathlib.Data.List.ReduceOption
import Mathlib.Order.Bounds.Basic
import PackedEdges.Proofs.SlotGrants

/-! Requests to a cursor one after another. The layout is first fit: every slot begins at the first
bit behind the slot before it from which its bits lie in one word. A cursor that counts words and
the bits in them gives the same slots as one that counts record bits. -/

namespace PackedEdges

section

variable {κ : Type} (next? : κ → UInt32 → Option (Slot × κ))

/-- A request that is refused leaves the cursor as it is. -/
def request (cursor : κ) (bits : UInt32) : Option Slot × κ :=
  match next? cursor bits with
  | some (slot, next) => (some slot, next)
  | none => (none, cursor)

def requestAll (cursor : κ) : List UInt32 → List (Option Slot) × κ
  | [] => ([], cursor)
  | bits :: requests =>
    let (answer, next) := request next? cursor bits
    let (answers, last) := requestAll next requests
    (answer :: answers, last)

variable {next?} {cursor next : κ} {bits : UInt32} {slot : Slot}

theorem requestAll_cons_granted (h : next? cursor bits = some (slot, next))
    (requests : List UInt32) : requestAll next? cursor (bits :: requests) =
      (some slot :: (requestAll next? next requests).1, (requestAll next? next requests).2) := by
  simp [requestAll, request, h]

theorem requestAll_cons_refused (h : next? cursor bits = none) (requests : List UInt32) :
    requestAll next? cursor (bits :: requests) =
      (none :: (requestAll next? cursor requests).1, (requestAll next? cursor requests).2) := by
  simp [requestAll, request, h]

theorem requestAll_append (requests more : List UInt32) :
    (requestAll next? cursor (requests ++ more)).2 =
      (requestAll next? (requestAll next? cursor requests).2 more).2 := by
  induction requests generalizing cursor with
  | nil => rfl
  | cons bits requests ih => exact ih

end

/-- A width that one word has room for. -/
def FitsWord (bits : UInt32) : Prop :=
  1 ≤ bits.toNat ∧ bits.toNat ≤ 32

instance (bits : UInt32) : Decidable (FitsWord bits) :=
  inferInstanceAs (Decidable (_ ∧ _))

/-- Sum of the widths that can be granted. -/
def grantedWidth (requests : List UInt32) : Nat :=
  ((requests.filter fun bits => FitsWord bits).map UInt32.toNat).sum

theorem grantedWidth_cons_granted {bits : UInt32} (h : FitsWord bits) (requests : List UInt32) :
    grantedWidth (bits :: requests) = bits.toNat + grantedWidth requests := by
  simp [grantedWidth, h]

theorem grantedWidth_cons_refused {bits : UInt32} (h : ¬ FitsWord bits)
    (requests : List UInt32) : grantedWidth (bits :: requests) = grantedWidth requests := by
  simp [grantedWidth, h]

/-- No word begins strictly inside the `width` bits from `bit` on. -/
def InOneWord (bit width : Nat) : Prop :=
  ∀ word, ¬ (bit < 32 * word ∧ 32 * word < bit + width)

/-- The answers to requests when the bits before `bit` are taken: a slot of the whole width at the
first place for it, whatever was left free before, and nothing for a width that fits no word. -/
inductive FirstFit : Nat → List UInt32 → List (Option Slot) → Prop
  | nil (bit : Nat) : FirstFit bit [] []
  | granted {bit : Nat} {bits : UInt32} {slot : Slot} {requests : List UInt32}
    {answers : List (Option Slot)} (width : FitsWord bits)
    (first : IsLeast {start | bit ≤ start ∧ InOneWord start bits.toNat} slot.start)
    (fits : slot.shift.toNat + bits.toNat ≤ 32)
    (mask : slot.mask.toNat = (2 ^ bits.toNat - 1) * 2 ^ slot.shift.toNat)
    (rest : FirstFit (slot.start + bits.toNat) requests answers) :
    FirstFit bit (bits :: requests) (some slot :: answers)
  | refused {bit : Nat} {bits : UInt32} {requests : List UInt32} {answers : List (Option Slot)}
    (width : ¬ FitsWord bits) (rest : FirstFit bit requests answers) :
    FirstFit bit (bits :: requests) (none :: answers)

theorem Slot.eq_of_start_eq {s t : Slot} {width : Nat} (hpos : 1 ≤ width)
    (hs : s.shift.toNat + width ≤ 32) (ht : t.shift.toNat + width ≤ 32)
    (hmask : s.mask.toNat = (2 ^ width - 1) * 2 ^ s.shift.toNat)
    (hmask' : t.mask.toNat = (2 ^ width - 1) * 2 ^ t.shift.toNat) (hstart : s.start = t.start) :
    s = t := by
  simp only [start] at hstart
  have hword : s.word = t.word := UInt32.toNat_inj.mp (by omega)
  have hshift : s.shift = t.shift := UInt32.toNat_inj.mp (by omega)
  have hsame : s.mask = t.mask := UInt32.toNat_inj.mp (by rw [hmask, hmask', hshift])
  cases s
  cases t
  simp_all

theorem FirstFit.unique {bit : Nat} {requests : List UInt32} {answers answers' : List (Option Slot)}
    (h : FirstFit bit requests answers) (h' : FirstFit bit requests answers') :
    answers = answers' := by
  induction h generalizing answers' with
  | nil =>
    cases h'
    rfl
  | granted width first fits mask rest ih =>
    cases h' with
    | granted _ first' fits' mask' rest' =>
      obtain rfl := Slot.eq_of_start_eq width.1 fits fits' mask mask' (first.unique first')
      rw [ih rest']
    | refused width' _ => exact absurd width width'
  | refused width rest ih =>
    cases h' with
    | granted width' => exact absurd width' width
    | refused _ rest' => rw [ih rest']

namespace LayoutCursor

variable {cursor : LayoutCursor}

theorem isLeast_start {width : Nat} (hle : width ≤ 32) :
    IsLeast {start | cursor.position ≤ start ∧ InOneWord start width} (cursor.start width) := by
  have hfit := cursor.start_mod_add_le hle
  refine ⟨⟨cursor.position_le_start width, fun word => by omega⟩, ?_⟩
  rintro start ⟨hbehind, hword⟩
  -- Before the start only bits of the cursor's word are free, and from them the next word begins
  -- inside the run.
  have hnext := hword (cursor.position / 32 + 1)
  simp only [LayoutCursor.start]
  split <;> omega

theorem grantable_iff (cursor : LayoutCursor) {bits : UInt32}
    (hroom : cursor.requested + bits.toNat < UInt32.size) :
    cursor.Grantable bits.toNat ↔ FitsWord bits :=
  and_iff_left hroom

theorem next?_eq_none_of_not_fitsWord (cursor : LayoutCursor) {bits : UInt32}
    (h : ¬ FitsWord bits) : cursor.next? bits = none :=
  next?_eq_none_iff.mpr fun hgrantable => h hgrantable.1

theorem firstFit_requestAll (cursor : LayoutCursor) {requests : List UInt32}
    (hroom : cursor.requested + grantedWidth requests < UInt32.size) :
    FirstFit cursor.position requests (requestAll next? cursor requests).1 ∧
      (requestAll next? cursor requests).2.requested =
        cursor.requested + grantedWidth requests := by
  induction requests generalizing cursor with
  | nil => exact ⟨.nil _, rfl⟩
  | cons bits requests ih =>
    by_cases hwidth : FitsWord bits
    · have hsum := grantedWidth_cons_granted hwidth requests
      obtain ⟨slot, next, hnext⟩ :=
        next?_of_grantable ((cursor.grantable_iff (by omega)).mpr hwidth)
      have hgranted := granted_of_next? hnext
      have hrequested := hgranted.requested_eq
      obtain ⟨hrest, hlast⟩ := ih next (by omega)
      rw [requestAll_cons_granted hnext]
      refine ⟨.granted hwidth ?_ hgranted.isRun.fits hgranted.isRun.toNat_mask ?_, ?_⟩
      · rw [hgranted.start_eq]
        exact isLeast_start hwidth.2
      · rwa [hgranted.position_eq] at hrest
      · rw [hlast, hrequested, hsum, Nat.add_assoc]
    · have hsum := grantedWidth_cons_refused hwidth requests
      rw [requestAll_cons_refused (cursor.next?_eq_none_of_not_fitsWord hwidth), hsum]
      obtain ⟨hrest, hlast⟩ := ih cursor (by omega)
      exact ⟨.refused hwidth hrest, hlast⟩

theorem grants_requestAll (cursor : LayoutCursor) (requests : List UInt32) :
    cursor.Grants (requestAll next? cursor requests).1.reduceOption
      (requestAll next? cursor requests).2 := by
  induction requests generalizing cursor with
  | nil => exact .nil cursor
  | cons bits requests ih =>
    cases hnext : cursor.next? bits with
    | none =>
      rw [requestAll_cons_refused hnext]
      exact ih cursor
    | some granted =>
      obtain ⟨slot, next⟩ := granted
      rw [requestAll_cons_granted hnext]
      exact .cons (granted_of_next? hnext) (ih next)

end LayoutCursor

/-- A cursor that keeps the word it is in, none before the first request, and the first free bit
of this word. All its numbers are words of 32 bits. -/
structure WordCursor where
  word : Option UInt32 := none
  shift : UInt32 := 0
  requested : UInt32 := 0

namespace WordCursor

/-- The word and the bit in it at which a slot of `bits` bits starts. -/
def place (cursor : WordCursor) (bits : UInt32) : UInt32 × UInt32 :=
  match cursor.word with
  | some word => if cursor.shift + bits ≤ 32 then (word, cursor.shift) else (word + 1, 0)
  | none => (0, 0)

/-- The mask is shortened to 32 bits before it is shifted to its place. -/
def slotFor (cursor : WordCursor) (bits : UInt32) : Slot :=
  let (word, shift) := cursor.place bits
  { word, shift, mask := (1 <<< bits.toUInt64 - 1 : UInt64).toUInt32 <<< shift }

def next? (cursor : WordCursor) (bits : UInt32) : Option (Slot × WordCursor) :=
  if 1 ≤ bits ∧ bits ≤ 32 then
    let slot := cursor.slotFor bits
    some (slot,
      { word := some slot.word
        shift := slot.shift + bits
        requested := cursor.requested + bits })
  else none

def requiredWords (cursor : WordCursor) : UInt32 :=
  match cursor.word with
  | some word => word + 1
  | none => 0

/-- Both cursors stand at the same record bit. At the end of a full word the one that counts words
is still in this word. -/
structure StandsAt (cursor : WordCursor) (other : LayoutCursor) : Prop where
  requested_eq : cursor.requested.toNat = other.requested
  fresh : cursor.word = none → other.position = 0
  position_eq {word : UInt32} : cursor.word = some word →
    other.position = 32 * word.toNat + cursor.shift.toNat
  shift_pos {word : UInt32} : cursor.word = some word → 1 ≤ cursor.shift.toNat
  shift_le {word : UInt32} : cursor.word = some word → cursor.shift.toNat ≤ 32

theorem fitsWord_iff {bits : UInt32} : FitsWord bits ↔ 1 ≤ bits ∧ bits ≤ 32 := by
  rw [UInt32.le_iff_toNat_le, UInt32.le_iff_toNat_le]
  rfl

theorem next?_eq_none_of_not_fitsWord (cursor : WordCursor) {bits : UInt32}
    (h : ¬ FitsWord bits) : cursor.next? bits = none :=
  if_neg fun hwords => h (fitsWord_iff.mpr hwords)

theorem toNat_mask {bits shift : UInt32} (hwidth : FitsWord bits)
    (hfits : shift.toNat + bits.toNat ≤ 32) :
    ((1 <<< bits.toUInt64 - 1 : UInt64).toUInt32 <<< shift).toNat =
      (2 ^ bits.toNat - 1) * 2 ^ shift.toNat := by
  have hpow : 2 ^ bits.toNat ≤ 2 ^ 32 := Nat.pow_le_pow_right Nat.two_pos hwidth.2
  have hone : 1 ≤ 2 ^ bits.toNat := Nat.one_le_two_pow
  have hpower : ((1 : UInt64) <<< bits.toUInt64).toNat = 2 ^ bits.toNat := by
    rw [UInt64.toNat_shiftLeft, UInt32.toNat_toUInt64, UInt64.toNat_one, Nat.one_shiftLeft,
      Nat.mod_eq_of_lt (show bits.toNat < 64 by have := hwidth.2; omega),
      Nat.mod_eq_of_lt (by omega)]
  have hones : (1 <<< bits.toUInt64 - 1 : UInt64).toUInt32.toNat = 2 ^ bits.toNat - 1 := by
    have hle : (1 : UInt64) ≤ 1 <<< bits.toUInt64 := by
      rw [UInt64.le_iff_toNat_le, hpower, UInt64.toNat_one]
      exact hone
    rw [UInt64.toNat_toUInt32, UInt64.toNat_sub_of_le _ _ hle, hpower, UInt64.toNat_one,
      Nat.mod_eq_of_lt (by omega)]
  have hlt : (2 ^ bits.toNat - 1) * 2 ^ shift.toNat < 2 ^ 32 :=
    mul_two_pow_lt (Nat.sub_lt hone Nat.one_pos) hfits
  have hshift : shift.toNat < 32 := by have hpos := hwidth.1; omega
  rw [UInt32.toNat_shiftLeft, hones, Nat.mod_eq_of_lt hshift, Nat.shiftLeft_eq,
    Nat.mod_eq_of_lt hlt]

namespace StandsAt

variable {cursor : WordCursor} {other : LayoutCursor} {bits : UInt32}

/-- Half of the record bits at least were requested, so there is an index for the next word. -/
theorem toNat_nextWord (h : cursor.StandsAt other) {word : UInt32}
    (hword : cursor.word = some word) : (word + 1).toNat = word.toNat + 1 := by
  have hposition := h.position_eq hword
  have hrequested := other.position_le
  have hcounted := other.requested_lt
  simp only [UInt32.size] at hcounted
  rw [UInt32.toNat_add, UInt32.toNat_one, Nat.mod_eq_of_lt (by omega)]

theorem place_eq (h : cursor.StandsAt other) (hwidth : FitsWord bits) :
    (cursor.place bits).2.toNat + bits.toNat ≤ 32 ∧
      32 * (cursor.place bits).1.toNat + (cursor.place bits).2.toNat =
        other.start bits.toNat := by
  obtain ⟨hpos, hle⟩ := hwidth
  cases hword : cursor.word with
  | none =>
    have hzero := h.fresh hword
    simp only [place, hword, LayoutCursor.start, hzero]
    exact ⟨by simpa using hle, by simp [hle]⟩
  | some word =>
    have hposition := h.position_eq hword
    have hshift := h.shift_pos hword
    have hfull := h.shift_le hword
    have hsum : (cursor.shift + bits).toNat = cursor.shift.toNat + bits.toNat := by
      rw [UInt32.toNat_add, Nat.mod_eq_of_lt (by omega)]
    have hnext := h.toNat_nextWord hword
    simp only [place, hword, LayoutCursor.start, UInt32.le_iff_toNat_le, hsum, UInt32.reduceToNat]
    by_cases hfits : cursor.shift.toNat + bits.toNat ≤ 32
    · rw [if_pos hfits, if_pos (by omega)]
      exact ⟨hfits, hposition.symm⟩
    · rw [if_neg hfits, hnext, UInt32.toNat_zero]
      refine ⟨by omega, ?_⟩
      split <;> omega

theorem slotFor_eq (h : cursor.StandsAt other) (hwidth : FitsWord bits) {slot : Slot}
    {after : LayoutCursor} (hgranted : other.Granted bits slot after) :
    cursor.slotFor bits = slot := by
  obtain ⟨hfits, hplace⟩ := h.place_eq hwidth
  apply Slot.eq_of_start_eq hwidth.1 hfits hgranted.isRun.fits (toNat_mask hwidth hfits)
    hgranted.isRun.toNat_mask
  rw [hgranted.start_eq]
  exact hplace

theorem exists_next (h : cursor.StandsAt other) (hwidth : FitsWord bits)
    (hroom : other.requested + bits.toNat < UInt32.size) :
    ∃ slot next after, cursor.next? bits = some (slot, next) ∧
      other.next? bits = some (slot, after) ∧ next.StandsAt after := by
  obtain ⟨slot, after, hafter⟩ :=
    LayoutCursor.next?_of_grantable ((other.grantable_iff hroom).mpr hwidth)
  have hgranted := LayoutCursor.granted_of_next? hafter
  have hslot := h.slotFor_eq hwidth hgranted
  refine ⟨slot, ⟨some slot.word, slot.shift + bits, cursor.requested + bits⟩, after, ?_, hafter,
    ?_⟩
  · rw [WordCursor.next?, if_pos (fitsWord_iff.mp hwidth), hslot]
  · have hfits := hgranted.isRun.fits
    have hshift : (slot.shift + bits).toNat = slot.shift.toNat + bits.toNat := by
      rw [UInt32.toNat_add, Nat.mod_eq_of_lt (by omega)]
    have hposition := hgranted.position_eq
    refine ⟨?_, nofun, ?_, ?_, ?_⟩
    · rw [UInt32.toNat_add, h.requested_eq, hgranted.requested_eq, Nat.mod_eq_of_lt hroom]
    · intro word hword
      cases hword
      rw [hposition, hshift, Slot.start, Nat.add_assoc]
    · intro word _
      have hpos := hwidth.1
      change 1 ≤ (slot.shift + bits).toNat
      omega
    · intro word _
      exact hshift.trans_le hfits

theorem initial : StandsAt {} .initial :=
  ⟨rfl, fun _ => rfl, nofun, nofun, nofun⟩

/-- Standing at the same bit, both cursors give the same answers to all requests. -/
theorem requestAll (h : cursor.StandsAt other) {requests : List UInt32}
    (hroom : other.requested + grantedWidth requests < UInt32.size) :
    (requestAll WordCursor.next? cursor requests).1 =
        (requestAll LayoutCursor.next? other requests).1 ∧
      (requestAll WordCursor.next? cursor requests).2.StandsAt
        (requestAll LayoutCursor.next? other requests).2 := by
  induction requests generalizing cursor other with
  | nil => exact ⟨rfl, h⟩
  | cons bits requests ih =>
    by_cases hwidth : FitsWord bits
    · rw [grantedWidth_cons_granted hwidth] at hroom
      obtain ⟨slot, next, after, hnext, hafter, hsame⟩ := h.exists_next hwidth (by omega)
      have hrequested := (LayoutCursor.granted_of_next? hafter).requested_eq
      obtain ⟨hanswers, hlast⟩ := ih hsame (by omega)
      rw [requestAll_cons_granted hnext, requestAll_cons_granted hafter, hanswers]
      exact ⟨rfl, hlast⟩
    · rw [grantedWidth_cons_refused hwidth] at hroom
      obtain ⟨hanswers, hlast⟩ := ih h hroom
      rw [requestAll_cons_refused (cursor.next?_eq_none_of_not_fitsWord hwidth),
        requestAll_cons_refused (other.next?_eq_none_of_not_fitsWord hwidth), hanswers]
      exact ⟨rfl, hlast⟩

theorem requiredWords_eq (h : cursor.StandsAt other) :
    cursor.requiredWords.toNat = other.requiredWords := by
  cases hword : cursor.word with
  | none => simp [requiredWords, LayoutCursor.requiredWords, hword, h.fresh hword]
  | some word =>
    have hposition := h.position_eq hword
    have hshift := h.shift_pos hword
    have hfull := h.shift_le hword
    simp only [requiredWords, LayoutCursor.requiredWords, hword, h.toNat_nextWord hword]
    omega

end StandsAt

end WordCursor

namespace LayoutCursor

/-- Requests to a new cursor get the slots of the first-fit layout and no others, and so they do
from a cursor that counts words. The slots lie one behind another, and the counters tell what was
granted. -/
theorem requests_answered_firstFit (requests : List UInt32)
    (hroom : grantedWidth requests < UInt32.size) :
    let run := requestAll next? .initial requests
    let runByWords := requestAll WordCursor.next? {} requests
    let slots := run.1.reduceOption
    (∀ answers, FirstFit 0 requests answers ↔ answers = run.1) ∧
      (runByWords.1 = run.1 ∧ runByWords.2.requested.toNat = run.2.requested ∧
        runByWords.2.requiredWords.toNat = run.2.requiredWords) ∧
      slots.Pairwise (fun s t => Disjoint s.recordBits t.recordBits ∧ s.start < t.start) ∧
      run.2.requested = grantedWidth requests ∧
      run.2.requiredWords = (slots.getLast?.elim 0 fun slot => slot.word.toNat + 1) ∧
      ∀ more, run.2.requiredWords ≤
        (requestAll next? .initial (requests ++ more)).2.requiredWords := by
  intro run runByWords slots
  have hnew : initial.requested + grantedWidth requests < UInt32.size := by
    rwa [show initial.requested = 0 from rfl, Nat.zero_add]
  obtain ⟨hfirst, hrequested⟩ := firstFit_requestAll .initial hnew
  obtain ⟨hanswers, hstands⟩ := WordCursor.StandsAt.initial.requestAll hnew
  have hgrants := initial.grants_requestAll requests
  refine ⟨fun answers => ⟨fun h => h.unique hfirst, fun h => h ▸ hfirst⟩,
    ⟨hanswers, hstands.requested_eq, hstands.requiredWords_eq⟩,
    hgrants.pairwise_disjoint.and hgrants.pairwise_start_lt, ?_, hgrants.requiredWords_eq, ?_⟩
  · exact hrequested.trans (Nat.zero_add _)
  · intro more
    rw [requestAll_append]
    exact requiredWords_mono (grants_requestAll _ more).position_le

theorem requests_answered_firstFit_mixed :
    let requests : List UInt32 := [30, 0, 3, 29, 40, 32, 1]
    let slots : List Slot :=
      [{ mask := 1073741823 }, { word := 1, mask := 7 },
        { word := 1, shift := 3, mask := 4294967288 }, { word := 2, mask := 4294967295 },
        { word := 3, mask := 1 }]
    grantedWidth requests < UInt32.size ∧
      (requestAll next? .initial requests).1.reduceOption = slots ∧
      FirstFit 0 requests (requestAll next? .initial requests).1 ∧
      (requestAll next? .initial requests).2.requested = 95 ∧
      (requestAll next? .initial requests).2.requiredWords = 4 := by
  intro requests slots
  have hroom : grantedWidth requests < UInt32.size := by decide
  have hslots : (requestAll next? .initial requests).1.reduceOption = slots := by decide
  obtain ⟨hfirst, _, _, hrequested, hwords, _⟩ := requests_answered_firstFit requests hroom
  refine ⟨hroom, hslots, (hfirst _).mpr rfl, hrequested, ?_⟩
  rw [hwords, hslots]
  rfl

end LayoutCursor

end PackedEdges
