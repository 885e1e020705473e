import Mathlib.Algebra.BigOperators.Group.Finset.Basic
import PackedEdges.Proofs.RecordEnds

/-! The flat store against a list of records. As long as every access stays in the record that it
is about, the store answers as a list does whose records are read and replaced one at a time, and
its bytes are those of the records one behind the other. -/

namespace PackedEdges

inductive Access
  | word (edge offset : Nat)
  | byte (edge offset : Nat)
  | record (edge : Nat)
  | setWord (edge offset : Nat) (value : UInt32)
  | setRecord (edge : Nat) (new : List UInt8)

/-- What an access gives back. -/
inductive Reply
  | number (n : Nat)
  | bytes (record : List UInt8)
  | changed
deriving DecidableEq

namespace Access

def edge : Access → Nat
  | word edge _ => edge
  | byte edge _ => edge
  | record edge => edge
  | setWord edge _ _ => edge
  | setRecord edge _ => edge

/-- All that the access is about lies in the record of one of the edges. -/
def Inside (edges size : Nat) : Access → Prop
  | word edge offset => edge < edges ∧ offset + 4 ≤ size
  | byte edge offset => edge < edges ∧ offset + 1 ≤ size
  | record edge => edge < edges
  | setWord edge offset _ => edge < edges ∧ offset + 4 ≤ size
  | setRecord edge new => edge < edges ∧ new.length = size

/-- A record of the wrong length is to be put, no matter for which edge. -/
def Misfits (size : Nat) : Access → Prop
  | setRecord _ new => new.length ≠ size
  | _ => False

theorem Inside.edge_lt {x : Access} {edges size : Nat} (h : x.Inside edges size) :
    x.edge < edges := by
  cases x with
  | record => exact h
  | word | byte | setWord | setRecord => exact h.1

/-- All accesses in turn, with what each of them gives back unless it is refused. -/
def run {σ : Type} (step : Access → σ → Option Reply × σ) :
    List Access → σ → List (Option Reply) × σ
  | [], s => ([], s)
  | x :: accesses, s =>
    let (reply, s) := step x s
    let (replies, s) := run step accesses s
    (reply :: replies, s)

def written (store : EdgeStore) (next? : Option EdgeStore) : Option Reply × EdgeStore :=
  (next?.map fun _ => .changed, next?.getD store)

def onStore : Access → EdgeStore → Option Reply × EdgeStore
  | word edge offset, store => ((store.word? edge offset).map fun w => .number w.toNat, store)
  | byte edge offset, store => ((store.byte? edge offset).map fun b => .number b.toNat, store)
  | record edge, store => ((store.record? edge).map .bytes, store)
  | setWord edge offset value, store => written store (store.setWord? edge offset value)
  | setRecord edge new, store => written store (store.setRecord? edge new)

/-- The number that four bytes of a record form, of which the first counts least. -/
def numberAt (record : List UInt8) (offset : Nat) : Nat :=
  ∑ k ∈ Finset.range 4, 256 ^ k * (record[offset + k]?.getD 0).toNat

/-- The digits of a word to the base 256, the lowest one first. -/
def digits (value : UInt32) : List UInt8 :=
  (List.range 4).map fun k => UInt8.ofNat (value.toNat / 256 ^ k)

def replaceAt (record : List UInt8) (offset : Nat) (new : List UInt8) : List UInt8 :=
  record.take offset ++ new ++ record.drop (offset + new.length)

/-- What an access gives back and makes of the record that it is about, unless it leaves it. -/
def onRecord : Access → List UInt8 → Option (Reply × List UInt8)
  | word _ offset, r => if offset + 4 ≤ r.length then some (.number (numberAt r offset), r) else none
  | byte _ offset, r => r[offset]?.map fun b => (.number b.toNat, r)
  | record _, r => some (.bytes r, r)
  | setWord _ offset value, r =>
    if offset + 4 ≤ r.length then some (.changed, replaceAt r offset (digits value)) else none
  | setRecord _ new, r => if new.length = r.length then some (.changed, new) else none

def onRecords (x : Access) (records : List (List UInt8)) : Option Reply × List (List UInt8) :=
  match records[x.edge]?.bind x.onRecord with
  | some (reply, r) => (some reply, records.set x.edge r)
  | none => (none, records)

theorem length_replaceAt {record new : List UInt8} {offset : Nat}
    (h : offset + new.length ≤ record.length) :
    (replaceAt record offset new).length = record.length := by
  simp only [replaceAt, List.length_append, List.length_take, List.length_drop]
  omega

theorem getElem?_replaceAt {record new : List UInt8} {offset : Nat}
    (h : offset + new.length ≤ record.length) (k : Nat) :
    (replaceAt record offset new)[k]? =
      if offset ≤ k ∧ k < offset + new.length then new[k - offset]? else record[k]? := by
  have htake : (record.take offset).length = offset := by rw [List.length_take]; omega
  rw [replaceAt, List.append_assoc]
  by_cases hlow : offset ≤ k
  · rw [List.getElem?_append_right (by omega), htake]
    by_cases hhigh : k < offset + new.length
    · rw [List.getElem?_append_left (by omega), if_pos ⟨hlow, hhigh⟩]
    · rw [List.getElem?_append_right (by omega), List.getElem?_drop, if_neg (by omega)]
      congr 1
      omega
  · rw [List.getElem?_append_left (by omega), List.getElem?_take_of_lt (by omega),
      if_neg (by omega)]

theorem digits_eq_wordBytes (value : UInt32) : digits value = EdgeStore.wordBytes value := by
  simp only [digits, EdgeStore.wordBytes, List.range, List.range.loop, List.map_cons, List.map_nil,
    List.cons.injEq, and_true, ← UInt8.toNat_inj]
  simp [Nat.shiftRight_eq_div_pow]

end Access

namespace EdgeStore

open Access

variable {store store' : EdgeStore} {edge offset : Nat} {value : UInt32} {record : List UInt8}

def cut (store : EdgeStore) (edge : Nat) : List UInt8 :=
  (store.bytes.extract (store.recordStart edge)
    (store.recordStart edge + store.bytesPerEdge)).toList

def records (store : EdgeStore) : List (List UInt8) :=
  (List.range store.edgeCount).map store.cut

/-- The bytes of the store are those of the records one behind the other. -/
structure IsListOf (store : EdgeStore) (records : List (List UInt8)) : Prop where
  length_eq : records.length = store.edgeCount
  uniform : ∀ record ∈ records, record.length = store.bytesPerEdge
  flatten_eq : records.flatten = store.bytes.toList

theorem length_records (store : EdgeStore) : store.records.length = store.edgeCount := by
  rw [records, List.length_map, List.length_range]

theorem getElem?_records (h : edge < store.edgeCount) :
    store.records[edge]? = store.record? edge := by
  have hrecord : store.HasRecord edge := hasRecord_of_lt_edgeCount h
  rw [records, List.getElem?_map, List.getElem?_range h, Option.map_some]
  exact (if_pos hrecord).symm

theorem flatten_cuts (store : EdgeStore) (count : Nat) :
    ((List.range count).map store.cut).flatten =
      (store.bytes.extract 0 (count * store.bytesPerEdge)).toList := by
  induction count with
  | zero => simp
  | succ count ih =>
    rw [List.range_succ, List.map_append, List.flatten_append, ih, List.map_singleton,
      List.flatten_singleton, cut, ← Array.toList_append, recordStart,
      Array.extract_append_extract, Nat.zero_min, Nat.max_eq_right (Nat.le_add_right _ _),
      Nat.succ_mul]

theorem isListOf_records (store : EdgeStore) : store.IsListOf store.records where
  length_eq := store.length_records
  uniform record hrecord := by
    obtain ⟨edge, hedge⟩ := List.getElem?_of_mem hrecord
    have hlt : edge < store.edgeCount := by
      rw [← length_records]
      exact (List.getElem?_eq_some_iff.mp hedge).1
    rw [getElem?_records hlt] at hedge
    exact (record?_eq_some_iff.mp hedge).2.1
  flatten_eq := by rw [records, flatten_cuts, ← size_eq, Array.extract_size]

theorem records_of_changedAt (h : ChangedAt edge store store')
    (hrecord : store'.record? edge = some record) :
    store'.records = store.records.set edge record := by
  have hcount := h.sameShape.edgeCount_eq
  apply List.ext_getElem?
  intro other
  by_cases hother : other < store.edgeCount
  · rw [getElem?_records (hcount ▸ hother), List.getElem?_set, getElem?_records hother,
      length_records]
    by_cases hsame : edge = other
    · subst hsame
      rw [if_pos rfl, if_pos hother, hrecord]
    · rw [if_neg hsame, h.record?_eq (Ne.symm hsame)]
  · rw [List.getElem?_eq_none (by rw [length_records]; omega),
      List.getElem?_eq_none (by rw [List.length_set, length_records]; omega)]

theorem toNat_eq_sum_wordBytes (word : UInt32) :
    word.toNat = ∑ k ∈ Finset.range 4, 256 ^ k * ((wordBytes word)[k]?.getD 0).toNat := by
  have hbytes : ∑ k ∈ Finset.range 4, 256 ^ k * ((wordBytes word)[k]?.getD 0).toNat =
      word.toNat % 256 + 256 * (word.toNat / 256 % 256) + 65536 * (word.toNat / 65536 % 256) +
        16777216 * (word.toNat / 16777216 % 256) := by
    simp [Finset.sum_range_succ, wordBytes, Nat.shiftRight_eq_div_pow]
  have hlt := word.toNat_lt
  rw [hbytes]
  omega

theorem toNat_word? {word : UInt32} (h : store.word? edge offset = some word) : word.toNat =
    ∑ k ∈ Finset.range 4, 256 ^ k * ((store.byte? edge (offset + k)).getD 0).toNat := by
  rw [toNat_eq_sum_wordBytes]
  refine Finset.sum_congr rfl fun k hk => ?_
  rw [wordBytes_of_word? h (Finset.mem_range.mp hk)]

theorem exists_word_inside (hrecord : store.record? edge = some record)
    (hinside : offset + 4 ≤ record.length) :
    ∃ word, store.word? edge offset = some word ∧ word.toNat = numberAt record offset := by
  obtain ⟨hin, hlength, hbytes⟩ := record?_eq_some_iff.mp hrecord
  rw [HasRecord] at hin
  have hgranted : (store.word? edge offset).isSome := word?_isSome_iff.mpr (by omega)
  obtain ⟨word, hword⟩ := Option.isSome_iff_exists.mp hgranted
  refine ⟨word, hword, (toNat_word? hword).trans (Finset.sum_congr rfl fun k hk => ?_)⟩
  have hk := Finset.mem_range.mp hk
  rw [hbytes _ (by omega)]

theorem record?_of_setWord? (h : store.setWord? edge offset value = some store')
    (hrecord : store.record? edge = some record) (hinside : offset + 4 ≤ record.length) :
    store'.record? edge = some (replaceAt record offset (digits value)) := by
  obtain ⟨hin, hlength, hbytes⟩ := record?_eq_some_iff.mp hrecord
  have hshape := (changedAt_of_setWord? h (hlength ▸ hinside)).sameShape
  have hfits : offset + (digits value).length ≤ record.length := hinside
  refine record?_eq_some_iff.mpr ⟨hin.of_sameShape hshape, ?_, fun k hk => ?_⟩
  · rw [length_replaceAt hfits, hlength, hshape.1]
  · have hplace : offset ≤ k ∧ k < offset + 4 ↔
        store.recordStart edge + offset ≤ store.recordStart edge + k ∧
          store.recordStart edge + k < store.recordStart edge + offset + 4 := by omega
    rw [getElem?_replaceAt hfits, byte?_of_setWord? h, hbytes k (hshape.1 ▸ hk),
      digits_eq_wordBytes, Nat.add_sub_add_left]
    exact if_congr hplace rfl rfl

theorem exists_setWord_inside (hrecord : store.record? edge = some record)
    (hinside : offset + 4 ≤ record.length) (value : UInt32) :
    ∃ store', store.setWord? edge offset value = some store' ∧ ChangedAt edge store store' ∧
      store'.record? edge = some (replaceAt record offset (digits value)) := by
  obtain ⟨hin, hlength, _⟩ := record?_eq_some_iff.mp hrecord
  rw [HasRecord] at hin
  have hgranted : (store.setWord? edge offset value).isSome := setWord?_isSome_iff.mpr (by omega)
  obtain ⟨store', hstore'⟩ := Option.isSome_iff_exists.mp hgranted
  exact ⟨store', hstore', changedAt_of_setWord? hstore' (hlength ▸ hinside),
    record?_of_setWord? hstore' hrecord hinside⟩

/-- An access inside a record gives back what it does on the record alone, and the store changes as
that record does. -/
theorem onStore_inside {x : Access} (hx : x.Inside store.edgeCount store.bytesPerEdge)
    (hrecord : store.record? x.edge = some record) :
    ∃ reply changed, x.onRecord record = some (reply, changed) ∧
      (x.onStore store).1 = some reply ∧ ChangedAt x.edge store (x.onStore store).2 ∧
      (x.onStore store).2.record? x.edge = some changed := by
  obtain ⟨hin, hlength, hbytes⟩ := record?_eq_some_iff.mp hrecord
  cases x with
  | word edge offset =>
    change store.record? edge = some record at hrecord
    have hinside : offset + 4 ≤ record.length := hlength ▸ hx.2
    obtain ⟨word, hword, hnumber⟩ := exists_word_inside hrecord hinside
    refine ⟨_, _, if_pos hinside, ?_, .refl _ _, hrecord⟩
    rw [onStore, hword, ← hnumber]
    rfl
  | byte edge offset =>
    have hinside : offset < record.length := hlength ▸ hx.2
    have hbyte : record[offset]? = store.byte? edge offset := hbytes offset hx.2
    refine ⟨.number record[offset].toNat, record, ?_, ?_, .refl _ _, hrecord⟩
    · rw [onRecord, List.getElem?_eq_getElem hinside]
      rfl
    · rw [onStore, ← hbyte, List.getElem?_eq_getElem hinside]
      rfl
  | record edge =>
    change store.record? edge = some record at hrecord
    refine ⟨_, _, rfl, ?_, .refl _ _, hrecord⟩
    rw [onStore, hrecord]
    rfl
  | setWord edge offset value =>
    change store.record? edge = some record at hrecord
    have hinside : offset + 4 ≤ record.length := hlength ▸ hx.2
    obtain ⟨store', hstore', hchanged, hrecord'⟩ := exists_setWord_inside hrecord hinside value
    refine ⟨_, _, if_pos hinside, ?_⟩
    rw [onStore, written, hstore']
    exact ⟨rfl, hchanged, hrecord'⟩
  | setRecord edge new =>
    change store.HasRecord edge at hin
    obtain ⟨store', hstore'⟩ := exists_setRecord hin hx.2
    refine ⟨_, _, if_pos (hx.2.trans hlength.symm), ?_⟩
    rw [onStore, written, hstore']
    exact ⟨rfl, changedAt_of_setRecord? hstore', record?_setRecord?_self hstore' hin⟩

variable {x : Access} {accesses : List Access}

theorem onStore_misfits (hx : x.Misfits store.bytesPerEdge) : x.onStore store = (none, store) := by
  cases x with
  | setRecord edge new =>
    rw [onStore, setRecord?, if_neg hx]
    rfl
  | word | byte | record | setWord => exact hx.elim

theorem onRecords_misfits {records : List (List UInt8)} (h : store.IsListOf records)
    (hx : x.Misfits store.bytesPerEdge) : x.onRecords records = (none, records) := by
  cases x with
  | setRecord edge new =>
    rw [onRecords]
    cases hrecord : records[(setRecord edge new).edge]? with
    | none => rfl
    | some record =>
      have hlength := h.uniform record (List.mem_of_getElem? hrecord)
      have hother : ¬ new.length = record.length := hlength ▸ hx
      rw [Option.bind_some, onRecord, if_neg hother]
  | word | byte | record | setWord => exact hx.elim

theorem step_records
    (hx : x.Inside store.edgeCount store.bytesPerEdge ∨ x.Misfits store.bytesPerEdge) :
    x.onRecords store.records = ((x.onStore store).1, (x.onStore store).2.records) ∧
      store.SameShape (x.onStore store).2 := by
  rcases hx with hx | hx
  · have hedge := hx.edge_lt
    obtain ⟨record, hrecord⟩ := (hasRecord_of_lt_edgeCount hedge).exists_record
    obtain ⟨reply, changed, hon, hreply, hchanged, hrecord'⟩ := onStore_inside hx hrecord
    refine ⟨?_, hchanged.sameShape⟩
    rw [onRecords, getElem?_records hedge, hrecord, Option.bind_some, hon, hreply,
      records_of_changedAt hchanged hrecord']
  · rw [onStore_misfits hx, onRecords_misfits store.isListOf_records hx]
    exact ⟨rfl, .refl store⟩

theorem run_records (haccesses : ∀ x ∈ accesses,
      x.Inside store.edgeCount store.bytesPerEdge ∨ x.Misfits store.bytesPerEdge) :
    run onRecords accesses store.records =
        ((run onStore accesses store).1, (run onStore accesses store).2.records) ∧
      store.SameShape (run onStore accesses store).2 := by
  induction accesses generalizing store with
  | nil => exact ⟨rfl, .refl store⟩
  | cons x accesses ih =>
    obtain ⟨hx, haccesses⟩ := List.forall_mem_cons.mp haccesses
    obtain ⟨hstep, hshape⟩ := step_records hx
    -- What is inside a record before the access is inside one behind it.
    rw [← hshape.1, ← hshape.edgeCount_eq] at haccesses
    obtain ⟨hrest, hlast⟩ := ih haccesses
    refine ⟨?_, hshape.trans hlast⟩
    rw [run, hstep]
    change (_ :: (run onRecords accesses _).1, (run onRecords accesses _).2) = _
    rw [hrest]
    rfl

/-- Accesses inside the records do to the store what they do to a list of records, one of them at a
time. None of them is refused, a record of the wrong length always is, and neither the number of
records nor their size ever changes. -/
theorem behaves_as_records (store : EdgeStore) (haccesses : ∀ x ∈ accesses,
      x.Inside store.edgeCount store.bytesPerEdge ∨ x.Misfits store.bytesPerEdge) :
    let size := store.bytesPerEdge
    let edges := store.edgeCount
    let flat := run onStore accesses store
    let listed := run onRecords accesses store.records
    (flat.1 = listed.1 ∧ flat.2.IsListOf listed.2) ∧
    (flat.2.bytesPerEdge = size ∧ flat.2.edgeCount = edges) ∧
    (∀ x : Access, x.Inside edges size → (x.onStore flat.2).1.isSome) ∧
    (∀ x : Access, x.Misfits size → x.onStore flat.2 = (none, flat.2)) ∧
    ∀ edge < edges, flat.2.record? edge = listed.2[edge]? ∧
      ∀ offset, offset + 4 ≤ size → ∃ word, flat.2.word? edge offset = some word ∧
        word.toNat =
          ∑ k ∈ Finset.range 4, 256 ^ k * ((flat.2.byte? edge (offset + k)).getD 0).toNat := by
  intro size edges flat listed
  obtain ⟨hrun, hshape⟩ := run_records haccesses
  have hlisted : listed = (flat.1, flat.2.records) := hrun
  have hedges : flat.2.edgeCount = edges := hshape.edgeCount_eq
  have hsize : flat.2.bytesPerEdge = size := hshape.1
  have hlast {edge : Nat} (hedge : edge < edges) : ∃ record, flat.2.record? edge = some record :=
    (hasRecord_of_lt_edgeCount (hedges ▸ hedge)).exists_record
  rw [hlisted]
  refine ⟨⟨rfl, isListOf_records _⟩, ⟨hsize, hedges⟩, fun x hx => ?_, fun x hx => ?_,
    fun edge hedge => ⟨(getElem?_records (hedges ▸ hedge)).symm, fun offset hoffset => ?_⟩⟩
  · obtain ⟨record, hrecord⟩ := hlast hx.edge_lt
    rw [← hedges, ← hsize] at hx
    obtain ⟨reply, _, _, hreply, _⟩ := onStore_inside hx hrecord
    exact Option.isSome_of_eq_some hreply
  · exact onStore_misfits (hsize ▸ hx)
  · obtain ⟨record, hrecord⟩ := hlast hedge
    have hlength := (record?_eq_some_iff.mp hrecord).2.1
    obtain ⟨word, hword, _⟩ := exists_word_inside hrecord (hlength.trans hsize ▸ hoffset)
    exact ⟨word, hword, toNat_word? hword⟩

def sixByteRecords : EdgeStore where
  bytesPerEdge := 6
  bytes := Array.replicate 12 0
  whole := by decide

/-- Of two words that overlap, neither at a multiple of four, the later one counts where they do. -/
theorem behaves_as_records_overlapping :
    let accesses : List Access :=
      [.setWord 1 1 0x44332211, .setWord 1 2 0xddccbbaa, .setRecord 7 [1, 2], .word 1 0,
        .byte 1 1, .setRecord 0 [1, 2, 3, 4, 5, 6], .record 0]
    let flat := run onStore accesses sixByteRecords
    let last := flat.2
    ((∀ x ∈ accesses, x.Inside 2 6 ∨ x.Misfits 6) ∧
      flat.1 = [some .changed, some .changed, none, some (.number 0xbbaa1100), some (.number 0x11),
        some .changed, some (.bytes [1, 2, 3, 4, 5, 6])] ∧
      last.IsListOf [[1, 2, 3, 4, 5, 6], [0, 0x11, 0xaa, 0xbb, 0xcc, 0xdd]]) ∧
    (last.bytesPerEdge = 6 ∧ last.edgeCount = 2) ∧
    ((Access.byte 1 5).Inside 2 6 ∧ ((Access.byte 1 5).onStore last).1.isSome) ∧
    ((Access.setRecord 1 []).Misfits 6 ∧ (Access.setRecord 1 []).onStore last = (none, last)) ∧
    last.record? 1 = some [0, 0x11, 0xaa, 0xbb, 0xcc, 0xdd] ∧
    ∃ word, last.word? 1 1 = some word ∧
      word.toNat = ∑ k ∈ Finset.range 4, 256 ^ k * ((last.byte? 1 (1 + k)).getD 0).toNat := by
  intro accesses flat last
  have haccesses : ∀ x ∈ accesses, x.Inside 2 6 ∨ x.Misfits 6 := by
    simp [accesses, Inside, Misfits]
  have hbyte : (Access.byte 1 5).Inside 2 6 := ⟨by decide, by decide⟩
  have hmisfit : (Access.setRecord 1 []).Misfits 6 := by simp [Misfits]
  have hlisted : run onRecords accesses sixByteRecords.records =
      ([some .changed, some .changed, none, some (.number 0xbbaa1100), some (.number 0x11),
        some .changed, some (.bytes [1, 2, 3, 4, 5, 6])],
        [[1, 2, 3, 4, 5, 6], [0, 0x11, 0xaa, 0xbb, 0xcc, 0xdd]]) := by decide
  obtain ⟨⟨hreplies, hlist⟩, hshape, hinside, hmisfits, hedge⟩ :=
    behaves_as_records sixByteRecords haccesses
  obtain ⟨hrecord, hword⟩ := hedge 1 (by decide)
  rw [hlisted] at hreplies hlist hrecord
  exact ⟨⟨haccesses, hreplies, hlist⟩, hshape, ⟨hbyte, hinside _ hbyte⟩,
    ⟨hmisfit, hmisfits _ hmisfit⟩, hrecord, hword 1 (by decide)⟩

end EdgeStore

end PackedEdges
