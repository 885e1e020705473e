import PackedEdges.Proofs.RecordEnds
import PackedEdges.Proofs.RestoredRuns

/-! Reads and writes of a built schema lose nothing. On edges of the store every number fits where
it is put, and every index is inside; all other edges are refused. -/

namespace PackedEdges

section

variable {slot : Slot} {store : EdgeStore} {edge : Nat}

theorem Slot.value?_eq_none (hnone : ∀ offset, store.byte? edge offset = none) (bits : UInt32)
    (byBytes : Bool) : slot.value? store edge bits byBytes = none := by
  have hword : slot.wordValue? store edge = none := by simp [wordValue?, EdgeStore.word?, hnone]
  cases byBytes with
  | false => exact hword
  | true =>
    simp only [value?_true, byteValue?, hnone]
    split_ifs
    · rfl
    · rfl
    · rfl
    · exact hword

theorem Attribute.putRaw_eq_none (hnone : ∀ offset, store.byte? edge offset = none)
    (raw : UInt32) : putRaw slot raw edge store = none := by
  simp [putRaw, EdgeStore.word?, hnone]

theorem Attribute.Placed.read_eq_refused {a : Attribute} (h : a.Placed)
    (hnone : ∀ offset, store.byte? edge offset = none) (direction : Direction) :
    a.read direction edge store = .refused := by
  have hvalue (slot : Slot) : a.valueIn slot store edge = .refused := by
    simp [valueIn, Slot.value?_eq_none hnone]
  by_cases hback : a.twoDirections = true ∧ direction = .reverse
  · obtain ⟨slot, hslot⟩ := Option.isSome_iff_exists.mp (h.isSome_reverse.trans hback.1)
    simp [read, h.isRegistered, hback, hslot, hvalue]
  · simp only [read, h.isRegistered, hback, hvalue]
    rfl

end

/-- No shift by a whole word or more, whether the slot is read by its word or by its bytes. -/
structure Slot.ShiftsWithin (slot : Slot) (bits : UInt32) : Prop where
  shift_lt : slot.shift.toNat < 32
  byteShift_lt : slot.byteShift.toNat < 8
  toNat_footprint : (slot.byteShift + bits).toNat = slot.byteShift.toNat + bits.toNat
  bits_le : slot.byteShift + bits ≤ 24 → bits.toNat ≤ 24

theorem Slot.IsRun.shiftsWithin {slot : Slot} {bits : UInt32} (h : slot.IsRun bits.toNat) :
    slot.ShiftsWithin bits := by
  have hshift : slot.byteShift.toNat = slot.shift.toNat % 8 := by simp [byteShift]
  have hsum : (slot.byteShift + bits).toNat = slot.byteShift.toNat + bits.toNat := by
    rw [h.toNat_footprint, hshift]
  refine ⟨h.shift_lt, by omega, hsum, fun hle => ?_⟩
  have hnat : slot.byteShift.toNat + bits.toNat ≤ 24 := by
    rw [← hsum]
    exact UInt32.le_iff_toNat_le.mp hle
  omega

namespace Attribute

/-- A value goes into a slot as it is: less the minimum it fits into the slot's bits, and shifted
to its place it stays under the mask. -/
structure PutsExactly (a : Attribute) (slot : Slot) (stored : Int32) : Prop where
  toNat_encode : ((a.encode stored).toNat : Int) = stored.toInt - a.minimum.toInt
  encode_lt : (a.encode stored).toNat < 2 ^ a.bits.toNat
  encode_le : a.negates = true → (a.encode stored).toNat ≤ 2 ^ a.bits.toNat - 2
  toNat_shifted : (a.encode stored <<< slot.shift).toNat =
    (a.encode stored).toNat * 2 ^ slot.shift.toNat
  shifted_and_mask : (a.encode stored <<< slot.shift) &&& slot.mask = a.encode stored <<< slot.shift

/-- A value comes out of a slot as it is, and so does its negation. -/
structure TakesExactly (a : Attribute) (slot : Slot) (store : EdgeStore) (edge : Nat)
    (raw : UInt32) : Prop where
  value?_eq : slot.value? store edge a.bits a.byBytes = some raw
  inRange : a.InRange (a.minimum.toInt + raw.toNat)
  toInt_decode : (a.decode raw).toInt = a.minimum.toInt + raw.toNat
  toInt_neg : a.negates = true → (-a.decode raw).toInt = -(a.decode raw).toInt

end Attribute

namespace Slot.IsRun

variable {slot : Slot} {width : Nat} {raw : UInt32}

theorem toNat_shifted (h : slot.IsRun width) (hraw : raw.toNat < 2 ^ width) :
    (raw <<< slot.shift).toNat = raw.toNat * 2 ^ slot.shift.toNat := by
  rw [UInt32.toNat_shiftLeft, Nat.mod_eq_of_lt h.shift_lt, Nat.shiftLeft_eq,
    Nat.mod_eq_of_lt (mul_two_pow_lt hraw h.fits)]

theorem shifted_and_mask (h : slot.IsRun width) (hraw : raw.toNat < 2 ^ width) :
    (raw <<< slot.shift) &&& slot.mask = raw <<< slot.shift := by
  apply UInt32.toNat_inj.mp
  apply Nat.eq_of_testBit_eq
  intro j
  rw [UInt32.toNat_and, Nat.testBit_and, h.toNat_shifted hraw, Nat.testBit_mul_two_pow,
    h.testBit_mask]
  by_cases hj : slot.shift.toNat ≤ j ∧ j < slot.shift.toNat + width
  · simp [hj]
  · by_cases hlow : slot.shift.toNat ≤ j
    · simp [testBit_eq_false hraw (show width ≤ j - slot.shift.toNat by omega)]
    · simp [hlow]

end Slot.IsRun

namespace Attribute

variable {a : Attribute} {direction : Direction}

theorem Sound.putsExactly (h : a.Sound) {slot : Slot} (hrun : slot.IsRun a.bits.toNat)
    {stored : Int32} (hstored : a.InRange stored.toInt) : a.PutsExactly slot stored := by
  have hlt := h.encode_lt hstored
  have hnat := toNat_encode hstored.1
  refine ⟨hnat, hlt, fun hneg => ?_, hrun.toNat_shifted hlt, hrun.shifted_and_mask hlt⟩
  have hmax := h.maximum_eq_of_negates hneg
  have hhigh := hstored.2
  omega

theorem Placed.accepts_of_target (h : a.Placed) {value : Int32} {target : Slot × Int32}
    (hcheck : a.checkValue value = .ok ()) (htarget : a.target direction value = .ok target) :
    a.Accepts direction value.toInt := by
  refine ⟨h.checkValue_eq_ok_iff.mp hcheck, ?_⟩
  rintro rfl
  by_contra hneither
  rw [not_or, Bool.not_eq_true, Bool.not_eq_true] at hneither
  simp [Attribute.target, hneither] at htarget

/-- A value that passes the checks is put into one of the slots, turned for the direction. -/
theorem Sound.putsExactly_of_target (h : a.Sound) (hplaced : a.Placed) {value stored : Int32}
    {slot : Slot} (hcheck : a.checkValue value = .ok ())
    (htarget : a.target direction value = .ok (slot, stored)) :
    stored.toInt = a.turn direction value.toInt ∧ a.PutsExactly slot stored := by
  have hv := hplaced.accepts_of_target hcheck htarget
  obtain ⟨served, hserved⟩ := hplaced.exists_slot direction
  rw [h.target_of_accepts hserved hv, Except.ok.injEq, Prod.mk.injEq] at htarget
  obtain ⟨rfl, rfl⟩ := htarget
  have hturn := h.toInt_turn direction hv.1
  refine ⟨hturn, h.putsExactly (hplaced.isRun_of_slot? hserved) ?_⟩
  rw [hturn]
  exact h.turn_inRange direction hv.1

end Attribute

namespace Schema

variable {schema : Schema} {edges : Nat} {state : Schema × EdgeStore} {table : Table}

theorem Holds.noteGreatest (h : schema.Holds edges state table) (greatest : String → Int32) :
    schema.Holds edges (schema.withGreatest greatest, state.2) { table with greatest } :=
  ⟨rfl, h.bytesPerEdge_eq, h.size_eq, h.inRange, h.field_eq, h.clear⟩

namespace Built

variable {a : Attribute} {edge : Nat}

theorem write_beyond (h : schema.Built) (hholds : schema.Holds edges state table)
    (ha : a ∈ schema.attributes) {direction : Direction} (hedge : edges ≤ edge) {value : Int32}
    (hv : a.Accepts direction value.toInt) :
    ∃ greatest, perform (.write a.name direction edge value) state =
      (.refused, schema.withGreatest greatest, state.2) := by
  obtain ⟨current, store⟩ := state
  obtain rfl : current = schema.withGreatest table.greatest := hholds.schema_eq
  have hnone := EdgeStore.byte?_beyond hholds.size_eq hedge
  obtain ⟨slot, hslot⟩ := (h.placed ha).exists_slot direction
  have hwrite := (h.sound ha).write_of_accepts (h.placed ha) hslot hv (table.greatest a.name) edge
    store
  rw [Attribute.putRaw_eq_none hnone] at hwrite
  have hschema := h.write_of_attribute? (h.attribute?_eq ha) hwrite
  refine ⟨Function.update table.greatest a.name
    (Attribute.greater (table.greatest a.name) (a.turn direction value)), ?_⟩
  simp only [perform, hschema, Outcome.ofOption]

/-- The table stays true whatever edges the calls ask for. -/
theorem exists_holds_perform (h : schema.Built) (hholds : schema.Holds edges state table)
    (call : Call) : ∃ table', schema.Holds edges (perform call state).2 table' := by
  by_cases hedge : call.edge < edges
  · exact ⟨_, (h.perform_holds hedge hholds).2⟩
  · cases call with
    | read name direction edge =>
      rw [snd_perform_read]
      exact ⟨table, hholds⟩
    | write name direction edge value =>
      have hbeyond : edges ≤ edge := Nat.not_lt.mp hedge
      obtain ⟨current, store⟩ := state
      obtain rfl : current = schema.withGreatest table.greatest := hholds.schema_eq
      cases hfind : schema.attribute? name with
      | none =>
        obtain ⟨e, he⟩ := lookup_of_attribute?_eq_none table.greatest hfind
        refine ⟨table, ?_⟩
        simp only [perform, Schema.write, he]
        exact hholds
      | some a =>
        obtain ⟨ha, rfl⟩ := mem_of_attribute? hfind
        by_cases hv : a.Accepts direction value.toInt
        · obtain ⟨greatest, hperform⟩ := h.write_beyond hholds ha hbeyond hv
          rw [hperform]
          exact ⟨_, hholds.noteGreatest greatest⟩
        · obtain ⟨e, hwrite⟩ :=
            (h.placed ha).write_of_not_accepts hv (table.greatest a.name) edge store
          refine ⟨table, ?_⟩
          simp only [perform, h.write_of_attribute? hfind hwrite, Function.update_eq_self]
          exact hholds

theorem exists_holds_run (h : schema.Built) {store : EdgeStore}
    (hstore : schema.newStore? edges = some store) (calls : List Call) :
    ∃ table, schema.Holds edges (schema.run store calls).2 table := by
  have hrun : ∀ state table, schema.Holds edges state table →
      ∃ table', schema.Holds edges (Call.run perform calls state).2 table' := by
    induction calls with
    | nil => exact fun _ table hholds => ⟨table, hholds⟩
    | cons call calls ih =>
      intro state table hholds
      obtain ⟨next, hnext⟩ := h.exists_holds_perform hholds call
      exact ih _ next hnext
  exact hrun _ _ (h.holds_initial hstore)

theorem takesExactly (h : schema.Built) (hholds : schema.Holds edges state table)
    (ha : a ∈ schema.attributes) {slot : Slot} (hslot : slot ∈ a.slots) (hedge : edge < edges) :
    ∃ raw, a.TakesExactly slot state.2 edge raw := by
  obtain ⟨side, hside⟩ := Attribute.mem_slots_iff.mp hslot
  have hrun := (h.placed ha).isRun hslot
  have hvalue := hrun.value?_eq (h.inStore hholds ha hside hedge) a.byBytes
  have hcell := hholds.inRange ha side edge
  have hfield := hholds.field_eq ha hside hedge
  have hdecode := Attribute.Sound.toInt_decode_of_eq hcell hfield
  have hnat := UInt32.toNat_ofNat_of_lt' (hrun.field_lt state.2 edge)
  have hsum : a.minimum.toInt + (UInt32.ofNat (slot.field a.bits.toNat state.2 edge)).toNat =
      table.cells ⟨a.name, side, edge⟩ := by
    rw [hnat, hfield]
    omega
  refine ⟨_, hvalue, hsum ▸ hcell, hdecode.trans hsum.symm, fun _ => ?_⟩
  exact (h.sound ha).toInt_neg (by rwa [hdecode])

theorem write_ne_refused (h : schema.Built) (hholds : schema.Holds edges state table)
    (ha : a ∈ schema.attributes) (direction : Direction) (hedge : edge < edges) (value : Int32) :
    (state.1.write a.name direction edge value state.2).2 ≠ .refused := by
  obtain ⟨current, store⟩ := state
  obtain rfl : current = schema.withGreatest table.greatest := hholds.schema_eq
  have hfind := h.attribute?_eq ha
  by_cases hv : a.Accepts direction value.toInt
  · obtain ⟨slot, hslot⟩ := (h.placed ha).exists_slot direction
    obtain ⟨_, _, _, _, hwrite, _⟩ := (h.sound ha).exists_write (h.placed ha) hslot
      (h.inStore hholds ha hslot hedge) hv (table.greatest a.name)
    simp [h.write_of_attribute? hfind hwrite]
  · obtain ⟨e, hwrite⟩ := (h.placed ha).write_of_not_accepts hv (table.greatest a.name) edge store
    simp [h.write_of_attribute? hfind hwrite]

end Built

/-- After any calls, reads and writes on edges of the store go through and are exact, and those on
other edges are refused and change no byte. -/
theorem access_is_exact {schema : Schema} (h : schema.Built) {edges : Nat} {store : EdgeStore}
    (hstore : schema.newStore? edges = some store) (calls : List Call) :
    let state := (schema.run store calls).2
    ∀ a ∈ schema.attributes,
      (∀ slot ∈ a.slots, slot.ShiftsWithin a.bits) ∧
      (∀ direction value slot stored, a.checkValue value = .ok () →
        a.target direction value = .ok (slot, stored) →
        stored.toInt = a.turn direction value.toInt ∧ a.PutsExactly slot stored) ∧
      (∀ edge < edges,
        (∀ direction, (∃ v, state.1.read a.name direction edge state.2 = .done v) ∧
          ∀ value, (state.1.write a.name direction edge value state.2).2 ≠ .refused) ∧
        ∀ slot ∈ a.slots, ∃ raw, a.TakesExactly slot state.2 edge raw) ∧
      ∀ edge ≥ edges, ∀ direction,
        state.1.read a.name direction edge state.2 = .refused ∧
        ∀ value target, a.checkValue value = .ok () → a.target direction value = .ok target →
          (perform (.write a.name direction edge value) state).1 = .refused ∧
          (perform (.write a.name direction edge value) state).2.2 = state.2 := by
  intro state a ha
  obtain ⟨table, hholds⟩ := h.exists_holds_run hstore calls
  have hplaced := h.placed ha
  refine ⟨fun slot hslot => (hplaced.isRun hslot).shiftsWithin,
    fun direction value slot stored => (h.sound ha).putsExactly_of_target hplaced,
    fun edge hedge => ⟨fun direction => ⟨?_, h.write_ne_refused hholds ha direction hedge⟩,
      fun slot hslot => h.takesExactly hholds ha hslot hedge⟩,
    fun edge hedge direction => ⟨?_, fun value target hcheck htarget => ?_⟩⟩
  · obtain ⟨v, hread, _⟩ := h.read_eq hholds ha direction hedge
    exact ⟨v, hread⟩
  · rw [hholds.schema_eq, read_of_attribute? (h.attribute?_eq ha)]
    exact hplaced.read_eq_refused (EdgeStore.byte?_beyond hholds.size_eq hedge) direction
  · obtain ⟨greatest, hperform⟩ :=
      h.write_beyond hholds ha hedge (hplaced.accepts_of_target hcheck htarget)
    change (perform _ (schema.run store calls).2).1 = _ ∧ _
    rw [hperform]
    exact ⟨rfl, rfl⟩

/-- The widest attribute that there is: with its sign bit it fills a word. -/
def balance : Attribute :=
  { Attribute.ofSettings "balance" { bits := 31, negates := true } with
    forward := { mask := 4294967295 } }

def ledger : Schema where
  attributes := [balance]
  bytesPerEdge := 4

theorem access_is_exact_ledger :
    let calls : List Call :=
      [.write "balance" .reverse 1 2147483647, .write "balance" .forward 2 5,
        .write "balance" .forward 0 2147483647]
    let state := (ledger.run roadStore calls).2
    ledger.Built ∧ ledger.newStore? 2 = some roadStore ∧ balance ∈ ledger.attributes ∧
      (balance.checkValue 2147483647 = .ok () ∧
        balance.target .reverse 2147483647 = .ok (balance.forward, -2147483647) ∧
        balance.PutsExactly balance.forward (-2147483647)) ∧
      balance.forward ∈ balance.slots ∧
      (∃ raw, balance.TakesExactly balance.forward state.2 0 raw) ∧
      state.1.read "balance" .reverse 2 state.2 = .refused ∧
      (perform (.write "balance" .reverse 2 2147483647) state).1 = .refused := by
  intro calls state
  have hbuilt : ledger.Built := by
    refine ⟨{ attributes := [balance.withoutSlots] }, fun a ha => ?_, by cbv⟩
    obtain rfl : a = balance.withoutSlots := List.mem_singleton.mp ha
    exact ⟨{}, "balance", { bits := 31, negates := true }, by cbv⟩
  have hstore : ledger.newStore? 2 = some roadStore := by decide
  have hmem : balance ∈ ledger.attributes := List.mem_singleton_self _
  have hcheck : balance.checkValue 2147483647 = .ok () := by cbv
  have htarget : balance.target .reverse 2147483647 = .ok (balance.forward, -2147483647) := by cbv
  have hslot : balance.forward ∈ balance.slots := List.mem_cons_self
  obtain ⟨_, hputs, hinside, hbeyond⟩ := access_is_exact hbuilt hstore calls balance hmem
  obtain ⟨hread, hwrite⟩ := hbeyond 2 (by decide) .reverse
  exact ⟨hbuilt, hstore, hmem, ⟨hcheck, htarget, (hputs _ _ _ _ hcheck htarget).2⟩, hslot,
    (hinside 0 (by decide)).2 _ hslot, hread, (hwrite _ _ hcheck htarget).1⟩

end Schema

end PackedEdges
