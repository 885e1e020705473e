import PackedEdges.Proofs.ExactAccess

/-! Schemas that grow. Attributes added behind the others leave all slots where they are, and old
records go on with zero bytes at their ends, from which the new attributes read their first
values. -/

namespace PackedEdges

/-- The edge's record goes on in another store, with clear bits at its end. -/
structure EdgeStore.Continues (store store' : EdgeStore) (edge edge' : Nat) : Prop where
  hasRecord : store.HasRecord edge
  hasRecord' : store'.HasRecord edge'
  recordBit_eq {i : Nat} (hi : i < 8 * store'.bytesPerEdge) : store'.recordBit edge' i =
    (decide (i < 8 * store.bytesPerEdge) && store.recordBit edge i)

theorem EdgeStore.continues_of_record? {store store' : EdgeStore} {edge edge' count : Nat}
    {record : List UInt8} (hrecord : store.record? edge = some record)
    (hrecord' : store'.record? edge' = some (record ++ List.replicate count 0)) :
    store.Continues store' edge edge' := by
  obtain ⟨hin, hlength, _⟩ := record?_eq_some_iff.mp hrecord
  refine ⟨hin, (record?_eq_some_iff.mp hrecord').1, fun {i} hi => ?_⟩
  rw [recordBit_of_record? hrecord' hi, bitAt_append_zeros, hlength]
  by_cases hold : i < 8 * store.bytesPerEdge
  · rw [recordBit_of_record? hrecord hold]
  · simp [hold]

namespace Schema

/-- All of the old schema is at the front of the new one. -/
structure Extends (old new : Schema) (more : List Attribute) : Prop where
  attributes_eq : new.attributes = old.attributes ++ more
  bytesPerEdge_le : old.bytesPerEdge ≤ new.bytesPerEdge

open SchemaBuilder in
theorem extends_of_build {before after : SchemaBuilder} {ws : List Attribute} {old new : Schema}
    (happend : after.attributes = before.attributes ++ ws) (hdef : ∀ a ∈ ws, a.Defined)
    (hold : before.build = .done old) (hnew : after.build = .done new) :
    ∃ more, old.Extends new more := by
  obtain ⟨placed, last, hall, hschema⟩ := build_cases hold
  obtain ⟨placed', last', hall', hschema'⟩ := build_cases hnew
  rw [happend] at hall'
  obtain ⟨front, next, rest, hfront, hrest, rfl⟩ := registerAll_append_cases hall'
  rw [hall] at hfront
  cases hfront
  obtain ⟨_, rfl⟩ := ofAttributes?_eq_ok_iff.mp hschema
  obtain ⟨_, rfl⟩ := ofAttributes?_eq_ok_iff.mp hschema'
  obtain ⟨_, _, hgrants⟩ := grants_of_registerAll (fun a ha => (hdef a ha).fresh.2.1) hrest
  have hwords := LayoutCursor.requiredWords_mono hgrants.position_le
  refine ⟨rest, rfl, ?_⟩
  rw [UInt64.le_iff_toNat_le, toNat_requiredBytes, toNat_requiredBytes]
  exact Nat.mul_le_mul_left 4 hwords

namespace Extends

variable {old new : Schema} {more : List Attribute}

theorem mem_new (h : old.Extends new more) {a : Attribute} (ha : a ∈ old.attributes) :
    a ∈ new.attributes :=
  h.attributes_eq ▸ List.mem_append_left more ha

theorem mem_new_of_more (h : old.Extends new more) {b : Attribute} (hb : b ∈ more) :
    b ∈ new.attributes :=
  h.attributes_eq ▸ List.mem_append_right old.attributes hb

theorem not_mem_old (h : old.Extends new more) (hnew : new.Built) {b : Attribute}
    (hb : b ∈ more) : b ∉ old.attributes := by
  obtain ⟨given, _, hlaid⟩ := hnew.laidOut
  have hnodup := List.Nodup.of_map _ hlaid.nodup_names
  rw [h.attributes_eq] at hnodup
  exact fun ha => (List.nodup_append.mp hnodup).2.2 b ha b hb rfl

theorem not_mem_old_slot (h : old.Extends new more) (hnew : new.Built) {b : Attribute}
    (hb : b ∈ more) {side : Direction} {slot : Slot} (hslot : b.slot? side = some slot) {i : Nat}
    (hi : i ∈ slot.recordBits) : ∀ slot' ∈ old.slots, i ∉ slot'.recordBits := by
  intro slot' hslot' hi'
  obtain ⟨a, ha, side', hside'⟩ := mem_slots_iff.mp hslot'
  obtain ⟨rfl, _⟩ :=
    hnew.eq_of_mem_recordBits (h.mem_new ha) (h.mem_new_of_more hb) hside' hslot hi' hi
  exact h.not_mem_old hnew hb ha

variable {store store' : EdgeStore} {edge edge' : Nat}

theorem read_old (h : old.Extends new more) (hold : old.Built) (hnew : new.Built)
    (hsize : store.bytesPerEdge = old.bytesPerEdge.toNat)
    (hsize' : store'.bytesPerEdge = new.bytesPerEdge.toNat)
    (hgoes : store.Continues store' edge edge') {a : Attribute} (ha : a ∈ old.attributes)
    (direction : Direction) :
    new.read a.name direction edge' store' = a.read direction edge store := by
  obtain ⟨slot, hslot⟩ := (hold.placed ha).exists_slot direction
  have hin := hold.slot_inStore hsize hgoes.hasRecord ha hslot
  have hin' := hnew.slot_inStore hsize' hgoes.hasRecord' (h.mem_new ha) hslot
  have hbit : ∀ i ∈ slot.recordBits, store'.recordBit edge' i = store.recordBit edge i := by
    intro i hi
    have hi := hold.lt_of_mem_recordBits ha hslot hi
    have hle := UInt64.le_iff_toNat_le.mp h.bytesPerEdge_le
    rw [hgoes.recordBit_eq (by omega)]
    simp [show i < 8 * store.bytesPerEdge by omega]
  obtain ⟨v, hread, hread'⟩ := (hold.sound ha).read_congr (hold.placed ha) hslot hin hin' hbit
  rw [hnew.schema_read_eq (h.mem_new ha), hread, hread']

/-- The bits of a new slot are clear: in the old record no slot has them, and behind it there are
only zeros. -/
theorem field_eq_zero (h : old.Extends new more) (hnew : new.Built) {edges : Nat}
    {state : Schema × EdgeStore} {table : Table} (hholds : old.Holds edges state table)
    (hedge : edge < edges) (hsize' : store'.bytesPerEdge = new.bytesPerEdge.toNat)
    (hgoes : state.2.Continues store' edge edge') {b : Attribute} (hb : b ∈ more)
    {side : Direction} {slot : Slot} (hslot : b.slot? side = some slot) :
    slot.field b.bits.toNat store' edge' = 0 := by
  have hrun := (hnew.placed (h.mem_new_of_more hb)).isRun_of_slot? hslot
  apply Nat.eq_of_testBit_eq
  intro j
  rw [Slot.testBit_field, Nat.zero_testBit]
  by_cases hj : j < b.bits.toNat
  · have hmem : slot.start + j ∈ slot.recordBits := hrun.mem_recordBits.mpr (by omega)
    have hi := hnew.lt_of_mem_recordBits (h.mem_new_of_more hb) hslot hmem
    rw [hgoes.recordBit_eq (by omega)]
    by_cases hinside : slot.start + j < 8 * state.2.bytesPerEdge
    · have hfree := h.not_mem_old_slot hnew hb hslot hmem
      simp [hholds.clear hedge hinside hfree]
    · simp [hinside]
  · simp [hj]

theorem read_more (h : old.Extends new more) (hnew : new.Built) {edges : Nat}
    {state : Schema × EdgeStore} {table : Table} (hholds : old.Holds edges state table)
    (hedge : edge < edges) (hsize' : store'.bytesPerEdge = new.bytesPerEdge.toNat)
    (hgoes : state.2.Continues store' edge edge') {b : Attribute} (hb : b ∈ more)
    (direction : Direction) : new.read b.name direction edge' store' =
      .done (if b.negates ∧ direction = .reverse then b.maximum else b.minimum) := by
  have hmem := h.mem_new_of_more hb
  have hsound := hnew.sound hmem
  obtain ⟨slot, hslot⟩ := (hnew.placed hmem).exists_slot direction
  have hin := hnew.slot_inStore hsize' hgoes.hasRecord' hmem hslot
  have hzero := h.field_eq_zero hnew hholds hedge hsize' hgoes hb hslot
  obtain ⟨v, hread, hv⟩ := hsound.exists_read (hnew.placed hmem) hslot hin hsound.inRange_minimum
    (by simp [hzero])
  rw [hnew.schema_read_eq hmem, hread, Outcome.done.injEq]
  apply Int32.toInt_inj.mp
  rw [hv, Attribute.turn]
  split_ifs with hback
  · have hsymm := hsound.symmetric hback.1
    omega
  · rfl

theorem map_withoutSlots_more (h : old.Extends new more) {given ws : List Attribute}
    (hold : old.LaidOut given) (hnew : new.LaidOut (given ++ ws)) :
    more.map Attribute.withoutSlots = ws := by
  have hall := hnew.attributes_eq
  rw [h.attributes_eq, List.map_append, hold.attributes_eq] at hall
  exact List.append_cancel_left hall

end Extends

/-- A builder that gets more attributes builds a schema that extends the old one. Records that any
calls have made with the old schema can be read with the new one when zeros are put behind them. -/
theorem appended_attributes_keep_records {before after : SchemaBuilder} {ws : List Attribute}
    (happend : after.attributes = before.attributes ++ ws)
    (hdef : ∀ a ∈ after.attributes, a.Defined)
    (hnodup : (after.attributes.map Attribute.name).Nodup)
    (hroom : (after.attributes.map Attribute.storedWidth).sum < UInt32.size) :
    ∃ old new more, before.build = .done old ∧ after.build = .done new ∧
      old.Extends new more ∧ old.attributes.map Attribute.withoutSlots = before.attributes ∧
      more.map Attribute.withoutSlots = ws ∧
      ∀ edges store, old.newStore? edges = some store → ∀ calls : List Call,
        let state := (old.run store calls).2
        ∀ edge < edges, ∃ record, state.2.record? edge = some record ∧
          ∀ store' edge', store'.bytesPerEdge = new.bytesPerEdge.toNat →
            store'.record? edge' = some (record ++
              List.replicate (new.bytesPerEdge.toNat - old.bytesPerEdge.toNat) 0) →
            (∀ a ∈ old.attributes, ∀ direction, ∃ v,
              state.1.read a.name direction edge state.2 = .done v ∧
              new.read a.name direction edge' store' = .done v) ∧
            ∀ b ∈ more, ∀ direction, new.read b.name direction edge' store' =
              .done (if b.negates ∧ direction = .reverse then b.maximum else b.minimum) := by
  have hdefOld : ∀ a ∈ before.attributes, a.Defined :=
    fun a ha => hdef a (happend ▸ List.mem_append_left ws ha)
  obtain ⟨new, hnew⟩ := SchemaBuilder.exists_build hdef hnodup hroom
  rw [happend, List.map_append] at hnodup hroom
  rw [List.sum_append] at hroom
  obtain ⟨old, hold⟩ := SchemaBuilder.exists_build hdefOld (List.nodup_append.mp hnodup).1
    (by omega)
  obtain ⟨more, hextends⟩ := extends_of_build happend
    (fun a ha => hdef a (happend ▸ List.mem_append_right _ ha)) hold hnew
  have hlaid := SchemaBuilder.laidOut_of_build hdefOld hold
  have hlaid' := SchemaBuilder.laidOut_of_build hdef hnew
  have hbuilt : old.Built := ⟨before, hdefOld, hold⟩
  have hbuilt' : new.Built := ⟨after, hdef, hnew⟩
  refine ⟨old, new, more, hold, hnew, hextends, hlaid.attributes_eq,
    hextends.map_withoutSlots_more hlaid (happend ▸ hlaid'), ?_⟩
  intro edges store hstore calls state edge hedge
  obtain ⟨table, hholds⟩ := hbuilt.exists_holds_run hstore calls
  obtain ⟨record, hrecord⟩ :=
    (EdgeStore.hasRecord_of_lt hholds.size_eq.ge hedge).exists_record
  refine ⟨record, hrecord, fun store' edge' hsize' hrecord' => ⟨fun a ha direction => ?_,
    fun b hb direction => ?_⟩⟩
  · have hgoes := EdgeStore.continues_of_record? hrecord hrecord'
    obtain ⟨v, hread, _⟩ := hbuilt.read_eq hholds ha direction hedge
    refine ⟨v, hread, ?_⟩
    rw [hextends.read_old hbuilt hbuilt' hholds.bytesPerEdge_eq hsize' hgoes ha, ← hread,
      hholds.schema_eq, read_of_attribute? (hbuilt.attribute?_eq ha)]
  · have hgoes := EdgeStore.continues_of_record? hrecord hrecord'
    exact hextends.read_more hbuilt' hholds hedge hsize' hgoes hb direction

/-- Fits into the bits that the roads leave over in their word. -/
def camber : Attribute :=
  { Attribute.ofSettings "camber" { bits := 3, negates := true } with
    forward := { word := 0, shift := 18, mask := 3932160 } }

def toll : Attribute :=
  { Attribute.ofSettings "toll" { bits := 20, minimum := 5 } with
    forward := { word := 1, shift := 0, mask := 1048575 } }

def tollRoads : Schema where
  attributes := [speed, slope, camber, toll]
  bytesPerEdge := 8

def tollStore : EdgeStore where
  bytesPerEdge := 8
  bytes := #[0x11, 0x18, 2, 0, 0, 0, 0, 0]
  whole := by decide

theorem appended_attributes_keep_records_roads :
    let before : SchemaBuilder := { attributes := [speed.withoutSlots, slope.withoutSlots] }
    let added := [camber.withoutSlots, toll.withoutSlots]
    let after : SchemaBuilder := { attributes := before.attributes ++ added }
    let calls : List Call := [.write "speed" .forward 1 17, .write "slope" .reverse 1 (-7)]
    let state := (roads.run roadStore calls).2
    ((∀ a ∈ after.attributes, a.Defined) ∧ (after.attributes.map Attribute.name).Nodup ∧
      (after.attributes.map Attribute.storedWidth).sum < UInt32.size) ∧
      before.build = .done roads ∧ after.build = .done tollRoads ∧
      roads.newStore? 2 = some roadStore ∧ state.2.record? 1 = some [0x11, 0x18, 2, 0] ∧
      (∃ v, state.1.read "slope" .reverse 1 state.2 = .done v ∧
        tollRoads.read "slope" .reverse 0 tollStore = .done v) ∧
      tollRoads.read "camber" .reverse 0 tollStore = .done 7 := by
  intro before added after calls state
  have hdef : ∀ a ∈ after.attributes, a.Defined := by
    intro a ha
    have he : a ∈ before.attributes ∨ a = camber.withoutSlots ∨ a = toll.withoutSlots := by
      simpa [after, added] using ha
    rcases he with hroads | rfl | rfl
    · exact defined_of_mem_roads a hroads
    · exact ⟨{}, "camber", { bits := 3, negates := true }, by cbv⟩
    · exact ⟨{}, "toll", { bits := 20, minimum := 5 }, by cbv⟩
  have hnodup : (after.attributes.map Attribute.name).Nodup := by decide
  have hroom : (after.attributes.map Attribute.storedWidth).sum < UInt32.size := by decide
  have hbefore : before.build = .done roads := by cbv
  have hafter : after.build = .done tollRoads := by cbv
  have hstore : roads.newStore? 2 = some roadStore := by decide
  have hrecord : state.2.record? 1 = some [0x11, 0x18, 2, 0] := by cbv
  have hgoes : tollStore.record? 0 = some ([0x11, 0x18, 2, 0] ++ List.replicate 4 0) := by decide
  obtain ⟨old, new, more, hold, hnew, hextends, _, _, hreads⟩ :=
    appended_attributes_keep_records
      (show after.attributes = before.attributes ++ added from rfl) hdef hnodup hroom
  obtain rfl : roads = old := Outcome.done.inj (hbefore.symm.trans hold)
  obtain rfl : tollRoads = new := Outcome.done.inj (hafter.symm.trans hnew)
  have hmore : roads.attributes ++ [camber, toll] = roads.attributes ++ more :=
    hextends.attributes_eq
  obtain rfl : [camber, toll] = more := List.append_cancel_left hmore
  obtain ⟨record, hsame, hread⟩ := hreads 2 roadStore hstore calls 1 (by decide)
  obtain rfl : [0x11, 0x18, 2, 0] = record := Option.some.inj (hrecord.symm.trans hsame)
  obtain ⟨hkept, hadded⟩ := hread tollStore 0 rfl hgoes
  exact ⟨⟨hdef, hnodup, hroom⟩, hbefore, hafter, hstore, hrecord,
    hkept slope (by decide) .reverse, hadded camber List.mem_cons_self .reverse⟩

end Schema

end PackedEdges
