import PackedEdges.Proofs.BuiltSchema
import PackedEdges.Proofs.CellTable

/-! A schema with its store does what a table of cells does. After every run of calls each slot
holds the value of its cell less the attribute's minimum, and bits without a slot are clear. -/

namespace PackedEdges

theorem EdgeStore.zeroed?_cases {edges bytesPerEdge : Nat} {store : EdgeStore}
    (h : zeroed? edges bytesPerEdge = some store) : store.bytesPerEdge = bytesPerEdge ∧
      store.bytes.size = edges * bytesPerEdge ∧ ∀ i, store.bit i = false := by
  simp only [zeroed?, Option.ite_none_right_eq_some, Option.some.injEq] at h
  obtain ⟨_, rfl⟩ := h
  refine ⟨rfl, by simp, ?_⟩
  intro i
  by_cases hi : i / 8 < edges * bytesPerEdge
  · simp [bit, hi]
  · simp [bit, hi]

namespace Schema

/-- What a table says about a schema and its store. -/
structure Holds (schema : Schema) (edges : Nat) (state : Schema × EdgeStore) (table : Table) :
    Prop where
  schema_eq : state.1 = schema.withGreatest table.greatest
  bytesPerEdge_eq : state.2.bytesPerEdge = schema.bytesPerEdge.toNat
  size_eq : state.2.bytes.size = edges * state.2.bytesPerEdge
  inRange {a : Attribute} (ha : a ∈ schema.attributes) (side : Direction) (edge : Nat) :
    a.InRange (table.cells ⟨a.name, side, edge⟩)
  field_eq {a : Attribute} {side : Direction} {slot : Slot} {edge : Nat}
    (ha : a ∈ schema.attributes) (hslot : a.slot? side = some slot) (hedge : edge < edges) :
    (slot.field a.bits.toNat state.2 edge : Int) =
      table.cells ⟨a.name, side, edge⟩ - a.minimum.toInt
  clear {edge i : Nat} (hedge : edge < edges) (hi : i < 8 * state.2.bytesPerEdge)
    (hfree : ∀ slot ∈ schema.slots, i ∉ slot.recordBits) : state.2.recordBit edge i = false

namespace Built

variable {schema : Schema} {edges : Nat}

theorem initial_cells (h : schema.Built) {a : Attribute} (ha : a ∈ schema.attributes)
    (side : Direction) (edge : Nat) :
    (Table.initial schema).cells ⟨a.name, side, edge⟩ = a.minimum.toInt := by
  simp [Table.initial, h.attribute?_eq ha]

theorem holds_initial (h : schema.Built) {store : EdgeStore}
    (hstore : schema.newStore? edges = some store) :
    schema.Holds edges (schema, store) (Table.initial schema) := by
  obtain ⟨hrecord, hsize, hbit⟩ := EdgeStore.zeroed?_cases hstore
  refine ⟨h.eq_withGreatest, hrecord, by rw [hsize, hrecord], ?_, ?_, ?_⟩
  · intro a ha side edge
    rw [h.initial_cells ha]
    exact (h.sound ha).inRange_minimum
  · intro a side slot edge ha _ _
    have hzero : slot.field a.bits.toNat store edge = 0 := by
      apply Nat.eq_of_testBit_eq
      intro j
      simp [Slot.testBit_field, EdgeStore.recordBit, hbit]
    rw [h.initial_cells ha, hzero]
    simp
  · intro edge i _ _ _
    exact hbit _

variable {a : Attribute} {slot : Slot} {state : Schema × EdgeStore} {table : Table}
  {direction : Direction} {edge : Nat}

theorem inStore (h : schema.Built) (hholds : schema.Holds edges state table)
    (ha : a ∈ schema.attributes) {side : Direction} (hslot : a.slot? side = some slot)
    (hedge : edge < edges) : slot.InStore state.2 edge :=
  h.slot_inStore hholds.bytesPerEdge_eq (EdgeStore.hasRecord_of_lt hholds.size_eq.ge hedge) ha hslot

theorem read_eq (h : schema.Built) (hholds : schema.Holds edges state table)
    (ha : a ∈ schema.attributes) (direction : Direction) (hedge : edge < edges) :
    ∃ v, state.1.read a.name direction edge state.2 = .done v ∧
      v.toInt = a.turn direction (table.cells ⟨a.name, a.side direction, edge⟩) := by
  obtain ⟨slot, hslot⟩ := (h.placed ha).exists_slot direction
  obtain ⟨v, hread, hv⟩ := (h.sound ha).exists_read (h.placed ha) hslot
    (h.inStore hholds ha hslot hedge) (hholds.inRange ha _ _) (hholds.field_eq ha hslot hedge)
  refine ⟨v, ?_, hv⟩
  rw [hholds.schema_eq, read_of_attribute? (h.attribute?_eq ha), hread]

variable {store' : EdgeStore} {n : Nat}

theorem record_inside (h : schema.Built) (hholds : schema.Holds edges state table)
    (ha : a ∈ schema.attributes) {side : Direction} (hslot : a.slot? side = some slot) :
    slot.start + a.bits.toNat ≤ 8 * state.2.bytesPerEdge :=
  hholds.bytesPerEdge_eq ▸ h.end_le ha hslot

/-- A write into the slot of one cell leaves the slots of all others alone. -/
theorem field_of_other_cell (h : schema.Built) (hholds : schema.Holds edges state table)
    (ha : a ∈ schema.attributes) {side : Direction} (hslot : a.slot? side = some slot)
    (hover : state.2.Overwritten store' (8 * state.2.recordStart edge + slot.start)
      a.bits.toNat n) {b : Attribute} {side' : Direction} {slot' : Slot} {edge' : Nat}
    (hb : b ∈ schema.attributes) (hslot' : b.slot? side' = some slot')
    (hcell : (⟨b.name, side', edge'⟩ : Cell) ≠ ⟨a.name, side, edge⟩) :
    slot'.field b.bits.toNat store' edge' = slot'.field b.bits.toNat state.2 edge' := by
  have hrun := (h.placed ha).isRun_of_slot? hslot
  have hrun' := (h.placed hb).isRun_of_slot? hslot'
  apply hrun'.field_congr
  intro i hi
  have hend := h.record_inside hholds hb hslot'
  have hlast := (hrun'.mem_recordBits.mp hi).2
  apply hrun.recordBit_of_overwritten hover (h.record_inside hholds ha hslot) (by omega)
  rintro ⟨rfl, hi'⟩
  obtain ⟨rfl, rfl⟩ := h.eq_of_mem_recordBits hb ha hslot' hslot hi hi'
  exact hcell rfl

theorem holds_store (h : schema.Built) (hholds : schema.Holds edges state table)
    (ha : a ∈ schema.attributes) (hslot : a.slot? (a.side direction) = some slot) {value : Int32}
    (hv : a.Accepts direction value.toInt)
    (hn : (n : Int) = a.turn direction value.toInt - a.minimum.toInt) (hlt : n < 2 ^ a.bits.toNat)
    (hover : state.2.Overwritten store' (8 * state.2.recordStart edge + slot.start)
      a.bits.toNat n) :
    schema.Holds edges
      (schema.withGreatest (table.store a direction edge value).greatest, store')
      (table.store a direction edge value) := by
  refine ⟨rfl, hover.bytesPerEdge_eq.trans hholds.bytesPerEdge_eq, ?_, ?_, ?_, ?_⟩
  · rw [hover.size_eq, hover.bytesPerEdge_eq, hholds.size_eq]
  · intro b hb side edge'
    by_cases hcell : (⟨b.name, side, edge'⟩ : Cell) = ⟨a.name, a.side direction, edge⟩
    · have hab : b = a := h.eq_of_name_eq hb ha (congrArg Cell.name hcell)
      subst hab
      rw [hcell, Table.cells_store_self]
      exact (h.sound ha).turn_inRange direction hv.1
    · rw [Table.cells_store_of_ne table hcell]
      exact hholds.inRange hb side edge'
  · intro b side slot' edge' hb hslot' hedge'
    by_cases hcell : (⟨b.name, side, edge'⟩ : Cell) = ⟨a.name, a.side direction, edge⟩
    · have hab : b = a := h.eq_of_name_eq hb ha (congrArg Cell.name hcell)
      subst hab
      obtain ⟨_, rfl, rfl⟩ := Cell.mk.inj hcell
      obtain rfl : slot = slot' := Option.some.inj (hslot.symm.trans hslot')
      rw [Table.cells_store_self, Slot.field_of_overwritten hover hlt, hn]
    · rw [Table.cells_store_of_ne table hcell,
        h.field_of_other_cell hholds ha hslot hover hb hslot' hcell]
      exact hholds.field_eq hb hslot' hedge'
  · intro edge' i hedge' hi hfree
    rw [hover.bytesPerEdge_eq] at hi
    have hrun := (h.placed ha).isRun_of_slot? hslot
    rw [hrun.recordBit_of_overwritten hover (h.record_inside hholds ha hslot) hi,
      hholds.clear hedge' hi hfree]
    rintro ⟨_, hi'⟩
    exact hfree slot (mem_slots_iff.mpr ⟨a, ha, _, hslot⟩) hi'

theorem perform_read_holds (h : schema.Built) (hholds : schema.Holds edges state table)
    (name : String) (direction : Direction) (hedge : edge < edges) :
    perform (.read name direction edge) state =
        ((Table.perform schema (.read name direction edge) table).1, state) ∧
      (Table.perform schema (.read name direction edge) table).2 = table := by
  obtain ⟨current, store⟩ := state
  cases hfind : schema.attribute? name with
  | none =>
    obtain ⟨e, he⟩ := lookup_of_attribute?_eq_none table.greatest hfind
    rw [← hholds.schema_eq] at he
    simp only [perform, Schema.read, he, Table.perform, hfind, and_self]
  | some a =>
    obtain ⟨ha, rfl⟩ := mem_of_attribute? hfind
    obtain ⟨v, hread, hv⟩ := h.read_eq hholds ha direction hedge
    simp only [perform, hread, hv, Table.perform, hfind, and_self]

theorem perform_write_holds (h : schema.Built) (hholds : schema.Holds edges state table)
    (name : String) (direction : Direction) (hedge : edge < edges) (value : Int32) :
    (perform (.write name direction edge value) state).1 =
        (Table.perform schema (.write name direction edge value) table).1 ∧
      schema.Holds edges (perform (.write name direction edge value) state).2
        (Table.perform schema (.write name direction edge value) table).2 := by
  obtain ⟨current, store⟩ := state
  obtain rfl : current = schema.withGreatest table.greatest := hholds.schema_eq
  cases hfind : schema.attribute? name with
  | none =>
    obtain ⟨e, he⟩ := lookup_of_attribute?_eq_none table.greatest hfind
    simp only [perform, Schema.write, he, Table.perform, hfind, true_and]
    exact hholds
  | some a =>
    obtain ⟨ha, rfl⟩ := mem_of_attribute? hfind
    by_cases hv : a.Accepts direction value.toInt
    · obtain ⟨slot, hslot⟩ := (h.placed ha).exists_slot direction
      have hin : slot.InStore store edge := h.inStore hholds ha hslot hedge
      obtain ⟨n, store', hn, hlt, hwrite, hover⟩ :=
        (h.sound ha).exists_write (h.placed ha) hslot hin hv (table.greatest a.name)
      simp only [perform, h.write_of_attribute? hfind hwrite, Table.perform, hfind, if_pos hv,
        true_and]
      exact h.holds_store hholds ha hslot hv hn hlt hover
    · obtain ⟨e, hwrite⟩ :=
        (h.placed ha).write_of_not_accepts hv (table.greatest a.name) edge store
      simp only [perform, h.write_of_attribute? hfind hwrite, Function.update_eq_self,
        Table.perform, hfind, if_neg hv, true_and]
      exact hholds

theorem perform_holds (h : schema.Built) {call : Call} (hedge : call.edge < edges)
    (hholds : schema.Holds edges state table) :
    (perform call state).1 = (Table.perform schema call table).1 ∧
      schema.Holds edges (perform call state).2 (Table.perform schema call table).2 := by
  cases call with
  | read name direction edge =>
    change edge < edges at hedge
    obtain ⟨hstate, htable⟩ := h.perform_read_holds hholds name direction hedge
    rw [hstate, htable]
    exact ⟨rfl, hholds⟩
  | write name direction edge value =>
    exact h.perform_write_holds hholds name direction hedge value

theorem run_holds (h : schema.Built) {store : EdgeStore}
    (hstore : schema.newStore? edges = some store) {calls : List Call}
    (hwithin : Call.Within edges calls) :
    (schema.run store calls).1 = (Table.run schema calls).1 ∧
      schema.Holds edges (schema.run store calls).2 (Table.run schema calls).2 := by
  apply Call.run_related ?_ hwithin (h.holds_initial hstore)
  intro call state table hedge hholds
  exact h.perform_holds hedge hholds

end Built

/-- A built schema with a new store answers all reads and writes as its table does. -/
theorem answers_run {schema : Schema} (h : schema.Built) {edges : Nat} {store : EdgeStore}
    (hstore : schema.newStore? edges = some store) {calls : List Call}
    (hwithin : Call.Within edges calls) :
    (schema.run store calls).1 = (Table.run schema calls).1 :=
  (h.run_holds hstore hwithin).1

theorem answers_run_roads :
    let calls : List Call :=
      [.write "speed" .reverse 1 30, .write "slope" .reverse 1 (-7), .write "speed" .forward 1 32,
        .read "speed" .forward 1, .read "speed" .reverse 1, .read "slope" .forward 1,
        .read "slope" .reverse 1]
    ∃ store, roads.Built ∧ roads.newStore? 2 = some store ∧ Call.Within 2 calls ∧
      (roads.run store calls).1 = [.stored, .stored, .rejected, .value 0, .value 30, .value 7,
        .value (-7)] := by
  intro calls
  obtain ⟨store, hstore⟩ := Option.isSome_iff_exists.mp
    (show (roads.newStore? 2).isSome = true by decide)
  have hwithin : Call.Within 2 calls := by simp [calls, Call.Within, Call.edge]
  refine ⟨store, roads_built, hstore, hwithin, ?_⟩
  rw [answers_run roads_built hstore hwithin]
  cbv

end Schema

end PackedEdges
