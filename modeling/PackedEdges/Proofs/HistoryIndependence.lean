import PackedEdges.Proofs.StoreRefinement

/-! The bytes of a store keep no trace of the order or number of the writes that led to them. They
are determined by the values of the cells, because every bit either belongs to the slot of one
cell or is clear. -/

namespace PackedEdges

theorem Attribute.turn_inj (a : Attribute) (direction : Direction) {v w : Int}
    (h : a.turn direction v = a.turn direction w) : v = w := by
  rw [← a.turn_turn direction v, h, turn_turn]

theorem Attribute.Placed.side_of_slot? {a : Attribute} (h : a.Placed) {side : Direction}
    {slot : Slot} (hslot : a.slot? side = some slot) : a.side side = side := by
  cases side with
  | forward => simp [Attribute.side]
  | reverse =>
    have htwo : a.twoDirections = true := h.isSome_reverse ▸ Option.isSome_of_eq_some hslot
    simp [Attribute.side, htwo]

theorem Call.Within.append {edges : Nat} {calls calls' : List Call} (h : Within edges calls)
    (h' : Within edges calls') : Within edges (calls ++ calls') :=
  List.forall_mem_append.mpr ⟨h, h'⟩

theorem Call.Within.without {edges : Nat} {calls : List Call} (h : Within edges calls)
    (schema : Schema) (cell : Cell) : Within edges (Call.without schema cell calls) :=
  fun call hcall => h call (List.mem_of_mem_filter hcall)

namespace Schema

namespace Built

variable {schema : Schema} {edges : Nat} {state state' : Schema × EdgeStore} {table table' : Table}

/-- Stores that hold the same values in all cells have the same bytes. -/
theorem store_eq (h : schema.Built) (hholds : schema.Holds edges state table)
    (hholds' : schema.Holds edges state' table')
    (hcells : ∀ a ∈ schema.attributes, ∀ direction, ∀ edge < edges,
      table.cells ⟨a.name, a.side direction, edge⟩ =
        table'.cells ⟨a.name, a.side direction, edge⟩) : state.2 = state'.2 := by
  have hrecord : state.2.bytesPerEdge = state'.2.bytesPerEdge :=
    hholds.bytesPerEdge_eq.trans hholds'.bytesPerEdge_eq.symm
  apply EdgeStore.eq_of_recordBit_eq hrecord hholds.size_eq hholds'.size_eq
  intro edge hedge i hi
  -- A bit of a slot is a bit of the number that its cell determines; any other bit is clear.
  by_cases hfree : ∀ slot ∈ schema.slots, i ∉ slot.recordBits
  · rw [hholds.clear hedge hi hfree, hholds'.clear hedge (hrecord ▸ hi) hfree]
  · push Not at hfree
    obtain ⟨slot, hmem, hin⟩ := hfree
    obtain ⟨a, ha, side, hslot⟩ := mem_slots_iff.mp hmem
    have hrun := (h.placed ha).isRun_of_slot? hslot
    have hvalue := hcells a ha side edge hedge
    rw [(h.placed ha).side_of_slot? hslot] at hvalue
    have hfield : slot.field a.bits.toNat state.2 edge = slot.field a.bits.toNat state'.2 edge := by
      have hleft := hholds.field_eq ha hslot hedge
      have hright := hholds'.field_eq ha hslot hedge
      omega
    rw [hrun.recordBit_eq_testBit_field hin, hrun.recordBit_eq_testBit_field hin, hfield]

theorem state_eq (h : schema.Built) (hholds : schema.Holds edges state table)
    (hholds' : schema.Holds edges state' table) : state = state' :=
  Prod.ext (hholds.schema_eq.trans hholds'.schema_eq.symm)
    (h.store_eq hholds hholds' fun _ _ _ _ _ => rfl)

theorem store_eq_of_read_eq (h : schema.Built) (hholds : schema.Holds edges state table)
    (hholds' : schema.Holds edges state' table')
    (hreads : ∀ a ∈ schema.attributes, ∀ direction, ∀ edge < edges,
      state.1.read a.name direction edge state.2 =
        state'.1.read a.name direction edge state'.2) : state.2 = state'.2 := by
  apply h.store_eq hholds hholds'
  intro a ha direction edge hedge
  obtain ⟨v, hread, hv⟩ := h.read_eq hholds ha direction hedge
  obtain ⟨v', hread', hv'⟩ := h.read_eq hholds' ha direction hedge
  have heq : v = v' := by simpa [hread, hread'] using hreads a ha direction edge hedge
  apply a.turn_inj direction
  rw [← hv, ← hv', heq]

variable {store : EdgeStore} {a b : Attribute} {direction direction' : Direction}
  {edge edge' : Nat} {value value' : Int32}

theorem run_table_append_write (h : schema.Built) (ha : a ∈ schema.attributes)
    (hv : a.Accepts direction value.toInt) (calls calls' : List Call) :
    (Table.run schema (calls ++ Call.write a.name direction edge value :: calls')).2 =
      (Call.run (Table.perform schema) calls'
        ((Table.run schema calls).2.store a direction edge value)).2 := by
  rw [Table.run, Call.run_append]
  simp [Call.run, Table.run, Table.perform, h.attribute?_eq ha, hv]

/-- Writing the minimum into a cell undoes all writes to this cell. -/
theorem store_eq_without (h : schema.Built) (hstore : schema.newStore? edges = some store)
    {calls : List Call} (hwithin : Call.Within edges calls) (ha : a ∈ schema.attributes)
    (hedge : edge < edges) (hv : a.Accepts direction value.toInt)
    (hminimum : a.turn direction value.toInt = a.minimum.toInt) :
    (schema.run store (calls ++ [Call.write a.name direction edge value])).2.2 =
      (schema.run store (Call.without schema ⟨a.name, a.side direction, edge⟩ calls)).2.2 := by
  have hwrite : Call.Within edges [Call.write a.name direction edge value] := by
    simpa [Call.Within, Call.edge] using hedge
  apply h.store_eq (h.run_holds hstore (hwithin.append hwrite)).2
    (h.run_holds hstore (hwithin.without schema _)).2
  intro b hb direction' edge' _
  obtain ⟨hothers, hcell⟩ := Table.run_without_cells schema ⟨a.name, a.side direction, edge⟩ calls
    (Table.initial schema) (Table.initial schema) fun _ _ => rfl
  rw [h.run_table_append_write ha hv]
  by_cases hsame : (⟨b.name, b.side direction', edge'⟩ : Cell) = ⟨a.name, a.side direction, edge⟩
  · rw [hsame, Call.run, Table.cells_store_self, hminimum, Table.run, hcell, h.initial_cells ha]
  · rw [Call.run, Table.cells_store_of_ne _ hsame]
    exact hothers _ hsame

theorem run_write_comm (h : schema.Built) (hstore : schema.newStore? edges = some store)
    {calls : List Call} (hwithin : Call.Within edges calls) (ha : a ∈ schema.attributes)
    (hb : b ∈ schema.attributes) (hedge : edge < edges) (hedge' : edge' < edges)
    (hv : a.Accepts direction value.toInt) (hv' : b.Accepts direction' value'.toInt)
    (hcells : (⟨a.name, a.side direction, edge⟩ : Cell) ≠ ⟨b.name, b.side direction', edge'⟩) :
    (schema.run store (calls ++ [Call.write a.name direction edge value,
      Call.write b.name direction' edge' value'])).2 =
      (schema.run store (calls ++ [Call.write b.name direction' edge' value',
        Call.write a.name direction edge value])).2 := by
  have htable : (Table.run schema (calls ++ [Call.write a.name direction edge value,
      Call.write b.name direction' edge' value'])).2 =
      (Table.run schema (calls ++ [Call.write b.name direction' edge' value',
        Call.write a.name direction edge value])).2 := by
    rw [h.run_table_append_write ha hv, h.run_table_append_write hb hv']
    simp only [Call.run, Table.perform, h.attribute?_eq ha, h.attribute?_eq hb, if_pos hv,
      if_pos hv']
    exact Table.store_comm _ hcells _ _
  have hwrites : Call.Within edges [Call.write a.name direction edge value,
      Call.write b.name direction' edge' value'] := by
    simp [Call.Within, Call.edge, hedge, hedge']
  have hswapped : Call.Within edges [Call.write b.name direction' edge' value',
      Call.write a.name direction edge value] := by
    simp [Call.Within, Call.edge, hedge, hedge']
  have hleft := (h.run_holds hstore (hwithin.append hwrites)).2
  rw [htable] at hleft
  exact h.state_eq hleft (h.run_holds hstore (hwithin.append hswapped)).2

end Built

/-- The bytes after a run depend on nothing but the values that can be read. -/
theorem run_history_independent {schema : Schema} (h : schema.Built) {edges : Nat}
    {store : EdgeStore} (hstore : schema.newStore? edges = some store) :
    (∀ calls calls', Call.Within edges calls → Call.Within edges calls' →
      (∀ a ∈ schema.attributes, ∀ direction, ∀ edge < edges,
        (schema.run store calls).2.1.read a.name direction edge (schema.run store calls).2.2 =
          (schema.run store calls').2.1.read a.name direction edge
            (schema.run store calls').2.2) →
      (schema.run store calls).2.2 = (schema.run store calls').2.2) ∧
    (∀ calls, Call.Within edges calls → ∀ edge < edges,
      (∀ a ∈ schema.attributes, ∀ side slot, a.slot? side = some slot →
        (slot.field a.bits.toNat (schema.run store calls).2.2 edge : Int) =
          (Table.run schema calls).2.cells ⟨a.name, side, edge⟩ - a.minimum.toInt) ∧
      ∀ i < 8 * schema.bytesPerEdge.toNat, (∀ slot ∈ schema.slots, i ∉ slot.recordBits) →
        (schema.run store calls).2.2.recordBit edge i = false) ∧
    (∀ calls, Call.Within edges calls → ∀ a ∈ schema.attributes, ∀ direction, ∀ edge < edges,
      ∀ value : Int32, a.Accepts direction value.toInt →
        a.turn direction value.toInt = a.minimum.toInt →
        (schema.run store (calls ++ [Call.write a.name direction edge value])).2.2 =
          (schema.run store
            (Call.without schema ⟨a.name, a.side direction, edge⟩ calls)).2.2) ∧
    ∀ calls, Call.Within edges calls → ∀ a ∈ schema.attributes, ∀ b ∈ schema.attributes,
      ∀ direction direction', ∀ edge < edges, ∀ edge' < edges, ∀ value value' : Int32,
        a.Accepts direction value.toInt → b.Accepts direction' value'.toInt →
        (⟨a.name, a.side direction, edge⟩ : Cell) ≠ ⟨b.name, b.side direction', edge'⟩ →
        (schema.run store (calls ++ [Call.write a.name direction edge value,
          Call.write b.name direction' edge' value'])).2 =
          (schema.run store (calls ++ [Call.write b.name direction' edge' value',
            Call.write a.name direction edge value])).2 := by
  refine ⟨?_, ?_, ?_, ?_⟩
  · intro calls calls' hwithin hwithin' hreads
    exact h.store_eq_of_read_eq (h.run_holds hstore hwithin).2 (h.run_holds hstore hwithin').2
      hreads
  · intro calls hwithin edge hedge
    have hholds := (h.run_holds hstore hwithin).2
    refine ⟨fun a ha side slot hslot => hholds.field_eq ha hslot hedge, ?_⟩
    intro i hi hfree
    exact hholds.clear hedge (by rwa [hholds.bytesPerEdge_eq]) hfree
  · intro calls hwithin a ha direction edge hedge value hv hminimum
    exact h.store_eq_without hstore hwithin ha hedge hv hminimum
  · intro calls hwithin a ha b hb direction direction' edge hedge edge' hedge' value value' hv hv'
      hcells
    exact h.run_write_comm hstore hwithin ha hb hedge hedge' hv hv' hcells

theorem run_history_independent_roads :
    let drive := Call.write "speed" .reverse 1
    let climb := Call.write "slope" .reverse 0
    roads.Built ∧ roads.newStore? 2 = some roadStore ∧
      (roads.run roadStore [drive 30, climb 5, drive 3]).2.2 =
        (roads.run roadStore [climb 7, drive 3, climb 5]).2.2 ∧
      (roads.run roadStore [drive 3, climb 5, climb 127]).2.2 =
        (roads.run roadStore [drive 3]).2.2 ∧
      (roads.run roadStore [drive 3, climb 5]).2 = (roads.run roadStore [climb 5, drive 3]).2 := by
  intro drive climb
  have hstore : roads.newStore? 2 = some roadStore := by decide
  have hspeed : speed ∈ roads.attributes := List.mem_cons_self
  have hslope : slope ∈ roads.attributes := List.mem_cons_of_mem _ List.mem_cons_self
  obtain ⟨hreads, _, hminimum, hcomm⟩ := run_history_independent roads_built hstore
  refine ⟨roads_built, hstore, ?_, ?_, ?_⟩
  · apply hreads
    · simp [Call.Within, Call.edge, drive, climb]
    · simp [Call.Within, Call.edge, drive, climb]
    · intro a ha direction edge hedge
      have hplace : edge = 0 ∨ edge = 1 := by omega
      simp only [roads, List.mem_cons, List.not_mem_nil, or_false] at ha
      rcases ha with rfl | rfl <;> rcases hplace with rfl | rfl <;> cases direction <;> cbv
  · have hwithout :
        Call.without roads ⟨slope.name, .forward, 0⟩ [drive 3, climb 5] = [drive 3] := by cbv
    rw [← hwithout]
    exact hminimum [drive 3, climb 5] (by simp [Call.Within, Call.edge, drive, climb]) slope hslope
      .reverse 0 (by decide) 127 (by decide) (by decide)
  · exact hcomm [] (by simp [Call.Within]) speed hspeed slope hslope .reverse .reverse 1 (by decide)
      0 (by decide) 3 5 (by decide) (by decide) (by decide)

end Schema

end PackedEdges
