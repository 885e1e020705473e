import PackedEdges.Proofs.AttributeAccess
import PackedEdges.Proofs.RecordBytes
import PackedEdges.Proofs.SchemaLayout

/-! Schemas that were built from defined attributes. Their slots stay where they are, and writes
change only the greatest values that the attributes have stored. -/

namespace PackedEdges.Schema

/-- The schema was built from attributes with accepted definitions. -/
def Built (schema : Schema) : Prop :=
  ∃ builder : SchemaBuilder, (∀ a ∈ builder.attributes, a.Defined) ∧ builder.build = .done schema

theorem mem_slots_iff {schema : Schema} {slot : Slot} :
    slot ∈ schema.slots ↔ ∃ a ∈ schema.attributes, ∃ side, a.slot? side = some slot := by
  simp only [slots, List.mem_flatMap, Attribute.mem_slots_iff]

namespace Built

variable {schema : Schema}

theorem laidOut (h : schema.Built) :
    ∃ given, (∀ a ∈ given, a.Defined) ∧ schema.LaidOut given := by
  obtain ⟨builder, hdef, hbuild⟩ := h
  exact ⟨builder.attributes, hdef, SchemaBuilder.laidOut_of_build hdef hbuild⟩

theorem defined_withoutSlots (h : schema.Built) {a : Attribute} (ha : a ∈ schema.attributes) :
    a.withoutSlots.Defined := by
  obtain ⟨given, hdef, hlaid⟩ := h.laidOut
  exact hdef _ (hlaid.attributes_eq ▸ List.mem_map_of_mem ha)

theorem sound (h : schema.Built) {a : Attribute} (ha : a ∈ schema.attributes) : a.Sound :=
  .of_withoutSlots (h.defined_withoutSlots ha).sound

theorem greatest_eq (h : schema.Built) {a : Attribute} (ha : a ∈ schema.attributes) :
    a.greatest = neverWritten :=
  (h.defined_withoutSlots ha).fresh.2.2

theorem placed (h : schema.Built) {a : Attribute} (ha : a ∈ schema.attributes) : a.Placed := by
  obtain ⟨given, _, hlaid⟩ := h.laidOut
  exact hlaid.placed a ha

theorem eq_of_name_eq (h : schema.Built) {a b : Attribute} (ha : a ∈ schema.attributes)
    (hb : b ∈ schema.attributes) (hname : a.name = b.name) : a = b := by
  obtain ⟨given, _, hlaid⟩ := h.laidOut
  exact List.inj_on_of_nodup_map hlaid.nodup_names ha hb hname

theorem attribute?_eq (h : schema.Built) {a : Attribute} (ha : a ∈ schema.attributes) :
    schema.attribute? a.name = some a := by
  obtain ⟨given, _, hlaid⟩ := h.laidOut
  exact attribute?_eq_of_nodup hlaid.nodup_names ha

variable {a b : Attribute} {side side' : Direction} {slot slot' : Slot}

theorem slot_inside (h : schema.Built) (ha : a ∈ schema.attributes)
    (hslot : a.slot? side = some slot) :
    4 * (slot.word.toNat + 1) ≤ schema.bytesPerEdge.toNat := by
  obtain ⟨given, _, hlaid⟩ := h.laidOut
  exact hlaid.inside slot (mem_slots_iff.mpr ⟨a, ha, side, hslot⟩)

theorem slot_inStore (h : schema.Built) {store : EdgeStore} {edge : Nat}
    (hsize : store.bytesPerEdge = schema.bytesPerEdge.toNat) (hrecord : store.HasRecord edge)
    (ha : a ∈ schema.attributes) (hslot : a.slot? side = some slot) : slot.InStore store edge := by
  have hinside := h.slot_inside ha hslot
  simp only [EdgeStore.HasRecord] at hrecord
  simp only [Slot.InStore, Slot.wordOffset]
  omega

theorem end_le (h : schema.Built) (ha : a ∈ schema.attributes)
    (hslot : a.slot? side = some slot) :
    slot.start + a.bits.toNat ≤ 8 * schema.bytesPerEdge.toNat := by
  have hinside := h.slot_inside ha hslot
  have hfits := ((h.placed ha).isRun_of_slot? hslot).fits
  simp only [Slot.start]
  omega

theorem lt_of_mem_recordBits (h : schema.Built) (ha : a ∈ schema.attributes)
    (hslot : a.slot? side = some slot) {i : Nat} (hi : i ∈ slot.recordBits) :
    i < 8 * schema.bytesPerEdge.toNat := by
  have hend := h.end_le ha hslot
  have hlast := (((h.placed ha).isRun_of_slot? hslot).mem_recordBits.mp hi).2
  omega

/-- A bit of the record belongs to one slot of one attribute at most. -/
theorem eq_of_mem_recordBits (h : schema.Built) (ha : a ∈ schema.attributes)
    (hb : b ∈ schema.attributes) (hslot : a.slot? side = some slot)
    (hslot' : b.slot? side' = some slot') {i : Nat} (hi : i ∈ slot.recordBits)
    (hi' : i ∈ slot'.recordBits) : a = b ∧ side = side' := by
  obtain ⟨given, _, hlaid⟩ := h.laidOut
  obtain ⟨hown, hothers⟩ := List.pairwise_flatMap.mp hlaid.disjoint
  by_cases hab : a = b
  · subst hab
    refine ⟨rfl, ?_⟩
    have hapart {t : Slot} (ht : a.reverse = some t) :
        Disjoint a.forward.recordBits t.recordBits :=
      (List.pairwise_cons.mp (hown a ha)).1 t (by simp [ht])
    cases side with
    | forward =>
      cases side' with
      | forward => rfl
      | reverse =>
        cases hslot
        exact absurd hi' (Set.disjoint_left.mp (hapart hslot') hi)
    | reverse =>
      cases side' with
      | forward =>
        cases hslot'
        exact absurd hi (Set.disjoint_left.mp (hapart hslot) hi')
      | reverse => rfl
  · -- The order in which the two attributes were registered does not matter.
    have hsymm : Std.Symm fun a b : Attribute =>
        ∀ s ∈ a.slots, ∀ t ∈ b.slots, Disjoint s.recordBits t.recordBits :=
      ⟨fun _ _ hd s hs t ht => (hd t ht s hs).symm⟩
    have hapart := hothers.forall ha hb hab slot (Attribute.mem_slots_iff.mpr ⟨side, hslot⟩)
      slot' (Attribute.mem_slots_iff.mpr ⟨side', hslot'⟩)
    exact absurd hi' (Set.disjoint_left.mp hapart hi)

end Built

def speed : Attribute :=
  { Attribute.ofSettings "speed" { bits := 5, twoDirections := true } with
    forward := { word := 0, shift := 0, mask := 31 }
    reverse := some { word := 0, shift := 5, mask := 992 } }

def slope : Attribute :=
  { Attribute.ofSettings "slope" { bits := 7, negates := true } with
    forward := { word := 0, shift := 10, mask := 261120 } }

def roads : Schema where
  attributes := [speed, slope]
  bytesPerEdge := 4

def roadStore : EdgeStore where
  bytesPerEdge := 4
  bytes := Array.replicate 8 0
  whole := by decide

theorem defined_of_mem_roads :
    ∀ a ∈ [speed.withoutSlots, slope.withoutSlots], a.Defined := by
  intro a ha
  have he : a = speed.withoutSlots ∨ a = slope.withoutSlots := by simpa using ha
  rcases he with rfl | rfl
  · exact ⟨{}, "speed", { bits := 5, twoDirections := true }, by cbv⟩
  · exact ⟨{}, "slope", { bits := 7, negates := true }, by cbv⟩

theorem roads_built : roads.Built :=
  ⟨{ attributes := [speed.withoutSlots, slope.withoutSlots] }, defined_of_mem_roads, by cbv⟩

/-- The schema with other greatest stored values, one for every name. -/
def withGreatest (schema : Schema) (greatest : String → Int32) : Schema where
  attributes := schema.attributes.map fun a => a.withGreatest (greatest a.name)
  bytesPerEdge := schema.bytesPerEdge

theorem Built.eq_withGreatest {schema : Schema} (h : schema.Built) :
    schema = schema.withGreatest fun _ => neverWritten := by
  have hattributes : schema.attributes =
      schema.attributes.map fun a => a.withGreatest neverWritten := by
    conv_lhs => rw [← List.map_id schema.attributes]
    apply List.map_congr_left
    intro a ha
    rw [← h.greatest_eq ha]
    rfl
  rw [withGreatest, ← hattributes]

theorem attribute?_withGreatest (schema : Schema) (greatest : String → Int32) (name : String) :
    (schema.withGreatest greatest).attribute? name =
      (schema.attribute? name).map fun a => a.withGreatest (greatest name) := by
  have hsame : ((fun a : Attribute => a.name == name) ∘ fun a : Attribute =>
      a.withGreatest (greatest a.name)) = fun a => a.name == name := rfl
  simp only [attribute?, withGreatest, List.find?_map, hsame]
  cases hfind : schema.attributes.find? fun a => a.name == name with
  | none => rfl
  | some a =>
    obtain ⟨_, hname⟩ := mem_of_attribute? hfind
    rw [Option.map_some, Option.map_some, hname]

theorem Built.replace_withGreatest {schema : Schema} (h : schema.Built) {a : Attribute}
    (ha : a ∈ schema.attributes) (greatest : String → Int32) (v : Int32) :
    (schema.withGreatest greatest).replace (a.withGreatest v) =
      schema.withGreatest (Function.update greatest a.name v) := by
  simp only [replace, withGreatest, List.map_map]
  congr 1
  apply List.map_congr_left
  intro b hb
  by_cases hname : b.name = a.name
  · rw [h.eq_of_name_eq hb ha hname]
    simp [Attribute.withGreatest]
  · simp [Attribute.withGreatest, hname]

variable {schema : Schema} {name : String} {greatest : String → Int32}

theorem read_of_attribute? {a : Attribute} (ha : schema.attribute? name = some a)
    (direction : Direction) (edge : Nat) (store : EdgeStore) :
    (schema.withGreatest greatest).read name direction edge store =
      a.read direction edge store := by
  simp [read, lookup, attribute?_withGreatest, ha, Attribute.read_withGreatest]

theorem Built.schema_read_eq (h : schema.Built) {a : Attribute} (ha : a ∈ schema.attributes)
    (direction : Direction) (edge : Nat) (store : EdgeStore) :
    schema.read a.name direction edge store = a.read direction edge store := by
  rw [h.eq_withGreatest, read_of_attribute? (h.attribute?_eq ha)]

theorem Built.write_of_attribute? (h : schema.Built) {a : Attribute}
    (ha : schema.attribute? name = some a) {direction : Direction} {edge : Nat} {value v : Int32}
    {store : EdgeStore} {outcome : Outcome EdgeStore}
    (hwrite : (a.withGreatest (greatest name)).write direction edge value store =
      (a.withGreatest v, outcome)) :
    (schema.withGreatest greatest).write name direction edge value store =
      (schema.withGreatest (Function.update greatest name v), outcome) := by
  obtain ⟨hmem, rfl⟩ := mem_of_attribute? ha
  simp [write, lookup, attribute?_withGreatest, ha, hwrite, h.replace_withGreatest hmem]

theorem lookup_of_attribute?_eq_none (greatest : String → Int32)
    (hnone : schema.attribute? name = none) :
    ∃ e, (schema.withGreatest greatest).lookup name = .error e := by
  simp [lookup, attribute?_withGreatest, hnone]

end PackedEdges.Schema
