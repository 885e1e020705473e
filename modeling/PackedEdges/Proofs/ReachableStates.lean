import PackedEdges.Proofs.BuiltSchema

/-! The states that attributes and schemas get into. A reverse slot is there just when the
attribute has two directions, but for attributes that were defined and never registered. -/

namespace PackedEdges

namespace Attribute

/-- What definitions, registrations, writes and restores can make of an attribute. -/
inductive Reachable : Attribute → Prop
  | defined {a : Attribute} : a.Defined → Reachable a
  | restored (s : AttributeSnapshot) : Reachable (ofSnapshot s)
  | registered {a b : Attribute} {cursor last : LayoutCursor} {taken : Nat} :
    Reachable a → a.register cursor = .done (taken, b, last) → Reachable b
  | written {a : Attribute} (direction : Direction) (edge : Nat) (value : Int32)
    (store : EdgeStore) : Reachable a → Reachable (a.write direction edge value store).1

/-- The attribute has a reverse slot just when it needs one. -/
def Paired (a : Attribute) : Prop :=
  a.reverse.isSome = a.twoDirections

theorem paired_withGreatest {a : Attribute} {v : Int32} : (a.withGreatest v).Paired ↔ a.Paired :=
  Iff.rfl

theorem paired_ofSnapshot (s : AttributeSnapshot) : (ofSnapshot s).Paired := by
  cases htwo : s.twoDirections <;> simp [Paired, ofSnapshot, htwo]

theorem paired_of_register {a b : Attribute} {cursor last : LayoutCursor} {taken : Nat}
    (ha : a.Defined ∨ a.Paired) (h : a.register cursor = .done (taken, b, last)) : b.Paired := by
  obtain ⟨_, _, forward, next, _, ⟨htwo, rfl, rfl⟩ | ⟨reverse, htwo, _, rfl⟩⟩ := register_cases h
  · rcases ha with hdef | hpaired
    · simp [Paired, htwo, hdef.fresh.2.1]
    · exact hpaired
  · simp [Paired, htwo]

theorem write_of_not_isRegistered {a : Attribute} (h : a.isRegistered = false)
    (direction : Direction) (edge : Nat) (value : Int32) (store : EdgeStore) :
    a.write direction edge value store = (a, .failed (.stage a.name .notRegistered)) := by
  simp [write, checkValue, h]

theorem exists_write_eq_withGreatest (a : Attribute) (direction : Direction) (edge : Nat)
    (value : Int32) (store : EdgeStore) :
    ∃ v, (a.write direction edge value store).1 = a.withGreatest v := by
  unfold write
  split
  · exact ⟨a.greatest, rfl⟩
  · exact ⟨a.greatest, rfl⟩
  · exact ⟨_, rfl⟩

theorem Reachable.defined_or_paired {a : Attribute} (h : a.Reachable) : a.Defined ∨ a.Paired := by
  induction h with
  | defined hdef => exact .inl hdef
  | restored s => exact .inr (paired_ofSnapshot s)
  | registered _ hregister ih => exact .inr (paired_of_register ih hregister)
  | @written a direction edge value store _ ih =>
    rcases ih with hdef | hpaired
    · left
      rwa [write_of_not_isRegistered hdef.fresh.1]
    · right
      obtain ⟨v, hv⟩ := a.exists_write_eq_withGreatest direction edge value store
      rw [hv]
      exact paired_withGreatest.mpr hpaired

/-- The attribute was defined, then got its slots, and is in use from now on. -/
def Registered (a : Attribute) : Prop :=
  ∃ (d : Attribute) (cursor last : LayoutCursor) (taken : Nat),
    d.Defined ∧ d.register cursor = .done (taken, a, last)

theorem Registered.sound_placed {a : Attribute} (h : a.Registered) :
    a.Sound ∧ a.Placed ∧ a.greatest = neverWritten := by
  obtain ⟨d, cursor, last, taken, hdef, hregister⟩ := h
  obtain ⟨hsame, hplaced, _⟩ := grants_of_register (fun _ => hdef.fresh.2.1) hregister
  rw [SchemaBuilder.withoutSlots_of_defined hdef] at hsame
  have hgreatest : a.withoutSlots.greatest = d.greatest := congrArg Attribute.greatest hsame
  exact ⟨.of_withoutSlots (hsame ▸ hdef.sound), hplaced, hgreatest.trans hdef.fresh.2.2⟩

/-- The attribute was registered, and values may have been written since. -/
def InUse (a : Attribute) : Prop :=
  ∃ greatest, (a.withGreatest greatest).Registered

theorem InUse.sound_placed {a : Attribute} (h : a.InUse) : a.Sound ∧ a.Placed := by
  obtain ⟨_, hregistered⟩ := h
  obtain ⟨hsound, hplaced, _⟩ := hregistered.sound_placed
  exact ⟨⟨hsound.bits_pos, hsound.bits_le, hsound.range_eq, hsound.neverWritten_lt,
    hsound.symmetric, hsound.oneDirection⟩, ⟨hplaced.isSome_reverse, hplaced.isRun⟩⟩

end Attribute

namespace SchemaBuilder

theorem paired_of_registerAll {as bs : List Attribute} {cursor last : LayoutCursor}
    (has : ∀ a ∈ as, a.Defined ∨ a.Paired) (h : registerAll cursor as = .done (bs, last)) :
    ∀ b ∈ bs, b.Paired := by
  induction as generalizing cursor bs with
  | nil =>
    cases h
    simp
  | cons a as ih =>
    rw [registerAll_cons] at h
    obtain ⟨⟨taken, b, next⟩, hfirst, h⟩ := Outcome.bind_eq_done_iff.mp h
    obtain ⟨⟨bs, last'⟩, hrest, h⟩ := Outcome.bind_eq_done_iff.mp h
    cases h
    obtain ⟨ha, hall⟩ := List.forall_mem_cons.mp has
    exact List.forall_mem_cons.mpr ⟨Attribute.paired_of_register ha hfirst, ih hall hrest⟩

theorem eq_performAll_of_foldlM {definitions : List AttributeDefinition}
    {builder built : SchemaBuilder}
    (h : definitions.foldlM (fun builder d => builder.add? d.name d.settings) builder = .ok built) :
    built = builder.performAll (definitions.map fun d => .define d.name d.settings) := by
  induction definitions generalizing builder with
  | nil => exact (Except.ok.inj h).symm
  | cons d definitions ih =>
    rw [List.foldlM_cons] at h
    cases hadd : builder.add? d.name d.settings with
    | error e =>
      rw [hadd] at h
      cases h
    | ok next =>
      rw [hadd] at h
      simpa [performAll, perform?, hadd] using ih h

end SchemaBuilder

namespace Schema

/-- What builds, restores and writes can make of a schema. -/
inductive Reachable : Schema → Prop
  | built {schema : Schema} {rules : NameRules} {additions : List Addition} :
    (∀ a, .given a ∈ additions → a.Reachable) →
      (SchemaBuilder.performAll { rules } additions).build = .done schema → Reachable schema
  | restored {schema : Schema} {s : Snapshot} : ofSnapshot? s = .ok schema → Reachable schema
  | written {schema : Schema} (name : String) (direction : Direction) (edge : Nat)
    (value : Int32) (store : EdgeStore) :
    Reachable schema → Reachable (schema.write name direction edge value store).1

theorem reachable_of_definition {definition : Definition} {schema : Schema}
    (h : definition.build = .done schema) : schema.Reachable := by
  rw [Definition.build] at h
  cases hbuilder : SchemaBuilder.ofDefinition? definition with
  | error e => simp [hbuilder] at h
  | ok builder =>
    rw [hbuilder] at h
    obtain rfl := SchemaBuilder.eq_performAll_of_foldlM hbuilder
    refine .built (fun a ha => ?_) h
    obtain ⟨d, _, hd⟩ := List.mem_map.mp ha
    cases hd

variable {schema : Schema}

theorem names_replace (schema : Schema) (a : Attribute) :
    (schema.replace a).names = schema.names := by
  simp only [names, replace, List.map_map]
  apply List.map_congr_left
  intro b _
  by_cases hname : b.name = a.name
  · simp [hname]
  · simp [hname]

theorem mem_replace {a b : Attribute} (h : b ∈ (schema.replace a).attributes) :
    b = a ∨ b ∈ schema.attributes := by
  obtain ⟨c, hc, rfl⟩ := List.mem_map.mp h
  by_cases hname : c.name = a.name
  · simp [hname]
  · simp [hname, hc]

theorem write_cases (schema : Schema) (name : String) (direction : Direction) (edge : Nat)
    (value : Int32) (store : EdgeStore) :
    (schema.write name direction edge value store).1 = schema ∨
      ∃ a ∈ schema.attributes, ∃ v,
        (schema.write name direction edge value store).1 = schema.replace (a.withGreatest v) := by
  rw [write, lookup]
  cases hfind : schema.attribute? name with
  | none => exact .inl rfl
  | some a =>
    obtain ⟨v, hv⟩ := a.exists_write_eq_withGreatest direction edge value store
    exact .inr ⟨a, (mem_of_attribute? hfind).1, v, congrArg schema.replace hv⟩

/-- What the restoring of a schema relies on. -/
structure Restorable (schema : Schema) : Prop where
  nodup_names : schema.names.Nodup
  paired : ∀ a ∈ schema.attributes, a.Paired

theorem Built.restorable (h : schema.Built) : schema.Restorable := by
  obtain ⟨given, _, hlaid⟩ := h.laidOut
  exact ⟨hlaid.nodup_names, fun a ha => (hlaid.placed a ha).isSome_reverse⟩

theorem Restorable.write (h : schema.Restorable) (name : String) (direction : Direction)
    (edge : Nat) (value : Int32) (store : EdgeStore) :
    (schema.write name direction edge value store).1.Restorable := by
  rcases schema.write_cases name direction edge value store with hsame | ⟨a, ha, v, hreplace⟩
  · rwa [hsame]
  · rw [hreplace]
    refine ⟨by rw [names_replace]; exact h.nodup_names, fun b hb => ?_⟩
    rcases mem_replace hb with rfl | hb
    · exact Attribute.paired_withGreatest.mpr (h.paired a ha)
    · exact h.paired b hb

theorem restorable_of_ofSnapshot? {s : Snapshot} (h : ofSnapshot? s = .ok schema) :
    schema.Restorable := by
  obtain ⟨hnodup, rfl⟩ := ofAttributes?_eq_ok_iff.mp h
  refine ⟨hnodup, fun a ha => ?_⟩
  obtain ⟨t, _, rfl⟩ := List.mem_map.mp ha
  exact Attribute.paired_ofSnapshot t

theorem Reachable.restorable (h : schema.Reachable) : schema.Restorable := by
  induction h with
  | built hgiven hbuild =>
    obtain ⟨placed, last, hall, hschema⟩ := SchemaBuilder.build_cases hbuild
    obtain ⟨hnodup, rfl⟩ := ofAttributes?_eq_ok_iff.mp hschema
    refine ⟨hnodup, SchemaBuilder.paired_of_registerAll (fun a ha => ?_) hall⟩
    rw [SchemaBuilder.attributes_performAll] at ha
    rcases SchemaBuilder.defined_or_mem_of_accepted (by simpa using ha) with hdef | hmem
    · exact .inl hdef
    · exact (hgiven a hmem).defined_or_paired
  | restored hs => exact restorable_of_ofSnapshot? hs
  | written name direction edge value store _ ih => exact ih.write name direction edge value store

end Schema

end PackedEdges
