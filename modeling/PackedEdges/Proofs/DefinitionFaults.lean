import PackedEdges.Proofs.SoundSettings
import PackedEdges.Proofs.SnapshotRestore

/-! Schemas that are built from a definition. The build stops at the first attribute at fault; without
one it does what defining and registering the attributes one by one does. -/

namespace PackedEdges

theorem Attribute.define?_ne_alreadyDefined {rules : NameRules} {name other : String}
    {settings : Settings} :
    define? rules name settings ≠ .error (.definition other .alreadyDefined) := by
  have hfault : settingsFault? settings ≠ some .alreadyDefined := by
    rw [settingsFault?]
    split_ifs <;> simp
  rw [define?]
  split_ifs
  · simp
  · split
    · next fault hsome =>
      rintro ⟨⟩
      exact hfault hsome
    · simp

namespace Definition

variable {rules : NameRules}

/-- Each attribute can be defined on its own, and no two have the same name. -/
structure Faultless (rules : NameRules) (definitions : List AttributeDefinition) : Prop where
  exists_define {d : AttributeDefinition} : d ∈ definitions →
    ∃ a, Attribute.define? rules d.name d.settings = .ok a
  nodup_names : (definitions.map AttributeDefinition.name).Nodup

/-- What is wrong with the first attribute at fault: its name or settings, or with these accepted
a name that an attribute before it has. -/
def FirstFault (rules : NameRules) (definitions : List AttributeDefinition) (e : Error) : Prop :=
  ∃ front d back, definitions = front ++ d :: back ∧ Faultless rules front ∧
    (Attribute.define? rules d.name d.settings = .error e ∨
      (∃ a, Attribute.define? rules d.name d.settings = .ok a) ∧
        d.name ∈ front.map AttributeDefinition.name ∧ e = .definition d.name .alreadyDefined)

theorem Faultless.not_firstFault {definitions : List AttributeDefinition}
    (h : Faultless rules definitions) (e : Error) : ¬ FirstFault rules definitions e := by
  rintro ⟨front, d, back, rfl, _, hdefine | ⟨_, hname, _⟩⟩
  · obtain ⟨a, ha⟩ := h.exists_define (d := d) (by simp)
    rw [hdefine] at ha
    cases ha
  · have hnodup := h.nodup_names
    rw [List.map_append, List.map_cons] at hnodup
    exact (List.nodup_append.mp hnodup).2.2 _ hname _ List.mem_cons_self rfl

/-- Defines and registers one attribute after the other, with one cursor. -/
def placeEach (rules : NameRules) (cursor : LayoutCursor) :
    List AttributeDefinition → Outcome (List Attribute × LayoutCursor)
  | [] => .done ([], cursor)
  | d :: definitions => do
    let a ← .ofExcept (Attribute.define? rules d.name d.settings)
    let (_, placed, next) ← a.register cursor
    let (others, last) ← placeEach rules next definitions
    return (placed :: others, last)

/-- Number of bits that the attributes take which can be defined. -/
def acceptedWidth (definition : Definition) : Nat :=
  ((definition.attributes.filterMap fun d =>
    (Attribute.define? definition.rules d.name d.settings).toOption).map Attribute.storedWidth).sum

/-- The attributes are those that the definitions define. -/
def Defines (rules : NameRules) : List AttributeDefinition → List Attribute → Prop :=
  List.Forall₂ fun d a => Attribute.define? rules d.name d.settings = .ok a

namespace Defines

variable {definitions : List AttributeDefinition} {attributes : List Attribute}

theorem names_eq (h : Defines rules definitions attributes) :
    attributes.map Attribute.name = definitions.map AttributeDefinition.name := by
  induction h with
  | nil => rfl
  | cons hfirst _ ih =>
    obtain ⟨_, _, rfl⟩ := Attribute.define?_eq_ok_iff.mp hfirst
    rw [List.map_cons, List.map_cons, ih]
    rfl

theorem exists_define (h : Defines rules definitions attributes) {d : AttributeDefinition}
    (hd : d ∈ definitions) : ∃ a, Attribute.define? rules d.name d.settings = .ok a := by
  induction h with
  | nil => cases hd
  | cons hfirst _ ih =>
    rcases List.mem_cons.mp hd with rfl | hd
    · exact ⟨_, hfirst⟩
    · exact ih hd

theorem defined (h : Defines rules definitions attributes) {a : Attribute} (ha : a ∈ attributes) :
    a.Defined := by
  induction h with
  | nil => cases ha
  | cons hfirst _ ih =>
    rcases List.mem_cons.mp ha with rfl | ha
    · exact ⟨rules, _, _, hfirst⟩
    · exact ih ha

theorem filterMap_eq (h : Defines rules definitions attributes) :
    (definitions.filterMap fun d => (Attribute.define? rules d.name d.settings).toOption) =
      attributes := by
  induction h with
  | nil => rfl
  | cons hfirst _ ih => rw [List.filterMap_cons, hfirst, ih]; rfl

theorem placeEach_eq (h : Defines rules definitions attributes) (cursor : LayoutCursor) :
    placeEach rules cursor definitions = SchemaBuilder.registerAll cursor attributes := by
  induction h generalizing cursor with
  | nil => rfl
  | cons hfirst _ ih =>
    rw [placeEach, SchemaBuilder.registerAll_cons, hfirst]
    simp only [Outcome.ofExcept, Outcome.done_bind, ih]
    rfl

end Defines

end Definition

namespace SchemaBuilder

open Definition

variable {rules : NameRules} {builder : SchemaBuilder} {front : List AttributeDefinition}

theorem add?_of_define_error {name : String} {settings : Settings} {e : Error}
    (h : Attribute.define? builder.rules name settings = .error e) :
    builder.add? name settings = .error e := by
  rw [add?, h]
  rfl

theorem add?_of_define_ok {name : String} {settings : Settings} {a : Attribute}
    (h : Attribute.define? builder.rules name settings = .ok a) :
    builder.add? name settings =
      if name ∈ builder.attributes.map Attribute.name then
        .error (.definition name .alreadyDefined)
      else .ok { builder with attributes := builder.attributes ++ [a] } := by
  have hname : a.name = name := by
    obtain ⟨_, _, rfl⟩ := Attribute.define?_eq_ok_iff.mp h
    rfl
  have hadd : builder.add? name settings = builder.addAttribute? a := by
    rw [add?, h]
    rfl
  rw [hadd, addAttribute?_eq, hname]

/-- The builder holds what the definitions define. -/
structure Collected (builder : SchemaBuilder) (rules : NameRules)
    (definitions : List AttributeDefinition) : Prop where
  rules_eq : builder.rules = rules
  defines : Defines rules definitions builder.attributes
  nodup_names : (definitions.map AttributeDefinition.name).Nodup

namespace Collected

theorem faultless (h : builder.Collected rules front) : Faultless rules front :=
  ⟨h.defines.exists_define, h.nodup_names⟩

theorem add?_cases (h : builder.Collected rules front) (d : AttributeDefinition)
    (back : List AttributeDefinition) :
    (∃ next, builder.add? d.name d.settings = .ok next ∧ next.Collected rules (front ++ [d])) ∨
      ∃ e, builder.add? d.name d.settings = .error e ∧ FirstFault rules (front ++ d :: back) e := by
  obtain ⟨rfl, hdefines, hnodup⟩ := id h
  cases hdefine : Attribute.define? builder.rules d.name d.settings with
  | error e =>
    exact .inr ⟨e, add?_of_define_error hdefine, front, d, back, rfl, h.faultless, .inl hdefine⟩
  | ok a =>
    rw [add?_of_define_ok hdefine, hdefines.names_eq]
    by_cases hmem : d.name ∈ front.map AttributeDefinition.name
    · rw [if_pos hmem]
      exact .inr ⟨_, rfl, front, d, back, rfl, h.faultless, .inr ⟨⟨a, hdefine⟩, hmem, rfl⟩⟩
    · rw [if_neg hmem]
      refine .inl ⟨_, rfl, rfl, List.rel_append hdefines (.cons hdefine .nil), ?_⟩
      simpa using List.nodup_append.mpr ⟨hnodup, by simp, by simpa using hmem⟩

/-- The builder collects all further definitions or stops at the first one at fault. -/
theorem addAll_cases (h : builder.Collected rules front) (more : List AttributeDefinition) :
    (∃ last, more.foldlM (fun builder d => builder.add? d.name d.settings) builder = .ok last ∧
        last.Collected rules (front ++ more)) ∨
      ∃ e, more.foldlM (fun builder d => builder.add? d.name d.settings) builder = .error e ∧
        FirstFault rules (front ++ more) e := by
  induction more generalizing builder front with
  | nil => exact .inl ⟨builder, rfl, by simpa using h⟩
  | cons d back ih =>
    -- What is collected joins the front, so that a fault behind it is still the first one.
    rcases h.add?_cases d back with ⟨next, hadd, hnext⟩ | ⟨e, hadd, hfault⟩
    · simpa [hadd, bind, Except.bind] using ih hnext
    · exact .inr ⟨e, by simp [hadd, bind, Except.bind], hfault⟩

theorem build_ne_failed (h : builder.Collected rules front) (e : Error) :
    builder.build ≠ .failed e := by
  have hfree : ∀ a ∈ builder.attributes, a.isRegistered = false ∧ a.reverse = none :=
    fun a ha => ⟨(h.defines.defined ha).fresh.1, (h.defines.defined ha).fresh.2.1⟩
  cases hall : registerAll .initial builder.attributes with
  | failed e' => exact absurd hall (registerAll_ne_failed (fun a ha => (hfree a ha).1) _ e')
  | refused =>
    rw [build, hall]
    intro hfailed
    cases hfailed
  | done result =>
    rw [build_of_registerAll (fun a ha => (hfree a ha).2)
      (h.defines.names_eq ▸ h.nodup_names) hall]
    simp

theorem exists_build (h : builder.Collected rules front)
    (hroom : (builder.attributes.map Attribute.storedWidth).sum < UInt32.size) :
    ∃ schema, builder.build = .done schema :=
  SchemaBuilder.exists_build (fun _ => h.defines.defined) (h.defines.names_eq ▸ h.nodup_names) hroom

end Collected

theorem collected_nil (rules : NameRules) : ({ rules } : SchemaBuilder).Collected rules [] :=
  ⟨rfl, .nil, List.nodup_nil⟩

theorem ofDefinition?_cases (definition : Definition) :
    (∃ builder, ofDefinition? definition = .ok builder ∧
        builder.Collected definition.rules definition.attributes) ∨
      ∃ e, ofDefinition? definition = .error e ∧
        FirstFault definition.rules definition.attributes e :=
  (collected_nil definition.rules).addAll_cases definition.attributes

theorem ofDefinition?_of_firstFault {definition : Definition} {e : Error}
    (h : FirstFault definition.rules definition.attributes e) :
    ofDefinition? definition = .error e := by
  obtain ⟨front, d, back, hsplit, hfront, hfault⟩ := h
  rw [ofDefinition?, hsplit, List.foldlM_append]
  rcases (collected_nil definition.rules).addAll_cases front with
    ⟨builder, hfold, hrules, hdefines, hnodup⟩ | ⟨e', _, hbad⟩
  · have hadd : builder.add? d.name d.settings = .error e := by
      rcases hfault with hdefine | ⟨⟨a, hdefine⟩, hmem, rfl⟩
      · exact add?_of_define_error (hrules ▸ hdefine)
      · have hmem : d.name ∈ builder.attributes.map Attribute.name := by
          rw [hdefines.names_eq]
          exact hmem
        rw [add?_of_define_ok (hrules ▸ hdefine), if_pos hmem]
    simp [hfold, hadd, bind, Except.bind]
  · exact absurd hbad (hfront.not_firstFault e')

end SchemaBuilder

namespace Definition

open SchemaBuilder

variable {definition : Definition} {builder : SchemaBuilder} {schema : Schema}

theorem sum_storedWidth_eq (h : builder.Collected definition.rules definition.attributes) :
    (builder.attributes.map Attribute.storedWidth).sum = definition.acceptedWidth := by
  rw [acceptedWidth, h.defines.filterMap_eq]

theorem build_eq_failed_iff {e : Error} :
    definition.build = .failed e ↔ FirstFault definition.rules definition.attributes e := by
  constructor
  · intro h
    rw [build] at h
    rcases ofDefinition?_cases definition with ⟨builder, hbuilder, hcollected⟩ | ⟨e', herror, hfault⟩
    · rw [hbuilder] at h
      exact absurd h (hcollected.build_ne_failed e)
    · rw [herror] at h
      cases h
      exact hfault
  · intro h
    rw [build, ofDefinition?_of_firstFault h]

theorem exists_collected (h : Faultless definition.rules definition.attributes) :
    ∃ builder, ofDefinition? definition = .ok builder ∧
      builder.Collected definition.rules definition.attributes := by
  rcases ofDefinition?_cases definition with hcollected | ⟨e, _, hfault⟩
  · exact hcollected
  · exact absurd hfault (h.not_firstFault e)

theorem exists_firstFault (h : ¬ Faultless definition.rules definition.attributes) :
    ∃ e, FirstFault definition.rules definition.attributes e := by
  rcases ofDefinition?_cases definition with ⟨builder, _, hcollected⟩ | ⟨e, _, hfault⟩
  · exact absurd hcollected.faultless h
  · exact ⟨e, hfault⟩

theorem collected_of_ofDefinition? (h : ofDefinition? definition = .ok builder) :
    builder.Collected definition.rules definition.attributes := by
  rcases ofDefinition?_cases definition with ⟨built, hbuilt, hcollected⟩ | ⟨e, herror, _⟩
  · cases h.symm.trans hbuilt
    exact hcollected
  · cases h.symm.trans herror

theorem collected_of_build (h : definition.build = .done schema) :
    ∃ builder : SchemaBuilder, builder.build = .done schema ∧
      builder.Collected definition.rules definition.attributes := by
  rw [build] at h
  cases hbuilder : ofDefinition? definition with
  | error e =>
    rw [hbuilder] at h
    cases h
  | ok builder =>
    rw [hbuilder] at h
    exact ⟨builder, h, collected_of_ofDefinition? hbuilder⟩

theorem placeEach_of_build (h : definition.build = .done schema) :
    ∃ last, placeEach definition.rules .initial definition.attributes =
      .done (schema.attributes, last) ∧ schema.bytesPerEdge.toNat = last.requiredBytes := by
  obtain ⟨builder, hbuild, hcollected⟩ := collected_of_build h
  obtain ⟨placed, last, hall, hschema⟩ := build_cases hbuild
  obtain ⟨_, rfl⟩ := Schema.ofAttributes?_eq_ok_iff.mp hschema
  exact ⟨last, (hcollected.defines.placeEach_eq .initial).trans hall, toNat_requiredBytes last⟩

/-- If the accepted widths can be counted, a build succeeds exactly when there is no fault, and then
the schema is the one of the attributes taken one by one. It fails exactly with the first fault, which
is a repeated name only if the settings that come with it are accepted. What has been collected never
fails to build. -/
theorem build_stops_at_first_fault (definition : Definition) :
    (definition.acceptedWidth < UInt32.size →
      ((∃ schema, definition.build = .done schema) ↔
        Faultless definition.rules definition.attributes) ∧
      ((∃ e, definition.build = .failed e) ↔
        ¬ Faultless definition.rules definition.attributes)) ∧
    (∀ schema, definition.build = .done schema →
      ∃ last, placeEach definition.rules .initial definition.attributes =
        .done (schema.attributes, last) ∧ schema.bytesPerEdge.toNat = last.requiredBytes) ∧
    (∀ e, definition.build = .failed e ↔ FirstFault definition.rules definition.attributes e) ∧
    (∀ name, definition.build = .failed (.definition name .alreadyDefined) →
      ∃ front d back, definition.attributes = front ++ d :: back ∧ d.name = name ∧
        name ∈ front.map AttributeDefinition.name ∧
        ∃ a, Attribute.define? definition.rules d.name d.settings = .ok a) ∧
    ∀ builder, ofDefinition? definition = .ok builder → (∀ e, builder.build ≠ .failed e) ∧
      (definition.acceptedWidth < UInt32.size → ∃ schema, builder.build = .done schema) := by
  refine ⟨fun hroom => ⟨⟨?_, ?_⟩, ⟨?_, ?_⟩⟩, fun _ => placeEach_of_build,
    fun _ => build_eq_failed_iff, fun name hfailed => ?_, fun builder hbuilder => ?_⟩
  · rintro ⟨schema, hschema⟩
    obtain ⟨_, _, hcollected⟩ := collected_of_build hschema
    exact hcollected.faultless
  · intro hfaultless
    obtain ⟨builder, hbuilder, hcollected⟩ := exists_collected hfaultless
    rw [build, hbuilder]
    exact hcollected.exists_build (by rwa [sum_storedWidth_eq hcollected])
  · rintro ⟨e, hfailed⟩ hfaultless
    exact hfaultless.not_firstFault e (build_eq_failed_iff.mp hfailed)
  · intro hfault
    obtain ⟨e, he⟩ := exists_firstFault hfault
    exact ⟨e, build_eq_failed_iff.mpr he⟩
  · obtain ⟨front, d, back, hsplit, _, hdefine | ⟨hdefine, hmem, he⟩⟩ :=
      build_eq_failed_iff.mp hfailed
    · exact absurd hdefine Attribute.define?_ne_alreadyDefined
    · cases he
      exact ⟨front, d, back, hsplit, rfl, hmem, hdefine⟩
  · have hcollected := collected_of_ofDefinition? hbuilder
    exact ⟨hcollected.build_ne_failed,
      fun hroom => hcollected.exists_build (by rwa [sum_storedWidth_eq hcollected])⟩

def repeatingSpeed (settings : Settings) : Definition :=
  { roadDefinition with
    attributes := roadDefinition.attributes ++ [{ name := "speed", settings }] }

/-- The second `speed` has a fault of its own, or its name is the fault. -/
theorem build_stops_at_first_fault_speed :
    (roadDefinition.acceptedWidth < UInt32.size ∧
      Faultless roadDefinition.rules roadDefinition.attributes ∧
      ∃ builder last, ofDefinition? roadDefinition = .ok builder ∧
        (∃ schema, builder.build = .done schema) ∧
        placeEach roadDefinition.rules .initial roadDefinition.attributes =
          .done (Schema.roads.attributes, last) ∧ last.requiredBytes = 4) ∧
    FirstFault {} (repeatingSpeed { bits := 0 }).attributes (.definition "speed" .noBits) ∧
    ∃ front d back, (repeatingSpeed { bits := 3 }).attributes = front ++ d :: back ∧
      d.name = "speed" ∧ "speed" ∈ front.map AttributeDefinition.name := by
  have hroom : roadDefinition.acceptedWidth < UInt32.size := by
    have hwidth : roadDefinition.acceptedWidth = 18 := by cbv
    rw [hwidth]
    decide
  have hbuild : roadDefinition.build = .done Schema.roads := by cbv
  obtain ⟨hiff, hplaced, _, _, hcollected⟩ := build_stops_at_first_fault roadDefinition
  obtain ⟨last, hplace, hbytes⟩ := hplaced _ hbuild
  have hfaultless := (hiff hroom).1.mp ⟨_, hbuild⟩
  obtain ⟨builder, hbuilder, _⟩ := exists_collected hfaultless
  refine ⟨⟨hroom, hfaultless, builder, last, hbuilder, (hcollected builder hbuilder).2 hroom, hplace,
    hbytes.symm.trans (by cbv)⟩, ?_, ?_⟩
  · obtain ⟨_, _, hfailed, _⟩ := build_stops_at_first_fault (repeatingSpeed { bits := 0 })
    exact (hfailed _).mp (by cbv)
  · obtain ⟨_, _, _, hrepeated, _⟩ := build_stops_at_first_fault (repeatingSpeed { bits := 3 })
    obtain ⟨front, d, back, hsplit, hname, hmem, _⟩ := hrepeated "speed" (by cbv)
    exact ⟨front, d, back, hsplit, hname, hmem⟩

end Definition

end PackedEdges
