import Mathlib
import PackedEdges.Proofs.AttributeRange
import PackedEdges.Proofs.Registration

/-! The layout of a schema. Whatever sequence of additions a builder has seen, the attributes that
it accepted get slots that share no bit, in a record that is as long as the last slot needs. -/

namespace PackedEdges

theorem Schema.repeated?_eq_none_iff {before names : List String} :
    repeated? before names = none ↔ names.Nodup ∧ ∀ name ∈ names, name ∉ before := by
  induction names generalizing before with
  | nil => simp [repeated?]
  | cons name names ih =>
    rw [repeated?, List.nodup_cons, List.forall_mem_cons]
    by_cases hseen : name ∈ before
    · simp [hseen]
    · simp only [List.contains_iff_mem, hseen, if_false, ih, List.mem_cons, not_or,
        not_false_eq_true, true_and]
      constructor
      · rintro ⟨hnodup, hnot⟩
        exact ⟨⟨fun hmem => (hnot name hmem).1 rfl, hnodup⟩, fun n hn => (hnot n hn).2⟩
      · rintro ⟨⟨hmem, hnodup⟩, hnot⟩
        exact ⟨hnodup, fun n hn => ⟨fun he => hmem (he ▸ hn), hnot n hn⟩⟩

theorem Schema.ofAttributes?_eq_ok_iff {attributes : List Attribute} {bytesPerEdge : UInt64}
    {schema : Schema} : ofAttributes? attributes bytesPerEdge = .ok schema ↔
      (attributes.map Attribute.name).Nodup ∧ schema = { attributes, bytesPerEdge } := by
  have hiff : repeated? [] (attributes.map Attribute.name) = none ↔
      (attributes.map Attribute.name).Nodup ∧ ∀ name ∈ attributes.map Attribute.name, name ∉ [] :=
    repeated?_eq_none_iff
  cases hrepeated : repeated? [] (attributes.map Attribute.name) with
  | some name =>
    have hnot : ¬ (attributes.map Attribute.name).Nodup := by simpa [hrepeated] using hiff
    simp [ofAttributes?, hrepeated, hnot]
  | none =>
    have hnodup : (attributes.map Attribute.name).Nodup := by simpa [hrepeated] using hiff
    simp [ofAttributes?, hrepeated, hnodup, eq_comm]

theorem Schema.attribute?_eq_of_nodup {schema : Schema} (h : schema.names.Nodup) {a : Attribute}
    (ha : a ∈ schema.attributes) : schema.attribute? a.name = some a := by
  cases hfind : schema.attribute? a.name with
  | none =>
    have hnone := List.find?_eq_none.mp hfind a ha
    simp at hnone
  | some b =>
    obtain ⟨hb, hname⟩ := mem_of_attribute? hfind
    rw [List.inj_on_of_nodup_map h hb ha hname]

def Schema.slots (schema : Schema) : List Slot :=
  schema.attributes.flatMap Attribute.slots

/-- The schema holds the `given` attributes, each with slots of its own, in the shortest record
that has room for them. -/
structure Schema.LaidOut (schema : Schema) (given : List Attribute) : Prop where
  attributes_eq : schema.attributes.map Attribute.withoutSlots = given
  nodup_names : schema.names.Nodup
  placed : ∀ a ∈ schema.attributes, a.Placed
  disjoint : schema.slots.Pairwise fun s t => Disjoint s.recordBits t.recordBits
  inside : ∀ slot ∈ schema.slots, 4 * (slot.word.toNat + 1) ≤ schema.bytesPerEdge.toNat
  size_eq : schema.attributes = [] ∧ schema.bytesPerEdge.toNat = 0 ∨
    ∃ slot ∈ schema.slots, schema.bytesPerEdge.toNat = 4 * (1 + slot.word.toNat)

namespace SchemaBuilder

open Attribute

theorem toNat_requiredBytes (cursor : LayoutCursor) :
    (UInt64.ofNat cursor.requiredBytes).toNat = cursor.requiredBytes := by
  have hposition := cursor.position_le
  have hrequested := cursor.requested_lt
  apply UInt64.toNat_ofNat_of_lt'
  simp only [UInt32.size, UInt64.size, LayoutCursor.requiredBytes, LayoutCursor.requiredWords]
    at hrequested ⊢
  omega

theorem laidOut_of_registerAll {given placed : List Attribute} {last : LayoutCursor}
    {schema : Schema} (hreverse : ∀ a ∈ given, a.reverse = none)
    (hall : registerAll .initial given = .done (placed, last))
    (hschema : Schema.ofAttributes? placed (UInt64.ofNat last.requiredBytes) = .ok schema) :
    schema.LaidOut (given.map withoutSlots) := by
  obtain ⟨hsame, hplaced, hgrants⟩ := grants_of_registerAll hreverse hall
  obtain ⟨hnodup, rfl⟩ := Schema.ofAttributes?_eq_ok_iff.mp hschema
  refine ⟨hsame, hnodup, hplaced, hgrants.pairwise_disjoint, ?_, ?_⟩
  · intro slot hslot
    have hword := hgrants.word_lt hslot
    rw [toNat_requiredBytes, LayoutCursor.requiredBytes]
    omega
  · by_cases hnil : placed = []
    · subst hnil
      cases hgrants
      exact .inl ⟨rfl, rfl⟩
    · right
      obtain ⟨a, as, rfl⟩ := List.exists_cons_of_ne_nil hnil
      obtain ⟨slot, hslot, hword⟩ := hgrants.exists_last_word (by simp [slots])
      refine ⟨slot, hslot, ?_⟩
      rw [toNat_requiredBytes, LayoutCursor.requiredBytes, hword]
      omega

theorem build_cases {builder : SchemaBuilder} {schema : Schema} (h : builder.build = .done schema) :
    ∃ placed last, registerAll .initial builder.attributes = .done (placed, last) ∧
      Schema.ofAttributes? placed (UInt64.ofNat last.requiredBytes) = .ok schema := by
  obtain ⟨⟨placed, last⟩, hall, hrest⟩ := Outcome.bind_eq_done_iff.mp h
  refine ⟨placed, last, hall, ?_⟩
  cases hschema : Schema.ofAttributes? placed (UInt64.ofNat last.requiredBytes) with
  | error e => simp [hschema, Outcome.ofExcept] at hrest
  | ok made => simpa [hschema, Outcome.ofExcept] using hrest

theorem withoutSlots_of_defined {a : Attribute} (h : a.Defined) : a.withoutSlots = a := by
  obtain ⟨name, settings, _, rfl⟩ := defined_cases h
  rfl

theorem map_withoutSlots {given : List Attribute} (h : ∀ a ∈ given, a.Defined) :
    given.map withoutSlots = given := by
  conv_rhs => rw [← List.map_id given]
  apply List.map_congr_left
  intro a ha
  exact withoutSlots_of_defined (h a ha)

theorem laidOut_of_build {builder : SchemaBuilder} {schema : Schema}
    (hdef : ∀ a ∈ builder.attributes, a.Defined) (h : builder.build = .done schema) :
    schema.LaidOut builder.attributes := by
  obtain ⟨placed, last, hall, hschema⟩ := build_cases h
  have hlaid := laidOut_of_registerAll (fun a ha => (hdef a ha).fresh.2.1) hall hschema
  rwa [map_withoutSlots hdef] at hlaid

/-- Once its attributes have their slots, a build cannot fail any more. -/
theorem build_of_registerAll {builder : SchemaBuilder} {placed : List Attribute}
    {last : LayoutCursor} (hreverse : ∀ a ∈ builder.attributes, a.reverse = none)
    (hnodup : (builder.attributes.map name).Nodup)
    (hall : registerAll .initial builder.attributes = .done (placed, last)) :
    builder.build = .done { attributes := placed
                            bytesPerEdge := UInt64.ofNat last.requiredBytes } := by
  obtain ⟨hsame, _, _⟩ := grants_of_registerAll hreverse hall
  have hnames : placed.map name = builder.attributes.map name := by
    have hmap := congrArg (List.map name) hsame
    simpa only [List.map_map, Function.comp_def, withoutSlots] using hmap
  have hschema : Schema.ofAttributes? placed (UInt64.ofNat last.requiredBytes) =
      .ok { attributes := placed, bytesPerEdge := UInt64.ofNat last.requiredBytes } :=
    Schema.ofAttributes?_eq_ok_iff.mpr ⟨hnames ▸ hnodup, rfl⟩
  simp only [build, hall, Outcome.done_bind, hschema]
  rfl

theorem exists_build {builder : SchemaBuilder} (hdef : ∀ a ∈ builder.attributes, a.Defined)
    (hnodup : (builder.attributes.map name).Nodup)
    (hroom : (builder.attributes.map storedWidth).sum < UInt32.size) :
    ∃ schema, builder.build = .done schema := by
  obtain ⟨placed, last, hall⟩ := exists_registerAll .initial
    (fun a ha => ⟨(hdef a ha).fresh.1, (hdef a ha).fresh.2.1⟩)
    (fun a ha => ⟨(hdef a ha).sound.bits_pos, (hdef a ha).sound.bits_le⟩)
    (by simpa [LayoutCursor.initial] using hroom)
  exact ⟨_, build_of_registerAll (fun a ha => (hdef a ha).fresh.2.1) hnodup hall⟩

end SchemaBuilder

inductive Addition
  | define (name : String) (settings : Settings)
  | given (a : Attribute)

namespace SchemaBuilder

open Attribute

def offered? (builder : SchemaBuilder) : Addition → Except Error Attribute
  | .define name settings => define? builder.rules name settings
  | .given a => .ok a

def perform? (builder : SchemaBuilder) : Addition → Except Error SchemaBuilder
  | .define name settings => builder.add? name settings
  | .given a => builder.addAttribute? a

/-- The builder after all additions; one that is refused leaves it as it is. -/
def performAll (builder : SchemaBuilder) : List Addition → SchemaBuilder
  | [] => builder
  | x :: xs =>
    match builder.perform? x with
    | .ok next => next.performAll xs
    | .error _ => builder.performAll xs

def accepted (builder : SchemaBuilder) : List Addition → List Attribute
  | [] => []
  | x :: xs =>
    match builder.offered? x, builder.perform? x with
    | .ok a, .ok next => a :: next.accepted xs
    | _, _ => builder.accepted xs

theorem addAttribute?_eq (builder : SchemaBuilder) (a : Attribute) :
    builder.addAttribute? a =
      if a.name ∈ builder.attributes.map name then .error (.definition a.name .alreadyDefined)
      else .ok { builder with attributes := builder.attributes ++ [a] } := by
  have hmem : (builder.attributes.any fun b => b.name == a.name) = true ↔
      a.name ∈ builder.attributes.map name := by simp
  simp only [addAttribute?, hmem]

theorem perform?_cases {builder next : SchemaBuilder} {x : Addition}
    (h : builder.perform? x = .ok next) :
    ∃ a, builder.offered? x = .ok a ∧ a.name ∉ builder.attributes.map name ∧
      next = { builder with attributes := builder.attributes ++ [a] } := by
  have hadd : ∀ {a : Attribute}, builder.addAttribute? a = .ok next →
      a.name ∉ builder.attributes.map name ∧
        next = { builder with attributes := builder.attributes ++ [a] } := by
    intro a ha
    rw [addAttribute?_eq] at ha
    split_ifs at ha with hmem
    exact ⟨hmem, (Except.ok.inj ha).symm⟩
  cases x with
  | define name settings =>
    cases hdef : define? builder.rules name settings with
    | error e => simp [perform?, add?, hdef, bind, Except.bind] at h
    | ok a =>
      have ha : builder.addAttribute? a = .ok next := by
        simpa [perform?, add?, hdef, bind, Except.bind] using h
      exact ⟨a, hdef, hadd ha⟩
  | given a => exact ⟨a, rfl, hadd h⟩

theorem attributes_performAll (builder : SchemaBuilder) (additions : List Addition) :
    (builder.performAll additions).attributes =
      builder.attributes ++ builder.accepted additions := by
  induction additions generalizing builder with
  | nil => simp [performAll, accepted]
  | cons x xs ih =>
    cases hperform : builder.perform? x with
    | error e => simp [performAll, accepted, hperform, ih]
    | ok next =>
      obtain ⟨a, hoffered, _, hnext⟩ := perform?_cases hperform
      simp [performAll, accepted, hperform, hoffered, ih, hnext]

theorem nodup_names_performAll {builder : SchemaBuilder}
    (h : (builder.attributes.map name).Nodup) (additions : List Addition) :
    ((builder.performAll additions).attributes.map name).Nodup := by
  induction additions generalizing builder with
  | nil => exact h
  | cons x xs ih =>
    cases hperform : builder.perform? x with
    | error e => simpa [performAll, hperform] using ih h
    | ok next =>
      obtain ⟨a, _, hnew, hnext⟩ := perform?_cases hperform
      have hnodup : (next.attributes.map name).Nodup := by
        subst hnext
        simpa using List.nodup_append.mpr ⟨h, by simp, by simpa using hnew⟩
      simpa [performAll, hperform] using ih hnodup

/-- Every accepted attribute was defined by the builder itself or brought from elsewhere. -/
theorem defined_or_mem_of_accepted {builder : SchemaBuilder} {additions : List Addition}
    {a : Attribute} (h : a ∈ builder.accepted additions) :
    a.Defined ∨ .given a ∈ additions := by
  induction additions generalizing builder with
  | nil => simp [accepted] at h
  | cons x xs ih =>
    cases hperform : builder.perform? x with
    | error e =>
      have htail : a ∈ builder.accepted xs := by simpa [accepted, hperform] using h
      exact (ih htail).imp id (List.mem_cons_of_mem _)
    | ok next =>
      obtain ⟨b, hoffered, _, _⟩ := perform?_cases hperform
      have hcons : a = b ∨ a ∈ next.accepted xs := by simpa [accepted, hperform, hoffered] using h
      rcases hcons with rfl | htail
      · cases x with
        | define name settings => exact .inl ⟨builder.rules, name, settings, hoffered⟩
        | given c =>
          cases hoffered
          exact .inr List.mem_cons_self
      · exact (ih htail).imp id (List.mem_cons_of_mem _)

/-- The layout of a build after any additions, accepted or refused. If an accepted attribute had
slots before, the build fails with the first such attribute. -/
theorem build_performAll (rules : NameRules) (additions : List Addition)
    (hgiven : ∀ a, .given a ∈ additions → a.Defined ∨ a.isRegistered = true)
    (hroom : ((accepted { rules } additions).map storedWidth).sum < UInt32.size) :
    let given := accepted { rules } additions
    let built := (performAll { rules } additions).build
    ((∀ a ∈ given, a.isRegistered = false) →
        ∃ schema, built = .done schema ∧ schema.LaidOut given) ∧
      ∀ a, given.find? isRegistered = some a →
        built = .failed (.stage a.name .alreadyRegistered) := by
  intro given built
  have hattributes : (performAll { rules } additions).attributes = given := by
    simpa using attributes_performAll { rules } additions
  have hdef : ∀ a ∈ given, a.isRegistered = false → a.Defined := by
    intro a ha hfree
    rcases defined_or_mem_of_accepted ha with hdef | hmem
    · exact hdef
    · exact (hgiven a hmem).resolve_right (by simp [hfree])
  constructor
  · intro hfree
    have hall : ∀ a ∈ (performAll { rules } additions).attributes, a.Defined := by
      rw [hattributes]
      exact fun a ha => hdef a ha (hfree a ha)
    have hempty : (({ rules } : SchemaBuilder).attributes.map name).Nodup := List.nodup_nil
    obtain ⟨schema, hschema⟩ := exists_build hall (nodup_names_performAll hempty additions)
      (by rwa [hattributes])
    exact ⟨schema, hschema, hattributes ▸ laidOut_of_build hall hschema⟩
  · intro a hfind
    have hfailed : registerAll .initial given = .failed (.stage a.name .alreadyRegistered) := by
      apply registerAll_of_find? .initial _ (by simpa [LayoutCursor.initial] using hroom) hfind
      intro b hb hfree
      have hb := hdef b hb hfree
      exact ⟨hb.fresh.2.1, hb.sound.bits_pos, hb.sound.bits_le⟩
    simp only [built, build, hattributes, hfailed, Outcome.failed_bind]

def lanes : Attribute :=
  ofSettings "lanes" { bits := 20 }

def roadAdditions : List Addition :=
  [.define "speed" { bits := 5, twoDirections := true },
    .define "slope" { bits := 7, negates := true }, .define "speed" { bits := 3 }, .given lanes]

theorem build_performAll_roads :
    (∀ a, .given a ∈ roadAdditions → a.Defined ∨ a.isRegistered = true) ∧
      ((accepted {} roadAdditions).map name = ["speed", "slope", "lanes"]) ∧
      ((accepted {} roadAdditions).map storedWidth).sum < UInt32.size ∧
      ∃ schema, (performAll {} roadAdditions).build = .done schema ∧
        schema.LaidOut (accepted {} roadAdditions) := by
  have hgiven : ∀ a, .given a ∈ roadAdditions → a.Defined ∨ a.isRegistered = true := by
    intro a ha
    have he : a = lanes := by simpa [roadAdditions] using ha
    subst he
    exact .inl ⟨{}, "lanes", { bits := 20 }, by cbv⟩
  have haccepted : accepted {} roadAdditions =
      [ofSettings "speed" { bits := 5, twoDirections := true },
        ofSettings "slope" { bits := 7, negates := true }, lanes] := by cbv
  have hroom : ((accepted {} roadAdditions).map storedWidth).sum < UInt32.size := by
    rw [haccepted]
    decide
  refine ⟨hgiven, by rw [haccepted]; rfl, hroom, ?_⟩
  apply (build_performAll {} roadAdditions hgiven hroom).1
  rw [haccepted]
  decide

end SchemaBuilder

end PackedEdges
