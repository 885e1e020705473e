import Mathlib
import PackedEdges.Proofs.SnapshotRestore

/-! Attributes found by an index of their names. The index notes a position for each name when a
schema is made and is never made again, and still it leads to the one attribute of that name,
whatever has been written. -/

namespace PackedEdges

theorem Suggestion.mem_of_foldl_better {score : String → Float} {candidates : List String}
    {best : Option String × Float} {name : String}
    (h : (candidates.foldl (better score) best).1 = some name) :
    best.1 = some name ∨ name ∈ candidates := by
  induction candidates generalizing best with
  | nil => exact .inl h
  | cons candidate candidates ih =>
    rcases ih h with hbest | hmem
    · rw [better] at hbest
      split at hbest
      · exact .inr (by simp [Option.some.inj hbest])
      · exact .inl hbest
    · exact .inr (List.mem_cons_of_mem _ hmem)

theorem mem_of_suggestion? {name other : String} {candidates : List String}
    (h : suggestion? name candidates = some other) : other ∈ candidates := by
  rw [suggestion?] at h
  split at h
  · cases h
  · exact (Suggestion.mem_of_foldl_better h).resolve_left (by simp)

theorem Schema.attribute?_eq_none {schema : Schema} {name : String} (h : name ∉ schema.names) :
    schema.attribute? name = none := by
  rw [attribute?, List.find?_eq_none]
  intro a ha he
  exact h (List.mem_map.mpr ⟨a, ha, by simpa using he⟩)

/-- A schema that finds its attributes by their positions. -/
structure IndexedSchema where
  attributes : List Attribute
  index : Std.HashMap String Nat
  bytesPerEdge : UInt64

namespace IndexedSchema

/-- Notes where the names of attributes stand, the first of them at `position`. A name that is
noted already stops it. -/
def noteAll (index : Std.HashMap String Nat) (position : Nat) :
    List Attribute → Except Error (Std.HashMap String Nat)
  | [] => .ok index
  | a :: as =>
    if a.name ∈ index then .error (.definition a.name .alreadyDefined)
    else noteAll (index.insert a.name position) (position + 1) as

def ofAttributes? (attributes : List Attribute) (bytesPerEdge : UInt64) :
    Except Error IndexedSchema :=
  (noteAll ∅ 0 attributes).map fun index => { attributes, index, bytesPerEdge }

def ofSnapshot? (s : Snapshot) : Except Error IndexedSchema :=
  ofAttributes? (s.attributes.map Attribute.ofSnapshot) s.bytesPerEdge

def build (builder : SchemaBuilder) : Outcome IndexedSchema := do
  let (attributes, cursor) ← SchemaBuilder.registerAll .initial builder.attributes
  .ofExcept (ofAttributes? attributes (UInt64.ofNat cursor.requiredBytes))

def toSchema (schema : IndexedSchema) : Schema where
  attributes := schema.attributes
  bytesPerEdge := schema.bytesPerEdge

abbrev names (schema : IndexedSchema) : List String :=
  schema.toSchema.names

def unknown (schema : IndexedSchema) (name : String) : Error :=
  .unknownAttribute name (suggestion? name schema.names)

def has (schema : IndexedSchema) (name : String) : Bool :=
  schema.index.contains name

/-- The attribute to which the index leads. An index that leads outside is refused. -/
def get (schema : IndexedSchema) (name : String) : Outcome Attribute :=
  match schema.index[name]? with
  | some position => .ofOption schema.attributes[position]?
  | none => .failed (schema.unknown name)

def write (schema : IndexedSchema) (name : String) (direction : Direction) (edge : Nat)
    (value : Int32) (store : EdgeStore) : IndexedSchema × Outcome EdgeStore :=
  match schema.index[name]? with
  | none => (schema, .failed (schema.unknown name))
  | some position =>
    match schema.attributes[position]? with
    | none => (schema, .refused)
    | some a =>
      let (a, outcome) := a.write direction edge value store
      ({ schema with attributes := schema.attributes.set position a }, outcome)

/-- What builds, restores and writes can make of a schema with an index. -/
inductive Reachable : IndexedSchema → Prop
  | built {schema : IndexedSchema} {rules : NameRules} {additions : List Addition} :
    (∀ a, .given a ∈ additions → a.Reachable) →
      build (SchemaBuilder.performAll { rules } additions) = .done schema → Reachable schema
  | restored {schema : IndexedSchema} {s : Snapshot} : ofSnapshot? s = .ok schema → Reachable schema
  | written {schema : IndexedSchema} (name : String) (direction : Direction) (edge : Nat)
    (value : Int32) (store : EdgeStore) :
    Reachable schema → Reachable (schema.write name direction edge value store).1

/-- The index knows just the names of the attributes, each at its position. -/
def Faithful (schema : IndexedSchema) : Prop :=
  ∀ (name : String) (position : Nat),
    schema.index[name]? = some position ↔ schema.names[position]? = some name

theorem noteAll_cases {index : Std.HashMap String Nat} {before : List String}
    (hbefore : ∀ name, name ∈ index ↔ name ∈ before) (as : List Attribute) (position : Nat) :
    (∃ name, Schema.repeated? before (as.map Attribute.name) = some name ∧
        noteAll index position as = .error (.definition name .alreadyDefined)) ∨
      Schema.repeated? before (as.map Attribute.name) = none ∧
        ∃ noted, noteAll index position as = .ok noted ∧ ∀ (name : String) (i : Nat),
          noted[name]? = some i ↔ index[name]? = some i ∨
            ∃ k, i = position + k ∧ (as.map Attribute.name)[k]? = some name := by
  induction as generalizing index before position with
  | nil => exact .inr ⟨rfl, index, rfl, by simp⟩
  | cons a as ih =>
    rw [List.map_cons, Schema.repeated?, noteAll]
    by_cases hseen : a.name ∈ before
    · refine .inl ⟨a.name, ?_, ?_⟩
      · rw [if_pos (by simpa using hseen)]
      · rw [if_pos ((hbefore _).mpr hseen)]
    · have hnew : a.name ∉ index := fun h => hseen ((hbefore _).mp h)
      have hinsert : ∀ name, name ∈ index.insert a.name position ↔ name ∈ a.name :: before := by
        intro name
        rw [Std.HashMap.mem_insert, List.mem_cons, hbefore, beq_iff_eq, eq_comm]
      rw [if_neg (by simpa using hseen), if_neg hnew]
      obtain hfault | ⟨hnone, noted, hnoted, hlookup⟩ := ih hinsert (position + 1)
      · exact .inl hfault
      refine .inr ⟨hnone, noted, hnoted, fun name i => ?_⟩
      -- The head of the list stands at `position`, and its name was not in the index.
      have hindex : a.name = name → index[name]? = none := by
        rintro rfl
        exact Std.HashMap.getElem?_eq_none hnew
      have hcons : (∃ k, i = position + k ∧ (a.name :: as.map Attribute.name)[k]? = some name) ↔
          i = position ∧ a.name = name ∨
            ∃ k, i = position + 1 + k ∧ (as.map Attribute.name)[k]? = some name := by
        rw [← Nat.or_exists_add_one]
        simp only [List.getElem?_cons_zero, List.getElem?_cons_succ, Option.some.injEq,
          Nat.add_zero, Nat.add_assoc, Nat.add_comm 1]
      rw [hlookup, Std.HashMap.getElem?_insert, hcons]
      by_cases hname : a.name = name
      · simp [hname, hindex hname, eq_comm]
      · simp [hname]

theorem ofAttributes?_cases (attributes : List Attribute) (bytesPerEdge : UInt64) :
    (∃ e, ofAttributes? attributes bytesPerEdge = .error e ∧
        Schema.ofAttributes? attributes bytesPerEdge = .error e) ∨
      ∃ schema, ofAttributes? attributes bytesPerEdge = .ok schema ∧ schema.Faithful ∧
        Schema.ofAttributes? attributes bytesPerEdge = .ok schema.toSchema := by
  have hempty : ∀ name : String, name ∈ (∅ : Std.HashMap String Nat) ↔ name ∈ [] := by simp
  rcases noteAll_cases hempty attributes 0 with
    ⟨name, hrepeated, hnoted⟩ | ⟨hnone, noted, hnoted, hlookup⟩
  · exact .inl ⟨_, by rw [ofAttributes?, hnoted]; rfl, by rw [Schema.ofAttributes?, hrepeated]⟩
  · refine .inr ⟨{ attributes, index := noted, bytesPerEdge }, by rw [ofAttributes?, hnoted]; rfl,
      fun name position => ?_, by rw [Schema.ofAttributes?, hnone]; rfl⟩
    rw [hlookup]
    simp [toSchema, Schema.names]

def replace (schema : IndexedSchema) (a : Attribute) : IndexedSchema :=
  { schema with attributes := (schema.toSchema.replace a).attributes }

theorem names_replace (schema : IndexedSchema) (a : Attribute) :
    (schema.replace a).names = schema.names :=
  schema.toSchema.names_replace a

section

variable {schema : IndexedSchema} {name : String} {a : Attribute}

namespace Faithful

theorem has_iff (h : schema.Faithful) : schema.has name = true ↔ name ∈ schema.names := by
  rw [has, Std.HashMap.contains_eq_isSome_getElem?, Option.isSome_iff_exists,
    List.mem_iff_getElem?]
  exact exists_congr (h name)

theorem nodup_names (h : schema.Faithful) : schema.names.Nodup := by
  rw [List.nodup_iff_getElem?_ne_getElem?]
  intro i j hlt hj he
  -- Both positions have this name, and the index gives only one.
  have hname := List.getElem?_eq_getElem hj
  have hfirst := (h _ i).mpr (he.trans hname)
  have hsecond := (h _ j).mpr hname
  rw [hfirst] at hsecond
  exact absurd (Option.some.inj hsecond) (by omega)

theorem exists_position (h : schema.Faithful) (ha : a ∈ schema.attributes) :
    ∃ position, schema.index[a.name]? = some position ∧
      schema.attributes[position]? = some a := by
  obtain ⟨position, hposition⟩ := List.mem_iff_getElem?.mp ha
  exact ⟨position, (h _ _).mpr (by simp [toSchema, Schema.names, hposition]), hposition⟩

theorem index_eq_none (h : schema.Faithful) (hname : name ∉ schema.names) :
    schema.index[name]? = none := by
  rw [Option.eq_none_iff_forall_ne_some]
  intro position hposition
  exact hname (List.mem_of_getElem? ((h name position).mp hposition))

theorem get_eq (h : schema.Faithful) (ha : a ∈ schema.attributes) :
    schema.get a.name = .done a := by
  obtain ⟨position, hindex, hposition⟩ := h.exists_position ha
  simp [get, hindex, hposition, Outcome.ofOption]

theorem get_eq_failed (h : schema.Faithful) (hname : name ∉ schema.names) :
    schema.get name = .failed (schema.unknown name) := by
  simp [get, h.index_eq_none hname]

theorem attribute?_eq (h : schema.Faithful) (ha : a ∈ schema.attributes) :
    schema.toSchema.attribute? a.name = some a :=
  Schema.attribute?_eq_of_nodup h.nodup_names ha

theorem set_eq_replace (h : schema.Faithful) {position : Nat} {b : Attribute}
    (ha : schema.attributes[position]? = some a) (hb : b.name = a.name) :
    schema.attributes.set position b = (schema.replace b).attributes := by
  have hmap : (schema.replace b).attributes =
      schema.attributes.map fun c => if c.name = b.name then b else c := rfl
  rw [hmap]
  refine List.ext_getElem? fun i => ?_
  rw [List.getElem?_set', List.getElem?_map]
  by_cases hi : position = i
  · subst hi
    simp [ha, hb]
  · rw [if_neg hi]
    cases hc : schema.attributes[i]? with
    | none => rfl
    | some c =>
      have hne : c.name ≠ b.name := by
        intro he
        have hfirst := (h c.name i).mpr (by simp [toSchema, Schema.names, hc])
        have hsecond := (h c.name position).mpr (by simp [toSchema, Schema.names, ha, he, hb])
        exact hi (Option.some.inj (hsecond.symm.trans hfirst))
      simp [hne]

variable (direction : Direction) (edge : Nat) (value : Int32) (store : EdgeStore)

theorem write_eq (h : schema.Faithful) (ha : a ∈ schema.attributes) :
    schema.write a.name direction edge value store =
      (schema.replace (a.write direction edge value store).1,
        (a.write direction edge value store).2) := by
  obtain ⟨position, hindex, hposition⟩ := h.exists_position ha
  have hset := h.set_eq_replace hposition (a.name_write direction edge value store)
  simp only [write, hindex, hposition, hset]
  rfl

theorem write_eq_failed (h : schema.Faithful) (hname : name ∉ schema.names) :
    schema.write name direction edge value store =
      (schema, .failed (schema.unknown name)) := by
  simp [write, h.index_eq_none hname]

theorem write (h : schema.Faithful) (name : String) :
    (schema.write name direction edge value store).1.Faithful := by
  by_cases hname : name ∈ schema.names
  · obtain ⟨a, ha, rfl⟩ := List.mem_map.mp hname
    rw [h.write_eq direction edge value store ha]
    intro other position
    rw [names_replace]
    exact h other position
  · rwa [h.write_eq_failed direction edge value store hname]

/-- Looking a name up by the index is looking it up in the list. -/
theorem toSchema_lookup (h : schema.Faithful) (name : String) :
    .ofExcept (schema.toSchema.lookup name) = schema.get name := by
  by_cases hname : name ∈ schema.names
  · obtain ⟨a, ha, rfl⟩ := List.mem_map.mp hname
    rw [Schema.lookup, h.attribute?_eq ha, h.get_eq ha]
    rfl
  · rw [Schema.lookup, Schema.attribute?_eq_none hname, h.get_eq_failed hname]
    rfl

theorem toSchema_write (h : schema.Faithful) (name : String) :
    schema.toSchema.write name direction edge value store =
      ((schema.write name direction edge value store).1.toSchema,
        (schema.write name direction edge value store).2) := by
  by_cases hname : name ∈ schema.names
  · obtain ⟨a, ha, rfl⟩ := List.mem_map.mp hname
    rw [h.write_eq direction edge value store ha, Schema.write, Schema.lookup, h.attribute?_eq ha]
    rfl
  · rw [h.write_eq_failed direction edge value store hname, Schema.write, Schema.lookup,
      Schema.attribute?_eq_none hname]
    rfl

end Faithful

end

theorem ofAttributes?_eq_ok {attributes : List Attribute} {bytesPerEdge : UInt64}
    {indexed : IndexedSchema} (h : ofAttributes? attributes bytesPerEdge = .ok indexed) :
    indexed.Faithful ∧ Schema.ofAttributes? attributes bytesPerEdge = .ok indexed.toSchema := by
  rcases ofAttributes?_cases attributes bytesPerEdge with ⟨e, he, _⟩ | ⟨made, hmade, hboth⟩
  · rw [h] at he
    cases he
  · obtain rfl := Except.ok.inj (hmade.symm.trans h)
    exact hboth

theorem exists_ofAttributes? {attributes : List Attribute} {bytesPerEdge : UInt64}
    {schema : Schema} (h : Schema.ofAttributes? attributes bytesPerEdge = .ok schema) :
    ∃ indexed, ofAttributes? attributes bytesPerEdge = .ok indexed ∧ indexed.toSchema = schema := by
  rcases ofAttributes?_cases attributes bytesPerEdge with ⟨e, _, he⟩ | ⟨made, hmade, _, hsame⟩
  · rw [h] at he
    cases he
  · exact ⟨made, hmade, Except.ok.inj (hsame.symm.trans h)⟩

theorem build_eq_done {builder : SchemaBuilder} {indexed : IndexedSchema}
    (h : build builder = .done indexed) :
    indexed.Faithful ∧ builder.build = .done indexed.toSchema := by
  obtain ⟨⟨attributes, cursor⟩, hall, hmake⟩ := Outcome.bind_eq_done_iff.mp h
  cases hmade : ofAttributes? attributes (UInt64.ofNat cursor.requiredBytes) with
  | error e => simp [hmade, Outcome.ofExcept] at hmake
  | ok made =>
    obtain rfl : made = indexed := by simpa [hmade, Outcome.ofExcept] using hmake
    obtain ⟨hfaithful, hschema⟩ := ofAttributes?_eq_ok hmade
    exact ⟨hfaithful, by simp [SchemaBuilder.build, hall, hschema, Outcome.ofExcept]⟩

theorem exists_build {builder : SchemaBuilder} {schema : Schema}
    (h : builder.build = .done schema) :
    ∃ indexed, build builder = .done indexed ∧ indexed.toSchema = schema := by
  obtain ⟨attributes, cursor, hall, hschema⟩ := SchemaBuilder.build_cases h
  obtain ⟨indexed, hmade, hsame⟩ := exists_ofAttributes? hschema
  exact ⟨indexed, by simp [build, hall, hmade, Outcome.ofExcept], hsame⟩

theorem Reachable.faithful {indexed : IndexedSchema} (h : indexed.Reachable) :
    indexed.Faithful ∧ indexed.toSchema.Reachable := by
  induction h with
  | built hgiven hbuild =>
    obtain ⟨hfaithful, hschema⟩ := build_eq_done hbuild
    exact ⟨hfaithful, .built hgiven hschema⟩
  | restored hs =>
    obtain ⟨hfaithful, hschema⟩ := ofAttributes?_eq_ok hs
    exact ⟨hfaithful, .restored hschema⟩
  | @written indexed name direction edge value store _ ih =>
    obtain ⟨hfaithful, hreachable⟩ := ih
    have hwritten := hreachable.written name direction edge value store
    rw [hfaithful.toSchema_write direction edge value store name] at hwritten
    exact ⟨hfaithful.write direction edge value store name, hwritten⟩

theorem exists_reachable {schema : Schema} (h : schema.Reachable) :
    ∃ indexed : IndexedSchema, indexed.Reachable ∧ indexed.toSchema = schema := by
  induction h with
  | built hgiven hbuild =>
    obtain ⟨indexed, hindexed, hsame⟩ := exists_build hbuild
    exact ⟨indexed, .built hgiven hindexed, hsame⟩
  | restored hs =>
    obtain ⟨indexed, hindexed, hsame⟩ := exists_ofAttributes? hs
    exact ⟨indexed, .restored hindexed, hsame⟩
  | written name direction edge value store _ ih =>
    obtain ⟨indexed, hindexed, rfl⟩ := ih
    refine ⟨_, hindexed.written name direction edge value store, ?_⟩
    rw [hindexed.faithful.1.toSchema_write direction edge value store name]

/-- The attribute is the only one of its name, and reads and writes under the name go to it. -/
structure Found (indexed : IndexedSchema) (name : String) (a : Attribute) : Prop where
  count_eq : indexed.names.count name = 1
  eq_of_name_eq (b : Attribute) : b ∈ indexed.attributes → b.name = name → b = a
  get_eq : indexed.get name = .done a
  write_eq (direction : Direction) (edge : Nat) (value : Int32) (store : EdgeStore) :
    indexed.write name direction edge value store =
      (indexed.replace (a.write direction edge value store).1,
        (a.write direction edge value store).2)

/-- Reads and writes under the name fail, and nothing changes. What they suggest is found. -/
def NotFound (indexed : IndexedSchema) (name : String) : Prop :=
  ∃ suggestion, indexed.get name = .failed (.unknownAttribute name suggestion) ∧
    (∀ direction edge value store, indexed.write name direction edge value store =
      (indexed, .failed (.unknownAttribute name suggestion))) ∧
    ∀ other, suggestion = some other → ∃ a ∈ indexed.attributes,
      a.name = other ∧ indexed.Found other a

/-- Nothing has changed but perhaps the greatest value of the attribute of this name. -/
structure KeepsOthers (indexed next : IndexedSchema) (name : String) : Prop where
  index_eq : next.index = indexed.index
  bytesPerEdge_eq : next.bytesPerEdge = indexed.bytesPerEdge
  attributes : List.Forall₂ (fun a b => (a.name ≠ name → b = a) ∧
    (a.name = name → ∃ greatest, b = a.withGreatest greatest)) indexed.attributes next.attributes

/-- The schema without the index answers in the same way. -/
structure SameAnswers (indexed : IndexedSchema) (name : String) : Prop where
  has_eq : indexed.toSchema.has name = indexed.has name
  lookup_eq : .ofExcept (indexed.toSchema.lookup name) = indexed.get name
  write_eq (direction : Direction) (edge : Nat) (value : Int32) (store : EdgeStore) :
    indexed.toSchema.write name direction edge value store =
      ((indexed.write name direction edge value store).1.toSchema,
        (indexed.write name direction edge value store).2)

namespace Faithful

variable {indexed : IndexedSchema}

theorem found (h : indexed.Faithful) {a : Attribute} (ha : a ∈ indexed.attributes) :
    indexed.Found a.name a where
  count_eq := List.count_eq_one_of_mem h.nodup_names (List.mem_map_of_mem ha)
  eq_of_name_eq _ hb hname := List.inj_on_of_nodup_map h.nodup_names hb ha hname
  get_eq := h.get_eq ha
  write_eq direction edge value store := h.write_eq direction edge value store ha

theorem notFound (h : indexed.Faithful) {name : String} (hname : name ∉ indexed.names) :
    indexed.NotFound name := by
  refine ⟨suggestion? name indexed.names, h.get_eq_failed hname,
    fun direction edge value store => h.write_eq_failed direction edge value store hname,
    fun other hother => ?_⟩
  obtain ⟨a, ha, rfl⟩ := List.mem_map.mp (mem_of_suggestion? hother)
  exact ⟨a, ha, rfl, h.found ha⟩

theorem keepsOthers_replace (h : indexed.Faithful) {a : Attribute} (ha : a ∈ indexed.attributes)
    (greatest : Int32) : indexed.KeepsOthers (indexed.replace (a.withGreatest greatest)) a.name where
  index_eq := rfl
  bytesPerEdge_eq := rfl
  attributes := by
    refine List.forall₂_map_right_iff.mpr (List.forall₂_same.mpr fun b hb => ?_)
    refine ⟨fun hne => if_neg hne, fun he => ⟨greatest, ?_⟩⟩
    rw [List.inj_on_of_nodup_map h.nodup_names hb ha he]
    exact if_pos rfl

theorem keepsOthers (h : indexed.Faithful) (name : String) (direction : Direction) (edge : Nat)
    (value : Int32) (store : EdgeStore) :
    indexed.KeepsOthers (indexed.write name direction edge value store).1 name := by
  by_cases hname : name ∈ indexed.names
  · obtain ⟨a, ha, rfl⟩ := List.mem_map.mp hname
    obtain ⟨greatest, hgreatest⟩ := a.exists_write_eq_withGreatest direction edge value store
    rw [h.write_eq direction edge value store ha, hgreatest]
    exact h.keepsOthers_replace ha greatest
  · rw [h.write_eq_failed direction edge value store hname]
    exact ⟨rfl, rfl, List.forall₂_same.mpr fun a _ => ⟨fun _ => rfl, fun _ => ⟨a.greatest, rfl⟩⟩⟩

theorem sameAnswers (h : indexed.Faithful) (name : String) : indexed.SameAnswers name where
  has_eq := by
    rw [Bool.eq_iff_iff, h.has_iff, Schema.has]
    by_cases hname : name ∈ indexed.names
    · obtain ⟨a, ha, rfl⟩ := List.mem_map.mp hname
      simp [h.attribute?_eq ha, hname]
    · simp [Schema.attribute?_eq_none hname, hname]
  lookup_eq := h.toSchema_lookup name
  write_eq direction edge value store := h.toSchema_write direction edge value store name

end Faithful

/-- Every schema can be kept with an index. The index knows just the names of the attributes, leads
from each to the one attribute that has it, and is not touched by writes; a suggestion for a name that
it lacks is a name that it knows. -/
theorem lookup_is_faithful :
    (∀ schema : Schema, schema.Reachable ↔
      ∃ indexed : IndexedSchema, indexed.Reachable ∧ indexed.toSchema = schema) ∧
    ∀ (indexed : IndexedSchema) (name : String), indexed.Reachable →
      (indexed.has name = true ↔ ∃ a ∈ indexed.attributes, a.name = name) ∧
      (∀ a ∈ indexed.attributes, a.name = name → indexed.Found name a) ∧
      (indexed.has name = false → indexed.NotFound name) ∧
      (∀ direction edge value store,
        indexed.KeepsOthers (indexed.write name direction edge value store).1 name) ∧
      indexed.SameAnswers name := by
  refine ⟨fun schema => ⟨exists_reachable, ?_⟩, fun indexed name h => ?_⟩
  · rintro ⟨indexed, hindexed, rfl⟩
    exact hindexed.faithful.2
  · obtain ⟨hfaithful, _⟩ := h.faithful
    refine ⟨?_, ?_, fun hhas => ?_, hfaithful.keepsOthers name, hfaithful.sameAnswers name⟩
    · rw [hfaithful.has_iff]
      exact List.mem_map
    · rintro a ha rfl
      exact hfaithful.found ha
    · exact hfaithful.notFound fun hname => by simp [hfaithful.has_iff.mpr hname] at hhas

/-- Roads on which a speed has been written: the slope is still found as it was, and a name that none
of them has is not. -/
theorem lookup_is_faithful_roads :
    ∃ indexed : IndexedSchema, indexed.Reachable ∧
      indexed.toSchema = (Schema.roads.write "speed" .reverse 1 30 Schema.roadStore).1 ∧
      indexed.has "slope" = true ∧ indexed.Found "slope" Schema.slope ∧
      indexed.has "sped" = false ∧ indexed.NotFound "sped" := by
  obtain ⟨hall, hlookup⟩ := lookup_is_faithful
  have hwritten := Schema.roads_reachable.written "speed" .reverse 1 30 Schema.roadStore
  obtain ⟨indexed, hindexed, hsame⟩ := (hall _).mp hwritten
  obtain ⟨hslope, hfound, _⟩ := hlookup indexed "slope" hindexed
  obtain ⟨hsped, _, hnotFound, _⟩ := hlookup indexed "sped" hindexed
  have hattributes : indexed.attributes =
      [Schema.speed.withGreatest 30, Schema.slope] := by
    have hschema := congrArg Schema.attributes hsame
    exact hschema.trans (by cbv)
  have hmem : Schema.slope ∈ indexed.attributes := by simp [hattributes]
  have hlacks : indexed.has "sped" = false := by
    rw [Bool.eq_false_iff, ne_eq, hsped, hattributes]
    simp [Schema.speed, Schema.slope, Attribute.withGreatest, Attribute.ofSettings]
  exact ⟨indexed, hindexed, hsame, hslope.mpr ⟨_, hmem, rfl⟩, hfound _ hmem rfl, hlacks,
    hnotFound hlacks⟩

end IndexedSchema

end PackedEdges
