import PackedEdges.Proofs.NameIndex

/-! Schemas that are restored from their own snapshots, with the index of their names, and snapshots
that are taken of restored schemas. The index is not kept in a snapshot, and what is made anew leads
to the same positions. -/

namespace PackedEdges

namespace IndexedSchema

variable {indexed other : IndexedSchema}

/-- The schemas have the same attributes in the same order, and their indexes lead from each name to
the same position, or neither knows it. -/
structure Same (indexed other : IndexedSchema) : Prop where
  attributes_eq : other.attributes = indexed.attributes
  index_eq (name : String) : other.index[name]? = indexed.index[name]?
  bytesPerEdge_eq : other.bytesPerEdge = indexed.bytesPerEdge

theorem Faithful.same (h : indexed.Faithful) (h' : other.Faithful)
    (hschema : other.toSchema = indexed.toSchema) : indexed.Same other where
  attributes_eq := congrArg Schema.attributes hschema
  index_eq name := Option.ext fun position => by rw [h', h, names, names, hschema]
  bytesPerEdge_eq := congrArg Schema.bytesPerEdge hschema

theorem map_toSchema_ofSnapshot? (s : Snapshot) :
    (ofSnapshot? s).map toSchema = Schema.ofSnapshot? s := by
  rw [ofSnapshot?, Schema.ofSnapshot?]
  rcases ofAttributes?_cases (s.attributes.map Attribute.ofSnapshot) s.bytesPerEdge with
    ⟨e, he, he'⟩ | ⟨made, hmade, _, hsame⟩
  · rw [he, he']
    rfl
  · rw [hmade, hsame]
    rfl

theorem Reachable.exists_ofSnapshot? (h : indexed.Reachable) :
    ∃ restored, ofSnapshot? indexed.toSchema.toSnapshot = .ok restored ∧
      indexed.Same restored := by
  obtain ⟨hfaithful, hreachable⟩ := h.faithful
  obtain ⟨restored, hrestored, hschema⟩ :=
    exists_ofAttributes? hreachable.restorable.ofSnapshot?_toSnapshot
  exact ⟨restored, hrestored, hfaithful.same (ofAttributes?_eq_ok hrestored).1 hschema⟩

end IndexedSchema

open Attribute Schema

/-- A schema in any state is restored as it was, with an index of the same positions. A snapshot of
a restored schema is the one that it was restored from, but for reverse slots that are out of use. -/
theorem snapshot_restores :
    (∀ schema : Schema, schema.Reachable → ofSnapshot? schema.toSnapshot = .ok schema ∧
      ∀ a ∈ schema.attributes, schema.attribute? a.name = some a) ∧
    (∀ indexed : IndexedSchema, indexed.Reachable →
      ∃ restored, IndexedSchema.ofSnapshot? indexed.toSchema.toSnapshot = .ok restored ∧
        indexed.Same restored) ∧
    (∀ s : Snapshot, (IndexedSchema.ofSnapshot? s).map IndexedSchema.toSchema = ofSnapshot? s ∧
      ((∃ e, ofSnapshot? s = .error e) ↔ ¬ s.names.Nodup) ∧
      (∀ e, ofSnapshot? s = .error e → ∃ name front back,
        e = .definition name .alreadyDefined ∧ s.names = front ++ name :: back ∧ name ∈ front ∧
          front.Nodup) ∧
      ∀ schema, ofSnapshot? s = .ok schema → schema.toSnapshot = s.cleared ∧
        (schema.toSnapshot = s ↔
          ∀ t ∈ s.attributes, t.twoDirections = false → t.reverse = {})) ∧
    ∀ a : Attribute, a.Reachable →
      (Attribute.ofSnapshot a.toSnapshot = a ↔ ¬ (a.twoDirections = true ∧ a.reverse = none)) ∧
      (a.twoDirections = true ∧ a.reverse = none ↔ a.twoDirections = true ∧ a.Defined) := by
  refine ⟨fun schema h => ?_, fun indexed h => h.exists_ofSnapshot?, fun s => ?_, fun a h => ?_⟩
  · exact ⟨h.restorable.ofSnapshot?_toSnapshot, fun a =>
      attribute?_eq_of_nodup h.restorable.nodup_names⟩
  · refine ⟨IndexedSchema.map_toSchema_ofSnapshot? s, exists_error_iff,
      fun e => ofSnapshot?_eq_error, fun schema hs => ?_⟩
    rw [toSnapshot_of_ofSnapshot? hs]
    exact ⟨rfl, Snapshot.cleared_eq_iff⟩
  · exact ⟨ofSnapshot_toSnapshot_eq_iff.trans h.paired_iff, h.unslotted_iff⟩

/-- The snapshot of a schema in which an attribute of one direction keeps a reverse slot. -/
def sparedSnapshot : Snapshot where
  bytesPerEdge := 4
  attributes :=
    [slope.toSnapshot, { SchemaBuilder.lanes.toSnapshot with reverse := { mask := 7 } }]

def doubledSnapshot : Snapshot :=
  { sparedSnapshot with attributes := sparedSnapshot.attributes ++ [slope.toSnapshot] }

theorem snapshot_restores_roads :
    let driven := (roads.write "speed" .reverse 1 30 roadStore).1
    let wide := ofSettings "wide" { bits := 3, twoDirections := true }
    (driven.Reachable ∧ (driven.attribute? "speed").map Attribute.greatest = some 30 ∧
      ofSnapshot? driven.toSnapshot = .ok driven) ∧
    (∃ indexed restored : IndexedSchema, indexed.Reachable ∧ indexed.toSchema = driven ∧
      IndexedSchema.ofSnapshot? driven.toSnapshot = .ok restored ∧ indexed.Same restored ∧
      restored.index["slope"]? = some 1) ∧
    (∃ schema, ofSnapshot? sparedSnapshot = .ok schema ∧ schema.toSnapshot ≠ sparedSnapshot) ∧
    (∃ e name, ofSnapshot? doubledSnapshot = .error e ∧ e = .definition name .alreadyDefined) ∧
    wide.Reachable ∧ Attribute.ofSnapshot wide.toSnapshot ≠ wide := by
  intro driven wide
  obtain ⟨hschemas, hindexes, hsnapshots, hattributes⟩ := snapshot_restores
  have hdriven : driven.Reachable :=
    roads_reachable.written "speed" .reverse 1 30 roadStore
  have hwide : wide.Reachable :=
    .defined ⟨{}, "wide", { bits := 3, twoDirections := true }, by cbv⟩
  refine ⟨⟨hdriven, by cbv, (hschemas driven hdriven).1⟩, ?_, ?_, ?_, hwide, ?_⟩
  · obtain ⟨indexed, hindexed, hschema⟩ := IndexedSchema.exists_reachable hdriven
    obtain ⟨restored, hrestored, hsame⟩ := hindexes indexed hindexed
    rw [hschema] at hrestored
    refine ⟨indexed, restored, hindexed, hschema, hrestored, hsame, ?_⟩
    rw [hsame.index_eq, hindexed.faithful.1, IndexedSchema.names, hschema]
    cbv
  · have hok : ofSnapshot? sparedSnapshot = .ok _ := ofSnapshot?_eq_ok_iff.mpr ⟨by decide, rfl⟩
    refine ⟨_, hok, fun he => ?_⟩
    have hcleared := ((hsnapshots sparedSnapshot).2.2.2 _ hok).2.mp he
    have hmask := hcleared _ (List.mem_cons_of_mem _ List.mem_cons_self) rfl
    exact absurd hmask (by decide)
  · obtain ⟨e, he⟩ := (hsnapshots doubledSnapshot).2.1.mpr (by decide)
    obtain ⟨name, _, _, hname, _⟩ := (hsnapshots doubledSnapshot).2.2.1 e he
    exact ⟨e, name, he, hname⟩
  · exact fun he => (hattributes wide hwide).1.mp he ⟨rfl, rfl⟩

end PackedEdges
