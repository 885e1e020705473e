import PackedEdges.Proofs.ReachableStates

/-! What becomes of attributes and schemas that are restored from their snapshots, and of snapshots
that are taken of restored schemas. Only a reverse slot can get lost or made up. -/

namespace PackedEdges

namespace Attribute

theorem ofSnapshot_toSnapshot_eq_iff {a : Attribute} : ofSnapshot a.toSnapshot = a ↔ a.Paired := by
  obtain ⟨_, _, _, _, _, _, twoDirections, _, _, reverse⟩ := a
  cases twoDirections <;> cases reverse <;> simp [ofSnapshot, toSnapshot, Paired]

theorem Paired.not_unslotted {a : Attribute} (h : a.Paired) :
    ¬ (a.twoDirections = true ∧ a.reverse = none) := by
  rintro ⟨htwo, hnone⟩
  simp [Paired, htwo, hnone] at h

theorem Reachable.paired_iff {a : Attribute} (h : a.Reachable) :
    a.Paired ↔ ¬ (a.twoDirections = true ∧ a.reverse = none) := by
  refine ⟨Paired.not_unslotted, fun hnot => ?_⟩
  rcases h.defined_or_paired with hdef | hpaired
  · have hone : a.twoDirections = false := by simpa [hdef.fresh.2.1] using hnot
    simp [Paired, hdef.fresh.2.1, hone]
  · exact hpaired

theorem Reachable.unslotted_iff {a : Attribute} (h : a.Reachable) :
    (a.twoDirections = true ∧ a.reverse = none) ↔ a.twoDirections = true ∧ a.Defined := by
  constructor
  · rintro ⟨htwo, hnone⟩
    exact ⟨htwo, h.defined_or_paired.resolve_right fun hp => hp.not_unslotted ⟨htwo, hnone⟩⟩
  · rintro ⟨htwo, hdef⟩
    exact ⟨htwo, hdef.fresh.2.1⟩

end Attribute

/-- The snapshot without a reverse slot that no direction uses. -/
def AttributeSnapshot.cleared (t : AttributeSnapshot) : AttributeSnapshot :=
  { t with reverse := if t.twoDirections then t.reverse else {} }

theorem AttributeSnapshot.cleared_eq_iff {t : AttributeSnapshot} :
    t.cleared = t ↔ (t.twoDirections = false → t.reverse = {}) := by
  obtain ⟨_, _, _, _, _, _, twoDirections, _, _, _⟩ := t
  cases twoDirections <;> simp [cleared, eq_comm]

theorem Attribute.toSnapshot_ofSnapshot (t : AttributeSnapshot) :
    (ofSnapshot t).toSnapshot = t.cleared := by
  obtain ⟨_, _, _, _, _, _, twoDirections, _, _, _⟩ := t
  cases twoDirections <;> rfl

namespace Snapshot

def names (s : Snapshot) : List String :=
  s.attributes.map AttributeSnapshot.name

def cleared (s : Snapshot) : Snapshot where
  bytesPerEdge := s.bytesPerEdge
  attributes := s.attributes.map AttributeSnapshot.cleared

theorem cleared_eq_iff {s : Snapshot} :
    s.cleared = s ↔ ∀ t ∈ s.attributes, t.twoDirections = false → t.reverse = {} := by
  have hmap : s.cleared = s ↔ s.attributes.map AttributeSnapshot.cleared = s.attributes.map id := by
    rw [List.map_id]
    exact ⟨congrArg attributes, fun h => by rw [cleared, h]⟩
  rw [hmap, List.map_inj_left]
  exact forall₂_congr fun t _ => AttributeSnapshot.cleared_eq_iff

end Snapshot

namespace Schema

theorem repeated?_cases {before names : List String} {name : String}
    (h : repeated? before names = some name) :
    ∃ front back, names = front ++ name :: back ∧ (name ∈ before ∨ name ∈ front) ∧
      front.Nodup ∧ ∀ n ∈ front, n ∉ before := by
  induction names generalizing before with
  | nil => cases h
  | cons n names ih =>
    rw [repeated?] at h
    split at h
    · next hseen =>
      cases h
      exact ⟨[], names, rfl, .inl (by simpa using hseen), List.nodup_nil, by simp⟩
    · next hnew =>
      obtain ⟨front, back, rfl, hname, hnodup, hfront⟩ := ih h
      refine ⟨n :: front, back, rfl, ?_, ?_, ?_⟩
      · simpa [or_assoc, or_left_comm] using hname
      · exact List.nodup_cons.mpr ⟨fun hn => hfront n hn List.mem_cons_self, hnodup⟩
      · refine List.forall_mem_cons.mpr ⟨by simpa using hnew, fun m hm hbefore => ?_⟩
        exact hfront m hm (List.mem_cons_of_mem _ hbefore)

theorem names_ofSnapshot (s : Snapshot) :
    (s.attributes.map Attribute.ofSnapshot).map Attribute.name = s.names := by
  rw [List.map_map]
  rfl

theorem ofSnapshot?_eq_ok_iff {s : Snapshot} {schema : Schema} :
    ofSnapshot? s = .ok schema ↔ s.names.Nodup ∧
      schema = { attributes := s.attributes.map Attribute.ofSnapshot
                 bytesPerEdge := s.bytesPerEdge } := by
  rw [ofSnapshot?, ofAttributes?_eq_ok_iff, names_ofSnapshot]

theorem ofSnapshot?_eq_error {s : Snapshot} {e : Error} (h : ofSnapshot? s = .error e) :
    ∃ name front back, e = .definition name .alreadyDefined ∧
      s.names = front ++ name :: back ∧ name ∈ front ∧ front.Nodup := by
  rw [ofSnapshot?, ofAttributes?, names_ofSnapshot] at h
  split at h
  · next name hrepeated =>
    cases h
    obtain ⟨front, back, hnames, hmem, hnodup, _⟩ := repeated?_cases hrepeated
    exact ⟨name, front, back, rfl, hnames, by simpa using hmem, hnodup⟩
  · cases h

theorem exists_error_iff {s : Snapshot} :
    (∃ e, ofSnapshot? s = .error e) ↔ ¬ s.names.Nodup := by
  constructor
  · rintro ⟨e, he⟩ hnodup
    rw [ofSnapshot?_eq_ok_iff.mpr ⟨hnodup, rfl⟩] at he
    cases he
  · intro hnot
    cases hrestored : ofSnapshot? s with
    | error e => exact ⟨e, rfl⟩
    | ok schema => exact absurd (ofSnapshot?_eq_ok_iff.mp hrestored).1 hnot

theorem toSnapshot_of_ofSnapshot? {s : Snapshot} {schema : Schema}
    (h : ofSnapshot? s = .ok schema) : schema.toSnapshot = s.cleared := by
  obtain ⟨_, rfl⟩ := ofSnapshot?_eq_ok_iff.mp h
  rw [toSnapshot, Snapshot.cleared, List.map_map]
  congr 1
  exact List.map_congr_left fun t _ => Attribute.toSnapshot_ofSnapshot t

theorem Restorable.ofSnapshot?_toSnapshot {schema : Schema} (h : schema.Restorable) :
    ofSnapshot? schema.toSnapshot = .ok schema := by
  have hnames : schema.toSnapshot.names = schema.names := by
    rw [Snapshot.names, toSnapshot, List.map_map]
    rfl
  have hattributes :
      schema.toSnapshot.attributes.map Attribute.ofSnapshot = schema.attributes := by
    rw [toSnapshot, List.map_map]
    conv_rhs => rw [← List.map_id schema.attributes]
    exact List.map_congr_left fun a ha =>
      Attribute.ofSnapshot_toSnapshot_eq_iff.mpr (h.paired a ha)
  rw [ofSnapshot?_eq_ok_iff, hnames, hattributes]
  exact ⟨h.nodup_names, rfl⟩

end Schema

def roadDefinition : Definition where
  reservedWords := none
  attributes :=
    [{ name := "speed", settings := { bits := 5, twoDirections := true } },
     { name := "slope", settings := { bits := 7, negates := true } }]

theorem Schema.roads_reachable : roads.Reachable :=
  reachable_of_definition (show roadDefinition.build = .done roads by cbv)

end PackedEdges
