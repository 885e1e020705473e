import PackedEdges.Proofs.RestoredRuns

/-! What a call does to an edge depends on the record of this edge alone. Edges with the same
record, of one store or of two, read the same, accept the same and keep the same record. -/

namespace PackedEdges

def Call.moveTo (edge : Nat) : Call → Call
  | read name direction _ => .read name direction edge
  | write name direction _ value => .write name direction edge value

theorem Call.run_map {σ : Type} (step : Call → σ → Answer × σ) (f : Call → Call)
    (calls : List Call) (s : σ) :
    run step (calls.map f) s = run (fun call => step (f call)) calls s := by
  induction calls generalizing s with
  | nil => rfl
  | cons call calls ih => simp only [List.map_cons, run, ih]

theorem EdgeStore.Overwritten.changedAt {store store' : EdgeStore} {edge start width n : Nat}
    (h : Overwritten store store' (8 * store.recordStart edge + start) width n)
    (hinside : start + width ≤ 8 * store.bytesPerEdge) : ChangedAt edge store store' := by
  have hshape : store.SameShape store' := ⟨h.bytesPerEdge_eq, h.size_eq⟩
  refine ⟨hshape, fun hother => record?_congr hshape fun i hi => ?_⟩
  rw [h.recordBit_eq hinside hi, if_neg fun hc => hother hc.1]

/-- A rejection depends on the attribute and the value only. -/
theorem Attribute.write_failed {a b : Attribute} {direction : Direction} {value : Int32}
    {edge : Nat} {store : EdgeStore} {e : Error}
    (h : a.write direction edge value store = (b, .failed e)) (edge' : Nat) (store' : EdgeStore) :
    a.write direction edge' value store' = (b, .failed e) := by
  unfold write at h ⊢
  split at h
  · exact h
  · exact h
  · next slot stored _ _ =>
    cases hput : putRaw slot (a.encode stored) edge store <;> simp [hput, Outcome.ofOption] at h

namespace Schema

/-- Edges with the same record, in stores for the records of the schema. -/
structure SameRecord (schema : Schema) (store store' : EdgeStore) (edge edge' : Nat) : Prop where
  bytesPerEdge_eq : store.bytesPerEdge = schema.bytesPerEdge.toNat
  bytesPerEdge_eq' : store'.bytesPerEdge = schema.bytesPerEdge.toNat
  hasRecord : store.HasRecord edge
  hasRecord' : store'.HasRecord edge'
  record?_eq : store.record? edge = store'.record? edge'

variable {schema : Schema} {store store' : EdgeStore} {edge edge' : Nat}

theorem SameRecord.recordBit_eq (h : SameRecord schema store store' edge edge') {i : Nat}
    (hi : i < 8 * schema.bytesPerEdge.toNat) :
    store'.recordBit edge' i = store.recordBit edge i := by
  rw [← h.bytesPerEdge_eq] at hi
  have hsize := h.bytesPerEdge_eq'.trans h.bytesPerEdge_eq.symm
  have hsame := (EdgeStore.record?_eq_record?_iff h.hasRecord h.hasRecord' hsize).mp h.record?_eq
  exact (hsame i hi).symm

namespace Built

variable {a : Attribute} {direction : Direction}

theorem read_sameRecord (h : schema.Built) (hsame : SameRecord schema store store' edge edge')
    (ha : a ∈ schema.attributes) (direction : Direction) :
    ∃ v, a.read direction edge store = .done v ∧ a.read direction edge' store' = .done v := by
  obtain ⟨slot, hslot⟩ := (h.placed ha).exists_slot direction
  have hin := h.slot_inStore hsame.bytesPerEdge_eq hsame.hasRecord ha hslot
  have hin' := h.slot_inStore hsame.bytesPerEdge_eq' hsame.hasRecord' ha hslot
  exact (h.sound ha).read_congr (h.placed ha) hslot hin hin' fun i hi =>
    hsame.recordBit_eq (h.lt_of_mem_recordBits ha hslot hi)

theorem write_sameRecord (h : schema.Built) (hsame : SameRecord schema store store' edge edge')
    (ha : a ∈ schema.attributes) {value : Int32} (hv : a.Accepts direction value.toInt)
    (greatest : Int32) :
    ∃ noted written written',
      (a.withGreatest greatest).write direction edge value store =
        (a.withGreatest noted, .done written) ∧
      (a.withGreatest greatest).write direction edge' value store' =
        (a.withGreatest noted, .done written') ∧
      SameRecord schema written written' edge edge' ∧
      EdgeStore.ChangedAt edge store written ∧ EdgeStore.ChangedAt edge' store' written' := by
  obtain ⟨slot, hslot⟩ := (h.placed ha).exists_slot direction
  have hin := h.slot_inStore hsame.bytesPerEdge_eq hsame.hasRecord ha hslot
  have hin' := h.slot_inStore hsame.bytesPerEdge_eq' hsame.hasRecord' ha hslot
  obtain ⟨n, written, hn, _, hwrite, hover⟩ :=
    (h.sound ha).exists_write (h.placed ha) hslot hin hv greatest
  obtain ⟨n', written', hn', _, hwrite', hover'⟩ :=
    (h.sound ha).exists_write (h.placed ha) hslot hin' hv greatest
  -- The number that is written depends on the attribute and the value only.
  obtain rfl : n = n' := by omega
  have hinside : slot.start + a.bits.toNat ≤ 8 * store.bytesPerEdge :=
    hsame.bytesPerEdge_eq ▸ h.end_le ha hslot
  have hinside' : slot.start + a.bits.toNat ≤ 8 * store'.bytesPerEdge :=
    hsame.bytesPerEdge_eq' ▸ h.end_le ha hslot
  have hchanged := hover.changedAt hinside
  have hchanged' := hover'.changedAt hinside'
  have hsize := hover.bytesPerEdge_eq.trans hsame.bytesPerEdge_eq
  have hsize' := hover'.bytesPerEdge_eq.trans hsame.bytesPerEdge_eq'
  have hrecord := hsame.hasRecord.of_sameShape hchanged.sameShape
  have hrecord' := hsame.hasRecord'.of_sameShape hchanged'.sameShape
  refine ⟨_, written, written', hwrite, hwrite', ⟨hsize, hsize', hrecord, hrecord', ?_⟩, hchanged,
    hchanged'⟩
  rw [EdgeStore.record?_eq_record?_iff hrecord hrecord' (hsize'.trans hsize.symm)]
  intro i hi
  rw [hsize] at hi
  rw [hover.recordBit_eq hinside (hsame.bytesPerEdge_eq ▸ hi),
    hover'.recordBit_eq hinside' (hsame.bytesPerEdge_eq' ▸ hi), hsame.recordBit_eq hi]
  simp

end Built

/-- States that calls on one edge of each store have led to. -/
structure Twins (schema : Schema) (store store' : EdgeStore) (edge edge' : Nat)
    (state state' : Schema × EdgeStore) : Prop where
  schema_eq : state'.1 = state.1
  exists_greatest : ∃ greatest, state.1 = schema.withGreatest greatest
  sameRecord : SameRecord schema state.2 state'.2 edge edge'
  changedAt : EdgeStore.ChangedAt edge store state.2
  changedAt' : EdgeStore.ChangedAt edge' store' state'.2

namespace Built

variable {state state' : Schema × EdgeStore}

theorem twins_perform (h : schema.Built) (call : Call)
    (htwins : Twins schema store store' edge edge' state state') :
    (perform (call.moveTo edge) state).1 = (perform (call.moveTo edge') state').1 ∧
      Twins schema store store' edge edge' (perform (call.moveTo edge) state).2
        (perform (call.moveTo edge') state').2 := by
  obtain ⟨current, reached⟩ := state
  obtain ⟨current', reached'⟩ := state'
  obtain rfl : current' = current := htwins.schema_eq
  obtain ⟨greatest, hcurrent⟩ := htwins.exists_greatest
  obtain rfl : current' = schema.withGreatest greatest := hcurrent
  cases call with
  | read name direction _ =>
    simp only [Call.moveTo, snd_perform_read]
    refine ⟨?_, htwins⟩
    cases hfind : schema.attribute? name with
    | none =>
      obtain ⟨e, he⟩ := lookup_of_attribute?_eq_none greatest hfind
      simp only [perform, Schema.read, he]
    | some a =>
      obtain ⟨v, hread, hread'⟩ :=
        h.read_sameRecord htwins.sameRecord (mem_of_attribute? hfind).1 direction
      simp only [perform, read_of_attribute? hfind, hread, hread']
  | write name direction _ value =>
    simp only [Call.moveTo]
    cases hfind : schema.attribute? name with
    | none =>
      obtain ⟨e, he⟩ := lookup_of_attribute?_eq_none greatest hfind
      simp only [perform, Schema.write, he, true_and]
      exact htwins
    | some a =>
      obtain ⟨ha, rfl⟩ := mem_of_attribute? hfind
      by_cases hv : a.Accepts direction value.toInt
      · obtain ⟨noted, written, written', hwrite, hwrite', hsame, hchanged, hchanged'⟩ :=
          h.write_sameRecord htwins.sameRecord ha hv (greatest a.name)
        simp only [perform, h.write_of_attribute? hfind hwrite, h.write_of_attribute? hfind hwrite',
          true_and]
        exact ⟨rfl, ⟨_, rfl⟩, hsame, htwins.changedAt.trans hchanged,
          htwins.changedAt'.trans hchanged'⟩
      · obtain ⟨e, hwrite⟩ :=
          (h.placed ha).write_of_not_accepts hv (greatest a.name) edge reached
        have hwrite' := Attribute.write_failed hwrite edge' reached'
        simp only [perform, h.write_of_attribute? hfind hwrite, h.write_of_attribute? hfind hwrite',
          Function.update_eq_self, true_and]
        exact htwins

theorem twins_run (h : schema.Built) (hsame : SameRecord schema store store' edge edge')
    (calls : List Call) :
    (schema.run store (calls.map (Call.moveTo edge))).1 =
        (schema.run store' (calls.map (Call.moveTo edge'))).1 ∧
      Twins schema store store' edge edge' (schema.run store (calls.map (Call.moveTo edge))).2
        (schema.run store' (calls.map (Call.moveTo edge'))).2 := by
  have hinitial : Twins schema store store' edge edge' (schema, store) (schema, store') :=
    ⟨rfl, ⟨_, h.eq_withGreatest⟩, hsame, .refl _ _, .refl _ _⟩
  simp only [Schema.run, Call.run_map]
  exact Call.run_related (fun call _ _ _ => h.twins_perform call) (fun _ _ => trivial) hinitial

theorem write_sameRecord_cases (h : schema.Built)
    (hsame : SameRecord schema store store' edge edge') {a : Attribute}
    (ha : a ∈ schema.attributes) (direction : Direction) (value : Int32) :
    (∃ e, schema.write a.name direction edge value store = (schema, .failed e) ∧
      schema.write a.name direction edge' value store' = (schema, .failed e)) ∨
    ∃ next written written',
      schema.write a.name direction edge value store = (next, .done written) ∧
      schema.write a.name direction edge' value store' = (next, .done written') ∧
      written.record? edge = written'.record? edge' ∧
      EdgeStore.ChangedAt edge store written ∧ EdgeStore.ChangedAt edge' store' written' := by
  have hfind := h.attribute?_eq ha
  rw [h.eq_withGreatest]
  by_cases hv : a.Accepts direction value.toInt
  · obtain ⟨noted, written, written', hwrite, hwrite', hwritten, hchanged⟩ :=
      h.write_sameRecord hsame ha hv neverWritten
    exact .inr ⟨_, written, written', h.write_of_attribute? hfind hwrite,
      h.write_of_attribute? hfind hwrite', hwritten.record?_eq, hchanged⟩
  · obtain ⟨e, hwrite⟩ := (h.placed ha).write_of_not_accepts hv neverWritten edge store
    have hwrite' := Attribute.write_failed hwrite edge' store'
    refine .inl ⟨e, ?_, ?_⟩
    · rw [h.write_of_attribute? hfind hwrite, Function.update_eq_self]
    · rw [h.write_of_attribute? hfind hwrite', Function.update_eq_self]

end Built

/-- Calls on edges with the same record do the same, and touch no other record. So a record that
is copied carries the values of all attributes. -/
theorem record_determines_calls {schema : Schema} (h : schema.Built) {store store' : EdgeStore}
    (hsize : store.bytesPerEdge = schema.bytesPerEdge.toNat)
    (hsize' : store'.bytesPerEdge = schema.bytesPerEdge.toNat) {edge edge' : Nat}
    (hedge : edge < store.edgeCount) (hedge' : edge' < store'.edgeCount) :
    (store.record? edge = store'.record? edge' →
      (∀ a ∈ schema.attributes, ∀ direction, ∃ v,
        schema.read a.name direction edge store = .done v ∧
        schema.read a.name direction edge' store' = .done v) ∧
      (∀ a ∈ schema.attributes, ∀ direction value,
        (∃ e, schema.write a.name direction edge value store = (schema, .failed e) ∧
          schema.write a.name direction edge' value store' = (schema, .failed e)) ∨
        ∃ next written written',
          schema.write a.name direction edge value store = (next, .done written) ∧
          schema.write a.name direction edge' value store' = (next, .done written') ∧
          written.record? edge = written'.record? edge' ∧
          EdgeStore.ChangedAt edge store written ∧ EdgeStore.ChangedAt edge' store' written') ∧
      ∀ calls : List Call,
        let reached := schema.run store (calls.map (Call.moveTo edge))
        let reached' := schema.run store' (calls.map (Call.moveTo edge'))
        reached.1 = reached'.1 ∧ reached.2.1 = reached'.2.1 ∧
          reached.2.2.record? edge = reached'.2.2.record? edge' ∧
          EdgeStore.ChangedAt edge store reached.2.2 ∧
          EdgeStore.ChangedAt edge' store' reached'.2.2) ∧
    ∃ record copied, store.record? edge = some record ∧
      store'.setRecord? edge' record = some copied ∧ EdgeStore.ChangedAt edge' store' copied ∧
      ∀ a ∈ schema.attributes, ∀ direction, ∃ v,
        schema.read a.name direction edge store = .done v ∧
        schema.read a.name direction edge' copied = .done v := by
  have hin := EdgeStore.hasRecord_of_lt_edgeCount hedge
  have hin' := EdgeStore.hasRecord_of_lt_edgeCount hedge'
  constructor
  · intro hrecord
    have hsame : SameRecord schema store store' edge edge' := ⟨hsize, hsize', hin, hin', hrecord⟩
    refine ⟨fun a ha direction => ?_, fun a ha => h.write_sameRecord_cases hsame ha,
      fun calls => ?_⟩
    · rw [h.schema_read_eq ha, h.schema_read_eq ha]
      exact h.read_sameRecord hsame ha direction
    · obtain ⟨hanswers, htwins⟩ := h.twins_run hsame calls
      exact ⟨hanswers, htwins.schema_eq.symm, htwins.sameRecord.record?_eq, htwins.changedAt,
        htwins.changedAt'⟩
  · obtain ⟨record, hrecord⟩ := hin.exists_record
    have hlength := (EdgeStore.record?_eq_some_iff.mp hrecord).2.1
    obtain ⟨copied, hcopied⟩ :=
      EdgeStore.exists_setRecord hin' (hlength.trans (hsize.trans hsize'.symm))
    have hchanged := EdgeStore.changedAt_of_setRecord? hcopied
    have hsame : SameRecord schema store copied edge edge' :=
      ⟨hsize, hchanged.sameShape.1.trans hsize', hin, hin'.of_sameShape hchanged.sameShape,
        hrecord.trans (EdgeStore.record?_setRecord?_self hcopied hin').symm⟩
    refine ⟨record, copied, hrecord, hcopied, hchanged, fun a ha direction => ?_⟩
    rw [h.schema_read_eq ha, h.schema_read_eq ha]
    exact h.read_sameRecord hsame ha direction

/-- Bytes that no run of calls leads to: the slope is beyond its range. -/
def wornStore : EdgeStore where
  bytesPerEdge := 4
  bytes := #[1, 2, 3, 4, 0xef, 0xfe, 0xaf, 0xde]
  whole := by decide

def singleStore : EdgeStore where
  bytesPerEdge := 4
  bytes := #[0xef, 0xfe, 0xaf, 0xde]
  whole := by decide

theorem record_determines_calls_roads :
    let calls (edge : Nat) : List Call :=
      [.read "slope" .reverse edge, .write "slope" .reverse edge 7, .write "speed" .reverse edge 32,
        .read "slope" .forward edge, .read "speed" .reverse edge]
    roads.Built ∧ wornStore.bytesPerEdge = roads.bytesPerEdge.toNat ∧
      singleStore.bytesPerEdge = roads.bytesPerEdge.toNat ∧ 1 < wornStore.edgeCount ∧
      0 < singleStore.edgeCount ∧ wornStore.record? 1 = singleStore.record? 0 ∧
      (roads.run wornStore (calls 1)).1 = (roads.run singleStore (calls 0)).1 ∧
      (roads.run singleStore (calls 0)).1 =
        [.value (-128), .stored, .rejected, .value (-7), .value 23] ∧
      ∃ record copied, wornStore.record? 1 = some record ∧
        singleStore.setRecord? 0 record = some copied := by
  intro calls
  have hcount : 1 < wornStore.edgeCount := by decide
  have hcount' : 0 < singleStore.edgeCount := by decide
  have hrecord : wornStore.record? 1 = singleStore.record? 0 := by decide
  obtain ⟨hsame, record, copied, hread, hcopied, _⟩ :=
    record_determines_calls roads_built rfl rfl hcount hcount'
  refine ⟨roads_built, rfl, rfl, hcount, hcount', hrecord, ((hsame hrecord).2.2 (calls 0)).1, ?_,
    record, copied, hread, hcopied⟩
  cbv

end Schema

end PackedEdges
