import PackedEdges.Proofs.RestoredRuns

/-! The greatest value that an attribute takes note of is the greatest one that its writes have
stored, over whole runs and across restores. No value that can be read exceeds it. -/

namespace PackedEdges

namespace Attribute

/-- The value that a call has stored for the attribute. -/
def storedValue? (a : Attribute) : Call × Answer → Option Int
  | (.write name direction _ value, .stored) =>
    if name = a.name then some (a.turn direction value.toInt) else none
  | _ => none

def storedValues (a : Attribute) (trace : List (Call × Answer)) : List Int :=
  trace.filterMap a.storedValue?

theorem storedValues_cons (a : Attribute) (step : Call × Answer) (trace : List (Call × Answer)) :
    a.storedValues (step :: trace) = a.storedValues [step] ++ a.storedValues trace := by
  simp only [storedValues, ← List.filterMap_append, List.singleton_append]

/-- All slots of the attribute lie inside the store for the first `edges` edges. -/
def FitsInto (a : Attribute) (store : EdgeStore) (edges : Nat) : Prop :=
  ∀ slot ∈ a.slots, ∀ edge < edges, slot.InStore store edge

end Attribute

def greatestOf (stored : List Int) : Int :=
  stored.foldl max neverWritten.toInt

theorem greatestOf_append (stored : List Int) (v : Int) :
    greatestOf (stored ++ [v]) = max (greatestOf stored) v := by
  simp [greatestOf]

theorem le_greatestOf_append (stored more : List Int) :
    greatestOf stored ≤ greatestOf (stored ++ more) := by
  induction more using List.reverseRecOn with
  | nil => simp
  | append_singleton more v ih =>
    rw [← List.append_assoc, greatestOf_append]
    exact ih.trans (le_max_left _ _)

theorem max?_eq_some_greatestOf {stored : List Int} (hne : stored ≠ [])
    (habove : ∀ v ∈ stored, neverWritten.toInt < v) : stored.max? = some (greatestOf stored) := by
  cases stored with
  | nil => exact absurd rfl hne
  | cons v stored =>
    have hv : max neverWritten.toInt v = v := max_eq_right (habove v List.mem_cons_self).le
    rw [List.max?_cons', greatestOf, List.foldl_cons, hv]

namespace Schema

open Attribute

/-- After a run that stored these values for an attribute. -/
structure Tracks (a : Attribute) (edges : Nat) (stored : List Int) (state : Schema × EdgeStore) :
    Prop where
  restorable : state.1.Restorable
  attribute?_eq : ∃ greatest : Int32,
    state.1.attribute? a.name = some (a.withGreatest greatest) ∧
      greatest.toInt = greatestOf stored
  above : ∀ v ∈ stored, neverWritten.toInt < v
  fits : a.FitsInto state.2 edges

namespace Tracks

variable {a : Attribute} {edges : Nat} {stored : List Int} {state : Schema × EdgeStore}

theorem fits_perform (h : Tracks a edges stored state) (call : Call) :
    a.FitsInto (perform call state).2.2 edges :=
  fun slot hslot edge hedge =>
    (h.fits slot hslot edge hedge).of_sameShape (sameShape_perform call state)

theorem attribute?_perform_of_ne (h : Tracks a edges stored state) {name : String}
    (hname : name ≠ a.name) (direction : Direction) (edge : Nat) (value : Int32) :
    (perform (.write name direction edge value) state).2.1.attribute? a.name =
      state.1.attribute? a.name := by
  obtain ⟨schema, store⟩ := state
  obtain ⟨greatest, hfind, _⟩ := h.attribute?_eq
  rw [(perform_write_cases schema name direction edge value store).1]
  cases hother : schema.attribute? name with
  | none =>
    obtain ⟨e, he⟩ := write_of_attribute?_eq_none hother direction edge value store
    rw [he]
  | some b =>
    have hb : b.name = name := (mem_of_attribute? hother).2
    have hne : (a.withGreatest greatest).name ≠ (b.write direction edge value store).1.name := by
      rw [name_write, hb]
      exact hname.symm
    rw [write_of_attribute?_eq_some hother, attribute?_replace]
    change schema.attribute? a.name = _ at hfind
    rw [hfind, Option.map_some, if_neg hne]

theorem perform_own (h : Tracks a edges stored state) (hsound : a.Sound) (hplaced : a.Placed)
    {edge : Nat} (hedge : edge < edges) (direction : Direction) (value : Int32) :
    let call := Call.write a.name direction edge value
    Tracks a edges (stored ++ a.storedValues [(call, (perform call state).1)])
      (perform call state).2 := by
  intro call
  have hrestorable := restorable_perform h.restorable call
  have hfits := h.fits_perform call
  obtain ⟨greatest, hfind, hgreatest⟩ := h.attribute?_eq
  obtain ⟨schema, store⟩ := state
  change schema.attribute? a.name = _ at hfind
  have hlookup (v : Int32) : (schema.replace (a.withGreatest v)).attribute? a.name =
      some (a.withGreatest v) := by
    simp [attribute?_replace, hfind]
  by_cases hv : a.Accepts direction value.toInt
  · obtain ⟨slot, hslot⟩ := hplaced.exists_slot direction
    have hin := h.fits slot (Attribute.mem_slots_iff.mpr ⟨_, hslot⟩) edge hedge
    obtain ⟨_, store', _, _, hwrite, _⟩ := hsound.exists_write hplaced hslot hin hv greatest
    have hperform : perform call (schema, store) =
        (.stored, schema.replace (a.withGreatest (greater greatest (a.turn direction value))),
          store') := by
      simp only [call, perform, write_of_attribute?_eq_some hfind, hwrite]
    have hturn := hsound.toInt_turn direction hv.1
    have habove := hsound.turn_inRange direction hv.1
    have hvalues : a.storedValues [(call, .stored)] = [a.turn direction value.toInt] := by
      simp [storedValues, storedValue?, call]
    rw [hperform] at hrestorable hfits ⊢
    rw [hvalues]
    refine ⟨hrestorable, ⟨_, hlookup _, ?_⟩, ?_, hfits⟩
    · rw [toInt_greater, hgreatest, greatestOf_append, hturn]
    · refine List.forall_mem_append.mpr ⟨h.above, fun v hmem => ?_⟩
      obtain rfl := List.mem_singleton.mp hmem
      exact hsound.neverWritten_lt.trans_le habove.1
  · obtain ⟨e, hwrite⟩ := hplaced.write_of_not_accepts hv greatest edge store
    have hperform : perform call (schema, store) =
        (.rejected, schema.replace (a.withGreatest greatest), store) := by
      simp only [call, perform, write_of_attribute?_eq_some hfind, hwrite]
    have hvalues : a.storedValues [(call, .rejected)] = [] := by
      simp [storedValues, storedValue?, call]
    rw [hperform] at hrestorable hfits ⊢
    rw [hvalues, List.append_nil]
    exact ⟨hrestorable, ⟨greatest, hlookup greatest, hgreatest⟩, h.above, hfits⟩

theorem perform (h : Tracks a edges stored state) (hsound : a.Sound) (hplaced : a.Placed)
    {call : Call} (hedge : call.edge < edges) :
    Tracks a edges (stored ++ a.storedValues [(call, (Schema.perform call state).1)])
      (Schema.perform call state).2 := by
  cases call with
  | read name direction edge =>
    have hvalues (answer : Answer) :
        a.storedValues [(.read name direction edge, answer)] = [] := rfl
    rwa [snd_perform_read, hvalues, List.append_nil]
  | write name direction edge value =>
    by_cases hname : name = a.name
    · subst hname
      exact h.perform_own hsound hplaced hedge direction value
    · have hvalues (answer : Answer) :
          a.storedValues [(.write name direction edge value, answer)] = [] := by
        cases answer <;> simp [storedValues, storedValue?, hname]
      rw [hvalues, List.append_nil]
      refine ⟨restorable_perform h.restorable _, ?_, h.above, h.fits_perform _⟩
      rw [h.attribute?_perform_of_ne hname]
      exact h.attribute?_eq

theorem actAll (h : Tracks a edges stored state) (hsound : a.Sound) (hplaced : a.Placed)
    {actions : List Action} (hwithin : Action.Within edges actions) :
    ∃ trace final, Schema.actAll actions state = .ok (trace, final) ∧
      Tracks a edges (stored ++ a.storedValues trace) final := by
  induction actions generalizing stored state with
  | nil => exact ⟨[], state, rfl, by simpa [storedValues] using h⟩
  | cons x xs ih =>
    cases x with
    | restore =>
      obtain ⟨trace, final, hrun, htracks⟩ := ih h hwithin
      exact ⟨trace, final, by rw [h.restorable.actAll_restore, hrun], htracks⟩
    | call call =>
      obtain ⟨hedge, hmore⟩ := List.forall_mem_cons.mp hwithin
      obtain ⟨trace, final, hrun, htracks⟩ := ih (h.perform hsound hplaced hedge) hmore
      refine ⟨_, final, actAll_call hrun, ?_⟩
      rwa [storedValues_cons, ← List.append_assoc]

theorem initial {a : Attribute} (hregistered : a.Registered) {schema : Schema}
    (hschema : schema.Reachable) (ha : a ∈ schema.attributes) {edges : Nat} {store : EdgeStore}
    (hfits : a.FitsInto store edges) : Tracks a edges [] (schema, store) := by
  have hnever := hregistered.sound_placed.2.2
  refine ⟨hschema.restorable, ⟨neverWritten, ?_, rfl⟩, by simp, hfits⟩
  rw [attribute?_eq_of_nodup hschema.restorable.nodup_names ha, ← hnever]
  rfl

theorem exists_attribute (h : Tracks a edges stored state) :
    ∃ b, state.1.attribute? a.name = some b ∧
      b.greatestOrMaximum.toInt = stored.max?.getD a.maximum.toInt ∧
      (b.greatest = neverWritten ↔ stored = []) := by
  obtain ⟨greatest, hfind, hgreatest⟩ := h.attribute?_eq
  refine ⟨_, hfind, ?_⟩
  by_cases hnil : stored = []
  · subst hnil
    obtain rfl : greatest = neverWritten := Int32.toInt_inj.mp hgreatest
    exact ⟨rfl, iff_of_true rfl rfl⟩
  · have hmax := max?_eq_some_greatestOf hnil h.above
    have hlow := h.above _ (List.max?_mem hmax)
    have hne : greatest ≠ neverWritten := by
      rintro rfl
      omega
    have hself : (a.withGreatest greatest).greatestOrMaximum = greatest := if_neg hne
    rw [hself, hmax, Option.getD_some]
    exact ⟨hgreatest, iff_of_false hne hnil⟩

theorem max?_getD_le (h : Tracks a edges stored state) {more : List Int}
    {final : Schema × EdgeStore} (hmore : Tracks a edges (stored ++ more) final)
    (hne : stored ≠ []) (m : Int) : stored.max?.getD m ≤ (stored ++ more).max?.getD m := by
  have hne' : stored ++ more ≠ [] := List.append_ne_nil_of_left_ne_nil hne more
  rw [max?_eq_some_greatestOf hne h.above, max?_eq_some_greatestOf hne' hmore.above]
  exact le_greatestOf_append stored more

end Tracks

end Schema

namespace Table

open Attribute

/-- A cell of the attribute was never written or holds at most the greatest stored value. -/
structure Bounded (a : Attribute) (table : Table) : Prop where
  cells_le (side : Direction) (edge : Nat) :
    table.cells ⟨a.name, side, edge⟩ = a.minimum.toInt ∨
      table.cells ⟨a.name, side, edge⟩ ≤ (table.greatest a.name).toInt
  greatest_cases : table.greatest a.name = neverWritten ∨
    a.minimum.toInt ≤ (table.greatest a.name).toInt

namespace Bounded

variable {a b : Attribute} {table : Table} {direction : Direction} {value : Int32}

theorem le_greatestOrMaximum (h : Bounded a table) (hsound : a.Sound) (side : Direction)
    (edge : Nat) : table.cells ⟨a.name, side, edge⟩ ≤
      (a.withGreatest (table.greatest a.name)).greatestOrMaximum.toInt := by
  by_cases hnever : table.greatest a.name = neverWritten
  · have hmaximum : (a.withGreatest (table.greatest a.name)).greatestOrMaximum = a.maximum :=
      if_pos hnever
    rw [hmaximum]
    rcases h.cells_le side edge with hcell | hcell
    · rw [hcell]
      exact hsound.inRange_minimum.2
    · have hlow := hsound.neverWritten_lt
      have hrange := hsound.inRange_minimum.2
      rw [hnever] at hcell
      omega
  · have hgreatest : (a.withGreatest (table.greatest a.name)).greatestOrMaximum =
        table.greatest a.name := if_neg hnever
    have hminimum := h.greatest_cases.resolve_left hnever
    rw [hgreatest]
    rcases h.cells_le side edge with hcell | hcell
    · rwa [hcell]
    · exact hcell

theorem store (h : Bounded a table) (hsound : a.Sound) (hv : a.Accepts direction value.toInt)
    (edge : Nat) : Bounded a (table.store a direction edge value) := by
  have hgreatest : ((table.store a direction edge value).greatest a.name).toInt =
      max (table.greatest a.name).toInt (a.turn direction value.toInt) := by
    have hself : (table.store a direction edge value).greatest a.name =
        greater (table.greatest a.name) (a.turn direction value) := Function.update_self _ _ _
    rw [hself, toInt_greater, hsound.toInt_turn direction hv.1]
  refine ⟨fun side edge' => ?_, .inr ?_⟩
  · rw [hgreatest]
    by_cases hcell : (⟨a.name, side, edge'⟩ : Cell) = ⟨a.name, a.side direction, edge⟩
    · rw [hcell, cells_store_self]
      exact .inr (le_max_right _ _)
    · rw [cells_store_of_ne table hcell]
      exact (h.cells_le side edge').imp_right fun hle => hle.trans (le_max_left _ _)
  · rw [hgreatest]
    exact (hsound.turn_inRange direction hv.1).1.trans (le_max_right _ _)

theorem store_of_ne (h : Bounded a table) (hne : b.name ≠ a.name) (edge : Nat) :
    Bounded a (table.store b direction edge value) := by
  have hgreatest : (table.store b direction edge value).greatest a.name =
      table.greatest a.name := Function.update_of_ne hne.symm _ _
  refine ⟨fun side edge' => ?_, by rw [hgreatest]; exact h.greatest_cases⟩
  have hcell : (⟨a.name, side, edge'⟩ : Cell) ≠ ⟨b.name, b.side direction, edge⟩ :=
    fun he => hne (congrArg Cell.name he).symm
  rw [hgreatest, cells_store_of_ne table hcell]
  exact h.cells_le side edge'

theorem perform (h : Bounded a table) {schema : Schema} (hbuilt : schema.Built)
    (ha : a ∈ schema.attributes) (call : Call) : Bounded a (Table.perform schema call table).2 := by
  cases call with
  | read name direction edge =>
    cases hfind : schema.attribute? name <;> simpa only [Table.perform, hfind] using h
  | write name direction edge value =>
    cases hfind : schema.attribute? name with
    | none => simpa only [Table.perform, hfind] using h
    | some b =>
      obtain ⟨hb, rfl⟩ := Schema.mem_of_attribute? hfind
      by_cases hv : b.Accepts direction value.toInt
      · simp only [Table.perform, hfind, if_pos hv]
        by_cases hname : b.name = a.name
        · obtain rfl := hbuilt.eq_of_name_eq hb ha hname
          exact h.store (hbuilt.sound hb) hv edge
        · exact h.store_of_ne hname edge
      · simpa only [Table.perform, hfind, if_neg hv] using h

theorem run (h : Bounded a table) {schema : Schema} (hbuilt : schema.Built)
    (ha : a ∈ schema.attributes) (calls : List Call) :
    Bounded a (Call.run (Table.perform schema) calls table).2 := by
  induction calls generalizing table with
  | nil => exact h
  | cons call calls ih => exact ih (h.perform hbuilt ha call)

end Bounded

end Table

namespace Schema

open Attribute

theorem Built.bounded_initial {schema : Schema} (h : schema.Built) {a : Attribute}
    (ha : a ∈ schema.attributes) : Table.Bounded a (Table.initial schema) :=
  ⟨fun side edge => .inl (h.initial_cells ha side edge), .inl rfl⟩

theorem Built.read_le {schema : Schema} (h : schema.Built) {edges : Nat}
    {state : Schema × EdgeStore} {table : Table} (hholds : schema.Holds edges state table)
    {a : Attribute} (ha : a ∈ schema.attributes) (hbounded : Table.Bounded a table)
    {direction : Direction} (hdirection : direction = .reverse → a.negates = false) {edge : Nat}
    (hedge : edge < edges) : ∃ v, state.1.read a.name direction edge state.2 = .done v ∧
      v ≤ (a.withGreatest (table.greatest a.name)).greatestOrMaximum := by
  obtain ⟨v, hread, hv⟩ := h.read_eq hholds ha direction hedge
  have hturn : ¬ (a.negates = true ∧ direction = .reverse) := by
    rintro ⟨hnegates, hreverse⟩
    rw [hdirection hreverse] at hnegates
    cases hnegates
  rw [turn, if_neg hturn] at hv
  refine ⟨v, hread, Int32.le_iff_toInt_le.mpr ?_⟩
  rw [hv]
  exact hbounded.le_greatestOrMaximum (h.sound ha) _ edge

/-- At any point of a run the greatest value is the one that was stored, and all that can be read
is at most as great. -/
theorem greatestOrMaximum_of_run :
    (∀ (schema : Schema) (a : Attribute), schema.Reachable → a ∈ schema.attributes →
      a.Registered → ∀ (edges : Nat) (store : EdgeStore), a.FitsInto store edges →
      ∀ actions, Action.Within edges actions → ∃ trace final b,
        actAll actions (schema, store) = .ok (trace, final) ∧
        final.1.attribute? a.name = some b ∧
        b.greatestOrMaximum.toInt = (a.storedValues trace).max?.getD a.maximum.toInt ∧
        (∀ v ∈ a.storedValues trace, v ≠ neverWritten.toInt) ∧
        (b.greatest = neverWritten ↔ a.storedValues trace = []) ∧
        ∀ more, Action.Within edges more → ∃ trace' final' b',
          actAll more final = .ok (trace', final') ∧ final'.1.attribute? a.name = some b' ∧
          (a.storedValues trace ≠ [] → b.greatestOrMaximum ≤ b'.greatestOrMaximum)) ∧
    ∀ schema : Schema, schema.Built → ∀ (edges : Nat) (store : EdgeStore),
      schema.newStore? edges = some store → ∀ actions, Action.Within edges actions →
      ∃ trace final, actAll actions (schema, store) = .ok (trace, final) ∧
        ∀ a ∈ schema.attributes, ∃ b, final.1.attribute? a.name = some b ∧
          ∀ direction, (direction = .reverse → a.negates = false) → ∀ edge < edges,
            ∃ v, final.1.read a.name direction edge final.2 = .done v ∧
              v ≤ b.greatestOrMaximum := by
  constructor
  · intro schema a hschema ha hregistered edges store hfits actions hwithin
    obtain ⟨hsound, hplaced, _⟩ := hregistered.sound_placed
    have hinitial := Tracks.initial hregistered hschema ha hfits
    obtain ⟨trace, final, hrun, htracks⟩ := hinitial.actAll hsound hplaced hwithin
    rw [List.nil_append] at htracks
    obtain ⟨b, hb, hgreatest, hnever⟩ := htracks.exists_attribute
    refine ⟨trace, final, b, hrun, hb, hgreatest, fun v hv => (htracks.above v hv).ne', hnever, ?_⟩
    intro more hmore
    obtain ⟨trace', final', hrun', htracks'⟩ := htracks.actAll hsound hplaced hmore
    obtain ⟨b', hb', hgreatest', _⟩ := htracks'.exists_attribute
    refine ⟨trace', final', b', hrun', hb', fun hne => ?_⟩
    rw [Int32.le_iff_toInt_le, hgreatest, hgreatest']
    exact htracks.max?_getD_le htracks' hne _
  · intro schema h edges store hstore actions hwithin
    have hrestorable : (schema, store).1.Restorable := h.restorable
    obtain ⟨trace, hrun⟩ := hrestorable.exists_actAll actions
    have hholds := (h.run_holds hstore hwithin).2
    refine ⟨trace, _, hrun, fun a ha => ?_⟩
    have hbounded := (h.bounded_initial ha).run h ha (Action.calls actions)
    refine ⟨a.withGreatest ((Table.run schema (Action.calls actions)).2.greatest a.name), ?_, ?_⟩
    · change (schema.run store (Action.calls actions)).2.1.attribute? a.name = _
      rw [hholds.schema_eq, attribute?_withGreatest, h.attribute?_eq ha, Option.map_some]
    · intro direction hdirection edge hedge
      exact h.read_le hholds ha hbounded hdirection hedge

theorem greatestOrMaximum_of_run_roads :
    let actions : List Action :=
      [.call (.write "speed" .reverse 1 30), .call (.write "slope" .reverse 0 5), .restore,
        .call (.write "slope" .forward 0 200), .restore]
    ∃ trace final b,
      (roads.Reachable ∧ roads.Built ∧ slope.Registered ∧ slope.FitsInto roadStore 2 ∧
        roads.newStore? 2 = some roadStore ∧ Action.Within 2 actions) ∧
      actAll actions (roads, roadStore) = .ok (trace, final) ∧
      final.1.attribute? "slope" = some b ∧ slope.storedValues trace = [-5] ∧
      b.greatestOrMaximum = -5 ∧
      ∃ v, final.1.read "slope" .forward 0 final.2 = .done v ∧ v ≤ -5 := by
  intro actions
  obtain ⟨hgreatest, hreads⟩ := greatestOrMaximum_of_run
  have hregistered : slope.Registered := by
    refine ⟨slope.withoutSlots, ⟨10, 10, by decide, by decide⟩, _, 8, ?_, rfl⟩
    exact ⟨{}, "slope", { bits := 7, negates := true }, by cbv⟩
  have hfits : slope.FitsInto roadStore 2 := by
    intro slot hslot edge hedge
    obtain rfl : slot = slope.forward := List.mem_singleton.mp hslot
    have hsize : roadStore.bytes.size = 8 := rfl
    have hplace : edge = 0 ∨ edge = 1 := by omega
    rw [Slot.InStore, hsize]
    rcases hplace with rfl | rfl <;> decide
  have hstore : roads.newStore? 2 = some roadStore := by decide
  have hwithin : Action.Within 2 actions := by
    simp [actions, Action.Within, Action.calls, Call.Within, Call.edge]
  have hslope : slope ∈ roads.attributes := List.mem_cons_of_mem _ List.mem_cons_self
  obtain ⟨trace, final, b, hrun, hb, hvalue, _⟩ := hgreatest roads slope roads_reachable hslope
    hregistered 2 roadStore hfits actions hwithin
  have hstored : ∃ last, actAll actions (roads, roadStore) = .ok
      ([(.write "speed" .reverse 1 30, .stored), (.write "slope" .reverse 0 5, .stored),
        (.write "slope" .forward 0 200, .rejected)], last) := ⟨_, rfl⟩
  obtain ⟨last, hlast⟩ := hstored
  obtain ⟨rfl, rfl⟩ := Prod.mk.inj (Except.ok.inj (hrun.symm.trans hlast))
  have hvalues : slope.storedValues
      [(.write "speed" .reverse 1 30, .stored), (.write "slope" .reverse 0 5, .stored),
        (.write "slope" .forward 0 200, .rejected)] = [-5] := by decide
  rw [hvalues] at hvalue
  have hfive : b.greatestOrMaximum = -5 := Int32.toInt_inj.mp hvalue
  obtain ⟨_, _, hrun', hall⟩ := hreads roads roads_built 2 roadStore hstore actions hwithin
  obtain ⟨rfl, rfl⟩ := Prod.mk.inj (Except.ok.inj (hrun.symm.trans hrun'))
  obtain ⟨b', hb', hread⟩ := hall slope hslope
  obtain rfl : b = b' := Option.some.inj (hb.symm.trans hb')
  obtain ⟨v, hv, hle⟩ := hread .forward (by simp) 0 (by decide)
  exact ⟨_, final, b, ⟨roads_reachable, roads_built, hregistered, hfits, hstore, hwithin⟩, hrun, hb,
    hvalues, hfive, v, hv, hfive ▸ hle⟩

end Schema

end PackedEdges
