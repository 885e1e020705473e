import PackedEdges.Proofs.RecordBytes
import PackedEdges.Proofs.SnapshotRestore
import PackedEdges.Proofs.StoreRefinement

/-! Runs of calls in which the schema may be replaced by what its own snapshot restores, at any
time. Such a run does what its calls alone do. -/

namespace PackedEdges

theorem Slot.InStore.of_sameShape {slot : Slot} {store store' : EdgeStore} {edge : Nat}
    (h : slot.InStore store edge) (hshape : store.SameShape store') : slot.InStore store' edge := by
  rw [InStore, EdgeStore.recordStart, hshape.1, hshape.2]
  exact h

theorem Attribute.sameShape_of_putRaw {slot : Slot} {raw : UInt32} {edge : Nat}
    {store store' : EdgeStore} (h : putRaw slot raw edge store = some store') :
    store.SameShape store' := by
  obtain ⟨word, _, hset⟩ := Option.bind_eq_some_iff.mp h
  exact ⟨EdgeStore.bytesPerEdge_of_write? hset, EdgeStore.size_of_write? hset⟩

theorem Attribute.sameShape_of_write {a : Attribute} {direction : Direction} {edge : Nat}
    {value : Int32} {store store' : EdgeStore}
    (h : (a.write direction edge value store).2 = .done store') : store.SameShape store' := by
  unfold write at h
  split at h
  · cases h
  · cases h
  · next slot stored _ _ =>
    cases hput : putRaw slot (a.encode stored) edge store with
    | none => simp [hput, Outcome.ofOption] at h
    | some written =>
      obtain rfl : written = store' := by simpa [hput, Outcome.ofOption] using h
      exact sameShape_of_putRaw hput

namespace Schema

variable {schema : Schema}

theorem attribute?_replace (schema : Schema) (a : Attribute) (name : String) :
    (schema.replace a).attribute? name =
      (schema.attribute? name).map fun b => if b.name = a.name then a else b := by
  have hsame : ((fun b : Attribute => b.name == name) ∘ fun b : Attribute =>
      if b.name = a.name then a else b) = fun b => b.name == name := by
    funext b
    by_cases hname : b.name = a.name
    · simp [hname]
    · simp [hname]
  simp only [attribute?, replace, List.find?_map, hsame]

theorem write_of_attribute?_eq_some {name : String} {a : Attribute}
    (h : schema.attribute? name = some a) (direction : Direction) (edge : Nat) (value : Int32)
    (store : EdgeStore) : schema.write name direction edge value store =
      (schema.replace (a.write direction edge value store).1,
        (a.write direction edge value store).2) := by
  simp [write, lookup, h]

theorem write_of_attribute?_eq_none {name : String} (h : schema.attribute? name = none)
    (direction : Direction) (edge : Nat) (value : Int32) (store : EdgeStore) :
    ∃ e, schema.write name direction edge value store = (schema, .failed e) := by
  simp [write, lookup, h]

theorem perform_write_cases (schema : Schema) (name : String) (direction : Direction) (edge : Nat)
    (value : Int32) (store : EdgeStore) :
    let written := schema.write name direction edge value store
    let state := (perform (.write name direction edge value) (schema, store)).2
    state.1 = written.1 ∧ (state.2 = store ∨ written.2 = .done state.2) := by
  intro written state
  cases houtcome : schema.write name direction edge value store with
  | mk next outcome =>
    cases outcome <;> simp [state, written, perform, houtcome]

theorem snd_perform_read (name : String) (direction : Direction) (edge : Nat)
    (state : Schema × EdgeStore) : (perform (.read name direction edge) state).2 = state := by
  obtain ⟨schema, store⟩ := state
  simp only [perform]
  cases schema.read name direction edge store <;> rfl

theorem sameShape_perform (call : Call) (state : Schema × EdgeStore) :
    state.2.SameShape (perform call state).2.2 := by
  obtain ⟨schema, store⟩ := state
  cases call with
  | read name direction edge =>
    rw [snd_perform_read]
    exact .refl store
  | write name direction edge value =>
    rcases (perform_write_cases schema name direction edge value store).2 with hsame | hdone
    · rw [hsame]
      exact .refl store
    · cases hfind : schema.attribute? name with
      | none =>
        obtain ⟨e, he⟩ := write_of_attribute?_eq_none hfind direction edge value store
        rw [he] at hdone
        cases hdone
      | some a =>
        rw [write_of_attribute?_eq_some hfind] at hdone
        exact Attribute.sameShape_of_write hdone

theorem restorable_perform {state : Schema × EdgeStore} (h : state.1.Restorable) (call : Call) :
    (perform call state).2.1.Restorable := by
  obtain ⟨schema, store⟩ := state
  cases call with
  | read name direction edge =>
    rw [snd_perform_read]
    exact h
  | write name direction edge value =>
    rw [(perform_write_cases schema name direction edge value store).1]
    exact h.write name direction edge value store

end Schema

inductive Action
  | call (call : Call)
  | restore

namespace Action

def calls (actions : List Action) : List Call :=
  actions.filterMap fun
    | .call c => some c
    | .restore => none

def Within (edges : Nat) (actions : List Action) : Prop :=
  Call.Within edges (calls actions)

end Action

namespace Schema

/-- What an action leads to, after the call with its answer if it is one. -/
def act : Action → Schema × EdgeStore → Except Error (List (Call × Answer) × Schema × EdgeStore)
  | .call call, state => .ok ([(call, (perform call state).1)], (perform call state).2)
  | .restore, (schema, store) => do
    let schema ← ofSnapshot? schema.toSnapshot
    return ([], schema, store)

def actAll :
    List Action → Schema × EdgeStore → Except Error (List (Call × Answer) × Schema × EdgeStore)
  | [], state => .ok ([], state)
  | x :: xs, state => do
    let (first, state) ← act x state
    let (more, state) ← actAll xs state
    return (first ++ more, state)

variable {state : Schema × EdgeStore}

theorem Restorable.act_restore (h : state.1.Restorable) : act .restore state = .ok ([], state) := by
  obtain ⟨schema, store⟩ := state
  rw [act, h.ofSnapshot?_toSnapshot]
  rfl

theorem Restorable.actAll_restore (h : state.1.Restorable) (xs : List Action) :
    actAll (.restore :: xs) state = actAll xs state := by
  simp only [actAll, h.act_restore, bind, Except.bind]
  cases actAll xs state <;> rfl

theorem actAll_call {trace : List (Call × Answer)} {final : Schema × EdgeStore} {call : Call}
    {xs : List Action} (h : actAll xs (perform call state).2 = .ok (trace, final)) :
    actAll (.call call :: xs) state = .ok ((call, (perform call state).1) :: trace, final) := by
  simp only [actAll, act, h, bind, Except.bind, pure, Except.pure, List.singleton_append]

/-- No restore fails, so a run ends where its calls alone lead. -/
theorem Restorable.exists_actAll (h : state.1.Restorable) (actions : List Action) :
    ∃ trace, actAll actions state =
      .ok (trace, (Call.run perform (Action.calls actions) state).2) := by
  induction actions generalizing state with
  | nil => exact ⟨[], rfl⟩
  | cons x xs ih =>
    cases x with
    | restore =>
      rw [h.actAll_restore]
      exact ih h
    | call call =>
      obtain ⟨trace, htrace⟩ := ih (restorable_perform h call)
      exact ⟨_, actAll_call htrace⟩

end Schema

end PackedEdges
