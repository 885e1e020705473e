import PackedEdges.Proofs.InPlace
import PackedEdges.Proofs.SnapshotRestore

/-! The life of one attribute. It is out of use until it is registered, it is registered once, and
from then on only the greatest value that it has stored changes. -/

namespace PackedEdges.Attribute

/-- What can be done with an attribute. Every step comes with the cursor or store that it needs. -/
inductive Step
  | register (cursor : LayoutCursor)
  | write (direction : Direction) (edge : Nat) (value : Int32) (store : EdgeStore)
  | read (direction : Direction) (edge : Nat) (store : EdgeStore)
  | restore

def Step.isRegister : Step → Bool
  | .register _ => true
  | _ => false

/-- The attribute as a step leaves it behind, whether the step succeeds or not. -/
def after (a : Attribute) : Step → Attribute
  | .register cursor => (registerInPlace (a, cursor)).2.1
  | .write direction edge value store => (writeInPlace direction edge value (a, store)).2.1
  | .read _ _ _ => a
  | .restore => ofSnapshot a.toSnapshot

def afterAll (a : Attribute) (steps : List Step) : Attribute :=
  steps.foldl after a

theorem afterAll_cons (a : Attribute) (x : Step) (steps : List Step) :
    a.afterAll (x :: steps) = (a.after x).afterAll steps := rfl

theorem after_write (a : Attribute) (direction : Direction) (edge : Nat) (value : Int32)
    (store : EdgeStore) :
    a.after (.write direction edge value store) = (a.write direction edge value store).1 := by
  rw [after, writeInPlace_eq]
  split <;> simp_all

/-- The attribute is as it was defined, but a restore may have given it an empty reverse slot. -/
structure Waits (now a : Attribute) : Prop where
  withoutSlots_eq : now.withoutSlots = a
  forward_eq : now.forward = {}
  reverse_eq : now.twoDirections = false → now.reverse = none

namespace Waits

variable {now a : Attribute}

theorem of_defined (h : a.Defined) : a.Waits a := by
  obtain ⟨name, settings, _, rfl⟩ := defined_cases h
  exact ⟨rfl, rfl, fun _ => rfl⟩

theorem isRegistered (h : now.Waits a) : now.isRegistered = false := by
  simp [Attribute.isRegistered, h.forward_eq]

theorem name_eq (h : now.Waits a) : now.name = a.name := by
  rw [← h.withoutSlots_eq]
  rfl

theorem storedWidth_eq (h : now.Waits a) : now.storedWidth = a.storedWidth := by
  rw [← h.withoutSlots_eq]
  rfl

theorem bits_eq (h : now.Waits a) : now.bits = a.bits := by
  rw [← h.withoutSlots_eq]
  rfl

theorem read_eq (h : now.Waits a) (direction : Direction) (edge : Nat) (store : EdgeStore) :
    now.read direction edge store = .failed (.stage a.name .notRegistered) := by
  simp [read, h.isRegistered, h.name_eq]

theorem writeInPlace_eq (h : now.Waits a) (direction : Direction) (edge : Nat) (value : Int32)
    (store : EdgeStore) : writeInPlace direction edge value (now, store) =
      (.failed (.stage a.name .notRegistered), now, store) := by
  rw [Attribute.writeInPlace_eq, write_of_not_isRegistered h.isRegistered, h.name_eq]

theorem after (h : now.Waits a) {x : Step} (hx : x.isRegister = false) : (now.after x).Waits a := by
  cases x with
  | register cursor => cases hx
  | write direction edge value store =>
    rw [after_write, write_of_not_isRegistered h.isRegistered]
    exact h
  | read direction edge store => exact h
  | restore =>
    refine ⟨h.withoutSlots_eq, h.forward_eq, fun hone => ?_⟩
    have hone : now.twoDirections = false := hone
    simp [Attribute.after, ofSnapshot, toSnapshot, hone]

theorem afterAll (h : now.Waits a) {steps : List Step} (hsteps : ∀ x ∈ steps, x.isRegister = false) :
    (now.afterAll steps).Waits a := by
  induction steps generalizing now with
  | nil => exact h
  | cons x steps ih =>
    obtain ⟨hx, hsteps⟩ := List.forall_mem_cons.mp hsteps
    rw [afterAll_cons]
    exact ih (h.after hx) hsteps

theorem exists_registerInPlace (h : now.Waits a) (hdef : a.Defined) (cursor : LayoutCursor)
    (hroom : cursor.requested + a.storedWidth < UInt32.size) :
    ∃ b last, registerInPlace (now, cursor) = (.done a.storedWidth, b, last) ∧
      last.requested = cursor.requested + a.storedWidth ∧ b.withoutSlots = a ∧ b.Placed ∧
      cursor.Grants b.slots last := by
  have hsound := hdef.sound
  have hwidth := h.storedWidth_eq
  obtain ⟨taken, b, last, hregister⟩ := exists_register cursor h.isRegistered
    (h.bits_eq ▸ hsound.bits_pos) (h.bits_eq ▸ hsound.bits_le) (hwidth ▸ hroom)
  obtain ⟨_, htaken, _⟩ := register_cases hregister
  obtain ⟨hsame, hplaced, hgrants, hrequested⟩ := grants_of_register h.reverse_eq hregister
  have hinPlace := registerInPlace_cases now cursor
  rw [hregister, htaken, hwidth] at hinPlace
  exact ⟨b, last, hinPlace, hwidth ▸ hrequested, hsame.trans h.withoutSlots_eq, hplaced, hgrants⟩

end Waits

theorem registerInPlace_of_isRegistered {a : Attribute} (h : a.isRegistered = true)
    (cursor : LayoutCursor) : registerInPlace (a, cursor) =
      (.failed (.stage a.name .alreadyRegistered), a, cursor) := by
  have hcases := registerInPlace_cases a cursor
  rwa [register_of_isRegistered h] at hcases

theorem after_of_isRegistered {a : Attribute} (h : a.isRegistered = true) (hpaired : a.Paired)
    (x : Step) : ∃ greatest, a.after x = a.withGreatest greatest := by
  cases x with
  | register cursor => exact ⟨a.greatest, by rw [after, registerInPlace_of_isRegistered h]; rfl⟩
  | write direction edge value store =>
    rw [after_write]
    exact a.exists_write_eq_withGreatest direction edge value store
  | read direction edge store => exact ⟨a.greatest, rfl⟩
  | restore => exact ⟨a.greatest, ofSnapshot_toSnapshot_eq_iff.mpr hpaired⟩

theorem afterAll_of_isRegistered {a : Attribute} (h : a.isRegistered = true) (hpaired : a.Paired)
    (steps : List Step) : ∃ greatest, a.afterAll steps = a.withGreatest greatest := by
  induction steps generalizing a with
  | nil => exact ⟨a.greatest, rfl⟩
  | cons x steps ih =>
    obtain ⟨v, hv⟩ := after_of_isRegistered h hpaired x
    rw [afterAll_cons, hv]
    obtain ⟨w, hw⟩ := ih (a := a.withGreatest v) h (paired_withGreatest.mpr hpaired)
    exact ⟨w, hw⟩

/-- As long as an attribute has not been registered, all reads and writes fail. The first registration
with a cursor that can count its bits gives the attribute its slots. Whatever steps follow, each
further registration fails, and nothing but the greatest value changes. -/
theorem registered_once {a : Attribute} (h : a.Defined) (steps : List Step)
    (hsteps : ∀ x ∈ steps, x.isRegister = false) :
    let now := a.afterAll steps
    (∀ direction edge store,
      now.read direction edge store = .failed (.stage a.name .notRegistered)) ∧
    (∀ direction edge value store, writeInPlace direction edge value (now, store) =
      (.failed (.stage a.name .notRegistered), now, store)) ∧
    ∀ cursor : LayoutCursor, cursor.requested + a.storedWidth < UInt32.size →
      ∃ taken b last, registerInPlace (now, cursor) = (.done taken, b, last) ∧
        taken = (if a.twoDirections then 2 * a.bits.toNat else a.bits.toNat) ∧
        last.requested = cursor.requested + taken ∧
        (b.isRegistered = true ∧ b.withoutSlots = a ∧ b.Placed ∧ cursor.Grants b.slots last) ∧
        ∀ more, let later := now.afterAll (.register cursor :: more)
          (∃ greatest, later = b.withGreatest greatest) ∧
          ∀ other, registerInPlace (later, other) =
            (.failed (.stage a.name .alreadyRegistered), later, other) := by
  intro now
  have hwaits : now.Waits a := (Waits.of_defined h).afterAll hsteps
  refine ⟨hwaits.read_eq, hwaits.writeInPlace_eq, fun cursor hroom => ?_⟩
  obtain ⟨b, last, hregister, hrequested, hsame, hplaced, hgrants⟩ :=
    hwaits.exists_registerInPlace h cursor hroom
  refine ⟨_, b, last, hregister, rfl, hrequested,
    ⟨hplaced.isRegistered, hsame, hplaced, hgrants⟩, fun more => ?_⟩
  have hnow : now.afterAll (.register cursor :: more) = b.afterAll more := by
    rw [afterAll_cons, after, hregister]
  obtain ⟨greatest, hlater⟩ :=
    afterAll_of_isRegistered hplaced.isRegistered hplaced.isSome_reverse more
  have hname : b.name = a.name := by
    rw [← hsame]
    rfl
  intro later
  rw [show later = b.withGreatest greatest from hnow.trans hlater, ← hname]
  exact ⟨⟨greatest, rfl⟩, registerInPlace_of_isRegistered (a := b.withGreatest greatest)
    hplaced.isRegistered⟩

/-- A restore leaves an attribute of two directions an empty reverse slot, which the registration
does not mistake for a slot of its own. -/
theorem registered_once_speed :
    let a := Schema.speed.withoutSlots
    let steps : List Step := [.write .forward 0 7 .empty, .restore, .read .reverse 0 .empty]
    let now := a.afterAll steps
    (a.Defined ∧ (∀ x ∈ steps, x.isRegister = false) ∧ now.reverse = some {}) ∧
    now.read .reverse 3 .empty = .failed (.stage "speed" .notRegistered) ∧
    ∃ b last, registerInPlace (now, .initial) = (.done 10, b, last) ∧ last.requested = 10 ∧
      ∃ greatest, now.afterAll [.register .initial, .write .reverse 1 30 Schema.roadStore,
        .restore, .register last] = b.withGreatest greatest := by
  intro a steps now
  have hdefined : a.Defined := ⟨{}, "speed", { bits := 5, twoDirections := true }, by cbv⟩
  have hsteps : ∀ x ∈ steps, x.isRegister = false := by simp [steps, Step.isRegister]
  obtain ⟨hread, _, hregister⟩ := registered_once hdefined steps hsteps
  obtain ⟨taken, b, last, hdone, htaken, hrequested, _, hlater⟩ :=
    hregister .initial (by decide)
  have hten : taken = 10 := htaken.trans (by decide)
  subst hten
  exact ⟨⟨hdefined, hsteps, rfl⟩, hread .reverse 3 .empty, b, last, hdone, hrequested,
    (hlater _).1⟩

end PackedEdges.Attribute
