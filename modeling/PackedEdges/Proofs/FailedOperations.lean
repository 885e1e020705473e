import PackedEdges.Proofs.InPlace
import PackedEdges.Proofs.ReachableStates

/-! Why writes fail, and that no operation that fails changes anything. A write that the store
refuses leaves no trace but in the greatest value of its attribute. -/

namespace PackedEdges

namespace Attribute

variable {a : Attribute} {direction : Direction} {value : Int32}

/-- Why a value cannot be written for a direction, of several reasons the first in this order. -/
def rejection? (a : Attribute) (direction : Direction) (value : Int32) : Option Error :=
  if a.forward.mask = 0 then some (.stage a.name .notRegistered)
  else if a.maximum < value then some (.outOfRange a.name value a.maximum .above)
  else if value < a.minimum then some (.outOfRange a.name value a.minimum .below)
  else if direction = .reverse ∧ a.negates = false ∧ a.twoDirections = false then
    some (.directionConflict a.name)
  else none

theorem isRegistered_eq_false_iff : a.isRegistered = false ↔ a.forward.mask = 0 := by
  rw [isRegistered, decide_eq_false_iff_not, Slot.IsPlaced, not_not]

theorem rejection?_of_checkValue {e : Error} (h : a.checkValue value = .error e) :
    a.rejection? direction value = some e := by
  by_cases hmask : a.forward.mask = 0
  · simpa [rejection?, hmask, checkValue, isRegistered_eq_false_iff.mpr hmask] using h
  · have hregistered : a.isRegistered = true := by simpa using mt isRegistered_eq_false_iff.mp hmask
    simp only [checkValue, hregistered, Bool.not_true, Bool.false_eq_true, if_false] at h
    rw [rejection?, if_neg hmask]
    split_ifs at h ⊢ <;> simp_all

theorem bounds_of_checkValue (h : a.checkValue value = .ok ()) :
    a.isRegistered = true ∧ ¬ a.maximum < value ∧ ¬ value < a.minimum := by
  simp only [checkValue] at h
  split_ifs at h with hfree habove hbelow
  exact ⟨by simpa using hfree, habove, hbelow⟩

theorem Reachable.paired_of_isRegistered (h : a.Reachable) (hregistered : a.isRegistered = true) :
    a.Paired := by
  refine h.defined_or_paired.resolve_left fun hdef => ?_
  rw [hdef.fresh.1] at hregistered
  cases hregistered

theorem target_eq_error_iff (h : a.Paired) {e : Error} : a.target direction value = .error e ↔
    (direction = .reverse ∧ a.negates = false ∧ a.twoDirections = false) ∧
      e = .directionConflict a.name := by
  cases direction with
  | forward => simp [target]
  | reverse =>
    cases hnegates : a.negates with
    | true => simp [target, hnegates]
    | false =>
      cases htwo : a.twoDirections with
      | false => simp [target, hnegates, htwo, eq_comm]
      | true =>
        obtain ⟨slot, hslot⟩ := Option.isSome_iff_exists.mp (h.trans htwo)
        simp [target, hnegates, htwo, hslot]

/-- A write either is rejected at once, or only the store can refuse it. -/
theorem Reachable.write_cases (h : a.Reachable) (direction : Direction) (edge : Nat)
    (value : Int32) (store : EdgeStore) :
    (∃ e, a.rejection? direction value = some e ∧
        a.write direction edge value store = (a, .failed e)) ∨
      a.rejection? direction value = none ∧ ∃ slot stored,
        a.write direction edge value store =
          (a.noteStored stored, .ofOption (putRaw slot (a.encode stored) edge store)) := by
  cases hcheck : a.checkValue value with
  | error e => exact .inl ⟨e, rejection?_of_checkValue hcheck, by simp [write, hcheck]⟩
  | ok u =>
    obtain ⟨hregistered, habove, hbelow⟩ := bounds_of_checkValue hcheck
    have hmask : a.forward.mask ≠ 0 := by
      intro hmask
      rw [isRegistered_eq_false_iff.mpr hmask] at hregistered
      cases hregistered
    have hpaired := h.paired_of_isRegistered hregistered
    rw [rejection?, if_neg hmask, if_neg habove, if_neg hbelow]
    cases htarget : a.target direction value with
    | error e =>
      obtain ⟨hconflict, rfl⟩ := (target_eq_error_iff hpaired).mp htarget
      exact .inl ⟨_, if_pos hconflict, by simp [write, hcheck, htarget]⟩
    | ok target =>
      have hfits : ¬ (direction = .reverse ∧ a.negates = false ∧ a.twoDirections = false) := by
        intro hconflict
        rw [(target_eq_error_iff hpaired).mpr ⟨hconflict, rfl⟩] at htarget
        cases htarget
      exact .inr ⟨if_neg hfits, target.1, target.2, by simp [write, hcheck, htarget]⟩

theorem Reachable.writeInPlace_cases (h : a.Reachable) (direction : Direction) (edge : Nat)
    (value : Int32) (store : EdgeStore) :
    (∀ e, (writeInPlace direction edge value (a, store)).1 = .failed e ↔
        a.rejection? direction value = some e) ∧
      (∀ e, (writeInPlace direction edge value (a, store)).1 = .failed e →
        (writeInPlace direction edge value (a, store)).2 = (a, store)) ∧
      ((writeInPlace direction edge value (a, store)).1 = .refused →
        ∃ greatest, (writeInPlace direction edge value (a, store)).2 =
          (a.withGreatest greatest, store)) := by
  rw [writeInPlace_eq]
  obtain ⟨e, hrejection, hwrite⟩ | ⟨hrejection, slot, stored, hwrite⟩ :=
    h.write_cases direction edge value store
  · simp [hwrite, hrejection]
  · rw [hwrite, hrejection]
    cases hput : putRaw slot (a.encode stored) edge store with
    | some written => simp [Outcome.ofOption]
    | none =>
      refine ⟨by simp [Outcome.ofOption], by simp [Outcome.ofOption], fun _ => ?_⟩
      exact ⟨(a.noteStored stored).greatest, rfl⟩

end Attribute

open Attribute SchemaBuilder

theorem failures_change_nothing :
    (∀ a : Attribute, a.Reachable → ∀ (direction : Direction) (edge : Nat) (value : Int32)
      (store : EdgeStore),
      let result := writeInPlace direction edge value (a, store)
      (result.1 = .failed (.stage a.name .notRegistered) ↔ a.forward.mask = 0) ∧
      (a.forward.mask ≠ 0 →
        (result.1 = .failed (.outOfRange a.name value a.maximum .above) ↔ a.maximum < value)) ∧
      (a.forward.mask ≠ 0 → ¬ a.maximum < value →
        (result.1 = .failed (.outOfRange a.name value a.minimum .below) ↔ value < a.minimum)) ∧
      (a.forward.mask ≠ 0 → ¬ a.maximum < value → ¬ value < a.minimum →
        (result.1 = .failed (.directionConflict a.name) ↔
          direction = .reverse ∧ a.negates = false ∧ a.twoDirections = false)) ∧
      (∀ e, result.1 = .failed e → a.rejection? direction value = some e ∧ result.2 = (a, store)) ∧
      (result.1 = .refused → ∃ greatest, result.2 = (a.withGreatest greatest, store))) ∧
    (∀ (a : Attribute) (cursor : LayoutCursor) (e : Error),
      (registerInPlace (a, cursor)).1 = .failed e →
        (registerInPlace (a, cursor)).2 = (a, cursor)) ∧
    (∀ (builder : SchemaBuilder) (name : String) (settings : Settings) (e : Error),
      (addInPlace name settings builder).1 = .failed e →
        (addInPlace name settings builder).2 = builder) ∧
    ∀ (builder : SchemaBuilder) (a : Attribute) (e : Error),
      (addAttributeInPlace a builder).1 = .failed e →
        (addAttributeInPlace a builder).2 = builder := by
  refine ⟨fun a h direction edge value store => ?_, fun a cursor e he => ?_,
    fun builder name settings e he => ?_, fun builder a e he => ?_⟩
  · intro result
    obtain ⟨hfailed, hkept, hrefused⟩ := h.writeInPlace_cases direction edge value store
    refine ⟨(hfailed _).trans ?_, fun hmask => (hfailed _).trans ?_,
      fun hmask habove => (hfailed _).trans ?_,
      fun hmask habove hbelow => (hfailed _).trans ?_,
      fun e he => ⟨(hfailed e).mp he, hkept e he⟩, hrefused⟩
    · rw [rejection?]
      split_ifs <;> simp_all
    · rw [rejection?, if_neg hmask]
      split_ifs <;> simp_all
    · rw [rejection?, if_neg hmask, if_neg habove]
      split_ifs <;> simp_all
    · rw [rejection?, if_neg hmask, if_neg habove, if_neg hbelow]
      split_ifs <;> simp_all
  · have hcases := registerInPlace_cases a cursor
    cases hregister : a.register cursor with
    | done granted =>
      rw [hregister] at hcases
      simp [hcases] at he
    | failed e' =>
      rw [hregister] at hcases
      rw [hcases]
    | refused =>
      rw [hregister] at hcases
      simp [hcases] at he
  · rw [addInPlace_eq] at he ⊢
    cases hadd : builder.add? name settings <;> simp_all
  · rw [addAttributeInPlace_eq] at he ⊢
    cases hadd : builder.addAttribute? a <;> simp_all

theorem failures_change_nothing_speed :
    let tooHigh := writeInPlace .forward 0 32 (Schema.speed, Schema.roadStore)
    let tooFar := writeInPlace .forward 2 30 (Schema.speed, Schema.roadStore)
    let again := registerInPlace (Schema.speed, .initial)
    let fast : SchemaBuilder := { attributes := [Schema.speed] }
    (Schema.speed.Reachable ∧
      tooHigh.1 = .failed (.outOfRange "speed" 32 31 .above) ∧
      tooHigh.2 = (Schema.speed, Schema.roadStore)) ∧
    (tooFar.1 = .refused ∧
      ∃ greatest, tooFar.2 = (Schema.speed.withGreatest greatest, Schema.roadStore)) ∧
    again.2 = (Schema.speed, .initial) ∧
    (addInPlace "speed" { bits := 3 } fast).2 = fast ∧
    (addAttributeInPlace Schema.speed fast).2 = fast := by
  intro tooHigh tooFar again fast
  have hspeed : Schema.speed.Reachable := by
    have hdefined : Schema.speed.withoutSlots.Defined :=
      ⟨{}, "speed", { bits := 5, twoDirections := true }, by cbv⟩
    have hregister : ∃ last,
        Schema.speed.withoutSlots.register .initial = .done (10, Schema.speed, last) := ⟨_, rfl⟩
    exact .registered (.defined hdefined) hregister.choose_spec
  obtain ⟨hwrite, hregister, hadd, haddAttribute⟩ := failures_change_nothing
  obtain ⟨_, habove, _, _, hfailed, _⟩ := hwrite _ hspeed .forward 0 32 Schema.roadStore
  obtain ⟨_, _, _, _, _, hrefused⟩ := hwrite _ hspeed .forward 2 30 Schema.roadStore
  have hhigh := (habove (by decide)).mpr (by decide)
  have hfar : tooFar.1 = .refused := by cbv
  exact ⟨⟨hspeed, hhigh, (hfailed _ hhigh).2⟩, ⟨hfar, hrefused hfar⟩,
    hregister _ _ (.stage "speed" .alreadyRegistered) (by cbv),
    hadd _ _ _ (.definition "speed" .alreadyDefined) (by cbv),
    haddAttribute _ _ (.definition "speed" .alreadyDefined) (by cbv)⟩

end PackedEdges
