import PackedEdges.Attribute.Access
import PackedEdges.Schema.Builder

/-! Operations as steps on a state that is changed in place. A step that fails or is refused ends
the operation, and what the steps before it changed stays changed. -/

namespace PackedEdges

def InPlace (σ α : Type) : Type :=
  σ → Outcome α × σ

namespace InPlace

variable {σ α β : Type}

def bind (first : InPlace σ α) (next : α → InPlace σ β) : InPlace σ β := fun s =>
  match first s with
  | (.done a, s) => next a s
  | (.failed e, s) => (.failed e, s)
  | (.refused, s) => (.refused, s)

instance : Monad (InPlace σ) where
  pure a := fun s => (.done a, s)
  bind := bind

def get : InPlace σ σ := fun s => (.done s, s)

def set (new : σ) : InPlace σ Unit := fun _ => (.done (), new)

def lift (outcome : Outcome α) : InPlace σ α := fun s => (outcome, s)

theorem get_bind (next : σ → InPlace σ β) (s : σ) : (get >>= next) s = next s s := rfl

theorem set_bind (new : σ) (next : Unit → InPlace σ β) (s : σ) :
    (set new >>= next) s = next () new := rfl

theorem lift_done_bind (a : α) (next : α → InPlace σ β) (s : σ) :
    (lift (.done a) >>= next) s = next a s := rfl

theorem lift_failed_bind (e : Error) (next : α → InPlace σ β) (s : σ) :
    (lift (.failed e) >>= next) s = (.failed e, s) := rfl

end InPlace

open InPlace

namespace Attribute

/-- A write takes note of the value first and then changes one word of the store. -/
def writeInPlace (direction : Direction) (edge : Nat) (value : Int32) :
    InPlace (Attribute × EdgeStore) Unit := do
  let (a, store) ← get
  lift (.ofExcept (a.checkValue value))
  let (slot, stored) ← lift (.ofExcept (a.target direction value))
  set (a.noteStored stored, store)
  let word ← lift (.ofOption (store.word? edge slot.wordOffset))
  let store ← lift (.ofOption (store.setWord? edge slot.wordOffset
    ((word &&& ~~~slot.mask) ||| (a.encode stored <<< slot.shift))))
  set (a.noteStored stored, store)

def registerInPlace : InPlace (Attribute × LayoutCursor) Nat := do
  let (a, cursor) ← get
  if a.isRegistered then lift (.failed (.stage a.name .alreadyRegistered))
  let (forward, cursor) ← lift (.ofOption (cursor.next? a.bits))
  set ({ a with forward }, cursor)
  if a.twoDirections then
    let (reverse, cursor) ← lift (.ofOption (cursor.next? a.bits))
    set ({ a with forward, reverse := some reverse }, cursor)
    return 2 * a.bits.toNat
  else return a.bits.toNat

theorem writeInPlace_eq (a : Attribute) (direction : Direction) (edge : Nat) (value : Int32)
    (store : EdgeStore) : writeInPlace direction edge value (a, store) =
      match a.write direction edge value store with
      | (b, .done written) => (.done (), b, written)
      | (b, .failed e) => (.failed e, b, store)
      | (b, .refused) => (.refused, b, store) := by
  rw [writeInPlace, get_bind]
  dsimp only
  cases hcheck : a.checkValue value with
  | error e => simp [write, hcheck, Outcome.ofExcept, lift_failed_bind]
  | ok u =>
    cases htarget : a.target direction value with
    | error e =>
      simp [write, hcheck, htarget, Outcome.ofExcept, lift_done_bind, lift_failed_bind]
    | ok target =>
      obtain ⟨slot, stored⟩ := target
      simp only [write, hcheck, htarget, Outcome.ofExcept, lift_done_bind, set_bind, putRaw]
      cases hword : store.word? edge slot.wordOffset with
      | none => rfl
      | some word =>
        simp only [Outcome.ofOption, lift_done_bind, Option.bind_eq_bind, Option.bind_some]
        cases store.setWord? edge slot.wordOffset
          ((word &&& ~~~slot.mask) ||| (a.encode stored <<< slot.shift)) <;> rfl

/-- A registration that is refused may have placed the forward slot. -/
theorem registerInPlace_cases (a : Attribute) (cursor : LayoutCursor) :
    match a.register cursor with
    | .done (taken, b, last) => registerInPlace (a, cursor) = (.done taken, b, last)
    | .failed e => registerInPlace (a, cursor) = (.failed e, a, cursor)
    | .refused => (registerInPlace (a, cursor)).1 = .refused := by
  rw [registerInPlace, get_bind]
  dsimp only
  by_cases hregistered : a.isRegistered = true
  · simp [register, hregistered, lift_failed_bind]
  · simp only [register, hregistered, if_false, Bool.false_eq_true]
    cases hforward : cursor.next? a.bits with
    | none => rfl
    | some granted =>
      obtain ⟨forward, next⟩ := granted
      by_cases htwo : a.twoDirections = true
      · simp only [htwo, if_true]
        cases hreverse : next.next? a.bits with
        | none =>
          simp only [Outcome.ofOption, lift_done_bind, set_bind, hreverse]
          rfl
        | some granted =>
          simp only [Outcome.ofOption, lift_done_bind, set_bind, hreverse]
          rfl
      · simp only [htwo, Bool.false_eq_true, if_false]
        rfl

end Attribute

namespace SchemaBuilder

def addAttributeInPlace (a : Attribute) : InPlace SchemaBuilder Unit := do
  let builder ← get
  if builder.attributes.any fun b => b.name == a.name then
    lift (.failed (.definition a.name .alreadyDefined))
  else set { builder with attributes := builder.attributes ++ [a] }

def addInPlace (name : String) (settings : Settings) : InPlace SchemaBuilder Unit := do
  let builder ← get
  let a ← lift (.ofExcept (Attribute.define? builder.rules name settings))
  addAttributeInPlace a

theorem addAttributeInPlace_eq (a : Attribute) (builder : SchemaBuilder) :
    addAttributeInPlace a builder =
      match builder.addAttribute? a with
      | .ok next => (.done (), next)
      | .error e => (.failed e, builder) := by
  rw [addAttributeInPlace, get_bind, addAttribute?]
  split <;> rfl

theorem addInPlace_eq (name : String) (settings : Settings) (builder : SchemaBuilder) :
    addInPlace name settings builder =
      match builder.add? name settings with
      | .ok next => (.done (), next)
      | .error e => (.failed e, builder) := by
  rw [addInPlace, get_bind, add?]
  cases hdefine : Attribute.define? builder.rules name settings with
  | error e => rfl
  | ok a => exact addAttributeInPlace_eq a builder

end SchemaBuilder

end PackedEdges
