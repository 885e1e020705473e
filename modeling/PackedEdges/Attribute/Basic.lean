import PackedEdges.LayoutCursor
import PackedEdges.NameRules
import PackedEdges.Outcome

/-! An attribute keeps a bounded integer for every edge in a slot of the edge's record. A second
slot may keep another value for the reverse direction; an attribute that negates needs none, its
reverse value is the forward value with its sign changed. -/

namespace PackedEdges

inductive Direction
  | forward
  | reverse
deriving DecidableEq

structure Attribute where
  name : String
  /-- Width of a slot, with the sign bit of an attribute that negates. -/
  bits : UInt32
  minimum : Int32
  maximum : Int32
  /-- The greatest value stored so far, `neverWritten` before the first one. -/
  greatest : Int32
  negates : Bool
  twoDirections : Bool
  byBytes : Bool
  forward : Slot
  reverse : Option Slot
deriving DecidableEq

namespace Attribute

def greatestOfBits (bits : UInt32) : Int :=
  (1 <<< bits.toNat - 1 : Nat)

/-- What is wrong with settings, of several faults the first in this order. -/
def settingsFault? (settings : Settings) : Option DefinitionFault :=
  if settings.bits = 0 then some .noBits
  else if maxBits < settings.bits then some (.tooManyBits settings.bits)
  else if settings.negates ∧ (settings.minimum ≠ 0 ∨ settings.twoDirections) then
    some (.negationConflict settings.minimum settings.twoDirections)
  else if settings.minimum = neverWritten then some .reservedMinimum
  else if Int32.maxValue.toInt < settings.minimum.toInt + greatestOfBits settings.bits then
    some (.rangeOverflow settings.minimum settings.bits)
  else none

/-- The attribute with sound settings, without slots. One that negates takes a sign bit and
stores as far below zero as above. -/
def ofSettings (name : String) (settings : Settings) : Attribute :=
  let greatest := greatestOfBits settings.bits
  { name
    bits := if settings.negates then settings.bits + 1 else settings.bits
    minimum := if settings.negates then Int32.ofInt (-greatest) else settings.minimum
    maximum := Int32.ofInt (settings.minimum.toInt + greatest)
    greatest := neverWritten
    negates := settings.negates
    twoDirections := settings.twoDirections
    byBytes := settings.byBytes
    forward := {}
    reverse := none }

def define? (rules : NameRules) (name : String) (settings : Settings) : Except Error Attribute :=
  if !rules.accepts name then .error (.definition name .invalidName)
  else
    match settingsFault? settings with
    | some fault => .error (.definition name fault)
    | none => .ok (ofSettings name settings)

def isRegistered (a : Attribute) : Bool :=
  a.forward.IsPlaced

def greatestOrMaximum (a : Attribute) : Int32 :=
  if a.greatest = neverWritten then a.maximum else a.greatest

/-- Gives an attribute its slots. Tells how many bits they take. -/
def register (a : Attribute) (cursor : LayoutCursor) :
    Outcome (Nat × Attribute × LayoutCursor) :=
  if a.isRegistered then .failed (.stage a.name .alreadyRegistered)
  else
    match cursor.next? a.bits with
    | none => .refused
    | some (forward, cursor) =>
      if a.twoDirections then
        match cursor.next? a.bits with
        | none => .refused
        | some (reverse, cursor) =>
          .done (2 * a.bits.toNat, { a with forward, reverse := some reverse }, cursor)
      else .done (a.bits.toNat, { a with forward }, cursor)

end Attribute

end PackedEdges
