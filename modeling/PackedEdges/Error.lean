import PackedEdges.Attribute.Settings
import PackedEdges.Json.Fault

/-! Why an operation on attributes, schemas or their files fails. Each error is fatal to the
operation that raised it. -/

namespace PackedEdges

inductive DefinitionFault
  | invalidName
  | noBits
  | tooManyBits (bits : UInt32)
  | negationConflict (minimum : Int32) (twoDirections : Bool)
  | reservedMinimum
  | rangeOverflow (minimum : Int32) (bits : UInt32)
  | alreadyDefined
deriving DecidableEq

/-- What an attribute is not ready for. -/
inductive StageFault
  | notRegistered
  | alreadyRegistered
  | noReverseSlot
deriving DecidableEq

inductive RangeSide
  | above
  | below
deriving DecidableEq

inductive FileFault
  | notFound
  | notDirectory
  | isDirectory
  | nameTooLong
  | notText
  | other (description : String)
deriving DecidableEq

inductive Error
  | definition (name : String) (fault : DefinitionFault)
  | stage (name : String) (fault : StageFault)
  | outOfRange (name : String) (value bound : Int32) (side : RangeSide)
  | directionConflict (name : String)
  | unknownAttribute (name : String) (suggestion : Option String)
  | json (fault : Json.Fault)
  | file (fault : FileFault)

def truthText (b : Bool) : String :=
  if b then "true" else "false"

def DefinitionFault.message (name : String) : DefinitionFault → String
  | invalidName =>
    "attribute name wasn't valid: " ++ name ++
      ". Use lower case letters, numbers and at most one underscore"
  | noBits => name ++ ": bits cannot be zero"
  | tooManyBits bits =>
    name ++ ": the number of reserved bits cannot be more than " ++ toString maxBits.toNat ++
      " but was " ++ toString bits.toNat
  | negationConflict minimum twoDirections =>
    name ++ ": negating value for reverse direction only works for min_storable == 0 " ++
      "and !store_two_directions but was min_storable=" ++ toString minimum.toInt ++
      ", store_two_directions=" ++ truthText twoDirections
  | reservedMinimum =>
    name ++ ": " ++ toString neverWritten.toInt ++ " is not allowed as min_storable"
  | rangeOverflow minimum bits =>
    name ++ ": min_storable=" ++ toString minimum.toInt ++ " with " ++ toString bits.toNat ++
      " bits exceeds the i32 range"
  | alreadyDefined => "attribute " ++ name ++ " already defined"

def StageFault.message (name : String) : StageFault → String
  | notRegistered => "attribute " ++ name ++ " not initialized"
  | alreadyRegistered => "cannot call init multiple times for " ++ name
  | noReverseSlot => "attribute " ++ name ++ " has no reverse slot"

def RangeSide.message (name : String) (value bound : Int32) : RangeSide → String
  | above =>
    name ++ " value too large for encoding: " ++ toString value.toInt ++ ", maxValue: " ++
      toString bound.toInt
  | below =>
    name ++ " value too small for encoding: " ++ toString value.toInt ++ ", minValue: " ++
      toString bound.toInt

def FileFault.message : FileFault → String
  | notFound => "No such file or directory (os error 2)"
  | notDirectory => "Not a directory (os error 20)"
  | isDirectory => "Is a directory (os error 21)"
  | nameTooLong => "File name too long (os error 36)"
  | notText => "stream did not contain valid UTF-8"
  | other description => description

namespace Error

def message : Error → String
  | definition name fault => "Invalid configuration: " ++ fault.message name
  | stage name fault => "Invalid state: " ++ fault.message name
  | outOfRange name value bound side => side.message name value bound
  | directionConflict name =>
    name ++ ": value for reverse direction would overwrite forward direction. " ++
      "Enable store_two_directions for this attribute or don't write the reverse direction"
  | unknownAttribute name suggestion =>
    "Attribute '" ++ name ++ "' not found" ++
      match suggestion with
      | some other => ", did you mean '" ++ other ++ "'?"
      | none => ""
  | json fault => "Snapshot error: " ++ fault.message
  | file fault => "I/O error: " ++ fault.message

def cause? : Error → Option String
  | json fault => some fault.message
  | file fault => some fault.message
  | _ => none

end Error

end PackedEdges
