/-! JSON values and their texts. One layout writes everything on one line, the other gives every
element of an array or object a line of its own. -/

namespace PackedEdges.Json

inductive Value
  | null
  | boolean (value : Bool)
  | integer (value : Int)
  | string (value : String)
  | array (elements : List Value)
  | object (entries : List (String × Value))

structure Layout where
  /-- What stands before an element or a closing bracket at a given depth. -/
  newLine : Nat → List Char
  afterColon : List Char

namespace Layout

def compact : Layout where
  newLine _ := []
  afterColon := []

/-- A line for each element, indented by two blanks per level. -/
def pretty : Layout where
  newLine depth := '\n' :: List.replicate (2 * depth) ' '
  afterColon := [' ']

end Layout

def escapedChar (c : Char) : List Char :=
  if c = '"' then ['\\', '"']
  else if c = '\\' then ['\\', '\\']
  else if c = Char.ofNat 8 then ['\\', 'b']
  else if c = Char.ofNat 12 then ['\\', 'f']
  else if c = '\n' then ['\\', 'n']
  else if c = '\r' then ['\\', 'r']
  else if c = '\t' then ['\\', 't']
  else if c.toNat < 32 then
    ['\\', 'u', '0', '0', (c.toNat / 16).digitChar, (c.toNat % 16).digitChar]
  else [c]

def stringText (s : String) : List Char :=
  '"' :: (s.toList.flatMap escapedChar ++ ['"'])

def integerText (n : Int) : List Char :=
  if n < 0 then '-' :: Nat.toDigits 10 n.natAbs else Nat.toDigits 10 n.natAbs

namespace Value

mutual

/-- The text of a value whose brackets stand at `depth`. -/
def chars (layout : Layout) (depth : Nat) : Value → List Char
  | null => ['n', 'u', 'l', 'l']
  | boolean true => ['t', 'r', 'u', 'e']
  | boolean false => ['f', 'a', 'l', 's', 'e']
  | integer n => integerText n
  | string s => stringText s
  | array [] => ['[', ']']
  | array (v :: vs) =>
    '[' :: (layout.newLine (depth + 1) ++ chars layout (depth + 1) v ++
      elementChars layout (depth + 1) vs ++ layout.newLine depth ++ [']'])
  | object [] => ['\x7b', '\x7d']
  | object ((k, v) :: es) =>
    '\x7b' :: (layout.newLine (depth + 1) ++ stringText k ++ [':'] ++ layout.afterColon ++
      chars layout (depth + 1) v ++ entryChars layout (depth + 1) es ++
      layout.newLine depth ++ ['\x7d'])

def elementChars (layout : Layout) (depth : Nat) : List Value → List Char
  | [] => []
  | v :: vs =>
    ',' :: (layout.newLine depth ++ chars layout depth v ++ elementChars layout depth vs)

def entryChars (layout : Layout) (depth : Nat) : List (String × Value) → List Char
  | [] => []
  | (k, v) :: es =>
    ',' :: (layout.newLine depth ++ stringText k ++ [':'] ++ layout.afterColon ++
      chars layout depth v ++ entryChars layout depth es)

end

def text (layout : Layout) (v : Value) : String :=
  String.ofList (v.chars layout 0)

end Value

end PackedEdges.Json
