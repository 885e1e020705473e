/-! The symbols of a text are its characters. In a sequence of bytes that is not UTF-8 throughout,
each byte that belongs to no character is a symbol of its own. -/

namespace PackedEdges.Json

/-- What a reader sees at one place of its input. -/
inductive Symbol
  | char (c : Char)
  | stray (b : UInt8)
deriving DecidableEq

namespace Symbol

def size : Symbol → Nat
  | .char c => c.utf8Size
  | .stray _ => 1

def char? : Symbol → Option Char
  | .char c => some c
  | .stray _ => none

def digit? : Symbol → Option Nat
  | .char c => if c.isDigit then some (c.toNat - 48) else none
  | .stray _ => none

def hexDigit? : Symbol → Option Nat
  | .char c =>
    if c.isDigit then some (c.toNat - 48)
    else if 'a' ≤ c ∧ c ≤ 'f' then some (c.toNat - 87)
    else if 'A' ≤ c ∧ c ≤ 'F' then some (c.toNat - 55)
    else none
  | .stray _ => none

def isBlank : Symbol → Bool
  | .char c => c = ' ' || c = '\n' || c = '\t' || c = '\r'
  | .stray _ => false

/-- Whether the symbol is a control character, which no string may hold as it is. -/
def isControl : Symbol → Bool
  | .char c => c.toNat < 32
  | .stray _ => false

end Symbol

def symbolsOfText (text : String) : List Symbol :=
  text.toList.map .char

/-- The symbols of a sequence of bytes from position `pos` on. -/
def symbolsFrom (bytes : ByteArray) (pos : Nat) : List Symbol :=
  if h : pos < bytes.size then
    match bytes.utf8DecodeChar? pos with
    | some c => .char c :: symbolsFrom bytes (pos + c.utf8Size)
    | none => .stray bytes[pos] :: symbolsFrom bytes (pos + 1)
  else []
termination_by bytes.size - pos
decreasing_by
  · have := c.utf8Size_pos
    omega
  · omega

def symbolsOfBytes (bytes : ByteArray) : List Symbol :=
  symbolsFrom bytes 0

end PackedEdges.Json
