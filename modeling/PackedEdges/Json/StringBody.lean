import PackedEdges.Json.Fault
import PackedEdges.Json.Symbol

/-! The body of a JSON string, from behind the opening quote to the closing one. It can be read or
just skipped: skipping does not mind unpaired surrogates and stray bytes. -/

namespace PackedEdges.Json

namespace StringBody

/-- What the character behind a backslash stands for, `u` apart. -/
def simpleEscape? : Symbol → Option Char
  | .char c =>
    if c = '"' || c = '\\' || c = '/' then some c
    else if c = 'b' then some (Char.ofNat 8)
    else if c = 'f' then some (Char.ofNat 12)
    else if c = 'n' then some '\n'
    else if c = 'r' then some '\r'
    else if c = 't' then some '\t'
    else none
  | .stray _ => none

def codeUnit? (a b c d : Symbol) : Option Nat := do
  let a ← a.hexDigit?
  let b ← b.hexDigit?
  let c ← c.hexDigit?
  let d ← d.hexDigit?
  return ((a * 16 + b) * 16 + c) * 16 + d

/-- The fault of a `\u` with fewer than four symbols behind it: the text counts as ended when
fewer than four bytes are left. -/
def codeUnitFault (rest : List Symbol) : Fault :=
  if (rest.foldl (fun bytes s => bytes + s.size) 0) < 4 then .endInString else .invalidEscape

def isHighSurrogate (unit : Nat) : Bool :=
  0xD800 ≤ unit && unit ≤ 0xDBFF

def isLowSurrogate (unit : Nat) : Bool :=
  0xDC00 ≤ unit && unit ≤ 0xDFFF

def joinSurrogates (high low : Nat) : Char :=
  Char.ofNat (0x10000 + (high - 0xD800) * 0x400 + (low - 0xDC00))

def push (s : Symbol) (result : Except Fault (List Symbol × List Symbol)) :
    Except Fault (List Symbol × List Symbol) :=
  result.map fun (content, rest) => (s :: content, rest)

/-- Reads up to the closing quote. `high` is the first half of a surrogate pair whose second half
is due. Gives the content and what follows the quote. -/
def readSymbols (high : Option Nat) :
    List Symbol → Except Fault (List Symbol × List Symbol)
  | .char '\\' :: .char 'u' :: a :: b :: c :: d :: rest =>
    match codeUnit? a b c d, high with
    | none, _ => .error .invalidEscape
    | some unit, none =>
      if isHighSurrogate unit then readSymbols (some unit) rest
      else if isLowSurrogate unit then .error .loneSurrogate
      else push (.char (Char.ofNat unit)) (readSymbols none rest)
    | some unit, some high =>
      if isLowSurrogate unit then
        push (.char (joinSurrogates high unit)) (readSymbols none rest)
      else .error .loneSurrogate
  | .char '\\' :: .char 'u' :: rest => .error (codeUnitFault rest)
  | [.char '\\'] => .error .endInString
  | [] => .error .endInString
  | .char '\\' :: e :: rest =>
    if high.isSome then .error .unfinishedSurrogatePair
    else
      match simpleEscape? e with
      | some c => push (.char c) (readSymbols none rest)
      | none => .error .invalidEscape
  | s :: rest =>
    if high.isSome then .error .unfinishedSurrogatePair
    else if s = .char '"' then .ok ([], rest)
    else if s.isControl then .error .controlCharacter
    else push s (readSymbols none rest)

def read (s : List Symbol) : Except Fault (String × List Symbol) := do
  let (content, rest) ← readSymbols none s
  match content.mapM Symbol.char? with
  | some cs => return (String.ofList cs, rest)
  | none => .error .invalidCodePoint

def skip : List Symbol → Except Fault (List Symbol)
  | .char '\\' :: .char 'u' :: a :: b :: c :: d :: rest =>
    if (codeUnit? a b c d).isSome then skip rest
    else .error .invalidEscape
  | .char '\\' :: .char 'u' :: rest => .error (codeUnitFault rest)
  | [.char '\\'] => .error .endInString
  | [] => .error .endInString
  | .char '\\' :: e :: rest =>
    if (simpleEscape? e).isSome then skip rest else .error .invalidEscape
  | s :: rest =>
    if s = .char '"' then .ok rest
    else if s.isControl then .error .controlCharacter
    else skip rest

theorem length_lt_of_skip {s rest : List Symbol}
    (h : skip s = .ok rest) : rest.length < s.length := by
  fun_induction skip s generalizing rest with
  | case1 a b c d r hu ih => have := ih h; simp only [List.length_cons]; omega
  | case2 => cases h
  | case3 => cases h
  | case4 => cases h
  | case5 => cases h
  | case6 e r _ _ hu ih => have := ih h; simp only [List.length_cons]; omega
  | case7 => cases h
  | case8 => cases h; simp
  | case9 => cases h
  | case10 s r _ _ _ _ _ _ ih => have := ih h; simp only [List.length_cons]; omega

end StringBody

end PackedEdges.Json
