import PackedEdges.Json.Numeral
import PackedEdges.Json.StringBody

/-! The tokens of a JSON text. A token that is not well formed carries its fault, because nothing
is wrong with a text until a reader comes to that token. -/

namespace PackedEdges.Json

inductive Token
  | openArray
  | closeArray
  | openObject
  | closeObject
  | comma
  | colon
  | null
  | boolean (value : Bool)
  | number (value : Except Fault Number)
  /-- What the string is when read, and whether it can be skipped. -/
  | string (value : Except Fault String) (skipped : Except Fault Unit)
  /-- Something else: the fault of a value that begins like this. -/
  | broken (fault : Fault)

def dropWord : List Char → List Symbol → Except Fault (List Symbol)
  | [], s => .ok s
  | _ :: _, [] => .error .endInValue
  | c :: word, s :: rest => if s = .char c then dropWord word rest else .error .expectedWord

theorem length_le_of_dropWord {word : List Char} {s rest : List Symbol}
    (h : dropWord word s = .ok rest) : rest.length ≤ s.length := by
  induction word generalizing s with
  | nil => cases h; exact Nat.le_refl _
  | cons c word ih =>
    cases s with
    | nil => cases h
    | cons a s =>
      rw [dropWord] at h
      split at h
      · exact Nat.le_succ_of_le (ih h)
      · cases h

namespace Token

def ofWord (word : List Char) (token : Token) (rest : List Symbol) : Token × List Symbol :=
  match dropWord word rest with
  | .ok rest => (token, rest)
  | .error fault => (.broken fault, [])

def ofString (rest : List Symbol) : Token × List Symbol :=
  let value := (StringBody.read rest).map (·.1)
  match StringBody.skip rest with
  | .ok rest => (.string value (.ok ()), rest)
  | .error fault => (.string value (.error fault), [])

def ofNumeral (s : List Symbol) : Token × List Symbol :=
  match scanNumeral s with
  | .ok (numeral, rest) => (.number numeral.value, rest)
  | .error fault => (.number (.error fault.fault), [])

/-- The token that begins with `first`, and what follows it. Nothing follows a token that no
reader gets past. -/
def ofSymbols (first : Symbol) (rest : List Symbol) : Token × List Symbol :=
  match first with
  | .char '[' => (openArray, rest)
  | .char ']' => (closeArray, rest)
  | .char '\x7b' => (openObject, rest)
  | .char '\x7d' => (closeObject, rest)
  | .char ',' => (comma, rest)
  | .char ':' => (colon, rest)
  | .char '"' => ofString rest
  | .char 'n' => ofWord ['u', 'l', 'l'] null rest
  | .char 't' => ofWord ['r', 'u', 'e'] (boolean true) rest
  | .char 'f' => ofWord ['a', 'l', 's', 'e'] (boolean false) rest
  | _ =>
    if first = .char '-' ∨ first.digit?.isSome then ofNumeral (first :: rest)
    else (broken .expectedValue, rest)

theorem length_ofWord_le (word : List Char) (token : Token) (rest : List Symbol) :
    (ofWord word token rest).2.length ≤ rest.length := by
  simp only [ofWord]
  split
  · next h => exact length_le_of_dropWord h
  · simp

theorem length_ofString_le (rest : List Symbol) :
    (ofString rest).2.length ≤ rest.length := by
  simp only [ofString]
  split
  · next h => exact Nat.le_of_lt (StringBody.length_lt_of_skip h)
  · simp

theorem length_ofNumeral_lt (first : Symbol) (rest : List Symbol) :
    (ofNumeral (first :: rest)).2.length ≤ rest.length := by
  simp only [ofNumeral]
  split
  · next h => exact Nat.le_of_lt_succ (length_lt_of_scanNumeral h)
  · simp

theorem length_ofSymbols_le (first : Symbol) (rest : List Symbol) :
    (ofSymbols first rest).2.length ≤ rest.length := by
  unfold ofSymbols
  split
  all_goals try exact Nat.le_refl _
  · exact length_ofString_le rest
  · exact length_ofWord_le _ _ _
  · exact length_ofWord_le _ _ _
  · exact length_ofWord_le _ _ _
  · split
    · exact length_ofNumeral_lt first rest
    · exact Nat.le_refl _

end Token

def tokens : List Symbol → List Token
  | [] => []
  | s :: rest =>
    if s.isBlank then tokens rest
    else
      let step := Token.ofSymbols s rest
      step.1 :: tokens step.2
termination_by s => s.length
decreasing_by
  · simp
  · have := Token.length_ofSymbols_le s rest
    simp only [List.length_cons]
    omega

end PackedEdges.Json
