import PackedEdges.Json.Fault
import PackedEdges.Json.Symbol

/-! Numerals: an optional minus, digits without a leading zero, then perhaps a fraction and an
exponent. A numeral without fraction and exponent that fits into 64 bits denotes an integer; all
others, and minus zero, denote a floating point number. -/

namespace PackedEdges.Json

structure Numeral where
  negative : Bool
  whole : List Nat
  /-- The digits after the point; none without a point. -/
  fraction : List Nat
  /-- Whether the exponent is negative, and its digits. -/
  exponent : Option (Bool × List Nat)
deriving DecidableEq

inductive Number
  | integer (value : Int)
  | float (value : Float)

/-- Why no numeral could be read: a digit is due, and the text has ended or goes on otherwise. -/
inductive DigitFault
  | ended
  | misplaced
deriving DecidableEq

namespace DigitFault

def fault : DigitFault → Fault
  | ended => .endInValue
  | misplaced => .invalidNumber

end DigitFault

def spanDigits : List Symbol → List Nat × List Symbol
  | [] => ([], [])
  | s :: rest =>
    match s.digit? with
    | some d => (d :: (spanDigits rest).1, (spanDigits rest).2)
    | none => ([], s :: rest)

theorem length_spanDigits_le (s : List Symbol) : (spanDigits s).2.length ≤ s.length := by
  induction s with
  | nil => simp [spanDigits]
  | cons s rest ih =>
    simp only [spanDigits]
    split
    · exact Nat.le_succ_of_le ih
    · simp

def scanDigits (s : List Symbol) : Except DigitFault (List Nat × List Symbol) :=
  match spanDigits s with
  | ([], []) => .error .ended
  | ([], _ :: _) => .error .misplaced
  | (digits, rest) => .ok (digits, rest)

def scanWhole (s : List Symbol) : Except DigitFault (List Nat × List Symbol) :=
  match scanDigits s with
  | .ok (0 :: _ :: _, _) => .error .misplaced
  | result => result

def scanFraction : List Symbol → Except DigitFault (List Nat × List Symbol)
  | .char '.' :: rest => scanDigits rest
  | s => .ok ([], s)

def scanSign : List Symbol → Bool × List Symbol
  | .char '+' :: rest => (false, rest)
  | .char '-' :: rest => (true, rest)
  | s => (false, s)

def scanExponent (s : List Symbol) : Except DigitFault (Option (Bool × List Nat) × List Symbol) :=
  match s with
  | [] => .ok (none, [])
  | mark :: rest =>
    if mark = .char 'e' ∨ mark = .char 'E' then do
      let (negative, rest) := scanSign rest
      let (digits, rest) ← scanDigits rest
      return (some (negative, digits), rest)
    else .ok (none, s)

def scanMinus : List Symbol → Bool × List Symbol
  | .char '-' :: rest => (true, rest)
  | s => (false, s)

def scanNumeral (s : List Symbol) : Except DigitFault (Numeral × List Symbol) := do
  let (negative, s) := scanMinus s
  let (whole, s) ← scanWhole s
  let (fraction, s) ← scanFraction s
  let (exponent, s) ← scanExponent s
  return ({ negative, whole, fraction, exponent }, s)

theorem length_lt_of_scanDigits {s rest : List Symbol} {digits : List Nat}
    (h : scanDigits s = .ok (digits, rest)) : rest.length < s.length := by
  cases s with
  | nil => simp [scanDigits, spanDigits] at h
  | cons c s =>
    cases hd : c.digit? with
    | none => simp [scanDigits, spanDigits, hd] at h
    | some d =>
      simp only [scanDigits, spanDigits, hd, Except.ok.injEq, Prod.mk.injEq] at h
      have := length_spanDigits_le s
      simp only [← h.2, List.length_cons]
      omega

theorem length_lt_of_scanWhole {s rest : List Symbol} {digits : List Nat}
    (h : scanWhole s = .ok (digits, rest)) : rest.length < s.length := by
  unfold scanWhole at h
  split at h
  · cases h
  · exact length_lt_of_scanDigits h

theorem length_le_of_scanFraction {s rest : List Symbol} {digits : List Nat}
    (h : scanFraction s = .ok (digits, rest)) : rest.length ≤ s.length := by
  unfold scanFraction at h
  split at h
  · have := length_lt_of_scanDigits h
    simp only [List.length_cons]
    omega
  · cases h
    exact Nat.le_refl _

theorem length_scanSign_le (s : List Symbol) : (scanSign s).2.length ≤ s.length := by
  unfold scanSign
  split <;> simp

theorem length_scanMinus_le (s : List Symbol) : (scanMinus s).2.length ≤ s.length := by
  unfold scanMinus
  split <;> simp

theorem length_le_of_scanExponent {s rest : List Symbol} {e : Option (Bool × List Nat)}
    (h : scanExponent s = .ok (e, rest)) : rest.length ≤ s.length := by
  unfold scanExponent at h
  split at h
  · cases h
    exact Nat.le_refl _
  · next mark tail =>
    split at h
    · cases hd : scanDigits (scanSign tail).2 with
      | error fault => simp [hd, bind, Except.bind] at h
      | ok result =>
        simp only [hd, bind, Except.bind, pure, Except.pure, Except.ok.injEq,
          Prod.mk.injEq] at h
        have hlt : result.2.length < (scanSign tail).2.length :=
          length_lt_of_scanDigits (hd : _ = Except.ok (result.1, result.2))
        have hle := length_scanSign_le tail
        simp only [← h.2, List.length_cons]
        omega
    · cases h
      exact Nat.le_refl _

theorem length_lt_of_scanNumeral {s rest : List Symbol} {n : Numeral}
    (h : scanNumeral s = .ok (n, rest)) : rest.length < s.length := by
  have hm := length_scanMinus_le s
  unfold scanNumeral at h
  cases hw : scanWhole (scanMinus s).2 with
  | error fault => simp [hw, bind, Except.bind] at h
  | ok whole =>
    have hwl := length_lt_of_scanWhole (hw : _ = Except.ok (whole.1, whole.2))
    cases hf : scanFraction whole.2 with
    | error fault => simp [hw, hf, bind, Except.bind] at h
    | ok fraction =>
      have hfl := length_le_of_scanFraction (hf : _ = Except.ok (fraction.1, fraction.2))
      cases he : scanExponent fraction.2 with
      | error fault => simp [hw, hf, he, bind, Except.bind] at h
      | ok exponent =>
        have hel := length_le_of_scanExponent (he : _ = Except.ok (exponent.1, exponent.2))
        simp only [hw, hf, he, bind, Except.bind, pure, Except.pure, Except.ok.injEq,
          Prod.mk.injEq] at h
        rw [← h.2]
        omega

/-- Appends digits to a significand while it fits into 64 bits. Gives the result and how many
digits went into it. -/
def takeDigits (significand : Nat) : List Nat → Nat × Nat
  | [] => (significand, 0)
  | d :: digits =>
    if significand * 10 + d < UInt64.size then
      let (result, taken) := takeDigits (significand * 10 + d) digits
      (result, taken + 1)
    else (significand, 0)

def powerOfTen (e : Nat) : Float :=
  Float.ofScientific 1 false e

def scaleByTen (x : Float) (e : Int) : Except Fault Float :=
  if e.natAbs ≤ 308 then
    if 0 ≤ e then
      let scaled := x * powerOfTen e.natAbs
      if scaled.isInf then .error .numberOutOfRange else .ok scaled
    else .ok (x / powerOfTen e.natAbs)
  else if x == 0.0 then .ok x
  else if 0 ≤ e then .error .numberOutOfRange
  else scaleByTen (x / powerOfTen 308) (e + 308)
termination_by e.natAbs
decreasing_by omega

namespace Numeral

def spelled (digits : List Nat) : Nat :=
  digits.foldl (fun n d => n * 10 + d) 0

def exponentValue (n : Numeral) : Int :=
  match n.exponent with
  | none => 0
  | some (true, digits) => -(spelled digits : Int)
  | some (false, digits) => spelled digits

/-- The floating point number that a numeral denotes. Digits that do not fit into the significand
count as zeros before the point and are dropped after it. -/
def floatValue (n : Numeral) : Except Fault Float := do
  let (significand, taken) := takeDigits 0 n.whole
  let (significand, after) := takeDigits significand n.fraction
  let exponent := ((n.whole.length - taken : Nat) : Int) - after + n.exponentValue
  let magnitude ← scaleByTen (UInt64.ofNat significand).toFloat exponent
  return if n.negative then -magnitude else magnitude

/-- The integer that a numeral denotes, if it is written as one and fits into 64 bits. -/
def integerValue? (n : Numeral) : Option Int :=
  if n.fraction = [] ∧ n.exponent = none then
    let magnitude := spelled n.whole
    if n.negative then
      if 0 < magnitude ∧ magnitude ≤ UInt64.size / 2 then some (-(magnitude : Int)) else none
    else if magnitude < UInt64.size then some magnitude
    else none
  else none

def value (n : Numeral) : Except Fault Number :=
  match n.integerValue? with
  | some i => .ok (.integer i)
  | none => n.floatValue.map .float

end Numeral

end PackedEdges.Json
