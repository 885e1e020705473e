/-! The shortest decimal that reads back as a given binary number: the fewest digits that lie in
the interval of reals that round to the number, and of those the decimal nearest to it. -/

namespace PackedEdges.Decimal

/-- A positive decimal `digits * 10 ^ exponent`. -/
structure Scaled where
  digits : Nat
  exponent : Int
deriving DecidableEq

/-- A positive binary number in units of a quarter of its last place: `value * 2 ^ exponent`, with
the ends of the interval of reals that round to it. -/
structure Rounding where
  low : Nat
  value : Nat
  high : Nat
  exponent : Int
  /-- Whether the ends themselves round to the number. -/
  closed : Bool

def Rounding.ofFields (biased fraction : Nat) : Rounding :=
  let mantissa := if biased = 0 then fraction else fraction + 1 <<< 52
  let exponent : Int := if biased = 0 then -1074 else (biased : Int) - 1075
  { low := 4 * mantissa - (if fraction = 0 ∧ 1 < biased then 1 else 2)
    value := 4 * mantissa
    high := 4 * mantissa + 2
    exponent := exponent - 2
    closed := mantissa % 2 = 0 }

def quotient (n : Nat) (two ten : Int) : Nat × Nat :=
  (n <<< two.toNat * Nat.pow 10 (-ten).toNat, 1 <<< (-two).toNat * Nat.pow 10 ten.toNat)

def Rounding.pointPosition (r : Rounding) : Int :=
  let (num, den) := quotient r.value r.exponent 0
  let guess : Int := (Nat.toDigits 10 num).length - (Nat.toDigits 10 den).length
  let (num, den) := quotient r.value r.exponent guess
  if den ≤ num then guess + 1 else guess

/-- Whether `digits * 10 ^ ten` rounds to the number. -/
def Rounding.reaches (r : Rounding) (digits : Nat) (ten : Int) : Bool :=
  let (low, den) := quotient r.low r.exponent ten
  let (high, _) := quotient r.high r.exponent ten
  if r.closed then low ≤ digits * den && digits * den ≤ high
  else low < digits * den && digits * den < high

def Rounding.onGrid? (r : Rounding) (ten : Int) : Option Nat :=
  let (num, den) := quotient r.value r.exponent ten
  let below := num / den
  let nearer := if 2 * (num % den) < den ∨ 2 * (num % den) = den ∧ below % 2 = 0 then below
    else below + 1
  let farther := if nearer = below then below + 1 else below
  if r.reaches nearer ten then some nearer
  else if r.reaches farther ten then some farther
  else none

def Rounding.refine (r : Rounding) (ten : Int) : Nat → Scaled
  | 0 => { digits := r.value, exponent := 0 }
  | tries + 1 =>
    match r.onGrid? ten with
    | some digits => { digits, exponent := ten }
    | none => refine r (ten - 1) tries

/-- The shortest decimal; seventeen digits always suffice. -/
def Rounding.shortest (r : Rounding) : Scaled :=
  r.refine (r.pointPosition - 1) 17

end PackedEdges.Decimal
