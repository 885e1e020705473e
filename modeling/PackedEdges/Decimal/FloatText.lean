import PackedEdges.Decimal.Shortest

/-! How messages write a floating point number: with a point while its leading digit stands
between the fifth place after the point and the sixteenth before it, else with an exponent whose
sign is always shown. -/

namespace PackedEdges.Decimal

/-- The exponent of the leading digit for which a number is written without an exponent. -/
def positional (leading : Int) : Bool :=
  -5 ≤ leading && leading ≤ 15

def exponentText (e : Int) : List Char :=
  (if e < 0 then '-' else '+') :: Nat.toDigits 10 e.natAbs

def Scaled.text (d : Scaled) : List Char :=
  let all := Nat.toDigits 10 d.digits
  let leading : Int := d.exponent + all.length - 1
  let digits := (all.reverse.dropWhile (· = '0')).reverse
  if positional leading then
    if leading < 0 then
      ['0', '.'] ++ List.replicate (-leading - 1).toNat '0' ++ digits
    else
      let before := leading.toNat + 1
      let whole := digits.take before
      let rest := digits.drop before
      whole ++ List.replicate (before - whole.length) '0' ++ ['.'] ++
        (if rest.isEmpty then ['0'] else rest)
  else
    let rest := digits.drop 1
    digits.take 1 ++ (if rest.isEmpty then [] else '.' :: rest) ++ ['e'] ++ exponentText leading

def floatText (x : Float) : String :=
  let bits := x.toBits.toNat
  let biased := bits >>> 52 % 2048
  let fraction := bits % 1 <<< 52
  let magnitude :=
    if biased = 0 ∧ fraction = 0 then ['0', '.', '0']
    else (Rounding.ofFields biased fraction).shortest.text
  String.ofList (if bits >>> 63 = 1 then '-' :: magnitude else magnitude)

end PackedEdges.Decimal
