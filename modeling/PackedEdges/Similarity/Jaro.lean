/-! The Jaro measure counts the characters that two words share at nearby places and how many of
them are out of order; the Winkler variant favours words that begin alike. -/

namespace PackedEdges.Similarity

/-- A character of the second word, with a mark once it has been matched. -/
abbrev Marked := Char × Bool

/-- Marks the first unmarked `c` among the places from `low` to before `high`; `place` is the
place of the first character of the list. `none` if there is no such character. -/
def mark? (c : Char) (low high : Nat) : Nat → List Marked → Option (List Marked)
  | _, [] => none
  | place, (d, taken) :: rest =>
    if high ≤ place then none
    else if low ≤ place ∧ c = d ∧ ¬ taken then some ((d, true) :: rest)
    else (mark? c low high (place + 1) rest).map ((d, taken) :: ·)

/-- Matches the characters of the first word from left to right. Gives those that found a partner
and the marked second word. -/
def matchFrom (range : Nat) : Nat → List Char → List Marked → List Char × List Marked
  | _, [], b => ([], b)
  | place, c :: a, b =>
    match mark? c (place - range) (place + range + 1) 0 b with
    | some b =>
      let (matched, b) := matchFrom range (place + 1) a b
      (c :: matched, b)
    | none => matchFrom range (place + 1) a b

def differences (a b : List Char) : Nat :=
  (a.zip b).countP fun (c, d) => c ≠ d

def jaro (a b : List Char) : Float :=
  if a.isEmpty && b.isEmpty then 1.0
  else if a.isEmpty || b.isEmpty then 0.0
  else
    let range := max a.length b.length / 2 - 1
    let (matchedA, marked) := matchFrom range 0 a (b.map (·, false))
    let matchedB := (marked.filter (·.2)).map (·.1)
    let matching := matchedA.length
    if matching = 0 then 0.0
    else
      let transpositions := differences matchedA matchedB / 2
      (matching.toFloat / a.length.toFloat + matching.toFloat / b.length.toFloat +
        (matching - transpositions).toFloat / matching.toFloat) / 3.0

def commonStart (a b : List Char) : Nat :=
  (((a.take 4).zip b).takeWhile fun (c, d) => c = d).length

def jaroWinkler (a b : List Char) : Float :=
  let similarity := jaro a b
  if similarity > 0.7 then
    similarity + 0.1 * (commonStart a b).toFloat * (1.0 - similarity)
  else similarity

end PackedEdges.Similarity
