/-! The edit distance of two words is the least number of insertions, deletions and replacements
that turn one into the other. It is worked out row by row: a row holds the distances of one
beginning of the first word to all beginnings of the second. -/

namespace PackedEdges.Similarity

/-- The rest of the row below. `left` is the entry before, `diagonal` the one above it, and the
list goes along the second word with the entries above. -/
def rowBelow (c : Char) : Nat → Nat → List (Char × Nat) → List Nat
  | _, _, [] => []
  | left, diagonal, (d, above) :: rest =>
    let entry := min (min (left + 1) (above + 1)) (if c = d then diagonal else diagonal + 1)
    entry :: rowBelow c entry above rest

def nextRow (b : List Char) (row : List Nat) (c : Char) : List Nat :=
  match row with
  | [] => []
  | diagonal :: above => (diagonal + 1) :: rowBelow c (diagonal + 1) diagonal (b.zip above)

def editDistance (a b : List Char) : Nat :=
  (a.foldl (nextRow b) (List.range (b.length + 1))).getLastD 0

def editSimilarity (a b : List Char) : Float :=
  if a.isEmpty && b.isEmpty then 1.0
  else 1.0 - (editDistance a b).toFloat / (max a.length b.length).toFloat

end PackedEdges.Similarity
