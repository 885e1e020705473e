import PackedEdges.Similarity.EditDistance
import PackedEdges.Similarity.Jaro
import PackedEdges.Text.LowerCase

/-! Suggestions for a name that was probably misspelled. Every known name gets a score from the
likeness of the letters and from three bonuses; the earliest of the best is suggested, unless none
is like enough. -/

namespace PackedEdges.Suggestion

def threshold : Float := 0.65

/-- The bonus for an alike beginning of up to seven characters. -/
def beginningBonus (input candidate : List Char) : Float :=
  let length := min input.length 7
  if 4 ≤ length then
    let similarity := Similarity.editSimilarity (input.take length) (candidate.take length)
    if similarity > 0.7 then 0.2 * similarity else 0.0
  else 0.0

/-- The bonus for two long names of about the same number of bytes. -/
def lengthBonus (input candidate : String) : Float :=
  let a := input.utf8ByteSize
  let b := candidate.utf8ByteSize
  if 8 ≤ a ∧ 8 ≤ b then
    let ratio := 1.0 - (a.toFloat - b.toFloat).abs / (max a b).toFloat
    if ratio > 0.7 then 0.1 * ratio else 0.0
  else 0.0

def parts : List Char → List (List Char)
  | [] => [[]]
  | c :: cs =>
    match parts cs with
    | [] => [[c]]
    | part :: rest => if c = '_' then [] :: part :: rest else (c :: part) :: rest

/-- Adds the bonus for each part of at least four bytes that the input resembles. -/
def addPartBonuses (input candidate : List Char) (bonus : Float) : Float :=
  if candidate.contains '_' then
    (parts candidate).foldl
      (fun bonus part =>
        if 4 ≤ (String.ofList part).utf8ByteSize then
          let similarity := Similarity.jaroWinkler input part
          if similarity > 0.85 then bonus + 0.12 * similarity else bonus
        else bonus)
      bonus
  else bonus

def scoreLower (input candidate : String) : Float :=
  let a := input.toList
  let b := candidate.toList
  let likeness := Similarity.jaroWinkler a b * 0.7 + Similarity.editSimilarity a b * 0.3
  let bonus := 0.0 + beginningBonus a b + lengthBonus input candidate
  likeness + addPartBonuses a b bonus

def score (input candidate : String) : Float :=
  scoreLower (Text.lowerCase input) (Text.lowerCase candidate)

/-- Takes a candidate when it is like enough and better than the best so far. -/
def better (score : String → Float) (best : Option String × Float) (candidate : String) :
    Option String × Float :=
  let s := score candidate
  if s ≥ threshold ∧ s > best.2 then (some candidate, s) else best

/-- The first candidate with the greatest score, if that reaches the threshold. -/
def best? (score : String → Float) (candidates : List String) : Option String :=
  (candidates.foldl (better score) (none, 0.0)).1

end PackedEdges.Suggestion

namespace PackedEdges

def suggestion? (name : String) (candidates : List String) : Option String :=
  if candidates.contains name then none
  else Suggestion.best? (Suggestion.score name) candidates

end PackedEdges
