import PackedEdges.Text.CaseTable

/-! Lower-casing of whole texts. Every character has its own small form but the capital sigma,
which is written `ς` at the end of a word and `σ` elsewhere. -/

namespace PackedEdges.Text

def inRanges (ranges : List (Nat × Nat)) (c : Char) : Bool :=
  ranges.any fun (first, last) => first ≤ c.toNat && c.toNat ≤ last

def isCased (c : Char) : Bool :=
  inRanges casedRanges c

def isTransparent (c : Char) : Bool :=
  inRanges transparentRanges c

/-- The small form of a character outside the reach of the sigma rule. The dotted capital I is
the only one with two characters. -/
def lowerChar (c : Char) : List Char :=
  if c = 'İ' then ['i', Char.ofNat 0x307]
  else
    let n := c.toNat
    match capitals.find? fun (first, last, step, _) =>
        first ≤ n && n ≤ last && (n - first) % step == 0 with
    | some (_, _, _, shift) => [Char.ofNat (n + shift).toNat]
    | none => [c]

def startsCased (cs : List Char) : Bool :=
  match cs.dropWhile isTransparent with
  | c :: _ => isCased c
  | [] => false

/-- Lower-cases `cs`; `before` holds what came before, last character first. -/
def lowerChars (before : List Char) : List Char → List Char
  | [] => []
  | c :: cs =>
    let small :=
      if c = 'Σ' then
        if startsCased before && !startsCased cs then ['ς'] else ['σ']
      else lowerChar c
    small ++ lowerChars (c :: before) cs

def lowerCase (text : String) : String :=
  String.ofList (lowerChars [] text.toList)

end PackedEdges.Text
