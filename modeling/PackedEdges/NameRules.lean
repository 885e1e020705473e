/-! Attribute names are lower-case identifiers with at most one underscore. A list of reserved
words keeps names apart from the keywords of the language that generated expressions are
compiled to. -/

namespace PackedEdges

/-- Names with these beginnings belong to attributes derived from other attributes. -/
def derivedNameStarts : List String :=
  ["in_", "backward_"]

def defaultReservedWords : List String :=
  ["abstract", "as", "async", "await", "become", "box", "break", "const", "continue",
   "crate", "do", "dyn", "else", "enum", "extern", "false", "final", "fn", "for", "if",
   "impl", "in", "let", "loop", "macro", "match", "mod", "move", "mut", "override",
   "priv", "pub", "ref", "return", "self", "static", "struct", "super", "trait", "true",
   "try", "type", "typeof", "unsafe", "unsized", "use", "virtual", "where", "while",
   "yield"]

def isLowerByte (b : UInt8) : Bool :=
  97 ≤ b && b ≤ 122

def isDigitByte (b : UInt8) : Bool :=
  48 ≤ b && b ≤ 57

/-- Scans the bytes after the first one: letters, digits and at most one underscore.
`joined` tells whether the underscore has been seen. -/
def scanNameTail (joined : Bool) : List UInt8 → Bool
  | [] => true
  | b :: rest =>
    if b = 95 then !joined && scanNameTail true rest
    else (isLowerByte b || isDigitByte b) && scanNameTail joined rest

/-- Whether a text has the form of an attribute name: at least two bytes, a letter first, and no
beginning that is kept for derived attributes. -/
def isIdentifier (name : String) : Bool :=
  match name.toUTF8.toList with
  | first :: second :: rest =>
    isLowerByte first &&
      !(derivedNameStarts.any fun start => start.toList.isPrefixOf name.toList) &&
      scanNameTail false (second :: rest)
  | _ => false

structure NameRules where
  reserved : List String := defaultReservedWords
deriving DecidableEq, Inhabited

namespace NameRules

def isReserved (rules : NameRules) (name : String) : Bool :=
  rules.reserved.contains name

def accepts (rules : NameRules) (name : String) : Bool :=
  isIdentifier name && !rules.isReserved name

end NameRules

end PackedEdges
