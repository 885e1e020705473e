import PackedEdges.Text.LowerCase
import PackedEdges.Text.MarklessTable

/-! Texts inside quotation marks, for messages: what could not be seen is written as an escape. -/

namespace PackedEdges.Text

/-- Whether a character leaves no mark of its own. -/
def isMarkless (c : Char) : Bool :=
  c.toNat < 32 || (127 ≤ c.toNat && inRanges markless c)

def quotedChar (c : Char) : List Char :=
  if c = Char.ofNat 0 then ['\\', '0']
  else if c = '\t' then ['\\', 't']
  else if c = '\r' then ['\\', 'r']
  else if c = '\n' then ['\\', 'n']
  else if c = '\\' || c = '"' then ['\\', c]
  else if isMarkless c then
    ['\\', 'u', Char.ofNat 123] ++ Nat.toDigits 16 c.toNat ++ [Char.ofNat 125]
  else [c]

def quoted (text : String) : String :=
  String.ofList (['"'] ++ text.toList.flatMap quotedChar ++ ['"'])

end PackedEdges.Text
