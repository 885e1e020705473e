import PackedEdges.Proofs.IntegerText
import PackedEdges.Proofs.StringText

/-! The spellings of a sequence of tokens: blanks may stand anywhere, a string may escape its
characters in several ways, and a number may have a fraction and an exponent. From all of them the
same tokens are read. -/

namespace PackedEdges.Json

def markToken? : Char → Option Token
  | '[' => some .openArray
  | ']' => some .closeArray
  | '\x7b' => some .openObject
  | '\x7d' => some .closeObject
  | ',' => some .comma
  | ':' => some .colon
  | _ => none

def wordToken? : List Char → Option Token
  | ['n', 'u', 'l', 'l'] => some .null
  | ['t', 'r', 'u', 'e'] => some (.boolean true)
  | ['f', 'a', 'l', 's', 'e'] => some (.boolean false)
  | _ => none

inductive Spelled : List Token → List Char → Prop
  | nil : Spelled [] []
  | blank {c : Char} {ts : List Token} {cs : List Char} (hc : c ∈ [' ', '\n', '\t', '\r'])
      (h : Spelled ts cs) : Spelled ts (c :: cs)
  | mark {c : Char} {token : Token} {ts : List Token} {cs : List Char}
      (hc : markToken? c = some token) (h : Spelled ts cs) : Spelled (token :: ts) (c :: cs)
  | word {word : List Char} {token : Token} {ts : List Token} {cs : List Char}
      (hword : wordToken? word = some token) (h : Spelled ts cs) :
      Spelled (token :: ts) (word ++ cs)
  | string {content body : List Char} {ts : List Token} {cs : List Char}
      (hbody : StringBody.Spells content body) (h : Spelled ts cs) :
      Spelled (.string (.ok (String.ofList content)) (.ok ()) :: ts) ('"' :: (body ++ '"' :: cs))
  /-- A string that need not be readable. -/
  | skippable {body : List Char} {ts : List Token} {cs : List Char}
      (hbody : StringBody.Skips body) (h : Spelled ts cs) :
      Spelled (.string (StringBody.contentOf body) (.ok ()) :: ts) ('"' :: (body ++ '"' :: cs))
  | numeral (n : NumeralText) {ts : List Token} {cs : List Char}
      (hend : EndsNumeral (cs.map .char)) (h : Spelled ts cs) :
      Spelled (.number n.numeral.value :: ts) (n.chars ++ cs)

theorem tokens_mark (c : Char) (token : Token) (rest : List Symbol)
    (hblank : (Symbol.char c).isBlank = false)
    (h : Token.ofSymbols (.char c) rest = (token, rest)) :
    tokens (.char c :: rest) = token :: tokens rest := by
  rw [tokens, hblank]
  simp only [Bool.false_eq_true, if_false, h]

theorem tokens_word (c : Char) (word : List Char) (token : Token) (rest : List Symbol)
    (hblank : (Symbol.char c).isBlank = false)
    (h : ∀ rest, Token.ofSymbols (.char c) rest = Token.ofWord word token rest) :
    tokens ((c :: word).map .char ++ rest) = token :: tokens rest := by
  have hdrop : ∀ word : List Char, dropWord word (word.map .char ++ rest) = .ok rest := by
    intro word
    induction word with
    | nil => rfl
    | cons d word ih => simpa [dropWord] using ih
  rw [List.map_cons, List.cons_append, tokens, hblank]
  simp only [Bool.false_eq_true, if_false, h, Token.ofWord, hdrop]

namespace Spelled

variable {ts : List Token} {cs : List Char}

theorem tokens_eq (h : Spelled ts cs) : tokens (cs.map .char) = ts := by
  induction h with
  | nil => simp [tokens]
  | @blank c ts cs hc _ ih =>
    have hblank : (Symbol.char c).isBlank = true := by simpa [Symbol.isBlank, or_assoc] using hc
    rw [List.map_cons, tokens, if_pos hblank, ih]
  | @mark c token ts cs hc _ ih =>
    rw [List.map_cons, tokens_mark c token, ih]
    all_goals
      unfold markToken? at hc
      split at hc <;> cases hc <;> rfl
  | @word word token ts cs hword _ ih =>
    rw [List.map_append, ← ih]
    unfold wordToken? at hword
    split at hword <;> cases hword
    · exact tokens_word 'n' ['u', 'l', 'l'] .null _ rfl fun _ => rfl
    · exact tokens_word 't' ['r', 'u', 'e'] (.boolean true) _ rfl fun _ => rfl
    · exact tokens_word 'f' ['a', 'l', 's', 'e'] (.boolean false) _ rfl fun _ => rfl
  | string hbody _ ih =>
    rw [List.map_cons, List.map_append, List.map_cons, tokens_spelled hbody, ih]
  | skippable hbody _ ih =>
    rw [List.map_cons, List.map_append, List.map_cons, tokens_skippable hbody, ih]
  | numeral n hend _ ih => rw [List.map_append, n.tokens_chars hend, ih]

theorem tokens_text {text : String} (h : Spelled ts text.toList) :
    tokens (symbolsOfText text) = ts :=
  h.tokens_eq

theorem stringText (s : String) (h : Spelled ts cs) :
    Spelled (.string (.ok s) (.ok ()) :: ts) (Json.stringText s ++ cs) := by
  have hstring := Spelled.string (StringBody.spells_escapedChars s.toList) h
  rw [String.ofList_toList] at hstring
  simpa [Json.stringText] using hstring

theorem integerText {n : Int} (hn : FitsNumeral n) (hend : EndsNumeral (cs.map .char))
    (h : Spelled ts cs) :
    Spelled (.number (.ok (.integer n)) :: ts) (Json.integerText n ++ cs) := by
  have hnumeral := Spelled.numeral (NumeralText.ofInt n) hend h
  rwa [NumeralText.value_ofInt hn, NumeralText.chars_ofInt] at hnumeral

end Spelled

end PackedEdges.Json
